import Lisplet.Proofs.Classification
import Lisplet.Proofs.Lexemes
/-!
# Several sources and one

Where a source ends, nothing marks the end, so a program may be split into sources at any newline:
`load_intercalate`. Only the lines that errors name depend on the split. Both the scan and the
reader carry lines along without looking at them, and that is what `mapLine` is about. The scan may
be split at any blanks, and they matter to lines only: `tokenize_spaced`.
-/

namespace Lisplet

/-! ## Other lines -/

def Token.mapLine (f : Nat → Nat) (t : Token) : Token := { t with line := f t.line }

def SourceError.mapLine (f : Nat → Nat) : SourceError → SourceError
  | unexpectedCharacter character line => unexpectedCharacter character (f line)
  | unexpectedToken token => unexpectedToken (token.mapLine f)
  | unexpectedEnd line => unexpectedEnd (f line)
  | invalidNumber text line => invalidNumber text (f line)
  | invalidDefinition line => invalidDefinition (f line)
  | emptyProgram => emptyProgram

/-- All of the error but its line. -/
def SourceError.unlined (e : SourceError) : SourceError := e.mapLine fun _ => 0

namespace Token

open Text TokenKind

variable {f g : Nat → Nat}

@[simp] theorem kind_mapLine (t : Token) : (t.mapLine f).kind = t.kind := rfl

@[simp] theorem text_mapLine (t : Token) : (t.mapLine f).text = t.text := rfl

@[simp] theorem line_mapLine (t : Token) : (t.mapLine f).line = f t.line := rfl

@[simp] theorem isKeyword_mapLine (t : Token) : (t.mapLine f).isKeyword = t.isKeyword := rfl

/-- Changes the lines in the answer of a scan. -/
def mapLines (f : Nat → Nat) : Except SourceError (List Token) → Except SourceError (List Token)
  | .ok tokens => .ok (tokens.map (mapLine f))
  | .error e => .error (e.mapLine f)

theorem mapLines_mapLines (r : Except SourceError (List Token)) :
    mapLines g (mapLines f r) = mapLines (g ∘ f) r := by
  cases r with
  | ok tokens =>
    simp only [mapLines, List.map_map]
    rfl
  | error e => cases e <;> rfl

theorem mapLines_append (r r' : Except SourceError (List Token)) :
    mapLines f (do return (← r) ++ (← r')) = (do return (← mapLines f r) ++ (← mapLines f r')) := by
  cases r with
  | error e => rfl
  | ok tokens =>
    cases r' with
    | error e => rfl
    | ok more => exact congrArg Except.ok List.map_append

/-! ## The scan and lines -/

/-- A text further down is scanned as it is at the top. -/
theorem scan_add (line k : Nat) (text : List Char) :
    scan (line + k) text = mapLines (· + k) (scan line text) := by
  induction text using scan_induction generalizing line with
  | nil =>
    rw [scan_nil, scan_nil]
    rfl
  | refused c text hc =>
    rw [scan_of_none hc, scan_of_none hc]
    rfl
  | blank c text hc ih =>
    rw [scan_blank hc, scan_blank hc, ← ih, Nat.add_right_comm]
  | lexeme c text kind hc hk ih =>
    rw [scan_of_kind hc hk, scan_of_kind hc hk, ih]
    cases scan line (text.dropWhile kind.continues) <;> rfl

/-- Where blanks stand between them, two texts are scanned one by one, and the second is as many
lines further down as there are newlines before it. -/
theorem tokenize_blanks {blanks : String} (hne : blanks ≠ "")
    (hb : ∀ c ∈ blanks.toList, isBlank c = true) (source rest : String) :
    tokenize (source ++ blanks ++ rest) = do
      return (← tokenize source) ++
        (← mapLines (· + (source ++ blanks).toList.count '\n') (tokenize rest)) := by
  have htext : (source ++ blanks ++ rest).toList =
      source.toList ++ (blanks.toList ++ rest.toList) := by simp
  have hline : 1 + source.toList.count '\n' + blanks.toList.count '\n' =
      1 + (source ++ blanks).toList.count '\n' := by
    rw [String.toList_append, List.count_append, Nat.add_assoc]
  have hbreaks : Breaks (blanks.toList ++ rest.toList) := by
    obtain ⟨c, more, hc⟩ := List.exists_cons_of_ne_nil (mt String.toList_eq_nil_iff.1 hne)
    rw [hc] at hb ⊢
    exact breaks_cons (not_continuesSymbol_of_isBlank (hb c List.mem_cons_self)) _
  unfold tokenize
  rw [htext, scan_append hbreaks, scan_blanks hb, hline, scan_add]

/-- Whatever blanks stand between two texts, an error in the first is the error of the whole, and
otherwise the whole has the tokens or the error of the second after the tokens of the first, further
down by the newlines before it. So the blanks matter to lines only. -/
theorem tokenize_spaced (source blanks rest : String) (hne : blanks ≠ "")
    (hb : ∀ c ∈ blanks.toList, isBlank c = true) :
    (∀ e, tokenize source = .error e → tokenize (source ++ blanks ++ rest) = .error e) ∧
    (∀ ts us, tokenize source = .ok ts → tokenize rest = .ok us →
      tokenize (source ++ blanks ++ rest) =
        .ok (ts ++ us.map (mapLine (· + (source ++ blanks).toList.count '\n')))) ∧
    (∀ ts e, tokenize source = .ok ts → tokenize rest = .error e →
      tokenize (source ++ blanks ++ rest) =
        .error (e.mapLine (· + (source ++ blanks).toList.count '\n'))) ∧
    ∀ blanks', blanks' ≠ "" → (∀ c ∈ blanks'.toList, isBlank c = true) →
      mapLines (fun _ => 0) (tokenize (source ++ blanks' ++ rest)) =
        mapLines (fun _ => 0) (tokenize (source ++ blanks ++ rest)) := by
  have hwhole := tokenize_blanks hne hb source rest
  refine ⟨?_, ?_, ?_, ?_⟩
  · intro e he
    rw [hwhole, he]
    rfl
  · intro ts us hts hus
    rw [hwhole, hts, hus]
    rfl
  · intro ts e hts he
    rw [hwhole, hts, he]
    rfl
  · intro blanks' hne' hb'
    rw [hwhole, tokenize_blanks hne' hb', mapLines_append, mapLines_append, mapLines_mapLines,
      mapLines_mapLines]
    rfl

theorem tokenize_spaced_lines :
    tokenize ("x" ++ " \n" ++ "y") = .ok [⟨.symbol, "x", 1⟩, ⟨.symbol, "y", 2⟩] ∧
    tokenize ("x" ++ " \n" ++ "#") = .error (.unexpectedCharacter '#' 2) ∧
    tokenize ("#" ++ " \n" ++ "x") = .error (.unexpectedCharacter '#' 1) ∧
    mapLines (fun _ => 0) (tokenize ("x" ++ "\t" ++ "y")) =
      mapLines (fun _ => 0) (tokenize ("x" ++ " \n" ++ "y")) := by
  have hx : tokenize "x" = .ok [⟨.symbol, "x", 1⟩] := scan_name (by decide +kernel) 1
  have hy : tokenize "y" = .ok [⟨.symbol, "y", 1⟩] := scan_name (by decide +kernel) 1
  have herror : tokenize "#" = .error (.unexpectedCharacter '#' 1) :=
    scan_of_none (by decide +kernel) 1 []
  have hspaced := fun source rest => tokenize_spaced source " \n" rest (by decide)
    (List.all_eq_true.1 (by decide))
  refine ⟨?_, ?_, ?_, ?_⟩
  · exact (hspaced "x" "y").2.1 _ _ hx hy
  · exact (hspaced "x" "#").2.2.1 _ _ hx herror
  · exact (hspaced "#" "x").1 _ herror
  · exact (hspaced "x" "y").2.2.2 "\t" (by decide) (List.all_eq_true.1 (by decide))

/-- Joining sources by newlines gives the same tokens, on other lines. -/
theorem unlined_tokenizeAll (sources : List String) :
    mapLines (fun _ => 0) (tokenizeAll sources) =
      mapLines (fun _ => 0) (tokenize ("\n".intercalate sources)) := by
  induction sources with
  | nil =>
    rw [String.intercalate_nil, tokenizeAll_nil]
    exact congrArg _ (scan_nil 1).symm
  | cons source sources ih =>
    rw [tokenizeAll_cons]
    rcases sources with _ | ⟨second, sources⟩
    · rw [String.intercalate_singleton, tokenizeAll_nil]
      cases tokenize source with
      | error e => rfl
      | ok tokens => exact congrArg (fun ts => mapLines _ (.ok ts)) (List.append_nil tokens)
    · -- The newline between the sources is a blank, so it ends the last lexeme of the first one.
      have hnewline : ∀ c ∈ "\n".toList, isBlank c = true := List.all_eq_true.1 (by decide)
      rw [String.intercalate_cons_cons, tokenize_blanks (by decide) hnewline, mapLines_append,
        mapLines_append, ih, mapLines_mapLines]
      rfl

end Token

/-! ## The reader and lines -/

namespace Reader

open Token

variable (f : Nat → Nat)

def Form.mapLine : Form → Form
  | call opening es => call (opening.mapLine f) es
  | definition opening name parameters es => definition (opening.mapLine f) name parameters es

@[simp] theorem Form.opening_mapLine (form : Form) :
    (form.mapLine f).opening = form.opening.mapLine f := by
  cases form <;> rfl

theorem Form.value?_mapLine (form : Form) : (form.mapLine f).value? = form.value? := by
  rcases form with ⟨_, _ | _⟩ | ⟨_, _, _, _ | ⟨_, _ | _⟩⟩ <;> rfl

theorem Form.extend_mapLine (form : Form) (es : List Expr) :
    (form.mapLine f).extend es = (form.extend es).mapLine f := by
  cases form <;> rfl

namespace Nesting

def mapLine (s : Nesting) : Nesting :=
  ⟨s.top, s.forms.map (Form.mapLine f), s.header.map fun (opening, h) => (opening.mapLine f, h)⟩

theorem openings_mapLine (s : Nesting) :
    (s.mapLine f).openings = s.openings.map (Token.mapLine f) := by
  obtain ⟨top, forms, header⟩ := s
  rcases header with _ | ⟨o, h⟩ <;> simp [mapLine, openings]

theorem add_mapLine (s : Nesting) (e : Expr) : (s.mapLine f).add e = (s.add e).mapLine f := by
  obtain ⟨top, forms, header⟩ := s
  rcases forms with _ | ⟨form, outer⟩
  · rfl
  · simp [mapLine, add, Form.extend_mapLine]

theorem stepHeader_mapLine (s : Nesting) (opening t : Token) (h : Header) :
    (s.mapLine f).stepHeader (opening.mapLine f) h (t.mapLine f) =
      (s.stepHeader opening h t).map (mapLine f) := by
  unfold stepHeader
  rw [kind_mapLine]
  split <;> rfl

theorem stepSymbol_mapLine (s : Nesting) (t : Token) :
    (s.mapLine f).stepSymbol (t.mapLine f) = (s.stepSymbol t).mapLine f := by
  by_cases h : t.isKeyword ∧ ∃ opening outer, s.forms = .call opening [] :: outer
  · obtain ⟨ht, opening, outer, hf⟩ := h
    have hm : (s.mapLine f).forms = .call (opening.mapLine f) [] :: outer.map (Form.mapLine f) := by
      simp [mapLine, hf, Form.mapLine]
    have htm : (t.mapLine f).isKeyword = true := ht
    rw [stepSymbol_of_keyword ht hf, stepSymbol_of_keyword htm hm]
    rfl
  · rw [stepSymbol_eq_add fun ht opening outer hf => h ⟨ht, opening, outer, hf⟩, ← add_mapLine]
    apply stepSymbol_eq_add
    intro ht opening outer hf
    apply h
    obtain ⟨form, forms, hs, hform, -⟩ := List.map_eq_cons_iff.1 hf
    cases form with
    | call o es =>
      cases hform
      exact ⟨ht, o, forms, hs⟩
    | definition => cases hform

theorem stepClose_mapLine (s : Nesting) :
    (s.mapLine f).stepClose = s.stepClose.map (mapLine f) := by
  obtain ⟨top, forms, header⟩ := s
  rcases forms with _ | ⟨form, outer⟩
  · rfl
  · simp only [stepClose, mapLine, List.map_cons, Form.value?_mapLine, Option.map_map]
    congr 1
    funext e
    exact add_mapLine f ⟨top, outer, header⟩ e

/-- One token does the same on any line. -/
theorem step_mapLine (s : Nesting) (t : Token) :
    (s.mapLine f).step (t.mapLine f) = (s.step t).map (mapLine f) := by
  unfold step
  cases hh : s.header with
  | some oh =>
    have hm : (s.mapLine f).header = some (oh.1.mapLine f, oh.2) := by simp [mapLine, hh]
    simp only [hm]
    exact stepHeader_mapLine f s oh.1 t oh.2
  | none =>
    have hm : (s.mapLine f).header = none := by simp [mapLine, hh]
    simp only [hm, kind_mapLine, text_mapLine]
    split
    · simp only [Option.map_map, add_mapLine]
      rfl
    · rw [stepSymbol_mapLine]
      rfl
    · rfl
    · exact stepClose_mapLine f s
    · rfl

theorem run_mapLine (s : Nesting) (ts : List Token) :
    (s.mapLine f).run (ts.map (Token.mapLine f)) = match s.run ts with
      | .ended last => .ended (last.mapLine f)
      | .stopped last t after =>
        .stopped (last.mapLine f) (t.mapLine f) (after.map (Token.mapLine f)) := by
  induction ts generalizing s with
  | nil => rfl
  | cons t ts ih =>
    have hstep := step_mapLine f s t
    cases hs : s.step t with
    | none =>
      rw [hs] at hstep
      rw [List.map_cons, run_cons_of_defect hstep, run_cons_of_defect hs]
    | some next =>
      rw [hs] at hstep
      rw [List.map_cons, run_cons_of_step hstep, run_cons_of_step hs, ih]

theorem closers_mapLine (ts : List Token) : closers (ts.map (Token.mapLine f)) = closers ts := by
  simp only [closers, List.countP_map]
  rfl

theorem defectError?_mapLine (s : Nesting) (t : Token) (after : List Token) :
    (s.mapLine f).defectError? (t.mapLine f) (after.map (Token.mapLine f)) =
      (s.defectError? t after).map (SourceError.mapLine f) := by
  have hl : (s.mapLine f).openings.length = s.openings.length := by
    rw [openings_mapLine, List.length_map]
  unfold defectError?
  rw [hl]
  cases hh : s.header with
  | some oh =>
    have hm : (s.mapLine f).header = some (oh.1.mapLine f, oh.2) := by simp [mapLine, hh]
    simp only [hm, ← List.map_drop, closers_mapLine]
    split <;> rfl
  | none =>
    have hm : (s.mapLine f).header = none := by simp [mapLine, hh]
    simp only [hm, kind_mapLine, closers_mapLine]
    split <;> rfl

theorem openError_mapLine (s : Nesting) (t : Token) :
    (s.mapLine f).openError (t.mapLine f) = (s.openError t).mapLine f := by
  unfold openError
  rw [openings_mapLine, List.getLast?_map]
  cases s.openings.getLast? with
  | some o => rfl
  | none =>
    simp only [Option.map_none, kind_mapLine, apply_ite (SourceError.mapLine f)]
    rfl

end Nesting

/-- Lines matter to the reader only as what its errors name. -/
theorem readAll_mapLine (ts : List Token) :
    readAll (ts.map (Token.mapLine f)) = (readAll ts).mapError (SourceError.mapLine f) := by
  have hrun := Nesting.run_mapLine f Nesting.start ts
  have hstart : Nesting.start.mapLine f = Nesting.start := rfl
  rw [hstart] at hrun
  rw [readAll_eq_verdict, readAll_eq_verdict, hrun]
  cases Nesting.start.run ts with
  | ended s =>
    simp only [Outcome.verdict, Nesting.openings_mapLine, List.getLast?_map]
    cases s.openings.getLast? <;> rfl
  | stopped s t after =>
    simp only [Outcome.verdict, Nesting.defectError?_mapLine, Nesting.openError_mapLine]
    cases s.defectError? t after <;> rfl

/-! ## Programs -/

theorem mapError_load (sources : List String) :
    (load sources).mapError (SourceError.mapLine f) =
      mapLines f (tokenizeAll sources) >>= readProgram := by
  unfold load
  cases tokenizeAll sources with
  | error e => rfl
  | ok tokens =>
    cases tokens with
    | nil => rfl
    | cons t ts => exact (readAll_mapLine f (t :: ts)).symm

/-- Sources and the one source that joins them by newlines are read alike: both as the same
program, or both with errors that differ at most in their lines. -/
theorem load_intercalate (sources : List String) :
    (load sources).mapError SourceError.unlined =
      (load ["\n".intercalate sources]).mapError SourceError.unlined := by
  have hone : "\n".intercalate ["\n".intercalate sources] = "\n".intercalate sources :=
    String.intercalate_singleton
  have hload : ∀ ss, (load ss).mapError SourceError.unlined =
      mapLines (fun _ => 0) (tokenize ("\n".intercalate ss)) >>= readProgram := by
    intro ss
    rw [← unlined_tokenizeAll]
    exact mapError_load _ ss
  rw [hload, hload, hone]

end Reader

end Lisplet
