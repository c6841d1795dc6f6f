import Lisplet.Proofs.Lexemes
/-!
# How a text falls into lexemes

A text is laid out in lexemes with blanks before, between and after them. The scan finds the
layout and loses nothing of the text: `tokenize_layout`. Every text is laid out up to its end or to
a character that it cannot go on with (`exists_laid`), the layout says what the scan answers
(`scan_laid`), and there is no other one (`Layout.unique`).
-/

namespace Lisplet.Token

open Text TokenKind

/-! ## Lexemes -/

/-- What the lexemes of each kind look like. -/
inductive IsLexeme : TokenKind → List Char → Prop
  | openParen : IsLexeme .openParen ['(']
  | closeParen : IsLexeme .closeParen [')']
  | symbol {c : Char} {rest : List Char} (hc : isLetter c = true ∨ c = '_')
      (hr : ∀ d ∈ rest, isLetter d = true ∨ isDecimalDigit d = true ∨ d = '_') :
      IsLexeme .symbol (c :: rest)
  | digits {c : Char} {rest : List Char} (hc : c.isDigit = true)
      (hr : ∀ d ∈ rest, d.isDigit = true) : IsLexeme .number (c :: rest)
  | minus {rest : List Char} (hr : ∀ d ∈ rest, d.isDigit = true) : IsLexeme .number ('-' :: rest)

/-- With the character the lexeme is still a lexeme. -/
def Extends (lexeme : List Char) (c : Char) : Prop := ∃ kind, IsLexeme kind (lexeme ++ [c])

theorem startsSymbol_iff {c : Char} : startsSymbol c = true ↔ isLetter c = true ∨ c = '_' := by
  simp [startsSymbol, or_comm]

theorem continuesSymbol_iff {c : Char} :
    continuesSymbol c = true ↔ isLetter c = true ∨ isDecimalDigit c = true ∨ c = '_' := by
  rw [continuesSymbol, Bool.or_eq_true, startsSymbol_iff, or_assoc, or_comm (a := c = '_')]

/-- The first character tells the kind of a lexeme, and the kind tells which characters follow. -/
theorem isLexeme_cons_iff {kind : TokenKind} {c : Char} {rest : List Char} :
    IsLexeme kind (c :: rest) ↔
      ofFirst? c = some kind ∧ kind ≠ .whitespace ∧ ∀ d ∈ rest, kind.continues d = true := by
  constructor
  · intro h
    cases h with
    | openParen => exact ⟨ofFirst?_paren.1, by decide, by simp⟩
    | closeParen => exact ⟨ofFirst?_paren.2, by decide, by simp⟩
    | symbol hc hr =>
      refine ⟨ofFirst?_of_startsSymbol (startsSymbol_iff.2 hc), by decide, fun d hd => ?_⟩
      exact continuesSymbol_iff.2 (hr d hd)
    | digits hc hr => exact ⟨ofFirst?_of_isDigit hc, by decide, hr⟩
    | minus hr => exact ⟨ofFirst?_minus, by decide, hr⟩
  · rintro ⟨hc, hk, hr⟩
    unfold ofFirst? at hc
    split_ifs at hc with hblank ho hcl hs hn
    · cases hc
      exact absurd rfl hk
    · cases hc
      subst ho
      rcases rest with _ | ⟨d, rest⟩
      · exact .openParen
      · cases hr d List.mem_cons_self
    · cases hc
      subst hcl
      rcases rest with _ | ⟨d, rest⟩
      · exact .closeParen
      · cases hr d List.mem_cons_self
    · cases hc
      exact .symbol (startsSymbol_iff.1 hs) fun d hd => continuesSymbol_iff.1 (hr d hd)
    · cases hc
      rw [Bool.or_eq_true, decide_eq_true_eq] at hn
      rcases hn with rfl | hn
      · exact .minus hr
      · exact .digits hn hr

theorem IsLexeme.exists_cons {kind : TokenKind} {lexeme : List Char} (h : IsLexeme kind lexeme) :
    ∃ c rest, lexeme = c :: rest ∧ ofFirst? c = some kind ∧ kind ≠ .whitespace ∧
      ∀ d ∈ rest, kind.continues d = true := by
  rcases lexeme with _ | ⟨c, rest⟩
  · cases h
  · exact ⟨c, rest, rfl, isLexeme_cons_iff.1 h⟩

theorem extends_iff {kind : TokenKind} {lexeme : List Char} (h : IsLexeme kind lexeme) {c : Char} :
    Extends lexeme c ↔ kind.continues c = true := by
  obtain ⟨a, rest, rfl, ha, hk, hr⟩ := h.exists_cons
  constructor
  · rintro ⟨kind', h'⟩
    obtain ⟨ha', -, hr'⟩ := isLexeme_cons_iff.1 h'
    rw [ha, Option.some.injEq] at ha'
    subst ha'
    exact hr' c (by simp)
  · intro hc
    refine ⟨kind, isLexeme_cons_iff.2 ⟨ha, hk, fun d hd => ?_⟩⟩
    rcases List.mem_append.1 hd with hd | hd
    · exact hr d hd
    · rwa [List.mem_singleton.1 hd]

/-- No lexeme goes on after a blank. -/
theorem not_continues_of_isBlank {kind : TokenKind} (hk : kind ≠ .whitespace) {c : Char}
    (h : isBlank c = true) : kind.continues c = false :=
  not_continues_of_continuesSymbol hk (not_continuesSymbol_of_isBlank h)

/-! ## Layouts -/

/-- A lexeme with the blanks that follow it. -/
structure Word where
  kind : TokenKind
  lexeme : List Char
  blanks : List Char
  isLexeme : IsLexeme kind lexeme
  allBlank : ∀ c ∈ blanks, isBlank c = true

/-- The text of the words in a row. -/
def written (words : List Word) : List Char := words.flatMap fun w => w.lexeme ++ w.blanks

/-- The words may stand in a row before `stop`: where no blank ends a lexeme, the next character
does not go on with it. -/
def Laid (stop : List Char) : List Word → Prop
  | [] => True
  | w :: words =>
    (w.blanks = [] → ∀ c ∈ (written words ++ stop).head?, ¬ Extends w.lexeme c) ∧ Laid stop words

/-- The whole text is these words after an indent of blanks. -/
structure Layout (text indent : List Char) (words : List Word) : Prop where
  text_eq : text = indent ++ written words
  allBlank : ∀ c ∈ indent, isBlank c = true
  laid : Laid [] words

/-- The token of a word. Only symbols and numbers have a text. -/
def Word.token (w : Word) (line : Nat) : Token :=
  ⟨w.kind, if w.kind = .symbol ∨ w.kind = .number then String.ofList w.lexeme else "", line⟩

/-- The tokens of words that stand after the text `before`. -/
def tokens (before : List Char) : List Word → List Token
  | [] => []
  | w :: words =>
    w.token (1 + before.count '\n') :: tokens (before ++ w.lexeme ++ w.blanks) words

theorem written_cons_append (w : Word) (words : List Word) (stop : List Char) :
    written (w :: words) ++ stop = w.lexeme ++ (w.blanks ++ (written words ++ stop)) := by
  simp [written]

/-- The text is empty or starts with a character that starts no lexeme and is no blank. -/
def Refused (text : List Char) : Prop := ∀ c ∈ text.head?, ofFirst? c = none

theorem refused_nil : Refused [] := by
  intro c hc
  cases hc

section Laid

variable {stop : List Char} {w : Word} {words : List Word}

theorem Laid.not_continues (h : Laid stop (w :: words)) :
    ∀ c ∈ (w.blanks ++ (written words ++ stop)).head?, w.kind.continues c = false := by
  intro c hc
  cases hb : w.blanks with
  | nil =>
    rw [hb, List.nil_append] at hc
    have hno := h.1 hb c hc
    rw [extends_iff w.isLexeme] at hno
    simpa using hno
  | cons b bs =>
    have hblank := w.allBlank
    rw [hb] at hc hblank
    cases hc
    obtain ⟨-, -, -, -, hk, -⟩ := w.isLexeme.exists_cons
    exact not_continues_of_isBlank hk (hblank c List.mem_cons_self)

/-- Words start with no blank. -/
theorem not_isBlank_written (words : List Word) (hs : Refused stop) :
    ∀ c ∈ (written words ++ stop).head?, isBlank c = false := by
  intro c hc
  have hfirst : ofFirst? c ≠ some .whitespace := by
    rcases words with _ | ⟨w, words⟩
    · rw [hs c hc]
      simp
    · obtain ⟨a, rest, hlex, ha, hk, -⟩ := w.isLexeme.exists_cons
      rw [written_cons_append, hlex] at hc
      cases hc
      rw [ha]
      simpa using hk
  rw [Ne, ofFirst?_eq_whitespace_iff] at hfirst
  simpa using hfirst

end Laid

/-! ## The scan of a layout -/

/-- A run is cut off where it ends. -/
theorem takeWhile_dropWhile_append {p : Char → Bool} {run rest : List Char}
    (hrun : ∀ c ∈ run, p c = true) (hrest : ∀ c ∈ rest.head?, p c = false) :
    (run ++ rest).takeWhile p = run ∧ (run ++ rest).dropWhile p = rest := by
  rw [List.takeWhile_append_of_pos hrun, List.dropWhile_append_of_pos hrun]
  rcases rest with _ | ⟨c, rest⟩
  · simp
  · have hc := hrest c rfl
    simp [hc]

theorem scan_word {w : Word} {rest : List Char}
    (hrest : ∀ c ∈ rest.head?, w.kind.continues c = false) (line : Nat) :
    scan line (w.lexeme ++ rest) = (w.token line :: ·) <$> scan line rest := by
  have htoken : w.token line = ⟨w.kind, w.kind.keep w.lexeme, line⟩ := by
    obtain ⟨kind, lexeme, blanks, h, -⟩ := w
    cases h <;> rfl
  obtain ⟨c, tail, hlex, hc, hk, htail⟩ := w.isLexeme.exists_cons
  obtain ⟨htake, hdrop⟩ := takeWhile_dropWhile_append htail hrest
  rw [htoken, hlex, List.cons_append, scan_of_kind hc hk, htake, hdrop]

theorem count_newline_of_isLexeme {kind : TokenKind} {lexeme : List Char}
    (h : IsLexeme kind lexeme) : lexeme.count '\n' = 0 := by
  obtain ⟨c, tail, rfl, hc, hk, htail⟩ := h.exists_cons
  rw [count_newline_of_kind hc hk, List.dropWhile_eq_nil_iff.2 htail]
  rfl

/-- The scan reads off the layout: it ends with the tokens of the words or at the character that no
lexeme and no blank starts with. -/
theorem scan_laid {stop : List Char} {words : List Word} (h : Laid stop words)
    (hs : Refused stop) (before : List Char) :
    scan (1 + before.count '\n') (written words ++ stop) =
      match stop with
      | [] => .ok (tokens before words)
      | c :: _ => .error (.unexpectedCharacter c (1 + (before ++ written words).count '\n')) := by
  induction words generalizing before with
  | nil =>
    cases stop with
    | nil => exact scan_nil _
    | cons c rest =>
      rw [written, List.flatMap_nil, List.append_nil]
      exact scan_of_none (hs c rfl) _ _
  | cons w words ih =>
    have hline : 1 + before.count '\n' + w.blanks.count '\n' =
        1 + (before ++ w.lexeme ++ w.blanks).count '\n' := by
      simp only [List.count_append, count_newline_of_isLexeme w.isLexeme]
      omega
    -- Only blanks hold newlines, so to count those in the text before is to count as the scan does.
    rw [written_cons_append, scan_word h.not_continues, scan_blanks w.allBlank, hline, ih h.2]
    cases stop with
    | nil => rfl
    | cons c rest =>
      have htext : before ++ w.lexeme ++ w.blanks ++ written words =
          before ++ written (w :: words) := by
        simp [written]
      rw [htext]
      rfl

/-! ## One layout for each text -/

/-- Two texts are equal only if the runs that they start with are. -/
theorem append_inj_of_run {p : Char → Bool} {run run' rest rest' : List Char}
    (heq : run ++ rest = run' ++ rest') (h : ∀ c ∈ run, p c = true) (h' : ∀ c ∈ run', p c = true)
    (hr : ∀ c ∈ rest.head?, p c = false) (hr' : ∀ c ∈ rest'.head?, p c = false) :
    run = run' ∧ rest = rest' := by
  obtain ⟨htake, hdrop⟩ := takeWhile_dropWhile_append h hr
  obtain ⟨htake', hdrop'⟩ := takeWhile_dropWhile_append h' hr'
  rw [heq] at htake hdrop
  exact ⟨htake.symm.trans htake', hdrop.symm.trans hdrop'⟩

theorem lexeme_inj {kind kind' : TokenKind} {lexeme lexeme' rest rest' : List Char}
    (heq : lexeme ++ rest = lexeme' ++ rest') (h : IsLexeme kind lexeme)
    (h' : IsLexeme kind' lexeme') (hr : ∀ c ∈ rest.head?, kind.continues c = false)
    (hr' : ∀ c ∈ rest'.head?, kind'.continues c = false) :
    kind = kind' ∧ lexeme = lexeme' ∧ rest = rest' := by
  obtain ⟨c, tail, rfl, hc, -, htail⟩ := h.exists_cons
  obtain ⟨c', tail', rfl, hc', -, htail'⟩ := h'.exists_cons
  rw [List.cons_append, List.cons_append, List.cons.injEq] at heq
  obtain ⟨rfl, heq⟩ := heq
  rw [hc, Option.some.injEq] at hc'
  subst hc'
  obtain ⟨rfl, rfl⟩ := append_inj_of_run heq htail htail' hr hr'
  exact ⟨rfl, rfl, rfl⟩

theorem stop_ne_written {stop stop' : List Char} (hs : Refused stop) (w : Word)
    (words : List Word) : written [] ++ stop ≠ written (w :: words) ++ stop' := by
  obtain ⟨c, tail, hlex, hc, -, -⟩ := w.isLexeme.exists_cons
  intro heq
  rw [written_cons_append, hlex] at heq
  have hnone := hs c (by rw [show stop = _ from heq]; rfl)
  rw [hc] at hnone
  cases hnone

/-- Every text can be laid out up to a character that is refused. -/
theorem exists_laid (text : List Char) :
    ∃ indent words stop, text = indent ++ (written words ++ stop) ∧
      (∀ c ∈ indent, isBlank c = true) ∧ Laid stop words ∧ Refused stop := by
  induction text using scan_induction with
  | nil => exact ⟨[], [], [], rfl, by simp, trivial, refused_nil⟩
  | refused c rest hc =>
    refine ⟨[], [], c :: rest, rfl, by simp, trivial, fun d hd => ?_⟩
    cases hd
    exact hc
  | blank c rest hc ih =>
    obtain ⟨indent, words, stop, rfl, hindent, hl, hs⟩ := ih
    exact ⟨c :: indent, words, stop, rfl, by simpa [hc] using hindent, hl, hs⟩
  | lexeme c rest kind hc hk ih =>
    -- The blanks that the rest starts with become those of the lexeme.
    obtain ⟨indent, words, stop, hrest, hindent, hl, hs⟩ := ih
    have hlex : IsLexeme kind (c :: rest.takeWhile kind.continues) :=
      isLexeme_cons_iff.2 ⟨hc, hk, fun d hd => List.mem_takeWhile_imp hd⟩
    refine ⟨[], ⟨kind, c :: rest.takeWhile kind.continues, indent, hlex, hindent⟩ :: words, stop,
      ?_, by simp, ⟨?_, hl⟩, hs⟩
    · rw [written_cons_append, ← hrest]
      simp
    · rintro hnil d hd
      have hnil : indent = [] := hnil
      have hstop := List.head?_dropWhile_not kind.continues rest
      rw [hrest, hnil, List.nil_append, hd] at hstop
      rw [extends_iff hlex]
      simp [hstop]

/-- The words are found again in their text. -/
theorem written_inj {stop stop' : List Char} {words words' : List Word}
    (heq : written words ++ stop = written words' ++ stop') (hl : Laid stop words)
    (hl' : Laid stop' words') (hs : Refused stop) (hs' : Refused stop') :
    words = words' ∧ stop = stop' := by
  induction words generalizing words' with
  | nil =>
    cases words' with
    | nil => exact ⟨rfl, heq⟩
    | cons w' words' => exact absurd heq (stop_ne_written hs w' words')
  | cons w words ih =>
    cases words' with
    | nil => exact absurd heq.symm (stop_ne_written hs' w words)
    | cons w' words' =>
      rw [written_cons_append, written_cons_append] at heq
      obtain ⟨hkind, hlexeme, hrest⟩ :=
        lexeme_inj heq w.isLexeme w'.isLexeme hl.not_continues hl'.not_continues
      obtain ⟨hblanks, hrest⟩ := append_inj_of_run hrest w.allBlank w'.allBlank
        (not_isBlank_written words hs) (not_isBlank_written words' hs')
      obtain ⟨rfl, rfl⟩ := ih hrest hl.2 hl'.2
      obtain ⟨kind, lexeme, blanks, hlex, hblank⟩ := w
      cases hkind
      cases hlexeme
      cases hblanks
      exact ⟨rfl, rfl⟩

/-- A text is laid out in one way only. -/
theorem Layout.unique {text indent indent' : List Char} {words words' : List Word}
    (h : Layout text indent words) (h' : Layout text indent' words') :
    indent = indent' ∧ words = words' := by
  obtain ⟨rfl, hi, hl⟩ := h
  obtain ⟨heq, hi', hl'⟩ := h'
  have hfirst := not_isBlank_written words refused_nil
  have hfirst' := not_isBlank_written words' refused_nil
  rw [List.append_nil] at hfirst hfirst'
  obtain ⟨hindent, hwords⟩ := append_inj_of_run heq hi hi' hfirst hfirst'
  have hwords : written words ++ [] = written words' ++ [] := by simpa using hwords
  exact ⟨hindent, (written_inj hwords hl hl' refused_nil refused_nil).1⟩

/-! ## The answers of the scan -/

/-- What follows the words matters to the last of them only. -/
theorem laid_iff {stop : List Char} {words : List Word} :
    Laid stop words ↔ Laid [] words ∧
      ∀ w ∈ words.getLast?, w.blanks = [] → ∀ c ∈ stop.head?, ¬ Extends w.lexeme c := by
  induction words with
  | nil => simp [Laid]
  | cons w words ih =>
    cases words with
    | nil => simp [Laid, written]
    | cons v words =>
      have hhead : (written (v :: words) ++ stop).head? = (written (v :: words) ++ []).head? := by
        obtain ⟨c, tail, hlex, -⟩ := v.isLexeme.exists_cons
        rw [written_cons_append, written_cons_append, hlex]
        rfl
      rw [Laid, ih, hhead, List.getLast?_cons_cons, ← and_assoc, ← Laid]

/-- The text ends in a symbol. -/
def EndsInSymbol (text : List Char) : Prop :=
  ∃ indent words w, Layout text indent words ∧ words.getLast? = some w ∧
    w.kind = .symbol ∧ w.blanks = []

/-- No lexeme starts with the character, and it is no blank. -/
def StartsNothing (c : Char) : Prop :=
  isBlank c = false ∧ c ≠ '(' ∧ c ≠ ')' ∧ isLetter c = false ∧ c ≠ '_' ∧ c.isDigit = false ∧ c ≠ '-'

theorem ofFirst?_eq_none_iff {c : Char} : ofFirst? c = none ↔ StartsNothing c := by
  unfold ofFirst? StartsNothing startsSymbol
  split_ifs <;> grind

/-- Such a character may still go on with a symbol, as a digit of another script does. -/
theorem extends_iff_of_startsNothing {c : Char} (hc : StartsNothing c) {kind : TokenKind}
    {lexeme : List Char} (h : IsLexeme kind lexeme) :
    Extends lexeme c ↔ kind = .symbol ∧ isDecimalDigit c = true := by
  obtain ⟨-, -, -, hletter, hunderscore, hdigit, -⟩ := hc
  rw [extends_iff h]
  cases h <;> simp [continues, continuesSymbol, startsSymbol, *]

/-- Such a character ends the text unless it is a digit after a symbol. -/
theorem Layout.laid_cons_iff {text indent rest : List Char} {words : List Word} {c : Char}
    (h : Layout text indent words) (hc : StartsNothing c) :
    Laid (c :: rest) words ↔ ¬ (isDecimalDigit c = true ∧ EndsInSymbol text) := by
  have hext (w : Word) : Extends w.lexeme c ↔ w.kind = .symbol ∧ isDecimalDigit c = true :=
    extends_iff_of_startsNothing hc w.isLexeme
  rw [laid_iff]
  constructor
  · rintro ⟨-, hlast⟩ ⟨hdigit, indent', words', w, h', hw, hsymbol, hblanks⟩
    -- The symbol may come from another layout, but there is none.
    obtain ⟨-, rfl⟩ := h.unique h'
    exact hlast w hw hblanks c rfl ((hext w).2 ⟨hsymbol, hdigit⟩)
  · refine fun hno => ⟨h.laid, ?_⟩
    rintro w hw hblanks d ⟨⟩ hextends
    obtain ⟨hsymbol, hdigit⟩ := (hext w).1 hextends
    exact hno ⟨hdigit, indent, words, w, h, hw, hsymbol, hblanks⟩

theorem layout_of_laid {indent stop : List Char} {words : List Word}
    (hi : ∀ c ∈ indent, isBlank c = true) (hl : Laid stop words) :
    Layout (indent ++ written words) indent words :=
  ⟨rfl, hi, (laid_iff.1 hl).1⟩

theorem scan_indent_laid {indent stop : List Char} {words : List Word}
    (hi : ∀ c ∈ indent, isBlank c = true) (hl : Laid stop words) (hs : Refused stop) :
    scan 1 (indent ++ (written words ++ stop)) =
      match stop with
      | [] => .ok (tokens indent words)
      | c :: _ => .error (.unexpectedCharacter c (1 + (indent ++ written words).count '\n')) := by
  rw [scan_blanks hi]
  exact scan_laid hl hs indent

theorem scan_eq_ok_iff {text : List Char} {ts : List Token} :
    scan 1 text = .ok ts ↔ ∃ indent words, Layout text indent words ∧ ts = tokens indent words := by
  constructor
  · intro h
    obtain ⟨indent, words, stop, rfl, hi, hl, hs⟩ := exists_laid text
    rw [scan_indent_laid hi hl hs] at h
    cases stop with
    | nil =>
      cases h
      exact ⟨indent, words, by simpa using layout_of_laid hi hl, rfl⟩
    | cons c rest => cases h
  · rintro ⟨indent, words, ⟨rfl, hi, hl⟩, rfl⟩
    simpa using scan_indent_laid hi hl refused_nil

theorem scan_eq_error_iff {text : List Char} {e : SourceError} :
    scan 1 text = .error e ↔
      ∃ p c rest, text = p ++ c :: rest ∧ e = .unexpectedCharacter c (1 + p.count '\n') ∧
        (∃ ts, scan 1 p = .ok ts) ∧ StartsNothing c ∧
        ¬ (isDecimalDigit c = true ∧ EndsInSymbol p) := by
  constructor
  · intro h
    obtain ⟨indent, words, stop, rfl, hi, hl, hs⟩ := exists_laid text
    rw [scan_indent_laid hi hl hs] at h
    cases stop with
    | nil => cases h
    | cons c rest =>
      cases h
      have hlayout := layout_of_laid hi hl
      have hc : StartsNothing c := ofFirst?_eq_none_iff.1 (hs c rfl)
      exact ⟨indent ++ written words, c, rest, by simp, rfl,
        ⟨_, scan_eq_ok_iff.2 ⟨_, _, hlayout, rfl⟩⟩, hc, (hlayout.laid_cons_iff hc).1 hl⟩
  · rintro ⟨p, c, rest, rfl, rfl, ⟨ts, hp⟩, hc, hno⟩
    obtain ⟨indent, words, hlayout, rfl⟩ := scan_eq_ok_iff.1 hp
    have hl : Laid (c :: rest) words := (hlayout.laid_cons_iff hc).2 hno
    have hs : Refused (c :: rest) := by
      rintro d ⟨⟩
      exact ofFirst?_eq_none_iff.2 hc
    obtain ⟨rfl, hi, -⟩ := hlayout
    rw [List.append_assoc, scan_indent_laid hi hl hs]

/-- The scan of a text finds its only layout, or the first character that no lexeme and no blank
starts with and that does not go on with the symbol before it. -/
theorem tokenize_layout (source : String) :
    (∀ ts, tokenize source = .ok ts ↔
      ∃ indent words, Layout source.toList indent words ∧ ts = tokens indent words) ∧
    (∀ indent indent' words words', Layout source.toList indent words →
      Layout source.toList indent' words' → indent = indent' ∧ words = words') ∧
    (∀ c line, tokenize source = .error (.unexpectedCharacter c line) ↔
      ∃ p rest, source.toList = p ++ c :: rest ∧ (∃ ts, tokenize (String.ofList p) = .ok ts) ∧
        StartsNothing c ∧ ¬ (isDecimalDigit c = true ∧ EndsInSymbol p) ∧
        line = 1 + p.count '\n') ∧
    ∀ e, tokenize source = .error e → ∃ c line, e = .unexpectedCharacter c line := by
  refine ⟨fun ts => scan_eq_ok_iff, fun _ _ _ _ h h' => h.unique h', fun c line => ?_,
    fun e he => ?_⟩
  · unfold tokenize
    rw [scan_eq_error_iff]
    simp only [String.toList_ofList]
    constructor
    · rintro ⟨p, d, rest, htext, he, hp, hc, hno⟩
      cases he
      exact ⟨p, rest, htext, hp, hc, hno, rfl⟩
    · rintro ⟨p, rest, htext, hp, hc, hno, rfl⟩
      exact ⟨p, c, rest, htext, rfl, hp, hc, hno⟩
  · obtain ⟨p, c, rest, -, rfl, -⟩ := scan_eq_error_iff.1 he
    exact ⟨c, _, rfl⟩

/-- A digit of another script goes on with a symbol and not with a number. -/
theorem tokenize_layout_digits :
    tokenize "a٣-\n12b" = .ok [⟨.symbol, "a٣", 1⟩, ⟨.number, "-", 1⟩, ⟨.number, "12", 2⟩,
      ⟨.symbol, "b", 2⟩] ∧
    tokenize "\n12٣" = .error (.unexpectedCharacter '٣' 2) := by
  have hdigit : isDecimalDigit '٣' = true := by decide
  have hthree : StartsNothing '٣' :=
    ⟨by decide, by decide, by decide, by decide +kernel, by decide, by decide, by decide⟩
  have ha : IsLexeme .symbol ['a', '٣'] := .symbol (.inl (by decide)) (by simp [hdigit])
  have hb : IsLexeme .symbol ['b'] := .symbol (.inl (by decide)) (by simp)
  have hminus : IsLexeme .number ['-'] := .minus (by simp)
  have htwelve : IsLexeme .number ['1', '2'] := .digits (by decide) (by simp)
  have hcut : continuesSymbol '-' = false := by decide +kernel
  have hnewline : isBlank '\n' = true := by decide
  have hmany : Layout "a٣-\n12b".toList [] [⟨_, _, [], ha, by simp⟩,
      ⟨_, _, ['\n'], hminus, by simp [hnewline]⟩, ⟨_, _, [], htwelve, by simp⟩,
      ⟨_, _, [], hb, by simp⟩] := by
    refine ⟨rfl, by simp, ?_, nofun, ?_, nofun, trivial⟩
    · rintro - c ⟨⟩
      simp [extends_iff ha, continues, hcut]
    · rintro - c ⟨⟩
      simp [extends_iff htwelve, continues]
  have hone : Layout "\n12".toList ['\n'] [⟨_, _, [], htwelve, by simp⟩] :=
    ⟨rfl, by simp [hnewline], nofun, trivial⟩
  refine ⟨((tokenize_layout _).1 _).2 ⟨_, _, hmany, rfl⟩,
    ((tokenize_layout _).2.2.1 _ _).2 ⟨['\n', '1', '2'], [], rfl,
      ⟨_, ((tokenize_layout _).1 _).2 ⟨_, _, hone, rfl⟩⟩, hthree, ?_, rfl⟩⟩
  rintro ⟨-, indent, words, w, hlayout, hw, hkind, -⟩
  obtain ⟨-, rfl⟩ := (tokenize_layout "\n12").2.1 _ _ _ _ hlayout hone
  cases hw
  cases hkind

end Lisplet.Token
