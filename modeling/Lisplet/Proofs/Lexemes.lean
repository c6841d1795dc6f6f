import Mathlib.Data.List.TakeWhile
import Lisplet.Number
import Lisplet.Token.Lexer
/-!
# Lexemes one after another

A text may be scanned in two parts wherever the second part does not go on with the last lexeme of
the first (`scan_append`). So the lemmas about one lexeme say how a text of many is scanned.
-/

namespace Lisplet

open Text

/-! ## Classes of characters -/

theorem covers_of_isDigit {c : Char} (h : c.isDigit = true) :
    Ranges.covers [(0x30, 0x39)] c = true := by
  rw [Ranges.covers_iff]
  exact ⟨_, List.mem_singleton_self _, Char.isDigit_iff_toNat.1 h⟩

namespace TokenKind

theorem not_isBlank_of_startsSymbol {c : Char} (h : startsSymbol c = true) : isBlank c = false := by
  have hd : letterRanges.disjoint blankRanges = true := by decide +kernel
  simp only [startsSymbol, Bool.or_eq_true, decide_eq_true_eq] at h
  rcases h with rfl | h
  · decide
  · exact Ranges.not_covers_of_disjoint hd h

theorem not_startsSymbol_paren : startsSymbol '(' = false ∧ startsSymbol ')' = false := by
  decide +kernel

theorem not_startsSymbol_of_isDigit {c : Char} (h : c.isDigit = true) : startsSymbol c = false := by
  have hd : Ranges.disjoint [(0x30, 0x39)] letterRanges = true := by decide +kernel
  have hl : isLetter c = false := Ranges.not_covers_of_disjoint hd (covers_of_isDigit h)
  have hc : c ≠ '_' := by rintro rfl; revert h; decide
  simp [startsSymbol, hl, hc]

/-- A character that cannot go on with a symbol cannot go on with a number either. -/
theorem not_isDigit_of_continuesSymbol {c : Char} (h : continuesSymbol c = false) :
    c.isDigit = false := by
  rw [Bool.eq_false_iff]
  intro hd
  obtain ⟨r, hr, hc⟩ := (Ranges.covers_iff _ c).1 (covers_of_isDigit hd)
  have hm : isDecimalDigit c = true :=
    (Ranges.covers_iff _ c).2 ⟨r, List.mem_singleton.1 hr ▸ List.mem_cons_self, hc⟩
  simp [continuesSymbol, hm] at h

theorem not_continuesSymbol_of_isBlank {c : Char} (h : isBlank c = true) :
    continuesSymbol c = false := by
  have hd : blankRanges.disjoint digitRanges = true := by decide
  have hdigit : isDecimalDigit c = false := Ranges.not_covers_of_disjoint hd h
  have hs : startsSymbol c = false := by
    by_contra hs
    rw [not_isBlank_of_startsSymbol (by simpa using hs)] at h
    cases h
  simp [continuesSymbol, hs, hdigit]

theorem not_continues_of_continuesSymbol {kind : TokenKind} (hk : kind ≠ .whitespace) {c : Char}
    (h : continuesSymbol c = false) : kind.continues c = false := by
  cases kind with
  | openParen | closeParen => rfl
  | symbol => exact h
  | number => exact not_isDigit_of_continuesSymbol h
  | whitespace => contradiction

/-! ## The first character of a lexeme -/

theorem ofFirst?_eq_whitespace_iff {c : Char} :
    ofFirst? c = some .whitespace ↔ isBlank c = true := by
  unfold ofFirst?
  split_ifs <;> simp_all

theorem ofFirst?_of_startsSymbol {c : Char} (h : startsSymbol c = true) :
    ofFirst? c = some .symbol := by
  have ho : c ≠ '(' := by rintro rfl; rw [not_startsSymbol_paren.1] at h; cases h
  have hc : c ≠ ')' := by rintro rfl; rw [not_startsSymbol_paren.2] at h; cases h
  simp [ofFirst?, not_isBlank_of_startsSymbol h, ho, hc, h]

theorem startsSymbol_of_ofFirst? {c : Char} (h : ofFirst? c = some .symbol) :
    startsSymbol c = true := by
  unfold ofFirst? at h
  split_ifs at h <;> simp_all

theorem ofFirst?_of_isDigit {c : Char} (h : c.isDigit = true) : ofFirst? c = some .number := by
  have hd : Ranges.disjoint [(0x30, 0x39)] blankRanges = true := by decide
  have hb : isBlank c = false := Ranges.not_covers_of_disjoint hd (covers_of_isDigit h)
  have ho : c ≠ '(' := by rintro rfl; cases h
  have hc : c ≠ ')' := by rintro rfl; cases h
  simp [ofFirst?, hb, ho, hc, not_startsSymbol_of_isDigit h, h]

theorem ofFirst?_minus : ofFirst? '-' = some .number := by decide +kernel

theorem ofFirst?_paren : ofFirst? '(' = some .openParen ∧ ofFirst? ')' = some .closeParen := by
  decide

end TokenKind

namespace Token

open TokenKind

/-! ## One step of the scan -/

theorem scan_nil (line : Nat) : scan line [] = .ok [] := by
  rw [scan]

theorem scan_of_none {c : Char} (h : ofFirst? c = none) (line : Nat) (rest : List Char) :
    scan line (c :: rest) = .error (.unexpectedCharacter c line) := by
  rw [scan, h]

theorem scan_of_kind {c : Char} {kind : TokenKind} (h : ofFirst? c = some kind)
    (hk : kind ≠ .whitespace) (line : Nat) (rest : List Char) :
    scan line (c :: rest) =
      (⟨kind, kind.keep (c :: rest.takeWhile kind.continues), line⟩ :: ·) <$>
        scan line (rest.dropWhile kind.continues) := by
  rw [scan, h]
  simp only [if_neg hk]
  rfl

theorem scan_of_kind_eq_ok {c : Char} {kind : TokenKind} (h : ofFirst? c = some kind)
    (hk : kind ≠ .whitespace) {line : Nat} {rest : List Char} {tokens : List Token}
    (hs : scan line (c :: rest) = .ok tokens) :
    ∃ more, scan line (rest.dropWhile kind.continues) = .ok more ∧
      tokens = ⟨kind, kind.keep (c :: rest.takeWhile kind.continues), line⟩ :: more := by
  rw [scan_of_kind h hk] at hs
  cases hmore : scan line (rest.dropWhile kind.continues) with
  | error e =>
    rw [hmore] at hs
    cases hs
  | ok more =>
    rw [hmore] at hs
    cases hs
    exact ⟨more, rfl, rfl⟩

/-- A run of blanks may be scanned one by one. -/
theorem scan_blank {c : Char} (h : isBlank c = true) (line : Nat) (rest : List Char) :
    scan line (c :: rest) = scan (line + [c].count '\n') rest := by
  have hrun : ∀ (line : Nat) {c : Char} (rest : List Char), isBlank c = true →
      scan line (c :: rest) =
        scan (line + (c :: rest.takeWhile isBlank).count '\n') (rest.dropWhile isBlank) := by
    intro line c rest h
    rw [scan, ofFirst?_eq_whitespace_iff.2 h]
    rfl
  rw [hrun line rest h]
  rcases rest with _ | ⟨d, rest⟩
  · rfl
  by_cases hd : isBlank d = true
  · rw [hrun _ rest hd, List.takeWhile_cons_of_pos hd, List.dropWhile_cons_of_pos hd]
    congr 1
    simp only [List.count_cons, List.count_nil]
    omega
  · rw [List.takeWhile_cons_of_neg hd, List.dropWhile_cons_of_neg hd]

theorem scan_blanks {blanks : List Char} (h : ∀ c ∈ blanks, isBlank c = true) (line : Nat)
    (rest : List Char) : scan line (blanks ++ rest) = scan (line + blanks.count '\n') rest := by
  induction blanks generalizing line with
  | nil => rfl
  | cons c blanks ih =>
    rw [List.cons_append, scan_blank (h c List.mem_cons_self),
      ih fun d hd => h d (List.mem_cons_of_mem _ hd), Nat.add_assoc, ← List.count_append]
    rfl

/-- To prove something of every text, follow the scan: a text starts with a character that is
refused, with a blank or with a lexeme. -/
@[elab_as_elim]
theorem scan_induction {motive : List Char → Prop} (text : List Char) (nil : motive [])
    (refused : ∀ c rest, ofFirst? c = none → motive (c :: rest))
    (blank : ∀ c rest, isBlank c = true → motive rest → motive (c :: rest))
    (lexeme : ∀ c rest kind, ofFirst? c = some kind → kind ≠ .whitespace →
      motive (rest.dropWhile kind.continues) → motive (c :: rest)) : motive text := by
  induction h : text.length using Nat.strongRecOn generalizing text with
  | _ n ih =>
    subst h
    rcases text with _ | ⟨c, rest⟩
    · exact nil
    cases hf : ofFirst? c with
    | none => exact refused c rest hf
    | some kind =>
      by_cases hk : kind = .whitespace
      · have hc : isBlank c = true := ofFirst?_eq_whitespace_iff.1 (hk ▸ hf)
        exact blank c rest hc (ih rest.length (Nat.lt_succ_self _) rest rfl)
      · exact lexeme c rest kind hf hk (ih _ (length_dropWhile_lt _) _ rfl)

/-! ## A text in two parts -/

/-- The text is empty or starts with a character that goes on with no symbol and no number. -/
def Breaks (text : List Char) : Prop := ∀ c ∈ text.head?, continuesSymbol c = false

theorem breaks_nil : Breaks [] := by
  intro c hc
  cases hc

theorem breaks_cons {c : Char} (h : continuesSymbol c = false) (rest : List Char) :
    Breaks (c :: rest) := by
  intro d hd
  cases hd
  exact h

section Lexeme

variable {kind : TokenKind} {rest : List Char}

theorem takeWhile_append_of_breaks (hk : kind ≠ .whitespace) (hb : Breaks rest)
    (text : List Char) :
    (text ++ rest).takeWhile kind.continues = text.takeWhile kind.continues := by
  induction text with
  | nil =>
    rcases rest with _ | ⟨c, rest⟩
    · rfl
    · have hc : kind.continues c = false := not_continues_of_continuesSymbol hk (hb c rfl)
      simp [hc]
  | cons c text ih =>
    rw [List.cons_append, List.takeWhile_cons, List.takeWhile_cons, ih]

theorem dropWhile_append_of_breaks (hk : kind ≠ .whitespace) (hb : Breaks rest)
    (text : List Char) :
    (text ++ rest).dropWhile kind.continues = text.dropWhile kind.continues ++ rest := by
  have h : (text ++ rest).takeWhile kind.continues ++ (text ++ rest).dropWhile kind.continues =
      text.takeWhile kind.continues ++ (text.dropWhile kind.continues ++ rest) := by
    rw [← List.append_assoc, List.takeWhile_append_dropWhile, List.takeWhile_append_dropWhile]
  rw [takeWhile_append_of_breaks hk hb] at h
  exact List.append_cancel_left h

/-- Only blanks hold newlines. -/
theorem count_newline_of_kind {c : Char} (h : ofFirst? c = some kind) (hk : kind ≠ .whitespace)
    (text : List Char) :
    (c :: text).count '\n' = (text.dropWhile kind.continues).count '\n' := by
  have hc : c ≠ '\n' := by
    rintro rfl
    rw [ofFirst?_eq_whitespace_iff.2 (by decide)] at h
    exact hk (Option.some.inj h).symm
  have hn : kind.continues '\n' = false :=
    not_continues_of_continuesSymbol hk (by decide +kernel)
  have hl : (text.takeWhile kind.continues).count '\n' = 0 := by
    rw [List.count_eq_zero]
    intro hm
    have := List.mem_takeWhile_imp hm
    rw [hn] at this
    cases this
  calc (c :: text).count '\n'
    _ = text.count '\n' := List.count_cons_of_ne hc
    _ = (text.takeWhile kind.continues ++ text.dropWhile kind.continues).count '\n' := by
      rw [List.takeWhile_append_dropWhile]
    _ = (text.dropWhile kind.continues).count '\n' := by rw [List.count_append, hl, Nat.zero_add]

end Lexeme

/-- The second part goes on with the lines of the first. -/
theorem scan_append {rest : List Char} (hb : Breaks rest) (line : Nat) (text : List Char) :
    scan line (text ++ rest) = do
      let tokens ← scan line text
      let more ← scan (line + text.count '\n') rest
      return tokens ++ more := by
  induction text using scan_induction generalizing line with
  | nil =>
    rw [scan_nil, List.nil_append]
    change scan line rest = (do return [] ++ (← scan line rest))
    cases scan line rest <;> rfl
  | refused c text hc =>
    rw [List.cons_append, scan_of_none hc, scan_of_none hc]
    rfl
  | blank c text hc ih =>
    -- The run of blanks may end in `rest`, so only its first character is scanned here.
    have hl : line + [c].count '\n' + text.count '\n' = line + (c :: text).count '\n' := by
      rw [Nat.add_assoc, ← List.count_append]
      rfl
    rw [List.cons_append, scan_blank hc, scan_blank hc, ih, hl]
  | lexeme c text kind hc hk ih =>
    rw [List.cons_append, scan_of_kind hc hk, scan_of_kind hc hk, takeWhile_append_of_breaks hk hb,
      dropWhile_append_of_breaks hk hb, ih, count_newline_of_kind hc hk]
    cases scan line (text.dropWhile kind.continues) with
    | error e => rfl
    | ok tokens => cases scan (line + (text.dropWhile kind.continues).count '\n') rest <;> rfl

theorem scan_append_of_ok {line : Nat} {text rest : List Char} {tokens more : List Token}
    (hb : Breaks rest) (ht : scan line text = .ok tokens)
    (hr : scan (line + text.count '\n') rest = .ok more) :
    scan line (text ++ rest) = .ok (tokens ++ more) := by
  rw [scan_append hb, ht, hr]
  rfl

/-! ## Single lexemes -/

/-- What a symbol may be called. -/
def isName (name : String) : Bool :=
  match name.toList with
  | [] => false
  | c :: rest => startsSymbol c && rest.all continuesSymbol

/-- A text of one lexeme. -/
theorem scan_lexeme {c : Char} {rest : List Char} {kind : TokenKind}
    (h : ofFirst? c = some kind) (hk : kind ≠ .whitespace)
    (hr : ∀ d ∈ rest, kind.continues d = true) (line : Nat) :
    scan line (c :: rest) = .ok [⟨kind, kind.keep (c :: rest), line⟩] := by
  rw [scan_of_kind h hk, List.takeWhile_eq_self_iff.2 hr, List.dropWhile_eq_nil_iff.2 hr, scan_nil]
  rfl

theorem scan_name {name : String} (h : isName name = true) (line : Nat) :
    scan line name.toList = .ok [⟨.symbol, name, line⟩] := by
  unfold isName at h
  split at h
  · cases h
  · next c rest hl =>
    rw [Bool.and_eq_true, List.all_eq_true] at h
    have hkeep : TokenKind.symbol.keep (c :: rest) = name := by
      rw [← hl]
      exact String.ofList_toList
    rw [hl, scan_lexeme (ofFirst?_of_startsSymbol h.1) (by decide) h.2, hkeep]

theorem scan_number (n : Number) (line : Nat) :
    scan line n.text.toList = .ok [⟨.number, n.text, line⟩] := by
  have hlex : ∀ c rest, n.text.toList = c :: rest → ofFirst? c = some .number →
      (∀ d ∈ rest, d.isDigit = true) → scan line n.text.toList = .ok [⟨.number, n.text, line⟩] := by
    intro c rest hl hc hr
    have hkeep : TokenKind.number.keep (c :: rest) = n.text := by
      rw [← hl]
      exact String.ofList_toList
    rw [hl, scan_lexeme hc (by decide) hr, hkeep]
  cases hv : n.val with
  | ofNat m =>
    have hl : n.text.toList = Nat.toDigits 10 m := by
      simp [Number.text, hv, Decimal.ofInt, Decimal.ofNat]
    have hd := Decimal.all_isDigit_toDigits m
    obtain ⟨c, rest, hcr⟩ := List.exists_cons_of_ne_nil (Nat.toDigits_ne_nil (n := m) (b := 10))
    rw [hcr, List.all_cons, Bool.and_eq_true, List.all_eq_true] at hd
    exact hlex c rest (hl.trans hcr) (ofFirst?_of_isDigit hd.1) hd.2
  | negSucc m =>
    have hl : n.text.toList = '-' :: Nat.toDigits 10 (m + 1) := by
      simp [Number.text, hv, Decimal.ofInt, Decimal.ofNat]
    exact hlex _ _ hl ofFirst?_minus (List.all_eq_true.1 (Decimal.all_isDigit_toDigits _))

theorem scan_paren {c : Char} {kind : TokenKind} (h : ofFirst? c = some kind)
    (hk : kind = .openParen ∨ kind = .closeParen) (line : Nat) (rest : List Char) :
    scan line (c :: rest) = (⟨kind, "", line⟩ :: ·) <$> scan line rest := by
  rcases hk with rfl | rfl
  · rw [scan_of_kind h (by decide)]
    cases rest <;> rfl
  · rw [scan_of_kind h (by decide)]
    cases rest <;> rfl

/-! ## The tokens of a text -/

/-- Every symbol that a scan yields is a name. -/
theorem isName_of_scan {line : Nat} {text : List Char} {tokens : List Token}
    (h : scan line text = .ok tokens) : ∀ t ∈ tokens, t.kind = .symbol → isName t.text = true := by
  induction text using scan_induction generalizing tokens line with
  | nil =>
    rw [scan_nil] at h
    cases h
    simp
  | refused c text hc =>
    rw [scan_of_none hc] at h
    cases h
  | blank c text hc ih =>
    rw [scan_blank hc] at h
    exact ih h
  | lexeme c text kind hc hk ih =>
    obtain ⟨more, hs, rfl⟩ := scan_of_kind_eq_ok hc hk h
    intro t ht hsym
    rcases List.mem_cons.1 ht with rfl | hm
    · cases hsym
      have hall : (text.takeWhile continuesSymbol).all continuesSymbol = true :=
        List.all_takeWhile
      simp only [isName, TokenKind.keep, String.toList_ofList]
      rw [startsSymbol_of_ofFirst? hc, Bool.true_and]
      exact hall
    · exact ih hs t hm hsym

/-! ## Several sources -/

theorem tokenizeAll_nil : tokenizeAll [] = .ok [] := rfl

theorem tokenizeAll_cons (source : String) (sources : List String) :
    tokenizeAll (source :: sources) = do
      let tokens ← tokenize source
      let more ← tokenizeAll sources
      return tokens ++ more := by
  unfold tokenizeAll
  rw [List.mapM_cons]
  cases tokenize source with
  | error e => rfl
  | ok tokens => cases sources.mapM tokenize <;> rfl

theorem tokenizeAll_cons_eq_ok {source : String} {sources : List String} {tokens : List Token}
    (h : tokenizeAll (source :: sources) = .ok tokens) :
    ∃ first more, tokenize source = .ok first ∧ tokenizeAll sources = .ok more ∧
      tokens = first ++ more := by
  rw [tokenizeAll_cons] at h
  cases hs : tokenize source with
  | error e =>
    rw [hs] at h
    cases h
  | ok first =>
    cases hr : tokenizeAll sources with
    | error e =>
      rw [hs, hr] at h
      cases h
    | ok more =>
      rw [hs, hr] at h
      cases h
      exact ⟨first, more, rfl, rfl, rfl⟩

theorem tokenizeAll_eq_error {sources : List String} {source : String} {e : SourceError}
    (hm : source ∈ sources) (h : tokenize source = .error e) :
    ∃ e', tokenizeAll sources = .error e' := by
  induction hm with
  | head sources =>
    rw [tokenizeAll_cons, h]
    exact ⟨e, rfl⟩
  | tail first _ ih =>
    obtain ⟨e', ih⟩ := ih
    rw [tokenizeAll_cons, ih]
    cases tokenize first with
    | error e => exact ⟨e, rfl⟩
    | ok tokens => exact ⟨e', rfl⟩

theorem isName_of_tokenizeAll {sources : List String} {tokens : List Token}
    (h : tokenizeAll sources = .ok tokens) :
    ∀ t ∈ tokens, t.kind = .symbol → isName t.text = true := by
  induction sources generalizing tokens with
  | nil =>
    cases h
    simp
  | cons source sources ih =>
    obtain ⟨first, more, hs, hr, rfl⟩ := tokenizeAll_cons_eq_ok h
    intro t ht hk
    rcases List.mem_append.1 ht with hm | hm
    · exact isName_of_scan hs t hm hk
    · exact ih hr t hm hk

end Token

end Lisplet
