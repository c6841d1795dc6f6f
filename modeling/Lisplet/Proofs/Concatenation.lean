import Lisplet.Proofs.Grammar
/-!
# What follows a list of tokens

The reader may look at all tokens that follow, yet they change nothing that is settled. After a
complete program they are read as if they stood alone: `readAll_append_iff`. And an error is the
last word on the tokens before it, unless it says that they end too early:
`readAll_append_of_error`.
-/

namespace Lisplet.Reader

open Nesting

/-! ## After a program -/

/-- The tokens after a program are read as on their own: their expressions follow those of the
program, and their error is the error of the whole. -/
theorem readAll_append_iff (ts us : List Token) (es : List Expr) (h : readAll ts = .ok es) :
    (∀ all, readAll (ts ++ us) = .ok all ↔ ∃ fs, readAll us = .ok fs ∧ all = es ++ fs) ∧
      ∀ e, readAll (ts ++ us) = .error e ↔ readAll us = .error e := by
  have happend : readAll (ts ++ us) = (es ++ ·) <$> readAll us :=
    readAll_append (readAll_eq_ok_iff.1 h) us
  rw [happend]
  cases readAll us with
  | ok fs =>
    constructor
    · intro all
      constructor
      · intro hall
        exact ⟨fs, rfl, (Except.ok.inj hall).symm⟩
      · rintro ⟨fs', hfs, rfl⟩
        cases hfs
        rfl
    · intro e
      exact iff_of_false nofun nofun
  | error e =>
    constructor
    · intro all
      refine iff_of_false nofun ?_
      rintro ⟨fs, hfs, -⟩
      cases hfs
    · intro e'
      exact Iff.rfl

/-- A stray `)`. -/
def strayParen : Token := ⟨.closeParen, "", 3⟩

/-- `(f 1)` before another one, and before a stray `)`. -/
theorem readAll_append_iff_callTokens :
    readAll (callTokens ++ callTokens) =
        .ok [.call (.symbol "f") [.number .one], .call (.symbol "f") [.number .one]] ∧
      readAll (callTokens ++ [strayParen]) = .error (.unexpectedToken strayParen) := by
  have hcall : readAll callTokens = .ok [.call (.symbol "f") [.number .one]] :=
    readAll_eq_ok_iff.2 derives_callTokens.all
  have hstray : readAll [strayParen] = .error (.unexpectedToken strayParen) := by
    rw [readAll_eq_verdict]
    rfl
  constructor
  · exact ((readAll_append_iff _ _ _ hcall).1 _).2 ⟨_, hcall, rfl⟩
  · exact ((readAll_append_iff _ _ _ hcall).2 _).2 hstray

/-! ## After an error -/

namespace Nesting

variable {s : Nesting} {t : Token} {after : List Token} {e : SourceError}

theorem defectError?_cases (h : s.defectError? t after = some e) :
    (∃ text line, e = .invalidNumber text line) ∨ ∃ line, e = .invalidDefinition line := by
  unfold defectError? at h
  split at h
  · split at h
    · exact .inr ⟨_, (Option.some.inj h).symm⟩
    · cases h
  · split at h
    · exact .inl ⟨_, _, (Option.some.inj h).symm⟩
    · cases h

/-- Outside of all forms a `)` has nothing to tell but that it is there. -/
theorem defectError?_of_stray (hs : s.openings = []) (ht : t.kind = .closeParen)
    (after : List Token) : s.defectError? t after = none := by
  unfold defectError?
  rw [(forms_of_openings_nil hs).2]
  exact if_neg fun h => by simp [ht] at h

/-- Only a stray `)` is an open error that is not an early end. -/
theorem openError_cases (s : Nesting) (t : Token) :
    (∃ line, s.openError t = .unexpectedEnd line) ∨
      s.openings = [] ∧ t.kind = .closeParen ∧ s.openError t = .unexpectedToken t := by
  unfold openError
  cases ho : s.openings.getLast? with
  | some opening => exact .inl ⟨opening.line, rfl⟩
  | none =>
    by_cases ht : t.kind = .closeParen
    · exact .inr ⟨List.getLast?_eq_none_iff.1 ho, ht, if_pos ht⟩
    · exact .inl ⟨t.line, if_neg ht⟩

/-- What a defect is reported as is one of three errors that more tokens do not change, or the
tokens end too early. -/
theorem report_append (h : (s.defectError? t after).getD (s.openError t) = e)
    (he : ∀ line, e ≠ .unexpectedEnd line) :
    ((∃ text line, e = .invalidNumber text line) ∨ (∃ line, e = .invalidDefinition line) ∨
      ∃ t, e = .unexpectedToken t) ∧
    ∀ us, (s.defectError? t (after ++ us)).getD (s.openError t) = e := by
  cases hd : s.defectError? t after with
  | some e' =>
    rw [hd, Option.getD_some] at h
    cases h
    refine ⟨?_, fun us => ?_⟩
    · rcases defectError?_cases hd with hn | hf
      · exact .inl hn
      · exact .inr (.inl hf)
    · rw [defectError?_append hd us, Option.getD_some]
  | none =>
    rw [hd, Option.getD_none] at h
    cases h
    rcases openError_cases s t with ⟨line, ho⟩ | ⟨hs, ht, ho⟩
    · exact absurd ho (he line)
    · refine ⟨.inr (.inr ⟨t, ho⟩), fun us => ?_⟩
      rw [defectError?_of_stray hs ht, Option.getD_none]

end Nesting

theorem verdict_run_append {ts : List Token} {e : SourceError}
    (h : (start.run ts).verdict = .error e) (he : ∀ line, e ≠ .unexpectedEnd line) :
    ((∃ text line, e = .invalidNumber text line) ∨ (∃ line, e = .invalidDefinition line) ∨
      ∃ t, e = .unexpectedToken t) ∧
    ∀ us, (start.run (ts ++ us)).verdict = .error e := by
  cases hr : start.run ts with
  | ended s =>
    rw [hr, Outcome.verdict] at h
    cases ho : s.openings.getLast? with
    | some opening =>
      rw [ho] at h
      exact absurd (Except.error.inj h).symm (he _)
    | none =>
      rw [ho] at h
      cases h
  | stopped s t after =>
    rw [hr, Outcome.verdict] at h
    obtain ⟨hkind, hfinal⟩ := report_append (Except.error.inj h) he
    refine ⟨hkind, fun us => ?_⟩
    rw [run_append, hr]
    exact congrArg Except.error (hfinal us)

/-- An error other than an early end is final: it is about a number, a definition or a stray `)`,
and whatever follows, the tokens have that error and are no program. If it is passed on from the
inside of a window, then from the inside of every wider one too. -/
theorem readAll_append_of_error (ts us : List Token) (e : SourceError) (h : readAll ts = .error e)
    (he : ∀ line, e ≠ .unexpectedEnd line) :
    ((∃ text line, e = .invalidNumber text line) ∨ (∃ line, e = .invalidDefinition line) ∨
      ∃ t, e = .unexpectedToken t) ∧
    readAll (ts ++ us) = .error e ∧ readProgram (ts ++ us) = .error e ∧
      (inside readAll ts = .error e → inside readAll (ts ++ us) = .error e) := by
  rw [readAll_eq_verdict] at h
  obtain ⟨hkind, hfinal⟩ := verdict_run_append h he
  have happend : readAll (ts ++ us) = .error e := by
    rw [readAll_eq_verdict]
    exact hfinal us
  have hne : ts ++ us ≠ [] := by
    intro hnil
    rw [hnil] at happend
    cases happend
  refine ⟨hkind, happend, ?_, fun hinside => ?_⟩
  · obtain ⟨t, rest, hcons⟩ := List.exists_cons_of_ne_nil hne
    rw [hcons] at happend ⊢
    exact happend
  · rw [← readAll_eq_verdict] at h
    unfold inside at hinside ⊢
    rw [h] at hinside
    rw [happend]
    exact hinside

/-- The tokens of `(f -)`, in which `-` is no number. -/
def brokenTokens : List Token :=
  [⟨.openParen, "", 1⟩, ⟨.symbol, "f", 1⟩, ⟨.number, "-", 2⟩, ⟨.closeParen, "", 2⟩]

/-- A form that is closed twice does not hide the number that is none. -/
theorem readAll_append_of_error_brokenTokens :
    readAll brokenTokens = .error (.invalidNumber "-" 2) ∧
      readAll (brokenTokens ++ [strayParen]) = .error (.invalidNumber "-" 2) ∧
      inside readAll (brokenTokens ++ [strayParen]) = .error (.invalidNumber "-" 2) := by
  have hread : readAll brokenTokens = .error (.invalidNumber "-" 2) := by
    rw [readAll_eq_verdict]
    rfl
  have hinside : inside readAll brokenTokens = .error (.invalidNumber "-" 2) := by
    rw [inside, hread]
    rfl
  obtain ⟨-, happend, -, hwider⟩ :=
    readAll_append_of_error _ [strayParen] _ hread (fun line h => by cases h)
  exact ⟨hread, happend, hwider hinside⟩

end Lisplet.Reader
