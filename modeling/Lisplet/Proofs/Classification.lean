import Lisplet.Proofs.Nesting
/-!
# Which error the reader reports

The reader retries every window, yet its answer is a function of the reading from left to right:
`readAll_eq_verdict`. A defect in a number or in a header is found again by every enclosing form
whose window reaches far enough, so it is reported if a `)` is left for each of them; else the
outermost form just never ends.
-/

namespace Lisplet.Reader

open Nesting

/-- How many closing parentheses there are. -/
def closers (tokens : List Token) : Nat := tokens.countP fun t => t.kind = .closeParen

namespace Nesting

/-- The error that tells what is wrong with the defect `t`, if `after` holds a `)` for each open
form. The header of a definition is judged only in a window of at least seven tokens. -/
def defectError? (s : Nesting) (t : Token) (after : List Token) : Option SourceError :=
  match s.header with
  | some (opening, h) =>
    if s.openings.length ≤ closers (after.drop (5 - h.length)) then
      some (.invalidDefinition opening.line)
    else none
  | none =>
    if t.kind = .number ∧ s.openings.length ≤ closers after then
      some (.invalidNumber t.text t.line)
    else none

/-- The error of an expression that is never completed: the outermost open form never ends, or the
defect `t` starts nothing at all. -/
def openError (s : Nesting) (t : Token) : SourceError :=
  match s.openings.getLast? with
  | some opening => .unexpectedEnd opening.line
  | none => if t.kind = .closeParen then .unexpectedToken t else .unexpectedEnd t.line

end Nesting

/-- The reader's answer, given how the reading from left to right ends. -/
def Outcome.verdict : Outcome → Except SourceError (List Expr)
  | ended s =>
    match s.openings.getLast? with
    | some opening => .error (.unexpectedEnd opening.line)
    | none => .ok s.top
  | stopped s t after => .error ((s.defectError? t after).getD (s.openError t))

/-! ## Which errors end the search for a window -/

theorem isOpen_incomplete (t : Token) : (incomplete t).isOpen := by
  unfold incomplete
  split <;> rfl

theorem isOpen_openError (s : Nesting) (t : Token) : (s.openError t).isOpen := by
  unfold openError
  split
  · rfl
  · split <;> rfl

theorem not_isOpen_defectError {s : Nesting} {t : Token} {after : List Token} {e : SourceError}
    (h : s.defectError? t after = some e) : e.isOpen = false := by
  unfold defectError? at h
  split at h <;> split at h <;> cases h <;> rfl

/-! ## Closing parentheses -/

@[simp] theorem closers_nil : closers [] = 0 := rfl

theorem closers_append (ts us : List Token) : closers (ts ++ us) = closers ts + closers us := by
  simp [closers]

theorem closers_singleton {t : Token} (h : t.kind = .closeParen) : closers [t] = 1 := by
  simp [closers, h]

/-- One more `)` lets one more form try its window. -/
theorem le_closers_concat {closing : Token} (hc : closing.kind = .closeParen) (ts : List Token)
    {n d : Nat} (hd : n = 0 ∨ 0 < d) :
    d + 1 ≤ closers ((ts ++ [closing]).drop n) ↔ d ≤ closers (ts.drop n) := by
  rcases Nat.lt_or_ge ts.length n with hn | hn
  · have h1 : (ts ++ [closing]).drop n = [] := List.drop_eq_nil_of_le (by simp; omega)
    have h2 : ts.drop n = [] := List.drop_eq_nil_of_le (by omega)
    rw [h1, h2, closers_nil]
    omega
  · rw [List.drop_append_of_le_length hn, closers_append, closers_singleton hc]
    omega

/-- The first form needs only the `)` at the end of its window. -/
theorem one_le_closers_concat {n : Nat} {ts : List Token} {closing : Token}
    (hc : closing.kind = .closeParen) :
    1 ≤ closers ((ts ++ [closing]).drop n) ↔ n ≤ ts.length := by
  rcases Nat.lt_or_ge ts.length n with hn | hn
  · rw [List.drop_eq_nil_of_le (by simp; omega), closers_nil]
    omega
  · rw [List.drop_append_of_le_length hn, closers_append, closers_singleton hc]
    omega

namespace Nesting

theorem defectError?_within {f : Form} {s : Nesting} {t closing : Token} {after : List Token}
    (hc : closing.kind = .closeParen) :
    (s.within f).defectError? t (after ++ [closing]) = s.defectError? t after := by
  have hl : (s.within f).openings.length = s.openings.length + 1 := by simp [openings_within]
  unfold defectError?
  rw [hl]
  cases hh : s.header with
  | some oh =>
    have hw : (s.within f).header = some oh := hh
    have hd : 0 < s.openings.length := by simp [openings, hh]
    simp only [hw, le_closers_concat hc after (.inr hd)]
  | none =>
    have hw : (s.within f).header = none := hh
    have hle : s.openings.length + 1 ≤ closers (after ++ [closing]) ↔
        s.openings.length ≤ closers after := le_closers_concat hc after (.inl rfl)
    simp only [hw, hle]

end Nesting

/-! ## The window of an open form -/

/-- Lists of fewer than `n` tokens are read as they are from left to right. -/
def AgreesBelow (n : Nat) : Prop :=
  ∀ us : List Token, us.length < n → readAll us = (start.run us).verdict

theorem AgreesBelow.mono {m n : Nat} (h : AgreesBelow n) (hmn : m ≤ n) : AgreesBelow m :=
  fun us hu => h us (Nat.lt_of_lt_of_le hu hmn)

/-- The answer of a window that starts with `(`, if the tokens inside read so and `closing` ends
it. -/
def Outcome.conclude (closing : Token) : Outcome → Except SourceError (Option Expr)
  | ended s => .ok s.completed?
  | stopped s t after =>
    match s.defectError? t (after ++ [closing]) with
    | some e => .error e
    | none => .ok none

theorem enclose_eq_conclude {f : Form} {inner : List Token} {closing : Token}
    (hread : readAll inner = (start.run inner).verdict)
    (hk : ∀ t ∈ inner.head?, t.isKeyword → ∀ o, f ≠ .call o [])
    (ht : ((start.within f).run inner).state.top = [])
    (hc : closing.kind = .closeParen) :
    enclose readAll f inner = ((start.within f).run inner).conclude closing := by
  unfold enclose inside
  rcases run_within_of_top hk ht with ⟨at_, ha, hw⟩ | ⟨at_, t, after, ha, hw⟩
  · rw [hread, ha, hw, Outcome.conclude, completed?_within]
    cases ho : at_.openings.getLast? with
    | some o =>
      have hne : at_.openings ≠ [] := by rintro h; simp [h] at ho
      simp [Outcome.verdict, ho, SourceError.isOpen, hne]
    | none => simp [Outcome.verdict, List.getLast?_eq_none_iff.1 ho]
  · rw [hread, ha, hw, Outcome.conclude, defectError?_within hc]
    cases hd : at_.defectError? t after with
    | some e => simp [Outcome.verdict, hd, not_isOpen_defectError hd]
    | none => simp [Outcome.verdict, hd, isOpen_openError]

/-! ## The header of a definition -/

/-- The header of an outermost definition. -/
abbrev Nesting.inHeader (opening : Token) (h : Header) : Nesting := ⟨[], [], some (opening, h)⟩

theorem defectError?_inHeader {opening t closing : Token} {h : Header} {after : List Token}
    (hc : closing.kind = .closeParen) :
    (inHeader opening h).defectError? t (after ++ [closing]) =
      if 5 - h.length ≤ after.length then some (.invalidDefinition opening.line) else none := by
  simp only [defectError?, openings, List.map_nil,
    List.length_singleton, one_le_closers_concat hc]

/-- The parameters are split off as they are read from left to right. -/
theorem run_parameters (opening : Token) (name : String) (line : Nat) (ts : List Token)
    (names : List String) :
    match parameters line ts with
    | .ok (some (more, body)) =>
      (inHeader opening (.parameters name names)).run ts =
        (start.within (.definition opening name (names ++ more) [])).run body
    | .ok none => ∃ all, (inHeader opening (.parameters name names)).run ts =
        .ended (.inHeader opening (.parameters name all))
    | .error e => e = .invalidDefinition line ∧ ∃ all t after,
        (inHeader opening (.parameters name names)).run ts =
          .stopped (.inHeader opening (.parameters name all)) t after ∧
        all.length + 1 + after.length = names.length + ts.length := by
  induction ts generalizing names with
  | nil => exact ⟨names, rfl⟩
  | cons t ts ih =>
    by_cases hc : t.kind = .closeParen
    · rw [parameters, hc, run_cons_of_step (step_parametersClosing hc)]
      simp only [List.append_nil]
      rfl
    by_cases hs : t.kind = .symbol
    · rw [parameters, hs, run_cons_of_step (step_parameter hs)]
      have htail := ih (names ++ [t.text])
      revert htail
      rcases parameters line ts with e | _ | ⟨more, body⟩
      · rintro ⟨rfl, all, u, after, hr, hl⟩
        refine ⟨rfl, all, u, after, hr, ?_⟩
        simp only [List.length_append, List.length_cons, List.length_nil] at hl ⊢
        omega
      · exact id
      · intro htail
        simpa [bind, Except.bind, pure, Except.pure] using htail
    · have hp : parameters line (t :: ts) = .error (.invalidDefinition line) := by
        cases hk : t.kind <;> simp_all [parameters]
      have hd : (inHeader opening (.parameters name names)).step t = none :=
        step_parameter_of_ne hs hc
      rw [hp]
      refine ⟨rfl, names, t, ts, run_cons_of_defect hd ts, ?_⟩
      simp only [List.length_cons]
      omega

/-- The part of a definition after its name and `(`. -/
theorem definition_eq_conclude_of_parameters {opening name o closing : Token} {rest : List Token}
    (hread : AgreesBelow rest.length) (hn : name.kind = .symbol) (ho : o.kind = .openParen)
    (ht : ((inHeader opening (.parameters name.text [])).run rest).state.top = [])
    (hc : closing.kind = .closeParen) :
    definition readAll opening.line (name :: o :: rest) =
      ((inHeader opening (.parameters name.text [])).run rest).conclude closing := by
  have hps := run_parameters opening name.text opening.line rest []
  rcases Nat.lt_or_ge rest.length 2 with hr | hr
  · -- The window is too short for a definition, and so nothing in it is called wrong.
    rw [definition_of_short (by simp only [List.length_cons]; omega)]
    cases hp : parameters opening.line rest with
    | error e =>
      rw [hp] at hps
      obtain ⟨-, all, t, after, hrun, hl⟩ := hps
      rw [hrun, Outcome.conclude, defectError?_inHeader hc, if_neg]
      simp only [Header.length, List.length_nil] at hl ⊢
      omega
    | ok found =>
      rcases found with _ | ⟨names, body⟩
      · rw [hp] at hps
        obtain ⟨all, hrun⟩ := hps
        rw [hrun]
        rfl
      · rw [hp] at hps
        have := length_of_parameters hp
        rw [List.length_eq_zero_iff.1 (show body.length = 0 by omega)] at hps
        rw [hps]
        rfl
  · rw [definition_of_parameters hr hn ho opening]
    cases hp : parameters opening.line rest with
    | error e =>
      rw [hp] at hps
      obtain ⟨rfl, all, t, after, hrun, hl⟩ := hps
      rw [hrun, Outcome.conclude, defectError?_inHeader hc, if_pos]
      simp only [Header.length, List.length_nil] at hl ⊢
      omega
    | ok found =>
      rcases found with _ | ⟨names, body⟩
      · rw [hp] at hps
        obtain ⟨all, hrun⟩ := hps
        rw [hrun]
        rfl
      · rw [hp] at hps
        simp only [List.nil_append] at hps
        rw [hps] at ht ⊢
        exact enclose_eq_conclude (hread body (length_of_parameters hp)) (by simp) ht hc

/-- A definition is read in its window as it is from left to right. -/
theorem definition_eq_conclude {opening closing : Token} {tail : List Token}
    (hread : AgreesBelow tail.length)
    (ht : ((inHeader opening .keyword).run tail).state.top = [])
    (hc : closing.kind = .closeParen) :
    definition readAll opening.line tail =
      ((inHeader opening .keyword).run tail).conclude closing := by
  rcases tail with _ | ⟨name, tail⟩
  · rfl
  by_cases hn : name.kind = .symbol
  · rw [run_cons_of_step (step_name hn)] at ht ⊢
    rcases tail with _ | ⟨o, rest⟩
    · rfl
    by_cases ho : o.kind = .openParen
    · rw [run_cons_of_step (step_parametersOpening ho)] at ht ⊢
      refine definition_eq_conclude_of_parameters (hread.mono ?_) hn ho ht hc
      simp only [List.length_cons]
      omega
    · rw [run_cons_of_defect (step_parametersOpening_of_ne ho), Outcome.conclude,
        defectError?_inHeader hc]
      by_cases hl : 5 - (Header.name name.text).length ≤ rest.length
      · rw [definition_of_header hl fun h => ho h.2, if_pos hl]
      · rw [if_neg hl]
        simp only [Header.length] at hl
        exact definition_of_short (by simp only [List.length_cons]; omega)
  · rw [run_cons_of_defect (step_name_of_ne hn), Outcome.conclude,
      defectError?_inHeader hc]
    by_cases hl : 5 - Header.keyword.length ≤ tail.length
    · rw [if_pos hl]
      rcases tail with _ | ⟨o, rest⟩
      · cases hl
      · exact definition_of_header (Nat.le_of_succ_le_succ hl) fun h => hn h.1
    · rw [if_neg hl]
      simp only [Header.length] at hl
      exact definition_of_short (by simp only [List.length_cons]; omega)

/-- A window is read as it is from left to right, as long as it is not longer than a form. -/
theorem form_eq_conclude {opening closing : Token} {inner : List Token}
    (hread : AgreesBelow (inner.length + 1))
    (ht : ((start.within (.call opening [])).run inner).state.top = [])
    (hc : closing.kind = .closeParen) :
    form readAll opening inner =
      ((start.within (.call opening [])).run inner).conclude closing := by
  rcases inner with _ | ⟨head, tail⟩
  · rfl
  by_cases hk : head.isKeyword
  · have hs : (start.within (.call opening [])).step head =
        some (.inHeader opening .keyword) := step_keyword hk
    rw [run_cons_of_step hs] at ht ⊢
    rw [form, if_pos hk]
    refine definition_eq_conclude (hread.mono ?_) ht hc
    simp only [List.length_cons]
    omega
  · rw [form, if_neg hk, call_eq_enclose opening]
    refine enclose_eq_conclude (hread _ (Nat.lt_succ_self _)) ?_ ht hc
    intro t hm hkey
    simp only [List.head?_cons, Option.mem_some_iff] at hm
    exact absurd (hm ▸ hkey) hk

/-! ## How far a defect is seen -/

theorem closers_drop_append (n : Nat) (ts us : List Token) :
    closers (ts.drop n) ≤ closers ((ts ++ us).drop n) := by
  rw [List.drop_append, closers_append]
  exact Nat.le_add_right _ _

theorem closers_drop_concat_of_ne {t : Token} (h : t.kind ≠ .closeParen) (n : Nat)
    (ts : List Token) : closers ((ts ++ [t]).drop n) = closers (ts.drop n) := by
  rw [List.drop_append, closers_append, Nat.add_eq_left, closers, List.countP_eq_zero]
  intro u hu
  have := List.mem_singleton.1 (List.mem_of_mem_drop hu)
  simp [this, h]

namespace Nesting

variable {s : Nesting} {t : Token} {e : SourceError}

theorem defectError?_append {after : List Token} (h : s.defectError? t after = some e)
    (more : List Token) : s.defectError? t (after ++ more) = some e := by
  unfold defectError? at h ⊢
  split at h
  · next opening hd hh =>
    split at h
    · next hl => rw [if_pos (Nat.le_trans hl (closers_drop_append _ _ _)), h]
    · cases h
  · next hh =>
    split at h
    · next hl => rw [if_pos ⟨hl.1, Nat.le_trans hl.2 (closers_drop_append 0 after more)⟩, h]
    · cases h

theorem defectError?_concat_of_ne {u : Token} (hu : u.kind ≠ .closeParen) (after : List Token) :
    s.defectError? t (after ++ [u]) = s.defectError? t after := by
  have h0 : closers (after ++ [u]) = closers after := closers_drop_concat_of_ne hu 0 after
  unfold defectError?
  simp only [closers_drop_concat_of_ne hu, h0]

theorem defectError?_nil (hs : s.openings ≠ []) : s.defectError? t [] = none := by
  have hl := List.length_pos_iff.2 hs
  unfold defectError?
  split
  · rw [List.drop_nil, if_neg (by rw [closers_nil]; omega)]
  · rw [if_neg]
    rintro ⟨-, h⟩
    rw [closers_nil] at h
    omega

/-- The `)` that lets the outermost open form try a window with the defect. -/
theorem exists_closing {after : List Token} (hs : s.openings ≠ [])
    (h : s.defectError? t after = some e) :
    ∃ mid closing more, after = mid ++ closing :: more ∧ closing.kind = .closeParen ∧
      s.defectError? t (mid ++ [closing]) = some e ∧ s.defectError? t mid = none := by
  -- From the end: the `)` is the last token before which the defect does not show.
  induction after using List.reverseRecOn with
  | nil =>
    rw [defectError?_nil hs] at h
    cases h
  | append_singleton after u ih =>
    cases hd : s.defectError? t after with
    | some e' =>
      have he := defectError?_append hd [u]
      rw [h, Option.some.injEq] at he
      subst he
      obtain ⟨mid, closing, more, rfl, hc, hm, hn⟩ := ih hd
      exact ⟨mid, closing, more ++ [u], by simp, hc, hm, hn⟩
    | none =>
      refine ⟨after, u, [], rfl, ?_, h, hd⟩
      by_contra hu
      rw [defectError?_concat_of_ne hu, hd] at h
      cases h

end Nesting

/-! ## The windows of an expression -/

section Widen

variable {first : Token} {rest : List Token}

/-- A reading without defect in which the form stays open. -/
theorem passes_of_ended {s : Nesting} {before : List Token} (hb : before <+: rest)
    (hread : AgreesBelow before.length)
    (hr : (start.within (.call first [])).run before = .ended s) (ht : s.top = []) :
    Passes readAll first rest before.length := by
  intro inner closing hi hlen hc
  obtain ⟨mid, rfl⟩ : inner ++ [closing] <+: before :=
    List.prefix_of_prefix_length_le hi hb (by rw [List.length_append]; exact hlen)
  rw [List.append_assoc] at hr
  obtain ⟨next, hi, hn⟩ := run_of_append_ended hr
  have hnt : next.top = [] := by
    obtain ⟨es, hes⟩ := top_run next ([closing] ++ mid)
    rw [hn, Outcome.state, ht] at hes
    exact (List.append_eq_nil_iff.1 hes.symm).1
  rw [form_eq_conclude (hread.mono hlen) (by rw [hi]; exact hnt) hc, hi, Outcome.conclude]
  cases hcomp : next.completed? with
  | none => rfl
  | some e =>
    -- Then `closing` would have completed the form, and `top` never loses an expression.
    obtain ⟨es, hes⟩ := top_run ⟨next.top ++ [e], [], none⟩ mid
    rw [List.singleton_append, run_cons_of_step (step_of_completed hc hcomp)] at hn
    rw [hn, Outcome.state, ht] at hes
    simp at hes

/-- Windows that reach a defect, but not the closing parentheses that it takes to show. -/
theorem passes_of_stopped {s : Nesting} {t : Token} {before mid : List Token}
    (hm : before ++ t :: mid <+: rest) (hread : AgreesBelow (before ++ t :: mid).length)
    (hr : (start.within (.call first [])).run before = .ended s) (ht : s.top = [])
    (hd : s.step t = none) (hn : s.defectError? t mid = none) :
    Passes readAll first rest (before ++ t :: mid).length := by
  intro inner closing hi hlen hc
  rcases Nat.lt_or_ge inner.length before.length with hb | hb
  · have hbr : before <+: rest := (List.prefix_append before (t :: mid)).trans hm
    refine passes_of_ended hbr (hread.mono ?_) hr ht inner closing hi hb hc
    simp only [List.length_append]
    omega
  have him : inner ++ [closing] <+: before ++ t :: mid :=
    List.prefix_of_prefix_length_le hi hm (by rw [List.length_append]; exact hlen)
  obtain ⟨tail, rfl⟩ : before <+: inner :=
    List.prefix_of_prefix_length_le (List.prefix_append before (t :: mid))
      ((List.prefix_append inner [closing]).trans him) hb
  rw [List.append_assoc, List.prefix_append_right_inj] at him
  have hread' : AgreesBelow ((before ++ tail).length + 1) := hread.mono hlen
  rcases tail with _ | ⟨u, tail⟩
  · -- The defect is the `)` that ends the window.
    obtain ⟨rfl, -⟩ := List.cons_prefix_cons.1 him
    rw [List.append_nil] at hread' ⊢
    rw [form_eq_conclude hread' (by rw [hr]; exact ht) hc, hr, Outcome.conclude]
    cases hcomp : s.completed? with
    | none => rfl
    | some e =>
      rw [step_of_completed hc hcomp] at hd
      cases hd
  · rw [List.cons_append] at him
    obtain ⟨rfl, more, rfl⟩ := List.cons_prefix_cons.1 him
    have hrun : (start.within (.call first [])).run (before ++ u :: tail) = .stopped s u tail := by
      rw [run_append_of_ended hr, run_cons_of_defect hd]
    rw [form_eq_conclude hread' (by rw [hrun]; exact ht) hc, hrun, Outcome.conclude]
    cases hde : s.defectError? u (tail ++ [closing]) with
    | none => rfl
    | some e =>
      rw [defectError?_append hde more] at hn
      cases hn

/-- The window that ends where the reading completes the form is the one that is taken. -/
theorem widen_of_completed {s : Nesting} {inner after : List Token} {closing : Token} {e : Expr}
    (hf : first.kind = .openParen) (hread : AgreesBelow (inner.length + 1))
    (hr : (start.within (.call first [])).run inner = .ended s) (ht : s.top = [])
    (hc : closing.kind = .closeParen) (he : s.completed? = some e) :
    widen readAll first (inner ++ closing :: after) 0 = (inner.length + 1, .ok e) := by
  have hw : inner ++ [closing] <+: inner ++ closing :: after := ⟨after, by simp⟩
  have hp : Passes readAll first (inner ++ closing :: after) inner.length :=
    passes_of_ended (List.prefix_append _ _) (hread.mono (Nat.le_succ _)) hr ht
  refine widen_form_some hp hf hw hc ?_
  rw [form_eq_conclude hread (by rw [hr]; exact ht) hc, hr, Outcome.conclude, he]

/-- A defect inside the form is reported from the first window in which it shows. -/
theorem widen_of_stopped {s : Nesting} {t : Token} {before after : List Token}
    (hf : first.kind = .openParen) (hread : AgreesBelow ((before ++ t :: after).length + 1))
    (hr : (start.within (.call first [])).run before = .ended s) (hd : s.step t = none)
    (ht : s.top = []) (hl : s.openings.getLast? = some first) :
    ∃ k, widen readAll first (before ++ t :: after) 0 =
      (k, .error ((s.defectError? t after).getD (s.openError t))) := by
  have hs : s.openings ≠ [] := by
    intro h
    simp [h] at hl
  cases he : s.defectError? t after with
  | none =>
    have hopen : s.openError t = incomplete first := by simp [openError, hl, incomplete, hf]
    refine ⟨(before ++ t :: after).length, ?_⟩
    rw [Option.getD_none, hopen]
    refine widen_form_exhausted ?_ hf
    exact passes_of_stopped List.prefix_rfl (hread.mono (Nat.le_succ _)) hr ht hd he
  | some e =>
    obtain ⟨mid, closing, more, rfl, hc, hde, hn⟩ := exists_closing hs he
    have hw : before ++ t :: mid ++ [closing] <+: before ++ t :: (mid ++ closing :: more) :=
      ⟨more, by simp⟩
    have hread' : AgreesBelow ((before ++ t :: mid).length + 1) := by
      apply hread.mono
      simp only [List.length_append, List.length_cons]
      omega
    have hrun : (start.within (.call first [])).run (before ++ t :: mid) = .stopped s t mid := by
      rw [run_append_of_ended hr, run_cons_of_defect hd]
    have hp : Passes readAll first (before ++ t :: (mid ++ closing :: more))
        (before ++ t :: mid).length :=
      passes_of_stopped ((List.prefix_append _ [closing]).trans hw)
        (hread'.mono (Nat.le_succ _)) hr ht hd hn
    refine ⟨(before ++ t :: mid).length + 1, widen_form_error hp hf hw hc ?_⟩
    rw [form_eq_conclude hread' (by rw [hrun]; exact ht) hc, hrun, Outcome.conclude, hde]
    rfl

/-- How the search for the end of a form goes. -/
theorem widen_opening (hf : first.kind = .openParen) (hread : AgreesBelow (rest.length + 1)) :
    (∃ inner closing after s e, rest = inner ++ closing :: after ∧
      (start.within (.call first [])).run inner = .ended s ∧ s.top = [] ∧
      closing.kind = .closeParen ∧ s.completed? = some e ∧
      widen readAll first rest 0 = (inner.length + 1, .ok e)) ∨
    ∃ k e, widen readAll first rest 0 = (k, .error e) ∧
      ((start.within (.call first [])).run rest).verdict = .error e := by
  have ho : (start.within (.call first [])).openings.getLast? = some first := rfl
  rcases run_inside ho rest with ⟨inner, closing, after, s, e, rfl, hr, ht, hc, he⟩ | ⟨ht, hl⟩
  · refine .inl ⟨inner, closing, after, s, e, rfl, hr, ht, hc, he, ?_⟩
    refine widen_of_completed hf (hread.mono ?_) hr ht hc he
    simp only [List.length_append]
    omega
  · refine .inr ?_
    cases hr : (start.within (.call first [])).run rest with
    | ended s =>
      rw [hr] at ht hl
      refine ⟨rest.length, incomplete first, widen_form_exhausted ?_ hf, ?_⟩
      · exact passes_of_ended List.prefix_rfl (hread.mono (Nat.le_succ _)) hr ht
      · have hl : s.openings.getLast? = some first := hl
        simp [Outcome.verdict, hl, incomplete, hf]
    | stopped s t after =>
      rw [hr] at ht hl
      obtain ⟨before, rfl, hb, hd⟩ := run_of_stopped hr
      obtain ⟨k, hw⟩ := widen_of_stopped hf hread hb hd ht hl
      exact ⟨k, _, hw, rfl⟩

end Widen

/-! ## The reader and the reading from left to right -/

theorem verdict_prepend (es : List Expr) (o : Outcome) :
    (o.map (prepend es)).verdict = (es ++ ·) <$> o.verdict := by
  cases o with
  | ended s =>
    have ho : (s.prepend es).openings = s.openings := rfl
    simp only [Outcome.map, Outcome.verdict, ho]
    cases s.openings.getLast? <;> rfl
  | stopped s t after => rfl

/-- Once an expression is complete, the reading starts anew. -/
theorem verdict_run_complete (e : Expr) (ts : List Token) :
    (run ⟨[e], [], none⟩ ts).verdict = ([e] ++ ·) <$> (start.run ts).verdict := by
  rw [← verdict_prepend, ← run_prepend]
  rfl

section First

variable {first : Token} {rest : List Token}

/-- An expression of one token. -/
theorem readAll_of_atom {e : Expr} (hw : widen readAll first rest 0 = (0, .ok e))
    (hs : start.step first = some ⟨[e], [], none⟩)
    (hread : readAll rest = (start.run rest).verdict) :
    readAll (first :: rest) = (start.run (first :: rest)).verdict := by
  rw [readAll_cons_of_ok hw, List.drop_zero, hread, run_cons_of_step hs, verdict_run_complete]

/-- A token that starts no expression. -/
theorem readAll_of_defect {k : Nat} {e : SourceError}
    (hw : widen readAll first rest 0 = (k, .error e)) (hs : start.step first = none)
    (he : (Outcome.stopped start first rest).verdict = .error e) :
    readAll (first :: rest) = (start.run (first :: rest)).verdict := by
  rw [readAll_cons_of_error hw, run_cons_of_defect hs, he]

/-- A form, and what follows it. -/
theorem readAll_of_opening (hk : first.kind = .openParen) (hread : AgreesBelow (rest.length + 1)) :
    readAll (first :: rest) = (start.run (first :: rest)).verdict := by
  have hs : start.step first = some (start.within (.call first [])) := step_openParen hk
  rw [run_cons_of_step hs]
  rcases widen_opening hk hread with
    ⟨inner, closing, after, s, e, rfl, hr, ht, hc, he, hw⟩ | ⟨k, e, hw, hv⟩
  · have hd : (inner ++ closing :: after).drop (inner.length + 1) = after := by
      rw [List.drop_length_add_append]
      rfl
    have ha : readAll after = (start.run after).verdict := by
      apply hread
      simp only [List.length_append, List.length_cons]
      omega
    rw [readAll_cons_of_ok hw, hd, ha, run_append_of_ended hr,
      run_cons_of_step (step_of_completed hc he), ht, List.nil_append, verdict_run_complete]
  · rw [readAll_cons_of_error hw, hv]

end First

/-- The reader's answer is the verdict on the reading from left to right. -/
theorem readAll_eq_verdict (tokens : List Token) :
    readAll tokens = (start.run tokens).verdict := by
  -- By length: both the inside of a window and what follows an expression are shorter.
  induction h : tokens.length using Nat.strongRecOn generalizing tokens with
  | _ n ih =>
    subst h
    rcases tokens with _ | ⟨first, rest⟩
    · rfl
    have hread : AgreesBelow (rest.length + 1) := fun us hu => ih us.length hu us rfl
    cases hk : first.kind with
    | number =>
      cases hv : Number.parse? first.text with
      | some value =>
        have hw : widen readAll first rest 0 = (0, .ok (.number value)) :=
          widen_of_some (by simp [matchWindow, atom, hk, hv])
        refine readAll_of_atom hw ?_ (hread rest (Nat.lt_succ_self _))
        simp [step, start, hk, hv, add]
      | none =>
        have hw : widen readAll first rest 0 = (0, .error (.invalidNumber first.text first.line)) :=
          widen_of_error (by simp [matchWindow, atom, hk, hv])
        refine readAll_of_defect hw ?_ ?_
        · simp [step, start, hk, hv]
        · simp [Outcome.verdict, defectError?, start, openings, hk]
    | symbol =>
      have hw : widen readAll first rest 0 = (0, .ok (.symbol first.text)) :=
        widen_of_some (by simp [matchWindow, atom, hk])
      refine readAll_of_atom hw ?_ (hread rest (Nat.lt_succ_self _))
      simp [step, start, hk, stepSymbol, add]
    | openParen => exact readAll_of_opening hk hread
    | closeParen | whitespace =>
      refine readAll_of_defect (widen_of_no_start (by simp [hk])) ?_ ?_
      · simp [step, start, hk, stepClose]
      · simp [Outcome.verdict, defectError?, openError, incomplete, start, openings, hk]

/-- The first defect decides which error is reported, and the closing parentheses after it decide
whether it shows. -/
theorem readAll_classified (tokens : List Token) :
    match start.run tokens with
    | .ended s => readAll tokens =
        match s.openings.getLast? with
        | some outermost => .error (.unexpectedEnd outermost.line)
        | none => .ok s.top
    | .stopped s t after =>
      ∃ m, tokens[m]? = some t ∧ tokens.drop (m + 1) = after ∧
        start.run (tokens.take m) = .ended s ∧ s.step t = none ∧
        match s.header with
        | some (opening, h) =>
          ∃ first, tokens[first]? = some opening ∧ first + h.length = m ∧
            readAll tokens = .error
              (if s.openings.length ≤ closers (tokens.drop (max (m + 1) (first + 6))) then
                .invalidDefinition opening.line
              else s.openError t)
        | none => readAll tokens = .error
            (if t.kind = .number ∧ s.openings.length ≤ closers after then
              .invalidNumber t.text t.line
            else s.openError t) := by
  have hread := readAll_eq_verdict tokens
  cases hr : start.run tokens with
  | ended s =>
    rw [hr] at hread
    exact hread
  | stopped s t after =>
    rw [hr] at hread
    obtain ⟨before, rfl, hb, hd⟩ := run_of_stopped hr
    have hafter : (before ++ t :: after).drop (before.length + 1) = after := by
      rw [List.drop_length_add_append]
      rfl
    refine ⟨before.length, by simp, hafter, by simpa using hb, hd, ?_⟩
    rw [Outcome.verdict, defectError?] at hread
    cases hh : s.header with
    | none =>
      simp only [hh] at hread ⊢
      rw [hread]
      split <;> rfl
    | some oh =>
      obtain ⟨opening, h⟩ := oh
      obtain ⟨first, ho, hlen⟩ := (run_start_at hb).1 opening h hh
      have hlt : first < before.length := (List.getElem?_eq_some_iff.1 ho).1
      -- The window of seven tokens ends at `first + 6`, the index of its `)`.
      have hm : max (before.length + 1) (first + 6) = before.length + 1 + (5 - h.length) := by omega
      simp only [hh] at hread ⊢
      refine ⟨first, by rw [List.getElem?_append_left hlt, ho], hlen, ?_⟩
      rw [hread, hm, ← List.drop_drop, hafter]
      split <;> rfl

-- A number that is none shows in `(-)`, and in `(-` it does not.
example : readAll [⟨.openParen, "", 1⟩, ⟨.number, "-", 2⟩, ⟨.closeParen, "", 2⟩] =
    .error (.invalidNumber "-" 2) := by
  rw [readAll_eq_verdict]
  rfl

example : readAll [⟨.openParen, "", 1⟩, ⟨.number, "-", 2⟩] = .error (.unexpectedEnd 1) := by
  rw [readAll_eq_verdict]
  rfl

end Lisplet.Reader
