import Lisplet.Proofs.Balance
/-!
# Expression after expression

Reading at a cursor, step by step, cuts the tokens from the cursor on into windows without gaps,
each of them an expression on its own, up to the end or to an error: `readSteps_tiling`. The tokens
before the cursor have no part in it. Where an error leaves the cursor is said by `LeavesAt`: a
window that is refused for good is a number or ends in a `)`, and any other error comes from the
last window.
-/

namespace Lisplet.Reader

/-! ## Refused windows -/

section Refused

variable {read : Reading} {e : SourceError}

theorem not_isOpen_of_enclose {f : Form} {inner : List Token}
    (h : enclose read f inner = .error e) : e.isOpen = false := by
  unfold enclose inside at h
  cases hr : read inner with
  | ok es =>
    rw [hr] at h
    cases h
  | error e' =>
    rw [hr] at h
    by_cases ho : e'.isOpen
    · simp [ho] at h
    · simp only [ho] at h
      cases h
      simpa using ho

theorem eq_of_parameters {line : Nat} {tokens : List Token}
    (h : parameters line tokens = .error e) : e = .invalidDefinition line := by
  induction tokens with
  | nil => cases h
  | cons t rest ih =>
    unfold parameters at h
    split at h
    · cases h
    · cases hp : parameters line rest with
      | error e' =>
        rw [hp] at h
        cases h
        exact ih hp
      | ok found =>
        rw [hp] at h
        rcases found with _ | ⟨names, body⟩ <;> cases h
    · cases h
      rfl

theorem not_isOpen_of_definition {line : Nat} {tokens : List Token}
    (h : definition read line tokens = .error e) : e.isOpen = false := by
  rcases Nat.lt_or_ge tokens.length 4 with hl | hl
  · rw [definition_of_short hl] at h
    cases h
  obtain ⟨name, opening, rest, rfl⟩ : ∃ name opening rest, tokens = name :: opening :: rest := by
    match tokens, hl with
    | name :: opening :: rest, _ => exact ⟨name, opening, rest, rfl⟩
  have hr : 2 ≤ rest.length := by simpa using hl
  by_cases hh : name.kind = .symbol ∧ opening.kind = .openParen
  · rw [definition_of_parameters hr hh.1 hh.2 name] at h
    split at h
    · exact not_isOpen_of_enclose h
    · cases h
    · next hp =>
      cases h
      rw [eq_of_parameters hp]
      rfl
  · rw [definition_of_header hr hh] at h
    cases h
    rfl

theorem not_isOpen_of_form {opening : Token} {inner : List Token}
    (h : form read opening inner = .error e) : e.isOpen = false := by
  unfold form at h
  split at h
  · cases h
  · split at h
    · exact not_isOpen_of_definition h
    · rw [call_eq_enclose opening] at h
      exact not_isOpen_of_enclose h

/-- A window is refused for good only if it is a number or lies between parentheses. -/
theorem matchWindow_eq_error {window : List Token} (h : matchWindow read window = .error e) :
    e.isOpen = false ∧ ((∃ t, window = [t] ∧ t.kind = .number) ∨
      ∃ first inner last, window = first :: (inner ++ [last]) ∧ first.kind = .openParen ∧
        last.kind = .closeParen) := by
  rcases window with _ | ⟨first, rest⟩
  · cases h
  rcases List.eq_nil_or_concat rest with rfl | ⟨inner, last, rfl⟩
  · simp only [matchWindow, atom] at h
    split at h
    · next hk =>
      split at h
      · cases h
      · cases h
        exact ⟨rfl, .inl ⟨first, rfl, hk⟩⟩
    · cases h
    · cases h
  · rw [List.concat_eq_append] at h ⊢
    by_cases hf : first.kind = .openParen
    · rw [matchWindow_append hf] at h
      split at h
      · next hl => exact ⟨not_isOpen_of_form h, .inr ⟨first, inner, last, rfl, hf, hl⟩⟩
      · cases h
    · rw [matchWindow_of_first hf (by simp)] at h
      cases h

theorem widen_eq_error {first : Token} {rest : List Token} {i k : Nat} (hi : i ≤ rest.length)
    (h : widen read first rest i = (k, .error e)) :
    (k = rest.length ∧ e = incomplete first) ∨
      matchWindow read (first :: rest.take k) = .error e := by
  fun_induction widen read first rest i with
  | case1 i e' hw =>
    cases h
    exact .inr hw
  | case2 => cases h
  | case3 i hw hlt ih => exact ih hlt h
  | case4 i hw hlt =>
    cases h
    exact .inl ⟨Nat.le_antisymm hi (Nat.not_lt.1 hlt), rfl⟩

end Refused

/-! ## Where an error leaves the cursor -/

/-- Where the cursor may be after an error in an expression that starts at `start`: on the last
token if no window was an expression, on the `)` that ends the window of a form, and else still at
the start. -/
def LeavesAt (tokens : List Token) (start : Nat) (error : SourceError) (last : Nat) : Prop :=
  if error.isOpen then last + 1 = tokens.length
  else if tokens[start]?.map Token.kind = some .openParen then
    tokens[last]?.map Token.kind = some .closeParen
  else last = start

theorem leavesAt_of_widen {c : Cursor Token} {k : Nat} {e : SourceError}
    (h : widen readAll c.current c.following 0 = (k, .error e)) :
    LeavesAt c.items c.position e (c.position + k) := by
  have hitem : ∀ j, c.items[c.position + j]? = (c.current :: c.following)[j]? := by
    intro j
    rw [← c.drop_position, List.getElem?_drop]
  have hstart : c.items[c.position]? = some c.current := hitem 0
  have hk : k ≤ c.following.length := by
    have hle := widen_le readAll c.current (Nat.zero_le c.following.length)
    rwa [h] at hle
  unfold LeavesAt
  -- Either all windows were tried, or the last one was refused for good.
  rcases widen_eq_error (Nat.zero_le _) h with ⟨rfl, rfl⟩ | hm
  · have hc := c.inBounds
    rw [if_pos (isOpen_incomplete _), Cursor.following, List.length_drop]
    omega
  obtain ⟨ho, ⟨t, ht, hn⟩ | ⟨first, inner, last, hw, hf, hl⟩⟩ := matchWindow_eq_error hm
  · rw [List.cons.injEq, List.take_eq_nil_iff] at ht
    obtain ⟨rfl, hnil⟩ := ht
    have hzero : k = 0 := by
      rcases hnil with hnil | hnil
      · exact hnil
      · simpa [hnil] using hk
    simp [ho, hstart, hn, hzero]
  · rw [List.cons.injEq] at hw
    obtain ⟨rfl, htake⟩ := hw
    have hlen : k = inner.length + 1 := by
      simpa [Nat.min_eq_left hk] using congrArg List.length htake
    have hlast : c.items[c.position + k]? = some last := by
      have hget : (c.following.take k)[inner.length]? = some last := by simp [htake]
      rw [List.getElem?_take_of_lt (by omega)] at hget
      rw [hitem, hlen, List.getElem?_cons_succ, hget]
    simp [ho, hstart, hf, hlast, hl]

/-- What cannot be read at all does not start with an expression. -/
theorem readAll_ne_ok_of_widen {first : Token} {rest ahead : List Token} {k : Nat} {e : SourceError}
    (h : widen readAll first rest 0 = (k, .error e)) (hp : ahead <+: first :: rest)
    (hne : ahead ≠ []) (es : List Expr) : readAll ahead ≠ .ok es := by
  intro hread
  cases readAll_eq_ok_iff.1 hread with
  | nil => exact hne rfl
  | @cons ts us e' _ hd _ =>
    obtain ⟨more, hmore⟩ := hp
    obtain ⟨t, tail, rfl⟩ := List.exists_cons_of_ne_nil hd.ne_nil
    simp only [List.cons_append, List.cons.injEq] at hmore
    obtain ⟨rfl, rfl⟩ := hmore
    rw [List.append_assoc, widen_of_derives hd] at h
    cases h

/-! ## The steps -/

section Steps

variable {c after next : Cursor Token} {e : Expr}

theorem readSteps_of_error {error : SourceError} (h : readExpression c = (.error error, after)) :
    readSteps c = [(.error error, after.position)] := by
  rw [readSteps, h]

theorem readSteps_of_next (h : readExpression c = (.ok e, after)) (hn : after.next? = some next) :
    readSteps c = (.ok e, after.position) :: readSteps next := by
  rw [readSteps, h]
  dsimp only
  split
  · next hsome =>
    rw [hn] at hsome
    cases hsome
    rfl
  · next hno => exact absurd hn (hno e next rfl)

theorem readSteps_of_last (h : readExpression c = (.ok e, after)) (hn : after.next? = none) :
    readSteps c = [(.ok e, after.position)] := by
  rw [readSteps, h]
  dsimp only
  split
  · next hsome =>
    rw [hn] at hsome
    cases hsome
  · rfl

end Steps

/-! ## Windows without gaps -/

/-- The steps that take these windows one right after the other, from index `start` on: each gives
its expression and ends on the last token of its window. -/
def steps (start : Nat) : List (List Token × Expr) → List (Except SourceError Expr × Nat)
  | [] => []
  | (window, e) :: windows =>
    (.ok e, start + window.length - 1) :: steps (start + window.length) windows

/-- The windows, each an expression on its own, and after them the rest are the tokens from the
cursor on. -/
structure Tiling (c : Cursor Token) (windows : List (List Token × Expr)) (rest : List Token) :
    Prop where
  cover : c.items.drop c.position = windows.flatMap Prod.fst ++ rest
  alone : ∀ w ∈ windows, w.1 ≠ [] ∧ readAll w.1 = .ok [w.2]

theorem last_steps {windows : List (List Token × Expr)} (h : ∀ w ∈ windows, w.1 ≠ [])
    (hne : windows ≠ []) (start : Nat) :
    (steps start windows).getLast?.map Prod.snd =
      some (start + (windows.flatMap Prod.fst).length - 1) := by
  induction windows generalizing start with
  | nil => exact absurd rfl hne
  | cons w windows ih =>
    rcases windows with _ | ⟨v, windows⟩
    · simp [steps]
    · have hlast := ih (fun x hx => h x (List.mem_cons_of_mem _ hx)) (by simp) (start + w.1.length)
      rw [steps, steps, List.getLast?_cons_cons, ← steps, hlast]
      simp [Nat.add_assoc]

theorem readAll_eq_singleton_iff {ts : List Token} {e : Expr} :
    readAll ts = .ok [e] ↔ Derives ts e := by
  constructor
  · intro h
    cases readAll_eq_ok_iff.1 h with
    | cons hd hnil =>
      cases hnil
      rwa [List.append_nil]
  · intro h
    exact readAll_eq_ok_iff.2 h.all

namespace Tiling

variable {c : Cursor Token} {windows : List (List Token × Expr)} {rest : List Token}

theorem derivesAll (h : Tiling c windows rest) :
    DerivesAll (windows.flatMap Prod.fst) (windows.map Prod.snd) := by
  have halone := h.alone
  clear h
  induction windows with
  | nil => exact .nil
  | cons w windows ih =>
    have hfirst := readAll_eq_singleton_iff.1 (halone w List.mem_cons_self).2
    exact .cons hfirst (ih fun x hx => halone x (List.mem_cons_of_mem _ hx))

/-- The windows do not change how the rest is read. -/
theorem readAll_eq (h : Tiling c windows rest) :
    readAll (c.items.drop c.position) = (windows.map Prod.snd ++ ·) <$> readAll rest := by
  rw [h.cover, readAll_append h.derivesAll]

/-- One window before the others. -/
theorem cons {k : Nat} {e : Expr} {hk : c.position + k + 1 < c.items.length}
    (hd : Derives (c.current :: c.following.take k) e)
    (h : Tiling ⟨c.items, c.position + k + 1, hk⟩ windows rest) :
    Tiling c ((c.current :: c.following.take k, e) :: windows) rest where
  cover := by
    have hdrop : c.following.drop k = windows.flatMap Prod.fst ++ rest := by
      rw [← h.cover, Cursor.following, List.drop_drop, Nat.add_right_comm]
    rw [c.drop_position, List.flatMap_cons, List.append_assoc, ← hdrop]
    simp
  alone := by
    intro w hw
    rcases List.mem_cons.1 hw with rfl | hw
    · exact ⟨by simp, readAll_eq_singleton_iff.2 hd⟩
    · exact h.alone w hw

end Tiling

/-! ## All steps -/

/-- The steps take the windows and then fail in the rest, which starts with no expression. -/
structure FailsAfter (c : Cursor Token) (windows : List (List Token × Expr)) (rest : List Token)
    (error : SourceError) (last : Nat) : Prop where
  readSteps_eq : readSteps c = steps c.position windows ++ [(.error error, last)]
  readAll_rest : readAll rest = .error error
  no_start : ∀ ahead, ahead <+: rest → ahead ≠ [] → ∀ es, readAll ahead ≠ .ok es
  leavesAt : LeavesAt c.items (c.position + (windows.flatMap Prod.fst).length) error last

section Cases

variable {c : Cursor Token} {k : Nat}

theorem failsAfter_nil {error : SourceError}
    (hw : widen readAll c.current c.following 0 = (k, .error error)) :
    FailsAfter c [] (c.current :: c.following) error (c.position + k) where
  readSteps_eq := by
    obtain ⟨hk, hread⟩ := readExpression_of_widen hw
    exact readSteps_of_error hread
  readAll_rest := readAll_cons_of_error hw
  no_start _ hp hne es := readAll_ne_ok_of_widen hw hp hne es
  leavesAt := leavesAt_of_widen hw

/-- The steps go on after the first window. -/
theorem readSteps_cons {e : Expr} (hw : widen readAll c.current c.following 0 = (k, .ok e))
    (hk : c.position + k + 1 < c.items.length) :
    readSteps c = (.ok e, c.position + k) :: readSteps ⟨c.items, c.position + k + 1, hk⟩ := by
  obtain ⟨hlt, hread⟩ := readExpression_of_widen hw
  exact readSteps_of_next hread (dif_pos hk)

theorem steps_cons {e : Expr} (hk : k ≤ c.following.length)
    (windows : List (List Token × Expr)) :
    steps c.position ((c.current :: c.following.take k, e) :: windows) =
      (.ok e, c.position + k) :: steps (c.position + k + 1) windows := by
  have hlen : (c.current :: c.following.take k).length = k + 1 := by simp [hk]
  rw [steps, hlen]
  rfl

theorem FailsAfter.cons {e : Expr} {windows : List (List Token × Expr)} {rest : List Token}
    {error : SourceError} {last : Nat}
    (hw : widen readAll c.current c.following 0 = (k, .ok e))
    {hk : c.position + k + 1 < c.items.length}
    (h : FailsAfter ⟨c.items, c.position + k + 1, hk⟩ windows rest error last) :
    FailsAfter c ((c.current :: c.following.take k, e) :: windows) rest error last where
  readSteps_eq := by
    rw [readSteps_cons hw hk, steps_cons (widen_eq_ok_iff.1 hw).1, h.readSteps_eq]
    rfl
  readAll_rest := h.readAll_rest
  no_start := h.no_start
  leavesAt := by
    have hle : k ≤ c.following.length := (widen_eq_ok_iff.1 hw).1
    have hstart : c.position +
        (List.flatMap Prod.fst ((c.current :: c.following.take k, e) :: windows)).length =
          c.position + k + 1 + (windows.flatMap Prod.fst).length := by
      simp only [List.flatMap_cons, List.length_append, List.length_cons, List.length_take]
      omega
    rw [hstart]
    exact h.leavesAt

/-- The last window reaches to the end of the tokens. -/
theorem readSteps_singleton {e : Expr} (hw : widen readAll c.current c.following 0 = (k, .ok e))
    (hk : ¬ c.position + k + 1 < c.items.length) :
    Tiling c [(c.current :: c.following.take k, e)] [] ∧
      readSteps c = steps c.position [(c.current :: c.following.take k, e)] := by
  obtain ⟨hle, hd⟩ := widen_eq_ok_iff.1 hw
  obtain ⟨hlt, hread⟩ := readExpression_of_widen hw
  refine ⟨⟨?_, ?_⟩, ?_⟩
  · have hall : c.following.length ≤ k :=
      Nat.le_of_lt_succ (Nat.not_le.1 (mt c.position_add_lt_iff.2 hk))
    simp [c.drop_position, List.take_of_length_le hall]
  · intro w hw
    rw [List.mem_singleton.1 hw]
    exact ⟨by simp, readAll_eq_singleton_iff.2 hd⟩
  · rw [readSteps_of_last hread (dif_neg hk), steps_cons hle]
    rfl

end Cases

/-- Step by step the tokens fall into windows, up to the end or to an error. -/
theorem exists_tiling (c : Cursor Token) :
    ∃ windows rest, Tiling c windows rest ∧
      ((rest = [] ∧ readSteps c = steps c.position windows) ∨
        ∃ error last, FailsAfter c windows rest error last) := by
  induction hn : c.remaining using Nat.strongRecOn generalizing c with
  | _ n ih =>
    subst hn
    -- A window holds one token at least, so fewer of them are left after it.
    obtain ⟨k, r, hw⟩ : ∃ k r, widen readAll c.current c.following 0 = (k, r) := ⟨_, _, rfl⟩
    cases r with
    | error error =>
      exact ⟨[], _, ⟨c.drop_position, by simp⟩, .inr ⟨error, _, failsAfter_nil hw⟩⟩
    | ok e =>
      obtain ⟨hle, hd⟩ := widen_eq_ok_iff.1 hw
      by_cases hlt : c.position + k + 1 < c.items.length
      · obtain ⟨windows, rest, htiling, ⟨hrest, hsteps⟩ | ⟨error, last, hfails⟩⟩ :=
          ih _ (by simp only [Cursor.remaining]; omega) ⟨c.items, c.position + k + 1, hlt⟩ rfl
        · refine ⟨_, rest, htiling.cons hd, .inl ⟨hrest, ?_⟩⟩
          rw [readSteps_cons hw hlt, steps_cons hle, hsteps]
        · exact ⟨_, rest, htiling.cons hd, .inr ⟨error, last, hfails.cons hw⟩⟩
      · obtain ⟨htiling, hsteps⟩ := readSteps_singleton hw hlt
        exact ⟨_, [], htiling, .inl ⟨rfl, hsteps⟩⟩

/-- The steps from the cursor on take windows that follow each other without gaps, and each of them
is read on its own as the expression of its step. If they take all tokens, the reader reads these
expressions, and the last step ends on the last token. If not, the reader has the error of the last
step, and it can read nothing of what is left. -/
theorem readSteps_tiling (c : Cursor Token) :
    ∃ windows rest, Tiling c windows rest ∧
      readAll (windows.flatMap Prod.fst) = .ok (windows.map Prod.snd) ∧
      ((rest = [] ∧ readSteps c = steps c.position windows ∧
          readAll (c.items.drop c.position) = .ok (windows.map Prod.snd) ∧
          (readSteps c).getLast?.map Prod.snd = some (c.items.length - 1)) ∨
        ∃ error last, FailsAfter c windows rest error last ∧
          readAll (c.items.drop c.position) = .error error) := by
  obtain ⟨windows, rest, htiling, hcases⟩ := exists_tiling c
  refine ⟨windows, rest, htiling, readAll_eq_ok_iff.2 htiling.derivesAll, ?_⟩
  rcases hcases with ⟨rfl, hsteps⟩ | ⟨error, last, hfails⟩
  · have hread := htiling.readAll_eq
    have hcover := htiling.cover
    rw [List.append_nil] at hcover
    have hne : windows ≠ [] := by
      rintro rfl
      rw [c.drop_position] at hcover
      cases hcover
    have hlen : c.items.length - c.position = (windows.flatMap Prod.fst).length := by
      rw [← List.length_drop, hcover]
    have hlast := last_steps (fun w hw => (htiling.alone w hw).1) hne c.position
    rw [← hsteps, ← hlen, Nat.add_sub_cancel' (Nat.le_of_lt c.inBounds)] at hlast
    refine .inl ⟨rfl, hsteps, ?_, hlast⟩
    rw [hread]
    exact congrArg Except.ok (List.append_nil _)
  · refine .inr ⟨error, last, hfails, ?_⟩
    rw [htiling.readAll_eq, hfails.readAll_rest]
    rfl

end Lisplet.Reader
