import Lisplet.Proofs.Grammar
/-!
# The parenthesis that ends a form

The reader counts no parentheses: it tries window after window. Still the window that it takes for a
form ends with the parenthesis that balances the first one, and no other window could be taken:
`readExpression_balanced`. Along a reading from left to right the parentheses that are open so far
are the depth of the nesting (`depth_of_run`), and inside a form the depth never drops to zero.
-/

namespace Lisplet.Reader

open Nesting
open Cursor (span)

/-! ## Counting parentheses -/

/-- How many opening parentheses there are. -/
def openers (tokens : List Token) : Nat := tokens.countP fun t => t.kind = .openParen

/-- As many parentheses are opened as are closed. -/
def Balanced (tokens : List Token) : Prop := openers tokens = closers tokens

instance (tokens : List Token) : Decidable (Balanced tokens) :=
  inferInstanceAs (Decidable (_ = _))

/-- At `last` the tokens from `first` on are balanced for the first time. -/
def BalancesAt (tokens : List Token) (first last : Nat) : Prop :=
  first ≤ last ∧ last < tokens.length ∧ Balanced (span tokens first last) ∧
    ∀ i < last, first ≤ i → ¬ Balanced (span tokens first i)

instance (tokens : List Token) (first last : Nat) : Decidable (BalancesAt tokens first last) :=
  inferInstanceAs (Decidable (_ ∧ _ ∧ _ ∧ ∀ i < last, first ≤ i → _))

theorem openers_append (ts us : List Token) : openers (ts ++ us) = openers ts + openers us :=
  List.countP_append

theorem openers_cons (t : Token) (ts : List Token) :
    openers (t :: ts) = openers [t] + openers ts :=
  openers_append [t] ts

theorem closers_cons (t : Token) (ts : List Token) :
    closers (t :: ts) = closers [t] + closers ts :=
  closers_append [t] ts

theorem span_position (c : Cursor Token) (k : Nat) :
    span c.items c.position (c.position + k) = c.current :: c.following.take k := by
  have hlen : c.position + k + 1 - c.position = k + 1 := by omega
  rw [span, List.drop_take, c.drop_position, hlen, List.take_succ_cons]

namespace Nesting

/-! ## The depth of a reading -/

/-- How many parentheses are open: those of the open forms, and that of a list of parameters. -/
def depth (s : Nesting) : Nat :=
  s.openings.length +
    match s.header with
    | some (_, .parameters _ _) => 1
    | _ => 0

theorem depth_add (s : Nesting) (e : Expr) : (s.add e).depth = s.depth := by
  rw [depth, depth, openings_add, header_add]

theorem depth_of_stepHeader {s next : Nesting} {opening t : Token} {hd : Header}
    (hh : s.header = some (opening, hd)) (h : s.stepHeader opening hd t = some next) :
    next.depth + closers [t] = s.depth + openers [t] := by
  unfold stepHeader at h
  split at h <;> cases h <;> simp_all [depth, openings, openers, closers]

/-- A token changes the depth by one if it is a parenthesis, and else not at all. -/
theorem depth_of_step {s next : Nesting} {t : Token} (h : s.step t = some next) :
    next.depth + closers [t] = s.depth + openers [t] := by
  unfold step at h
  split at h
  · next opening hd hh => exact depth_of_stepHeader hh h
  · next hh =>
    split at h
    · next hk =>
      obtain ⟨value, -, rfl⟩ := Option.map_eq_some_iff.1 h
      simp [depth_add, openers, closers, hk]
    · next hk =>
      cases h
      rcases stepSymbol_cases s t with ⟨opening, outer, hf, heq⟩ | heq
      · simp [heq, depth, openings, hh, hf, openers, closers, hk, Form.opening]
      · simp [heq, depth_add, openers, closers, hk]
    · next hk =>
      cases h
      simp [depth, openings, hh, openers, closers, hk]
    · next hk =>
      unfold stepClose at h
      split at h
      · cases h
      · next f outer hf =>
        obtain ⟨e, -, rfl⟩ := Option.map_eq_some_iff.1 h
        rw [depth_add]
        simp [depth, openings, hh, hf, openers, closers, hk]
    · cases h

theorem depth_of_run {s last : Nesting} {ts : List Token} (h : s.run ts = .ended last) :
    last.depth + closers ts = s.depth + openers ts := by
  induction ts generalizing s with
  | nil =>
    cases h
    rfl
  | cons t ts ih =>
    cases hs : s.step t with
    | none =>
      rw [run_cons_of_defect hs] at h
      cases h
    | some next =>
      rw [run_cons_of_step hs] at h
      have hstep := depth_of_step hs
      have hrest := ih h
      rw [openers_cons, closers_cons]
      omega

/-- A reading that leaves all forms has read an expression. -/
theorem top_of_run {s next : Nesting} {ts : List Token} (h : s.run ts = .ended next)
    (hs : s.openings ≠ []) (hn : next.openings = []) : next.top ≠ [] := by
  rcases List.eq_nil_or_concat ts with rfl | ⟨before, t, rfl⟩
  · cases h
    exact absurd hn hs
  · rw [List.concat_eq_append] at h
    obtain ⟨mid, -, hlast⟩ := run_of_append_ended h
    cases hstep : mid.step t with
    | none =>
      rw [run_cons_of_defect hstep] at hlast
      cases hlast
    | some last =>
      rw [run_cons_of_step hstep] at hlast
      cases hlast
      exact top_of_step hstep hn

end Nesting

/-! ## Derived windows -/

section Derived

variable {first : Token} {rest : List Token} {e : Expr}

/-- A derived form is read up to the `)` that completes it. -/
theorem Derives.exists_completed (h : Derives (first :: rest) e) (hf : first.kind = .openParen) :
    ∃ inner closing s, rest = inner ++ [closing] ∧ closing.kind = .closeParen ∧
      (start.within (.call first [])).run inner = .ended s ∧ s.top = [] ∧
      s.completed? = some e := by
  cases h with
  | number hk _ => simp [hf] at hk
  | symbol hk => simp [hf] at hk
  | @call _ second closing tokens callee arguments _ hs hi hc =>
    have hrun := hi.run (s := start.within (.call first [])) rfl (by simp [Fresh, hs])
    exact ⟨second :: tokens, closing, _, rfl, hc, hrun, rfl, rfl⟩
  | @function _ keyword name po pc closing params tokens body _ hk hn hpo hp hpc hb hc =>
    let opened := start.within (.definition first name.text (params.map Token.text) [])
    have hbody : opened.run tokens = .ended (opened.add body) :=
      hb.run rfl (by simp [Fresh, opened, start, within])
    have hrun : (start.within (.call first [])).run
        (keyword :: name :: po :: (params ++ pc :: tokens)) = .ended (opened.add body) :=
      (run_header hk hn hpo hp hpc tokens).trans hbody
    exact ⟨_, closing, _, by simp, hc, hrun, rfl, rfl⟩

/-- The window of a derived expression is taken, whatever follows. -/
theorem widen_of_derives (h : Derives (first :: rest) e) (after : List Token) :
    widen readAll first (rest ++ after) 0 = (rest.length, .ok e) := by
  by_cases hf : first.kind = .openParen
  · obtain ⟨inner, closing, s, rfl, hc, hr, ht, he⟩ := h.exists_completed hf
    rw [List.append_assoc, List.length_append]
    exact widen_of_completed hf (fun us _ => readAll_eq_verdict us) hr ht hc he
  · cases h with
    | number hk hv => exact widen_of_some (by simp [matchWindow, atom, hk, hv])
    | symbol hk => exact widen_of_some (by simp [matchWindow, atom, hk])
    | call ho => exact absurd ho hf
    | function ho => exact absurd ho hf

theorem matchWindow_eq_some_iff : matchWindow readAll (first :: rest) = .ok (some e) ↔
    Derives (first :: rest) e := by
  constructor
  · exact derives_of_matchWindow fun inner _ es => derivesAll_of_readAll
  · intro h
    have hw := widen_of_derives h []
    rw [List.append_nil] at hw
    simpa using matchWindow_of_widen hw

theorem widen_le (read : Reading) (first : Token) {i : Nat} (hi : i ≤ rest.length) :
    (widen read first rest i).1 ≤ rest.length := by
  fun_induction widen read first rest i with
  | case1 | case2 | case4 => exact hi
  | case3 i _ hlt ih => exact ih hlt

/-- One expression is read exactly where one is derived. -/
theorem widen_eq_ok_iff {k : Nat} : widen readAll first rest 0 = (k, .ok e) ↔
    k ≤ rest.length ∧ Derives (first :: rest.take k) e := by
  constructor
  · intro h
    have hk := widen_le readAll first (Nat.zero_le rest.length)
    rw [h] at hk
    exact ⟨hk, matchWindow_eq_some_iff.1 (matchWindow_of_widen h)⟩
  · rintro ⟨hk, h⟩
    have hw := widen_of_derives h (rest.drop k)
    rwa [List.take_append_drop, List.length_take, Nat.min_eq_left hk] at hw

theorem Derives.balanced {ts : List Token} (h : Derives ts e) : Balanced ts := by
  have hrun := h.run (s := start) rfl (by simp [Fresh, start])
  have hdepth := depth_of_run hrun
  rw [depth_add] at hdepth
  exact (Nat.add_left_cancel hdepth).symm

/-- Inside a form its first parenthesis is always open. -/
theorem Derives.closers_lt_openers (h : Derives (first :: rest) e) (hf : first.kind = .openParen)
    {before : List Token} (hb : before <+: rest) (hlt : before.length < rest.length) :
    closers (first :: before) < openers (first :: before) := by
  obtain ⟨inner, closing, s, rfl, -, hr, ht, -⟩ := h.exists_completed hf
  obtain ⟨more, rfl⟩ : before <+: inner := by
    refine List.prefix_of_prefix_length_le hb (List.prefix_append inner [closing]) ?_
    simpa using Nat.le_of_lt_succ (by simpa using hlt)
  obtain ⟨mid, hmid, hmore⟩ := run_of_append_ended hr
  have hopen : mid.openings ≠ [] := by
    intro hnil
    -- Then an expression would be read by now, and it would still be there at the end.
    obtain ⟨es, hes⟩ := top_run mid more
    rw [hmore, Outcome.state, ht] at hes
    exact top_of_run hmid (by simp [start, within, openings]) hnil
      (List.append_eq_nil_iff.1 hes.symm).1
  have hpos : 0 < mid.openings.length := List.length_pos_iff.2 hopen
  have hdepth := depth_of_run hmid
  have hone : (start.within (.call first [])).depth = 1 := rfl
  have hle : mid.openings.length ≤ mid.depth := Nat.le_add_right _ _
  have ho : openers [first] = 1 := by simp [openers, hf]
  have hc : closers [first] = 0 := by simp [closers, hf]
  rw [openers_cons, closers_cons, ho, hc]
  omega

end Derived

/-! ## The window that is taken -/

theorem matchWindow_span {c : Cursor Token} {k : Nat} {e : Expr} :
    matchWindow readAll (span c.items c.position (c.position + k)) = .ok (some e) ↔
      Derives (c.current :: c.following.take k) e := by
  rw [span_position]
  exact matchWindow_eq_some_iff

/-- A form ends where its parentheses balance. -/
theorem balancesAt_of_derives {c : Cursor Token} (hc : c.current.kind = .openParen) {k : Nat}
    (hk : c.position + k < c.items.length) {e : Expr}
    (hd : Derives (c.current :: c.following.take k) e) :
    BalancesAt c.items c.position (c.position + k) := by
  refine ⟨Nat.le_add_right _ _, hk, ?_, fun i hi hle => ?_⟩
  · rw [span_position]
    exact hd.balanced
  · obtain ⟨j, rfl⟩ := Nat.exists_eq_add_of_le hle
    have hjk : j < k := Nat.lt_of_add_lt_add_left hi
    have hle : k ≤ c.following.length := Cursor.position_add_lt_iff.1 hk
    have hlt := hd.closers_lt_openers hc (List.take_prefix_take_left (Nat.le_of_lt hjk))
      (by simp only [List.length_take]; omega)
    rw [span_position]
    exact Nat.ne_of_gt hlt

/-- The cursor is moved as far as the last window reaches. -/
theorem readExpression_of_widen {c : Cursor Token} {k : Nat} {r : Except SourceError Expr}
    (h : widen readAll c.current c.following 0 = (k, r)) :
    ∃ hk : c.position + k < c.items.length,
      readExpression c = (r, ⟨c.items, c.position + k, hk⟩) := by
  have hk := widen_le readAll c.current (Nat.zero_le c.following.length)
  rw [h] at hk
  have hlt := Cursor.position_add_lt_iff.2 hk
  refine ⟨hlt, ?_⟩
  rw [readExpression, h, Cursor.advance_eq hlt]

theorem readExpression_eq_ok_iff {c after : Cursor Token} {e : Expr} :
    readExpression c = (.ok e, after) ↔ ∃ k, after.items = c.items ∧
      after.position = c.position + k ∧ Derives (c.current :: c.following.take k) e := by
  obtain ⟨k, r, hw⟩ : ∃ k r, widen readAll c.current c.following 0 = (k, r) := ⟨_, _, rfl⟩
  obtain ⟨hk, hread⟩ := readExpression_of_widen hw
  constructor
  · intro h
    rw [hread] at h
    cases h
    exact ⟨k, rfl, rfl, (widen_eq_ok_iff.1 hw).2⟩
  · obtain ⟨items, position, hp⟩ := after
    rintro ⟨j, rfl, rfl, hd⟩
    have hj := widen_eq_ok_iff.2 ⟨Cursor.position_add_lt_iff.1 hp, hd⟩
    rw [hw] at hj
    cases hj
    exact hread

/-- From a `(` on, an expression is read exactly if the window up to the parenthesis that balances
the `(` is one, and then the cursor is left on that parenthesis. If there is no such parenthesis, or
the window up to it is no expression, then none is read: no window that ends elsewhere is an
expression. -/
theorem readExpression_balanced (c : Cursor Token) (hc : c.current.kind = .openParen) :
    (∀ e after, readExpression c = (.ok e, after) ↔
      after.items = c.items ∧ BalancesAt c.items c.position after.position ∧
        matchWindow readAll (span c.items c.position after.position) = .ok (some e)) ∧
    ((∀ last, BalancesAt c.items c.position last →
        ∀ e, matchWindow readAll (span c.items c.position last) ≠ .ok (some e)) →
      ∃ error after, readExpression c = (.error error, after)) ∧
    ∀ i, c.position ≤ i → i < c.items.length → ¬ BalancesAt c.items c.position i →
      ∀ e, matchWindow readAll (span c.items c.position i) ≠ .ok (some e) := by
  have hok : ∀ e after, readExpression c = (.ok e, after) ↔
      after.items = c.items ∧ BalancesAt c.items c.position after.position ∧
        matchWindow readAll (span c.items c.position after.position) = .ok (some e) := by
    intro e after
    constructor
    · intro h
      obtain ⟨k, hitems, hpos, hd⟩ := readExpression_eq_ok_iff.1 h
      have hlt := after.inBounds
      rw [hitems, hpos] at hlt
      rw [hpos]
      exact ⟨hitems, balancesAt_of_derives hc hlt hd, matchWindow_span.2 hd⟩
    · rintro ⟨hitems, hb, hm⟩
      obtain ⟨k, hpos⟩ := Nat.exists_eq_add_of_le hb.1
      rw [hpos] at hm
      exact readExpression_eq_ok_iff.2 ⟨k, hitems, hpos, matchWindow_span.1 hm⟩
  refine ⟨hok, fun hnone => ?_, fun i hle hlt hnot e h => ?_⟩
  · cases hr : readExpression c with
    | mk r after =>
      cases r with
      | error error => exact ⟨error, after, rfl⟩
      | ok e =>
        obtain ⟨-, hb, hm⟩ := (hok e after).1 hr
        exact absurd hm (hnone _ hb e)
  · obtain ⟨k, rfl⟩ := Nat.exists_eq_add_of_le hle
    exact hnot (balancesAt_of_derives hc hlt (matchWindow_span.1 h))

/-- `(f 1)` between two tokens that belong to other forms. -/
def callInside : Cursor Token :=
  ⟨⟨.openParen, "", 1⟩ :: (callTokens ++ [⟨.closeParen, "", 2⟩]), 1, by decide⟩

theorem readExpression_balanced_callInside :
    callInside.current.kind = .openParen ∧ BalancesAt callInside.items 1 4 ∧
      readExpression callInside =
        (.ok (.call (.symbol "f") [.number .one]), ⟨callInside.items, 4, by decide⟩) := by
  have hc : callInside.current.kind = .openParen := rfl
  have hb : BalancesAt callInside.items 1 4 := by decide
  have hm : matchWindow readAll (span callInside.items 1 4) =
      .ok (some (.call (.symbol "f") [.number .one])) :=
    matchWindow_eq_some_iff.2 derives_callTokens
  exact ⟨hc, hb, ((readExpression_balanced callInside hc).1 _ _).2 ⟨rfl, hb, hm⟩⟩

end Lisplet.Reader
