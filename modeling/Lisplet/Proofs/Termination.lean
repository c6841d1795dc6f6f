import Mathlib.Data.List.Infix
import Mathlib.Data.List.MinMax
import Lisplet.Proofs.Balance
import Lisplet.Proofs.Layout
import Lisplet.Proofs.Tasks
/-!
# Programs that always end

Evaluation recurses into the parts of a call and into the body of the function that is called. A
body that is no call ends at once. So if no function of a program has a call for its body, then the
recursion is no deeper than the parentheses of the text are nested, at two levels for each of them:
`runSources_ends`. This holds whatever functions a name is bound to when it is called, because every
function that is ever bound stands in the program.
-/

namespace Lisplet

/-! ## Nested calls -/

namespace Expr

mutual

/-- How deep calls are nested in the expression. The body of a definition is evaluated only when the
function is called, so it does not count. -/
def callDepth : Expr → Nat
  | call callee arguments => max callee.callDepth (callDepths arguments) + 1
  | _ => 0

/-- The greatest depth of the expressions. -/
def callDepths : List Expr → Nat
  | [] => 0
  | e :: es => max e.callDepth (callDepths es)

end

theorem callDepth_le_callDepths {e : Expr} {es : List Expr} (h : e ∈ es) :
    e.callDepth ≤ callDepths es := by
  induction h with
  | head es => exact Nat.le_max_left _ _
  | tail first _ ih => exact ih.trans (Nat.le_max_right _ _)

end Expr

/-! ## Evaluation -/

open EvalM

namespace EvalM

variable {α β : Type}

/-- The computation has an outcome in this state. -/
def Finishes (m : EvalM α) (s : State) : Prop := ∃ r, m s = some r

/-- Fuel does not matter to a computation without recursion. -/
theorem finishes_of_halts {m : EvalM α} {s : State} (h : Halts (fun _ => m) s) : m.Finishes s := by
  obtain ⟨_, r, hr⟩ := h
  exact ⟨r, hr⟩

theorem Finishes.bind {m : EvalM α} {f : α → EvalM β} {s : State} (hm : m.Finishes s)
    (hf : ∀ a mid, m s = some (.ok a, mid) → (f a).Finishes mid) : (m >>= f).Finishes s := by
  obtain ⟨⟨outcome, mid⟩, hfirst⟩ := hm
  cases outcome with
  | error e => exact ⟨_, bind_of_error hfirst f⟩
  | ok a =>
    obtain ⟨r, hr⟩ := hf a mid hfirst
    exact ⟨r, (bind_of_ok hfirst f).trans hr⟩

end EvalM

/-- No function of the program has a call for its body. -/
def Program.NoCallBodies (program : Program) : Prop :=
  ∀ name parameters body, (Expr.function name parameters body).OccursIn program →
    body.isCall = false

section Evaluation

variable {program : Program} {host : Host} {fuel : Nat}

/-- What is no call is evaluated without recursion. -/
theorem finishes_eval_of_not_isCall {e : Expr} (h : e.isCall = false) (s : State) :
    (evalWith host (fuel + 1) e).Finishes s := by
  cases e with
  | call callee arguments => cases h
  | symbol name => exact finishes_of_halts (halts_lookup name s)
  | _ => exact ⟨_, rfl⟩

theorem finishes_invoke {body : Expr} (h : body.isCall = false) (name : String)
    (parameters : List String) (values : List Expr) (s : State) :
    (invoke (evalWith host (fuel + 1)) name parameters body values).Finishes s := by
  unfold invoke
  split
  · exact ⟨_, rfl⟩
  · rw [if_neg (by simp [h])]
    exact finishes_eval_of_not_isCall h s

theorem finishes_evalAll (hp : ∀ e ∈ program, e.expressible = true) {es : List Expr}
    (hes : ∀ e ∈ es, e.OccursIn program)
    (heval : ∀ e ∈ es, ∀ s, Regular program False s → (evalWith host fuel e).Finishes s)
    {s : State} (hs : Regular program False s) :
    (evalAll (evalWith host fuel) es).Finishes s := by
  induction es generalizing s with
  | nil => exact ⟨_, rfl⟩
  | cons e es ih =>
    obtain ⟨he, hes⟩ := List.forall_mem_cons.1 hes
    obtain ⟨hfirst, hrest⟩ := List.forall_mem_cons.1 heval
    unfold evalAll
    rw [List.mapM_cons]
    refine (hfirst s hs).bind fun value mid hvalue => ?_
    obtain ⟨hmid, -⟩ := (regular_rules host hp False).eval fuel he s _ mid hs hvalue
    exact (ih hes hrest hmid).bind fun _ _ _ => ⟨_, rfl⟩

/-- A call adds one level to what its arguments need, and a body that is no call needs no more. -/
theorem finishes_call (hp : ∀ e ∈ program, e.expressible = true) (hb : program.NoCallBodies)
    {target : Expr} (ht : Originates program target) {arguments : List Expr}
    (ha : ∀ a ∈ arguments, a.OccursIn program)
    (heval : ∀ a ∈ arguments, ∀ s, Regular program False s →
      (evalWith host (fuel + 1) a).Finishes s)
    {s : State} (hs : Regular program False s) :
    (callWith host (fuel + 2) target arguments).Finishes s := by
  have hvalues := finishes_evalAll hp ha heval hs
  cases ht with
  | number value => exact ⟨_, rfl⟩
  | void => exact ⟨_, rfl⟩
  | primitive p =>
    refine hvalues.bind fun values mid _ => ?_
    unfold applyBuiltIn
    split
    · exact finishes_of_halts (halts_primitive p values mid)
    · exact ⟨_, rfl⟩
  | function hf =>
    exact hvalues.bind fun values mid _ => finishes_invoke (hb _ _ _ hf) _ _ values mid

theorem finishes_eval (hp : ∀ e ∈ program, e.expressible = true) (hb : program.NoCallBodies)
    {depth : Nat} {e : Expr} (he : e.OccursIn program) (hdepth : e.callDepth ≤ depth)
    (hfuel : 2 * depth + 1 ≤ fuel) {s : State} (hs : Regular program False s) :
    (evalWith host fuel e).Finishes s := by
  -- By induction on the depth and not on the expression: what is called is the value of the callee,
  -- which is no part of the expression. It comes from the program, so its body is no call.
  induction depth generalizing e fuel s with
  | zero =>
    obtain ⟨fuel, rfl⟩ := Nat.exists_eq_add_of_le' hfuel
    cases e with
    | call callee arguments => simp [Expr.callDepth] at hdepth
    | _ => exact finishes_eval_of_not_isCall rfl s
  | succ depth ih =>
    obtain ⟨fuel, rfl⟩ : ∃ less, fuel = less + 3 := ⟨fuel - 3, by omega⟩
    cases e with
    | call callee arguments =>
      rw [Expr.callDepth, Nat.add_le_add_iff_right, Nat.max_le] at hdepth
      have hcallee := (Expr.Occurs.callee .refl).transIn he
      have harguments : ∀ a ∈ arguments, a.OccursIn program :=
        fun a ha => (Expr.Occurs.argument ha .refl).transIn he
      rw [evalWith]
      refine (ih hcallee hdepth.1 (by omega) hs).bind fun target mid htarget => ?_
      obtain ⟨hmid, hvalue⟩ :=
        (regular_rules host hp False).eval (fuel + 2) hcallee s _ mid hs htarget
      refine finishes_call hp hb hvalue harguments (fun a ha s' hs' => ?_) hmid
      exact ih (harguments a ha) ((Expr.callDepth_le_callDepths ha).trans hdepth.2) (by omega) hs'
    | _ => exact finishes_eval_of_not_isCall rfl s

theorem finishes_runEchoing (hp : ∀ e ∈ program, e.expressible = true) (hb : program.NoCallBodies)
    (echoing : Bool) {rest : Program} (hrest : ∀ e ∈ rest, e.OccursIn program)
    (hfuel : 2 * Expr.callDepths rest + 1 ≤ fuel) {s : State} (hs : Regular program False s) :
    (runEchoing host fuel echoing rest).Finishes s := by
  induction rest generalizing s with
  | nil =>
    have hflush : (do flush; return ([] : List Expr) : EvalM (List Expr)).Finishes s :=
      Finishes.bind ⟨_, rfl⟩ fun _ _ _ => ⟨_, rfl⟩
    cases echoing with
    | true => exact hflush
    | false => exact hflush
  | cons e rest ih =>
    obtain ⟨he, hrest⟩ := List.forall_mem_cons.1 hrest
    have hrules := regular_rules host hp False
    have hdepth : Expr.callDepths (e :: rest) = max e.callDepth (Expr.callDepths rest) := by
      rw [Expr.callDepths]
    rw [runEchoing_cons]
    refine (finishes_eval hp hb he le_rfl (by omega) hs).bind fun value mid hvalue => ?_
    obtain ⟨hmid, hv⟩ := hrules.eval fuel he s _ mid hs hvalue
    refine (finishes_of_halts (halts_report echoing value mid)).bind fun _ after hreport => ?_
    obtain ⟨hafter, -⟩ := hrules.report hv echoing mid _ after hmid hreport
    exact (ih hrest (by omega) hafter).bind fun _ _ _ => ⟨_, rfl⟩

end Evaluation

/-! ## Nested parentheses -/

/-- How deep the parentheses of the text are nested: the greatest number of them that are open at
one time. -/
def Text.nesting (text : List Char) : Nat :=
  (text.inits.map fun before => before.count '(' - before.count ')').foldr max 0

theorem Text.count_le_nesting {before text : List Char} (h : before <+: text) :
    before.count '(' ≤ before.count ')' + nesting text := by
  have hmem : before.count '(' - before.count ')' ∈
      text.inits.map fun before => before.count '(' - before.count ')' :=
    List.mem_map_of_mem ((List.mem_inits before text).2 h)
  have hle : before.count '(' - before.count ')' ≤ nesting text := List.le_max_of_le' 0 hmem le_rfl
  omega

namespace Reader

open Text Token TokenKind

theorem not_mem_of_isLexeme {kind kind' : TokenKind} {lexeme : List Char}
    (h : IsLexeme kind lexeme) {c : Char} (hc : ofFirst? c = some kind') (hne : kind ≠ kind')
    (hcontinues : kind.continues c = false) : c ∉ lexeme := by
  obtain ⟨first, rest, rfl, hfirst, -, hrest⟩ := h.exists_cons
  intro hmem
  rcases List.mem_cons.1 hmem with rfl | hmem
  · rw [hfirst, Option.some.injEq] at hc
    exact hne hc
  · rw [hrest c hmem] at hcontinues
    cases hcontinues

/-- Only the lexeme of a parenthesis holds one. -/
theorem count_paren_of_isLexeme {kind : TokenKind} {lexeme : List Char} (h : IsLexeme kind lexeme)
    (text : String) (line : Nat) :
    lexeme.count '(' = openers [⟨kind, text, line⟩] ∧
      lexeme.count ')' = closers [⟨kind, text, line⟩] := by
  obtain ⟨hopen, hclose⟩ := ofFirst?_paren
  cases kind with
  | openParen =>
    cases h
    exact ⟨rfl, rfl⟩
  | closeParen =>
    cases h
    exact ⟨rfl, rfl⟩
  | symbol =>
    exact ⟨List.count_eq_zero.2 (not_mem_of_isLexeme h hopen (by decide) (by decide +kernel)),
      List.count_eq_zero.2 (not_mem_of_isLexeme h hclose (by decide) (by decide +kernel))⟩
  | number =>
    exact ⟨List.count_eq_zero.2 (not_mem_of_isLexeme h hopen (by decide) (by decide)),
      List.count_eq_zero.2 (not_mem_of_isLexeme h hclose (by decide) (by decide))⟩
  | whitespace => cases h

/-- After some of the tokens as many parentheses have been opened and closed as after some of the
text, and after all of them as after all of it. -/
theorem exists_prefix_of_scan {line : Nat} {text : List Char} {tokens : List Token}
    (h : scan line text = .ok tokens) {before : List Token} (hb : before <+: tokens) :
    ∃ p, p <+: text ∧ p.count '(' = openers before ∧ p.count ')' = closers before ∧
      (before = tokens → p = text) := by
  induction text using scan_induction generalizing line tokens before with
  | nil =>
    rw [scan_nil] at h
    cases h
    obtain rfl := List.prefix_nil.1 hb
    exact ⟨[], List.prefix_rfl, rfl, rfl, fun _ => rfl⟩
  | refused c text hc =>
    rw [scan_of_none hc] at h
    cases h
  | blank c text hc ih =>
    rw [scan_blank hc] at h
    obtain ⟨p, hp, hopen, hclose, hall⟩ := ih h hb
    have ho : c ≠ '(' := by rintro rfl; cases hc
    have hcl : c ≠ ')' := by rintro rfl; cases hc
    refine ⟨c :: p, List.cons_prefix_cons.2 ⟨rfl, hp⟩, ?_, ?_, fun heq => by rw [hall heq]⟩
    · rw [List.count_cons_of_ne ho, hopen]
    · rw [List.count_cons_of_ne hcl, hclose]
  | lexeme c text kind hc hk ih =>
    obtain ⟨more, hmore, rfl⟩ := scan_of_kind_eq_ok hc hk h
    rcases List.prefix_cons_iff.1 hb with rfl | ⟨before, rfl, hbefore⟩
    · exact ⟨[], List.nil_prefix, rfl, rfl, nofun⟩
    · obtain ⟨p, hp, hopen, hclose, hall⟩ := ih hmore hbefore
      have hlexeme : IsLexeme kind (c :: text.takeWhile kind.continues) :=
        isLexeme_cons_iff.2 ⟨hc, hk, fun d hd => List.mem_takeWhile_imp hd⟩
      obtain ⟨hfirst, hfirst'⟩ := count_paren_of_isLexeme hlexeme
        (kind.keep (c :: text.takeWhile kind.continues)) line
      have htext : c :: text =
          (c :: text.takeWhile kind.continues) ++ text.dropWhile kind.continues := by simp
      refine ⟨(c :: text.takeWhile kind.continues) ++ p, ?_, ?_, ?_, fun heq => ?_⟩
      · rw [htext]
        exact (List.prefix_append_right_inj _).2 hp
      · rw [List.count_append, hfirst, hopen, openers_cons _ before]
      · rw [List.count_append, hfirst', hclose, closers_cons _ before]
      · rw [hall (List.cons.inj heq).2, ← htext]

theorem exists_prefix_of_tokenizeAll {sources : List String} {tokens : List Token}
    (h : tokenizeAll sources = .ok tokens) {before : List Token} (hb : before <+: tokens) :
    ∃ p, p <+: sources.flatMap String.toList ∧ p.count '(' = openers before ∧
      p.count ')' = closers before := by
  induction sources generalizing tokens before with
  | nil =>
    cases h
    obtain rfl := List.prefix_nil.1 hb
    exact ⟨[], List.prefix_rfl, rfl, rfl⟩
  | cons source sources ih =>
    obtain ⟨first, more, hfirst, hmore, rfl⟩ := tokenizeAll_cons_eq_ok h
    rw [List.flatMap_cons]
    obtain ⟨after, hafter⟩ := hb
    rcases List.append_eq_append_iff.1 hafter with ⟨between, rfl, -⟩ | ⟨before, rfl, rfl⟩
    · obtain ⟨p, hp, hopen, hclose, -⟩ := exists_prefix_of_scan hfirst (List.prefix_append _ _)
      exact ⟨p, hp.trans (List.prefix_append _ _), hopen, hclose⟩
    · obtain ⟨p, -, hopen, hclose, hall⟩ := exists_prefix_of_scan hfirst List.prefix_rfl
      obtain rfl := hall rfl
      obtain ⟨p, hp, hopen', hclose'⟩ := ih hmore (List.prefix_append _ _)
      refine ⟨source.toList ++ p, (List.prefix_append_right_inj _).2 hp, ?_, ?_⟩
      · rw [List.count_append, hopen, hopen', openers_append]
      · rw [List.count_append, hclose, hclose', closers_append]

mutual

/-- Somewhere in the tokens of an expression as many parentheses are open as calls are nested. -/
theorem Derives.exists_nested {ts : List Token} {e : Expr} : Derives ts e →
    ∃ before, before <+: ts ∧ closers before + e.callDepth ≤ openers before
  | .number _ _ => ⟨[], List.nil_prefix, Nat.le_refl 0⟩
  | .symbol _ => ⟨[], List.nil_prefix, Nat.le_refl 0⟩
  | .function .. => ⟨[], List.nil_prefix, Nat.le_refl 0⟩
  | @Derives.call opening _ _ _ _ _ ho _ hi _ => by
    obtain ⟨before, hb, hle⟩ := hi.exists_nested
    have hopen : openers [opening] = 1 := by simp [openers, ho]
    have hclose : closers [opening] = 0 := by simp [closers, ho]
    refine ⟨opening :: before, List.cons_prefix_cons.2 ⟨rfl, hb.trans (List.prefix_append _ _)⟩, ?_⟩
    rw [Expr.callDepths] at hle
    rw [openers_cons, closers_cons, hopen, hclose, Expr.callDepth]
    omega

theorem DerivesAll.exists_nested {ts : List Token} {es : List Expr} : DerivesAll ts es →
    ∃ before, before <+: ts ∧ closers before + Expr.callDepths es ≤ openers before
  | .nil => ⟨[], List.nil_prefix, Nat.le_refl 0⟩
  | @DerivesAll.cons ts us e es h hs => by
    rw [Expr.callDepths]
    rcases Nat.le_total e.callDepth (Expr.callDepths es) with hmax | hmax
    · -- The deepest call comes later, and before that all parentheses are closed again.
      obtain ⟨before, hb, hle⟩ := hs.exists_nested
      have hbalanced : openers ts = closers ts := h.balanced
      refine ⟨ts ++ before, (List.prefix_append_right_inj ts).2 hb, ?_⟩
      rw [Nat.max_eq_right hmax, openers_append, closers_append]
      omega
    · obtain ⟨before, hb, hle⟩ := h.exists_nested
      refine ⟨before, hb.trans (List.prefix_append _ _), ?_⟩
      rwa [Nat.max_eq_left hmax]

end

/-- Calls are nested no deeper than parentheses. -/
theorem callDepths_le_nesting {sources : List String} {program : Program}
    (h : load sources = .ok program) :
    Expr.callDepths program ≤ nesting (sources.flatMap String.toList) := by
  obtain ⟨-, tokens, htokens, hderives⟩ := load_eq_ok_iff.1 h
  obtain ⟨before, hb, hle⟩ := hderives.exists_nested
  obtain ⟨p, hp, hopen, hclose⟩ := exists_prefix_of_tokenizeAll htokens hb
  have hcount := count_le_nesting hp
  omega

end Reader

/-- If no function of a program has a call for its body, then its run ends, with results or with an
error. The recursion of the evaluator is at most two levels for each level of parentheses in the
text, and one more. -/
theorem runSources_ends (sources : List String)
    (hbodies : ∀ program, Reader.load sources = .ok program → program.NoCallBodies)
    (echoing : Bool) (sink : Sink) :
    ∃ outcome after, ∀ fuel, 2 * Text.nesting (sources.flatMap String.toList) + 1 ≤ fuel →
      runSources fuel echoing sources sink = some (outcome, after) := by
  suffices h : ∃ outcome after, runSources
      (2 * Text.nesting (sources.flatMap String.toList) + 1) echoing sources sink =
        some (outcome, after) by
    obtain ⟨outcome, after, hrun⟩ := h
    exact ⟨outcome, after, fun fuel hfuel => runSources_mono hfuel hrun⟩
  cases hload : Reader.load sources with
  | error e => exact ⟨_, _, runSources_of_error hload _ echoing sink⟩
  | ok program =>
    have hdepth := Reader.callDepths_le_nesting hload
    obtain ⟨r, hrun⟩ : (runEchoing .empty _ echoing program).Finishes ⟨.initial, sink⟩ :=
      finishes_runEchoing (Reader.expressible_of_load hload) (hbodies program hload) echoing
        (fun e he => ⟨e, he, .refl⟩) (Nat.add_le_add_right (Nat.mul_le_mul_left 2 hdepth) 1)
        (sound_run program echoing sink).regular
    rw [runSources_of_load hload, hrun]
    exact ⟨_, _, rfl⟩

/-- `(function self (x) self)` and `((self (function self (x) 1)) 0)`: while the arguments of `self`
are evaluated, its name is bound anew, and what it returns is the other function. -/
def replaceItself : Program :=
  [.function "self" ["x"] (.symbol "self"),
   .call (.call (.symbol "self") [.function "self" ["x"] (.number .one)]) [.number .zero]]

theorem noCallBodies_replaceItself : replaceItself.NoCallBodies := by
  rintro name parameters body ⟨e, he, hoccurs⟩
  simp only [replaceItself, List.mem_cons, List.not_mem_nil, or_false] at he
  rcases he with rfl | rfl
  · cases hoccurs with
    | refl => rfl
    | body h => cases h
  · cases hoccurs with
    | callee h =>
      cases h with
      | callee h => cases h
      | argument hx h =>
        obtain rfl := List.mem_singleton.1 hx
        cases h with
        | refl => rfl
        | body h => cases h
    | argument hx h =>
      obtain rfl := List.mem_singleton.1 hx
      cases h

theorem runSources_ends_replaceItself :
    Reader.load (replaceItself.map Expr.text) = .ok replaceItself ∧
      Text.nesting ((replaceItself.map Expr.text).flatMap String.toList) = 4 ∧
      ∃ outcome after, runSources 9 true (replaceItself.map Expr.text) .unlimited =
        some (outcome, after) := by
  have hload : Reader.load (replaceItself.map Expr.text) = .ok replaceItself :=
    Reader.load_text (by simp [replaceItself]) (by decide +kernel)
  have hnesting : Text.nesting ((replaceItself.map Expr.text).flatMap String.toList) = 4 := by
    decide +kernel
  have hbodies : ∀ program, Reader.load (replaceItself.map Expr.text) = .ok program →
      program.NoCallBodies := by
    intro program h
    rw [hload, Except.ok.injEq] at h
    exact h ▸ noCallBodies_replaceItself
  obtain ⟨outcome, after, hrun⟩ := runSources_ends _ hbodies true .unlimited
  exact ⟨hload, hnesting, outcome, after, hrun 9 (by rw [hnesting])⟩

end Lisplet
