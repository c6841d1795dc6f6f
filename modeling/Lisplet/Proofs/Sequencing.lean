import Lisplet.Proofs.Output
import Lisplet.Proofs.Tasks
/-!
# Programs one after another

A run evaluates form after form, each in the environment that the one before left, and the sink
takes what each of them writes. So the course of a program (`Takes`) says what a run of it does,
with echo and without (`concludes_run_iff`), and two programs in a row take their courses one after
the other (`takes_append_iff`). The host may have any extensions that only write to the sink and
that more fuel does not change.
-/

namespace Lisplet

open EvalM

/-! ## Computations on sinks that never fail -/

section Concludes

variable {α β : Type} {m : Nat → EvalM α} {env : Env} {outcome : Except RuntimeError α}

/-- With enough fuel the computation ends with `outcome` in `env'` and has written `output`, on
whatever sink that never fails. -/
def Concludes (m : Nat → EvalM α) (env : Env) (outcome : Except RuntimeError α) (env' : Env)
    (output : List UInt8) : Prop :=
  ∃ fuel, ∀ sink : Sink, sink.NeverFails →
    m fuel ⟨env, sink⟩ = some (outcome, ⟨env', { sink with written := sink.written ++ output }⟩)

/-- To end on one such sink is to end on all of them. -/
theorem concludes_of_ends {fuel : Nat} {sink : Sink} {after : State} (hm : Streams (m fuel))
    (hs : sink.NeverFails) (h : m fuel ⟨env, sink⟩ = some (outcome, after)) :
    ∃ env' output, Concludes m env outcome env' output ∧
      after = ⟨env', { sink with written := sink.written ++ output }⟩ := by
  obtain ⟨env', output, hemits⟩ := hm env sink outcome after hs h
  rw [hemits.run hs] at h
  cases h
  exact ⟨env', output, ⟨fuel, fun _ => hemits.run⟩, rfl⟩

theorem EvalM.map_run (f : α → β) (m : EvalM α) (s : State) :
    (do return f (← m)) s = (m s).map fun (outcome, after) => (f <$> outcome, after) := by
  rw [bind_run]
  rcases m s with _ | ⟨_ | _, _⟩ <;> rfl

end Concludes

/-- The line that echo writes for a value, if it is to write one. -/
def echoed (echoing : Bool) (value : Expr) : List UInt8 :=
  match echoing, value with
  | true, .number n => (Text.Decimal.ofInt n.val ++ "\n").toUTF8.data.toList
  | _, _ => []

theorem report_run (echoing : Bool) (value : Expr) (env : Env) {sink : Sink}
    (hs : sink.NeverFails) :
    report echoing value ⟨env, sink⟩ =
      some (.ok (), ⟨env, { sink with written := sink.written ++ echoed echoing value }⟩) := by
  have hsilent : (return () : EvalM Unit) ⟨env, sink⟩ =
      some (.ok (), ⟨env, { sink with written := sink.written ++ [] }⟩) := by
    rw [List.append_nil]
    rfl
  cases echoing with
  | false => exact hsilent
  | true =>
    cases value with
    | number n =>
      change write (n.text ++ "\n").toUTF8.data.toList ⟨env, sink⟩ = _
      unfold write
      rw [Sink.write_of_unlimited (Sink.neverFails_iff.1 hs).1]
      rfl
    | _ => exact hsilent

theorem runEchoing_nil (host : Host) (fuel : Nat) (echoing : Bool) (env : Env) {sink : Sink}
    (hs : sink.NeverFails) :
    runEchoing host fuel echoing [] ⟨env, sink⟩ = some (.ok [], ⟨env, sink⟩) := by
  have hflush : flush ⟨env, sink⟩ = some (.ok (), ⟨env, sink⟩) := by
    unfold flush
    rw [hs.2]
    rfl
  cases echoing with
  | true => exact bind_of_ok hflush _
  | false => exact bind_of_ok hflush _

/-- One step of a run: the form writes, echo writes, and the rest of the program runs on. -/
theorem runEchoing_cons_of_ok {host : Host} {fuel : Nat} {e value : Expr} {env mid : Env}
    {sink : Sink} {written : List UInt8} (hs : sink.NeverFails)
    (he : evalWith host fuel e ⟨env, sink⟩ =
      some (.ok value, ⟨mid, { sink with written := sink.written ++ written }⟩))
    (echoing : Bool) (program : Program) :
    runEchoing host fuel echoing (e :: program) ⟨env, sink⟩ =
      (runEchoing host fuel echoing program ⟨mid, { sink with
        written := sink.written ++ (written ++ echoed echoing value) }⟩).map
          fun (outcome, after) => ((value :: ·) <$> outcome, after) := by
  rw [runEchoing_cons, bind_of_ok he, bind_of_ok (report_run echoing value mid (hs.extend written)),
    map_run, ← List.append_assoc]

/-! ## The course of a program -/

/-- What becomes of the forms of a program, one after the other. -/
structure Course where
  /-- The value of each form that has one, and what the form itself writes. -/
  forms : List (Expr × List UInt8)
  /-- The error of the form that fails, and what the form writes before it does. -/
  failure : Option (RuntimeError × List UInt8)

namespace Course

def outcome (c : Course) : Except RuntimeError (List Expr) :=
  match c.failure with
  | none => .ok (c.forms.map Prod.fst)
  | some (e, _) => .error e

def output (echoing : Bool) (c : Course) : List UInt8 :=
  (c.forms.flatMap fun (value, written) => written ++ echoed echoing value) ++
    (c.failure.map Prod.snd).getD []

/-- The course with these forms before it. -/
def after (forms : List (Expr × List UInt8)) (c : Course) : Course := ⟨forms ++ c.forms, c.failure⟩

theorem outcome_after (forms : List (Expr × List UInt8)) (c : Course) :
    (c.after forms).outcome = (forms.map Prod.fst ++ ·) <$> c.outcome := by
  obtain ⟨more, _ | ⟨e, written⟩⟩ := c
  · simp [outcome, after]
  · rfl

theorem output_after (echoing : Bool) (forms : List (Expr × List UInt8)) (c : Course) :
    (c.after forms).output echoing = output echoing ⟨forms, none⟩ ++ c.output echoing := by
  simp [output, after]

theorem failure_ne_none_iff (c : Course) : c.failure ≠ none ↔ ∃ e, c.outcome = .error e := by
  obtain ⟨forms, _ | ⟨e, written⟩⟩ := c <;> simp [outcome]

theorem eq_of_outcome {c : Course} {values : List Expr} (h : .ok values = c.outcome) :
    ∃ forms, c = ⟨forms, none⟩ ∧ values = forms.map Prod.fst := by
  obtain ⟨forms, _ | ⟨e, written⟩⟩ := c
  · cases h
    exact ⟨forms, rfl, rfl⟩
  · cases h

end Course

/-- From `env` the program takes this course and ends in `env'`. -/
inductive Takes (host : Host) : Env → Program → Course → Env → Prop
  | nil {env : Env} : Takes host env [] ⟨[], none⟩ env
  | failed {env env' : Env} {e : Expr} {program : Program} {error : RuntimeError}
      {written : List UInt8} :
    Concludes (evalWith host · e) env (.error error) env' written →
    Takes host env (e :: program) ⟨[], some (error, written)⟩ env'
  | form {env mid env' : Env} {e value : Expr} {program : Program} {written : List UInt8}
      {c : Course} :
    Concludes (evalWith host · e) env (.ok value) mid written → Takes host mid program c env' →
    Takes host env (e :: program) (c.after [(value, written)]) env'

section Takes

variable {host : Host} {echoing : Bool} {p q program : Program} {env env' : Env} {c : Course}

/-- A run does what the course says. -/
theorem Takes.concludes (hmono : host.Monotone) (h : Takes host env program c env')
    (echoing : Bool) :
    Concludes (runEchoing host · echoing program) env c.outcome env' (c.output echoing) := by
  induction h with
  | nil =>
    refine ⟨0, fun sink hs => ?_⟩
    dsimp only
    rw [runEchoing_nil host 0 echoing _ hs]
    simp [Course.output, Course.outcome]
  | failed he =>
    obtain ⟨fuel, he⟩ := he
    refine ⟨fuel, fun sink hs => ?_⟩
    dsimp only
    rw [runEchoing_cons, bind_of_error (he sink hs)]
    rfl
  | @form _ _ _ e value program written c he _ ih =>
    obtain ⟨fuel, he⟩ := he
    obtain ⟨fuel', ih⟩ := ih
    -- The larger amount of fuel does for both.
    refine ⟨max fuel fuel', fun sink hs => ?_⟩
    have hvalue := steady_eval hmono e _ _ (Nat.le_max_left fuel fuel') _ _ (he sink hs)
    have hrest := steady_runEchoing hmono echoing program _ _ (Nat.le_max_right fuel fuel') _ _
      (ih _ (hs.extend (written ++ echoed echoing value)))
    dsimp only at hrest ⊢
    rw [runEchoing_cons_of_ok hs hvalue, hrest, Course.outcome_after, Course.output_after]
    simp [Course.output]

/-- A run that ends has taken a course. -/
theorem exists_takes (hstreams : host.Streams) {fuel : Nat} {sink : Sink}
    {outcome : Except RuntimeError (List Expr)} {after : State} (hs : sink.NeverFails)
    (h : runEchoing host fuel echoing program ⟨env, sink⟩ = some (outcome, after)) :
    ∃ c env', Takes host env program c env' ∧ outcome = c.outcome ∧
      after = ⟨env', { sink with written := sink.written ++ c.output echoing }⟩ := by
  induction program generalizing env sink outcome with
  | nil =>
    rw [runEchoing_nil host fuel echoing env hs] at h
    cases h
    exact ⟨_, _, .nil, rfl, by simp [Course.output]⟩
  | cons e program ih =>
    have heval : Streams (evalWith host fuel e) := (streams_closed hstreams).eval fuel e
    rcases bind_eq_some ((runEchoing_cons host fuel echoing e program).symm ▸ h) with
      ⟨value, mid, hvalue, -⟩ | ⟨error, herror, rfl⟩
    · obtain ⟨env', written, he, rfl⟩ :=
        concludes_of_ends (m := (evalWith host · e)) heval hs hvalue
      rw [runEchoing_cons_of_ok hs hvalue] at h
      obtain ⟨⟨outcome, after⟩, hrun, hout⟩ := Option.map_eq_some_iff.1 h
      cases hout
      obtain ⟨c, env'', hc, rfl, rfl⟩ := ih (hs.extend _) hrun
      refine ⟨_, _, .form he hc, ?_, ?_⟩
      · rw [Course.outcome_after]
        rfl
      · rw [Course.output_after]
        simp [Course.output]
    · obtain ⟨env', written, he, rfl⟩ :=
        concludes_of_ends (m := (evalWith host · e)) heval hs herror
      exact ⟨_, _, .failed he, rfl, rfl⟩

theorem concludes_run_iff (hmono : host.Monotone) (hstreams : host.Streams)
    {outcome : Except RuntimeError (List Expr)} {output : List UInt8} :
    Concludes (runEchoing host · echoing program) env outcome env' output ↔
      ∃ c, Takes host env program c env' ∧ outcome = c.outcome ∧ output = c.output echoing := by
  constructor
  · rintro ⟨fuel, h⟩
    obtain ⟨c, env'', hc, rfl, hafter⟩ :=
      exists_takes hstreams Sink.neverFails_unlimited (h _ Sink.neverFails_unlimited)
    cases hafter
    exact ⟨c, hc, rfl, rfl⟩
  · rintro ⟨c, hc, rfl, rfl⟩
    exact hc.concludes hmono echoing

theorem Takes.append {mid : Env} {d : Course} (hp : Takes host env p c mid)
    (hc : c.failure = none) (hq : Takes host mid q d env') :
    Takes host env (p ++ q) (d.after c.forms) env' := by
  induction hp with
  | nil => exact hq
  | failed _ => cases hc
  | form he _ ih => exact .form he (ih hc hq)

theorem Takes.append_of_failure (hp : Takes host env p c env') (hc : c.failure ≠ none)
    (q : Program) : Takes host env (p ++ q) c env' := by
  induction hp with
  | nil => contradiction
  | failed he => exact .failed he
  | form he _ ih => exact .form he (ih hc)

theorem takes_append_iff :
    Takes host env (p ++ q) c env' ↔
      (∃ forms mid d, Takes host env p ⟨forms, none⟩ mid ∧ Takes host mid q d env' ∧
        c = d.after forms) ∨
      Takes host env p c env' ∧ c.failure ≠ none := by
  constructor
  · intro h
    induction p generalizing env c with
    | nil => exact .inl ⟨[], env, c, .nil, h, rfl⟩
    | cons e p ih =>
      cases h with
      | failed he => exact .inr ⟨.failed he, by simp⟩
      | form he h =>
        rcases ih h with ⟨forms, mid, d, hp, hq, rfl⟩ | ⟨hp, hfailure⟩
        · exact .inl ⟨_, mid, d, .form he hp, hq, rfl⟩
        · exact .inr ⟨.form he hp, hfailure⟩
  · rintro (⟨forms, mid, d, hp, hq, rfl⟩ | ⟨hp, hfailure⟩)
    · exact hp.append rfl hq
    · exact hp.append_of_failure hfailure q

end Takes

/-! ## Runs -/

section Runs

variable {host : Host} (hmono : host.Monotone) (hstreams : host.Streams)
include hmono hstreams

theorem concludes_append_iff {echoing : Bool} {p q : Program} {env env' : Env}
    {outcome : Except RuntimeError (List Expr)} {output : List UInt8} :
    Concludes (runEchoing host · echoing (p ++ q)) env outcome env' output ↔
      (∃ values mid first rest second,
        Concludes (runEchoing host · echoing p) env (.ok values) mid first ∧
        Concludes (runEchoing host · echoing q) mid rest env' second ∧
        outcome = (values ++ ·) <$> rest ∧ output = first ++ second) ∨
      ∃ e, Concludes (runEchoing host · echoing p) env (.error e) env' output ∧
        outcome = .error e := by
  simp only [concludes_run_iff hmono hstreams, takes_append_iff]
  constructor
  · rintro ⟨c, ⟨forms, mid, d, hp, hq, rfl⟩ | ⟨hp, hfailure⟩, rfl, rfl⟩
    · exact .inl ⟨_, mid, _, _, _, ⟨_, hp, rfl, rfl⟩, ⟨d, hq, rfl, rfl⟩, d.outcome_after forms,
        d.output_after echoing forms⟩
    · obtain ⟨e, he⟩ := c.failure_ne_none_iff.1 hfailure
      exact .inr ⟨e, ⟨c, hp, he.symm, rfl⟩, he⟩
  · rintro (⟨values, mid, first, rest, second, ⟨c, hp, hc, rfl⟩, ⟨d, hq, rfl, rfl⟩, rfl, rfl⟩ |
      ⟨e, ⟨c, hp, he, rfl⟩, rfl⟩)
    · obtain ⟨forms, rfl, rfl⟩ := Course.eq_of_outcome hc
      exact ⟨d.after forms, .inl ⟨forms, mid, d, hp, hq, rfl⟩, (d.outcome_after forms).symm,
        (d.output_after echoing forms).symm⟩
    · exact ⟨c, .inr ⟨hp, c.failure_ne_none_iff.2 ⟨e, he.symm⟩⟩, he, rfl⟩

/-- Echo or no echo, the forms are the same. -/
theorem Concludes.echoing {echoing : Bool} {program : Program} {env env' : Env}
    {outcome : Except RuntimeError (List Expr)} {output : List UInt8}
    (h : Concludes (runEchoing host · echoing program) env outcome env' output) (other : Bool) :
    ∃ output', Concludes (runEchoing host · other program) env outcome env' output' := by
  obtain ⟨c, hc, rfl, -⟩ := (concludes_run_iff hmono hstreams).1 h
  exact ⟨c.output other, hc.concludes hmono other⟩

end Runs

/-- A program that cannot be read is not run. -/
theorem runSources_of_unread {sources : List String}
    (h : (∃ source ∈ sources, ∃ e, Token.tokenize source = .error e) ∨
      ∃ tokens e, Token.tokenizeAll sources = .ok tokens ∧ Reader.readProgram tokens = .error e) :
    ∃ e, ∀ fuel echoing sink,
      runSources fuel echoing sources sink = some (.error (.source e), sink) := by
  obtain ⟨e, hload⟩ : ∃ e, Reader.load sources = .error e := by
    unfold Reader.load
    rcases h with ⟨source, hm, e, he⟩ | ⟨tokens, e, ht, he⟩
    · obtain ⟨e', he'⟩ := Token.tokenizeAll_eq_error hm he
      exact ⟨e', by rw [he']; rfl⟩
    · exact ⟨e, by rw [ht]; exact he⟩
  exact ⟨e, runSources_of_error hload⟩

/-- What a run does on a sink that never fails it does on all of them. To run two programs as one is
to run the first one and then, unless it fails, the second one where the first one left off. Echo
has no part in the outcome and adds a line after each form whose value is a number. Sources that
cannot be read in full write nothing. All that is asked of the host is that its extensions only
write to the sink and that more fuel does not change what they do. -/
theorem runs_in_sequence (host : Host) (hmono : host.Monotone) (hstreams : host.Streams) :
    (∀ echoing program env sink outcome after, Sink.NeverFails sink →
      ((∃ fuel, runEchoing host fuel echoing program ⟨env, sink⟩ = some (outcome, after)) ↔
        ∃ env' output, Concludes (runEchoing host · echoing program) env outcome env' output ∧
          after = ⟨env', { sink with written := sink.written ++ output }⟩)) ∧
    (∀ echoing p q env outcome env' output,
      Concludes (runEchoing host · echoing (p ++ q)) env outcome env' output ↔
        (∃ values mid first rest second,
          Concludes (runEchoing host · echoing p) env (.ok values) mid first ∧
          Concludes (runEchoing host · echoing q) mid rest env' second ∧
          outcome = (values ++ ·) <$> rest ∧ output = first ++ second) ∨
        ∃ e, Concludes (runEchoing host · echoing p) env (.error e) env' output ∧
          outcome = .error e) ∧
    (∀ program env outcome env',
      (∃ output, Concludes (runWith host · echo program) env outcome env' output) ↔
        ∃ output, Concludes (run host · program) env outcome env' output) ∧
    (∀ echoing program env outcome env' output,
      Concludes (runEchoing host · echoing program) env outcome env' output ↔
        ∃ c, Takes host env program c env' ∧ outcome = c.outcome ∧ output = c.output echoing) ∧
    ∀ sources, ((∃ source ∈ sources, ∃ e, Token.tokenize source = .error e) ∨
        ∃ tokens e, Token.tokenizeAll sources = .ok tokens ∧
          Reader.readProgram tokens = .error e) →
      ∃ e, ∀ fuel echoing sink,
        runSources fuel echoing sources sink = some (.error (.source e), sink) := by
  refine ⟨?_, fun _ _ _ _ _ _ _ => concludes_append_iff hmono hstreams, ?_,
    fun _ _ _ _ _ _ => concludes_run_iff hmono hstreams, fun _ => runSources_of_unread⟩
  · intro echoing program env sink outcome after hs
    constructor
    · rintro ⟨fuel, hrun⟩
      exact concludes_of_ends (m := (runEchoing host · echoing program))
        ((streams_closed hstreams).runEchoing fuel echoing program streams_flush) hs hrun
    · rintro ⟨env', output, ⟨fuel, hrun⟩, rfl⟩
      exact ⟨fuel, hrun sink hs⟩
  · intro program env outcome env'
    constructor
    · rintro ⟨output, h⟩
      have h : Concludes (runEchoing host · true program) env outcome env' output := h
      exact h.echoing hmono hstreams false
    · rintro ⟨output, h⟩
      have h : Concludes (runEchoing host · false program) env outcome env' output := h
      exact h.echoing hmono hstreams true

/-- `7` and `missing`, a name that nothing is bound to. -/
def sevenMissing : Program := [.number ⟨7, by decide, by decide⟩, .symbol "missing"]

/-- What was printed comes first, then the line of the echo, and then the run fails. A form that
prints is not run when a source after it holds a stray character. -/
theorem runs_in_sequence_sevenMissing :
    (∃ env', Concludes (runEchoing .standard · true (printTwice ++ sevenMissing)) .initial
      (.error (.undefinedSymbol "missing")) env' [49, 50, 10, 49, 50, 10, 55, 10]) ∧
    ∃ e, ∀ fuel echoing sink,
      runSources fuel echoing ["(print 1)", "#"] sink = some (.error (.source e), sink) := by
  have hs := Sink.neverFails_unlimited
  have hsharp : Token.tokenize "#" = .error (.unexpectedCharacter '#' 1) :=
    Token.scan_of_none (by decide +kernel) 1 []
  obtain ⟨hends, happend, -, -, hunread⟩ :=
    runs_in_sequence .standard Host.monotone_standard Host.streams_standard
  refine ⟨?_, hunread _ (.inl ⟨"#", by simp, _, hsharp⟩)⟩
  obtain ⟨values, mid, hp, hq⟩ : ∃ values mid,
      runEchoing .standard 9 true printTwice ⟨.initial, .unlimited⟩ =
        some (.ok values, ⟨mid, ⟨none, false, [49, 50, 10, 49, 50, 10]⟩⟩) ∧
      runEchoing .standard 9 true sevenMissing ⟨mid, .unlimited⟩ =
        some (.error (.undefinedSymbol "missing"), ⟨mid, ⟨none, false, [55, 10]⟩⟩) :=
    ⟨_, _, rfl, rfl⟩
  obtain ⟨_, first, hp, hfirst⟩ := (hends _ _ _ _ _ _ hs).1 ⟨9, hp⟩
  obtain ⟨_, second, hq, hsecond⟩ := (hends _ _ _ _ _ _ hs).1 ⟨9, hq⟩
  cases hfirst
  cases hsecond
  exact ⟨mid, (happend _ _ _ _ _ _ _).2 (.inl ⟨_, _, _, _, _, hp, hq, rfl, rfl⟩)⟩

end Lisplet
