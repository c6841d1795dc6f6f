import Lisplet.Proofs.Evaluation
import Lisplet.Proofs.Fuel
import Lisplet.Proofs.RoundTrip
/-!
# Output and the sink

Evaluation acts on a sink as if it wrote all its output at once, at the end: if that write fits, the
outcome is the one that the sink has no part in, and if not, the sink takes what fits and the
evaluation fails for it (`Emits`). Extensions may do no more to a sink than that (`Host.Streams`).
So a limited sink holds a first part of what an unlimited one would hold, and what a sink holds from
before does not matter: `runsTo_sink`.
-/

namespace Lisplet

open EvalM

/-! ## Computations -/

section Emits

variable {α β : Type}

/-- From `env` the computation writes `output`, in whatever parts, and ends with `outcome` in
`env'`; on a sink that does not take all of the output it ends where the sink fails. -/
def Emits (m : EvalM α) (env : Env) (outcome : Except RuntimeError α) (env' : Env)
    (output : List UInt8) : Prop :=
  ∀ sink : Sink, sink.flushFails = false →
    match sink.write output with
    | (.ok (), after) => m ⟨env, sink⟩ = some (outcome, ⟨env', after⟩)
    | (.error fault, after) =>
      ∃ env'', m ⟨env, sink⟩ = some (.error (.output fault), ⟨env'', after⟩)

/-- What the computation does on a sink that never fails says what it does on any other. -/
def Streams (m : EvalM α) : Prop :=
  ∀ env sink outcome after, sink.NeverFails → m ⟨env, sink⟩ = some (outcome, after) →
    ∃ env' output, Emits m env outcome env' output

theorem Emits.run {m : EvalM α} {env env' : Env} {outcome : Except RuntimeError α}
    {output : List UInt8} (h : Emits m env outcome env' output) {sink : Sink}
    (hs : sink.NeverFails) :
    m ⟨env, sink⟩ = some (outcome, ⟨env', { sink with written := sink.written ++ output }⟩) := by
  obtain ⟨hr, hf⟩ := Sink.neverFails_iff.1 hs
  have hsink := h sink hf
  rw [Sink.write_of_unlimited hr] at hsink
  exact hsink

/-- A computation that leaves the sink alone and does not look at it. -/
theorem emits_of_silent {m : EvalM α} {env env' : Env} {outcome : Except RuntimeError α}
    (h : ∀ sink : Sink, sink.flushFails = false → m ⟨env, sink⟩ = some (outcome, ⟨env', sink⟩)) :
    Emits m env outcome env' [] := by
  intro sink hf
  rw [Sink.write_nil]
  exact h sink hf

theorem streams_of_silent {m : EvalM α}
    (h : ∀ env, ∃ outcome env', ∀ sink : Sink, sink.flushFails = false →
      m ⟨env, sink⟩ = some (outcome, ⟨env', sink⟩)) : Streams m := by
  intro env sink outcome after hs hrun
  obtain ⟨outcome', env', hsilent⟩ := h env
  rw [hsilent sink (Sink.neverFails_iff.1 hs).2] at hrun
  cases hrun
  exact ⟨env', [], emits_of_silent hsilent⟩

theorem streams_outOfFuel : Streams (outOfFuel : EvalM α) := by
  intro env sink outcome after hs hrun
  cases hrun

theorem streams_done (outcome : Except RuntimeError α) : Streams (done outcome) :=
  streams_of_silent fun env => ⟨outcome, env, fun _ _ => rfl⟩

theorem streams_lookup (name : String) : Streams (lookup name) := by
  refine streams_of_silent fun env => ?_
  cases h : env.get? name with
  | some value => exact ⟨.ok value, env, fun sink _ => by simp [lookup, h]⟩
  | none => exact ⟨.error (.undefinedSymbol name), env, fun sink _ => by simp [lookup, h]⟩

theorem streams_define (name : String) (value : Expr) : Streams (define name value) :=
  streams_of_silent fun env =>
    ⟨.ok (env.innermost.get? name), env.define name value, fun _ _ => rfl⟩

theorem streams_flush : Streams flush :=
  streams_of_silent fun env => ⟨.ok (), env, fun sink hf => by simp [flush, Sink.flush, hf, ofSink]⟩

theorem streams_write (bytes : List UInt8) : Streams (write bytes) := by
  intro env sink outcome after hs hrun
  cases hrun
  rw [hs.1 bytes]
  refine ⟨env, bytes, fun sink' _ => ?_⟩
  unfold write
  rcases sink'.write bytes with ⟨_ | _, after⟩
  · exact ⟨env, rfl⟩
  · exact rfl

theorem streams_writeValue (value : Expr) : Streams (writeValue value) := by
  unfold writeValue
  split
  · exact streams_done _
  · exact streams_write _

theorem Emits.bind_error {m : EvalM α} {env env' : Env} {e : RuntimeError} {output : List UInt8}
    (hm : Emits m env (.error e) env' output) (f : α → EvalM β) :
    Emits (m >>= f) env (.error e) env' output := by
  intro sink hf
  have hsink := hm sink hf
  split at hsink
  · exact bind_of_error hsink f
  · obtain ⟨env'', hsink⟩ := hsink
    exact ⟨env'', bind_of_error hsink f⟩

/-- The outputs of two computations in sequence follow each other, unless the first one already is
more than the sink takes. -/
theorem Emits.bind {m : EvalM α} {f : α → EvalM β} {a : α} {env mid env' : Env}
    {outcome : Except RuntimeError β} {first second : List UInt8}
    (hm : Emits m env (.ok a) mid first) (hf : Emits (f a) mid outcome env' second) :
    Emits (m >>= f) env outcome env' (first ++ second) := by
  intro sink hflush
  have hfirst := hm sink hflush
  rw [Sink.write_append]
  cases hw : sink.write first with
  | mk result after =>
    rw [hw] at hfirst
    cases result with
    | error fault =>
      obtain ⟨env'', hfirst⟩ := hfirst
      exact ⟨env'', bind_of_error hfirst f⟩
    | ok u =>
      have hafter : after.flushFails = false := by
        rw [← hflush, ← Sink.flushFails_write sink first, hw]
      rw [bind_of_ok hfirst]
      exact hf after hafter

theorem Streams.bind {m : EvalM α} {f : α → EvalM β} (hm : Streams m)
    (hf : ∀ a, m.Gives a → Streams (f a)) : Streams (m >>= f) := by
  intro env sink outcome after hs hrun
  rcases bind_eq_some hrun with ⟨a, mid, hfirst, hrest⟩ | ⟨e, hfirst, rfl⟩
  · obtain ⟨env', first, hemits⟩ := hm env sink _ mid hs hfirst
    have hmid := hemits.run hs
    rw [hfirst] at hmid
    cases hmid
    obtain ⟨env'', second, hemits'⟩ := hf a ⟨_, _, hfirst⟩ _ _ _ _ (hs.extend first) hrest
    exact ⟨env'', first ++ second, hemits.bind hemits'⟩
  · obtain ⟨env', output, hemits⟩ := hm env sink _ after hs hfirst
    exact ⟨env', output, hemits.bind_error f⟩

theorem Streams.inScope {body : EvalM α} (hb : Streams body) (scope : Scope) :
    Streams (inScope scope body) := by
  intro env sink outcome after hs hrun
  obtain ⟨inner, hinner, rfl⟩ := inScope_eq_some_iff.1 hrun
  obtain ⟨env', output, hemits⟩ := hb (env.push scope) sink _ inner hs hinner
  refine ⟨env'.parent?.getD env', output, fun sink' hf => ?_⟩
  have hsink := hemits sink' hf
  split at hsink
  · exact inScope_eq_some_iff.2 ⟨_, hsink, rfl⟩
  · obtain ⟨env'', hsink⟩ := hsink
    exact ⟨env''.parent?.getD env'', inScope_eq_some_iff.2 ⟨_, hsink, rfl⟩⟩

end Emits

/-! ## Hosts -/

/-- All that the extensions of the host do to the sink is to write an output, as long as the
evaluator does no more when an extension uses it. -/
def Host.Streams (host : Host) : Prop :=
  ∀ x eval call, (∀ e, Lisplet.Streams (eval e)) →
    (∀ target as, Lisplet.Streams (call target as)) →
    ∀ arguments, Lisplet.Streams (host x eval call arguments)

theorem Host.streams_empty : Host.empty.Streams := fun _ _ _ _ _ _ => streams_outOfFuel

theorem Extension.streams_scopeDepth : Streams scopeDepth := by
  refine streams_of_silent fun env => ?_
  cases h : Number.ofInt? env.depth with
  | some value => exact ⟨.ok (.number value), env, fun sink _ => by simp [scopeDepth, h]⟩
  | none =>
    refine ⟨.error (.overflow Standard.depth.extension.name), env, fun sink _ => ?_⟩
    simp [scopeDepth, h]

theorem Host.streams_standard : Host.standard.Streams := by
  intro x eval call heval hcall arguments
  exact standard_closed (fun m => Lisplet.Streams m) streams_done Lisplet.Streams.bind heval hcall
    streams_define Extension.streams_scopeDepth streams_outOfFuel x arguments

/-! ## Evaluation -/

theorem streams_closed {host : Host} (hh : host.Streams) : Closed host fun m => Streams m where
  exhausted := streams_outOfFuel
  done := streams_done
  bind := Streams.bind
  lookup := streams_lookup
  register _ _ _ := (streams_define _ _).bind fun _ _ => streams_done _
  inScope hb := hb.inScope _
  write := streams_writeValue
  extension := hh _ _ _

/-! ## Runs -/

/-- A run writes the same output on every sink that can be flushed, as far as the sink takes it. -/
theorem runSources_emits {fuel : Nat} {echoing : Bool} {sources : List String} {sink after : Sink}
    {outcome : Except Failure (List Expr)} (hs : sink.NeverFails)
    (h : runSources fuel echoing sources sink = some (outcome, after)) :
    ∃ output, after = { sink with written := sink.written ++ output } ∧
      ∀ other : Sink, other.flushFails = false →
        runSources fuel echoing sources other = some (match other.write output with
          | (.ok (), s) => (outcome, s)
          | (.error fault, s) => (.error (.runtime (.output fault)), s)) := by
  cases hload : Reader.load sources with
  | error e =>
    rw [runSources_of_error hload] at h
    cases h
    refine ⟨[], by simp, fun other _ => ?_⟩
    rw [runSources_of_error hload, Sink.write_nil]
  | ok program =>
    rw [runSources_of_load hload] at h
    obtain ⟨⟨outcome, s⟩, hrun, hout⟩ := Option.map_eq_some_iff.1 h
    cases hout
    have hstreams :=
      (streams_closed Host.streams_empty).runEchoing fuel echoing program streams_flush
    obtain ⟨env, output, hemits⟩ := hstreams _ _ _ _ hs hrun
    rw [hemits.run hs] at hrun
    cases hrun
    refine ⟨output, rfl, fun other hf => ?_⟩
    have hother := hemits other hf
    rw [runSources_of_load hload]
    split at hother
    · rw [hother]
      rfl
    · obtain ⟨env'', hother⟩ := hother
      rw [hother]
      rfl

theorem runsTo_iff {fuel : Nat} {echoing : Bool} {sources : List String} {sink after : Sink}
    {outcome : Except Failure (List Expr)}
    (h : runSources fuel echoing sources sink = some (outcome, after))
    (outcome' : Except Failure (List Expr)) (after' : Sink) :
    RunsTo echoing sources sink outcome' after' ↔ outcome' = outcome ∧ after' = after := by
  refine ⟨fun h' => h'.unique ⟨fuel, h⟩, ?_⟩
  rintro ⟨rfl, rfl⟩
  exact ⟨fuel, h⟩

/-- Sinks that never fail have no part in the outcome. -/
theorem outcome_of_neverFails {sink other : Sink} (hs : sink.NeverFails) (ho : other.NeverFails)
    (fuel : Nat) (echoing : Bool) (sources : List String) :
    (runSources fuel echoing sources sink).map (·.1) =
      (runSources fuel echoing sources other).map (·.1) := by
  cases hrun : runSources fuel echoing sources sink with
  | some r =>
    obtain ⟨output, -, hall⟩ := runSources_emits hs hrun
    obtain ⟨hroom, hflush⟩ := Sink.neverFails_iff.1 ho
    rw [hall other hflush, Sink.write_of_unlimited hroom]
    rfl
  | none =>
    -- If the other run had an outcome, so would this one.
    cases hrun' : runSources fuel echoing sources other with
    | none => rfl
    | some r =>
      obtain ⟨output, -, hall⟩ := runSources_emits ho hrun'
      rw [hall sink (Sink.neverFails_iff.1 hs).2] at hrun
      cases hrun

/-- Where a run ends on one sink that never fails, it does so with the same outcome and output on
all of them, and a limited sink takes as much of the output as it has room for: with room for all
of it the outcome is the same, and with less the run fails because the sink is full. What a sink
held before has no influence on either. The results of a source are the outcome of its run without
echo on any sink that never fails. -/
theorem runsTo_sink :
    (∀ echoing sources sink outcome after, Sink.NeverFails sink →
      RunsTo echoing sources sink outcome after →
      ∃ output, after = { sink with written := sink.written ++ output } ∧
        (∀ other, Sink.NeverFails other → ∀ outcome' after',
          RunsTo echoing sources other outcome' after' ↔
            outcome' = outcome ∧ after' = { other with written := other.written ++ output }) ∧
        ∃ fault : Sink.Fault, fault.message = "sink full" ∧ ∀ limit held outcome' after',
          RunsTo echoing sources ⟨some limit, false, held⟩ outcome' after' ↔
            outcome' = (if output.length ≤ limit then outcome
              else .error (.runtime (.output fault))) ∧
            after' = ⟨some (limit - output.length), false, held ++ output.take limit⟩) ∧
    ∀ fuel source sink, Sink.NeverFails sink →
      results fuel source = (runSources fuel false [source] sink).map (·.1) := by
  refine ⟨?_, fun fuel source sink hs => ?_⟩
  · rintro echoing sources sink outcome after hs ⟨fuel, hrun⟩
    obtain ⟨output, hafter, hall⟩ := runSources_emits hs hrun
    refine ⟨output, hafter, fun other ho => ?_, .full, rfl, fun limit held => ?_⟩
    · obtain ⟨hroom, hflush⟩ := Sink.neverFails_iff.1 ho
      have hother := hall other hflush
      rw [Sink.write_of_unlimited hroom] at hother
      exact runsTo_iff hother
    · have hlimited := hall ⟨some limit, false, held⟩ rfl
      by_cases hfits : output.length ≤ limit
      · rw [Sink.write_of_fits rfl hfits] at hlimited
        rw [if_pos hfits, List.take_of_length_le hfits]
        exact runsTo_iff hlimited
      · rw [Sink.write_of_full rfl (Nat.not_le.1 hfits)] at hlimited
        rw [if_neg hfits, Nat.sub_eq_zero_of_le (Nat.le_of_not_le hfits)]
        exact runsTo_iff hlimited
  · exact outcome_of_neverFails (Sink.neverFails_iff.2 ⟨rfl, rfl⟩) hs fuel false [source]

/-- `(function twice (x) (print x x))` and `(twice 12)`, which print two lines. -/
def printTwice : Program :=
  [.function "twice" ["x"] (.call (.symbol "print") [.symbol "x", .symbol "x"]),
    .call (.symbol "twice") [.number ⟨12, by decide, by decide⟩]]

/-- A sink that holds a byte and takes four more is full inside the second line. -/
theorem runsTo_sink_printTwice : ∃ fault : Sink.Fault, fault.message = "sink full" ∧
    RunsTo true (printTwice.map Expr.text) ⟨some 4, false, [33]⟩ (.error (.runtime (.output fault)))
      ⟨some 0, false, [33, 49, 50, 10, 49]⟩ := by
  have hload : Reader.load (printTwice.map Expr.text) = .ok printTwice :=
    Reader.load_text (by simp [printTwice]) (by decide +kernel)
  obtain ⟨values, s, hs, hsink⟩ : ∃ values s,
      runEchoing .empty 9 true printTwice ⟨.initial, .unlimited⟩ = some (.ok values, s) ∧
        s.sink = ⟨none, false, [49, 50, 10, 49, 50, 10]⟩ := ⟨_, _, rfl, rfl⟩
  have hrun : RunsTo true (printTwice.map Expr.text) .unlimited (.ok values)
      ⟨none, false, [49, 50, 10, 49, 50, 10]⟩ := by
    refine ⟨9, ?_⟩
    rw [runSources_of_load hload, hs, ← hsink]
    rfl
  have hnever : Sink.unlimited.NeverFails := Sink.neverFails_iff.2 ⟨rfl, rfl⟩
  obtain ⟨output, hafter, -, fault, hfault, hlimited⟩ := runsTo_sink.1 _ _ _ _ _ hnever hrun
  obtain rfl : output = [49, 50, 10, 49, 50, 10] := (Sink.mk.inj hafter).2.2.symm
  exact ⟨fault, hfault, (hlimited 4 [33] _ _).2 ⟨rfl, rfl⟩⟩

end Lisplet
