import Mathlib
import WrapperGen.Proofs.Resolution.Bookkeeping

namespace WrapperGen

variable {σ ε ρ : Type}

/-- A sink that refuses every manifest while its state is `true`. -/
def Sink.flaky : Sink Bool Unit Unit := fun _ => do
  if ← get then return .error () else return .ok ()

def Declaration.stateful (qualifiedName : String) (stateType : TypeRef) : Declaration :=
  ((ofClass qualifiedName).marked .viewModel).withMember ⟨"state", .property stateType⟩ [.uiState]

def Declaration.waiting : Declaration :=
  .stateful "a.Waiting" (.mk "StateFlow" [.type (.mk "a.Later" [] false)] false)

def Table.earlySample : Table :=
  ((∅ : Table).declare (.stateful "a.Broken" (.mk "Int" [] false))).declare .waiting

def Table.lateSample : Table := ((∅ : Table).declare .waiting).declare (.ofClass "a.Later")

namespace Session

open Resolution

/-- Two rounds, the second with a sink that refuses, and the end after it has recovered. -/
def recovery : List (Event Bool) :=
  [.round .earlySample, .change fun _ => true, .round .lateSample, .change fun _ => false, .finish]

theorem recovery_done :
    ((start .standard false).run Sink.flaky recovery).resolution.isDone = true ∧
      ((start .standard false).run Sink.flaky recovery).rounds =
        [.earlySample, .lateSample] := by
  cbv

/-- What others do to the sink; a call to the session is none of their doing. -/
def Event.sinkChange : Event σ → σ → σ
  | .round _ | .finish => id
  | .change f => f

variable {config : ScanConfig} {sink : Sink σ ε ρ} {s : Session σ ε ρ}

/-- Calls to a resolution that is done or stalled come to nothing. -/
theorem step_of_halted (halted : s.resolution.phase ≠ .scanning) (e : Event σ) :
    s.step sink e = { s with sinkState := e.sinkChange s.sinkState } := by
  cases e with
  | change f => rfl
  | round t =>
    cases phase : s.resolution.phase with
    | scanning => exact absurd phase halted
    | done receipt => simp only [step, process_of_done phase, Event.sinkChange, id]
    | stalled pass names => simp only [step, process_of_stalled phase, Event.sinkChange, id]
  | finish =>
    cases phase : s.resolution.phase with
    | scanning => exact absurd phase halted
    | done receipt => simp only [step, finish_of_done phase, Event.sinkChange, id]
    | stalled pass names => simp only [step, finish_of_stalled phase, Event.sinkChange, id]

theorem run_of_halted (halted : s.resolution.phase ≠ .scanning) (later : List (Event σ)) :
    s.run sink later =
      { s with sinkState := later.foldl (fun state e => e.sinkChange state) s.sinkState } := by
  induction later generalizing s with
  | nil => rfl
  | cons e rest ih =>
    change (s.step sink e).run sink rest = _
    rw [step_of_halted halted e]
    exact ih halted

theorem waiting_deliver (sink : Sink σ ε ρ) (s : Session σ ε ρ) :
    (s.deliver sink).2.resolution.waiting = s.resolution.waiting := by
  unfold deliver
  split <;> rfl

/-- The sink is not called by a round that leaves a name waiting. -/
theorem process_of_waiting {t : Table} (scanning : s.resolution.phase = .scanning)
    (waits : (s.process sink t).2.resolution.waiting ≠ ∅) :
    (s.process sink t).2.deliveries = s.deliveries ∧
      (s.process sink t).2.sinkState = s.sinkState := by
  rw [process_of_scanning scanning] at waits ⊢
  split at waits
  next empty => exact absurd ((waiting_deliver sink _).trans empty) waits
  next nonempty =>
    rw [if_neg nonempty]
    split <;> exact ⟨rfl, rfl⟩

theorem finish_of_waiting (scanning : s.resolution.phase = .scanning)
    (waits : (s.finish sink).2.resolution.waiting ≠ ∅) :
    (s.finish sink).2.deliveries = s.deliveries ∧
      (s.finish sink).2.sinkState = s.sinkState := by
  rw [finish_of_scanning scanning] at waits ⊢
  split at waits
  next empty => exact absurd ((waiting_deliver sink _).trans empty) waits
  next nonempty =>
    rw [if_neg nonempty]
    exact ⟨rfl, rfl⟩

theorem step_of_waiting (e : Event σ) (idle : s.resolution.phase ≠ .scanning ∨
    (s.step sink e).resolution.waiting ≠ ∅) :
    (s.step sink e).deliveries = s.deliveries ∧
      (s.step sink e).sinkState = e.sinkChange s.sinkState := by
  by_cases scanning : s.resolution.phase = .scanning
  · have waits := idle.resolve_left (absurd scanning)
    cases e with
    | round t => exact process_of_waiting scanning waits
    | finish => exact finish_of_waiting scanning waits
    | change f => exact ⟨rfl, rfl⟩
  · rw [step_of_halted scanning e]
    exact ⟨rfl, rfl⟩

/-- Over any number of calls the sink takes at most one manifest, and the resolution is done from
then on and not before. The sink is only called while the resolution is scanning, and only by a
call after which nothing waits. Once the resolution is done, calls answer so and change nothing. -/
theorem manifest_taken_at_most_once (config : ScanConfig) (sink : Sink σ ε ρ) (sinkState : σ)
    (events : List (Event σ)) :
    let s := (start config sinkState).run sink events
    s.written.length ≤ 1 ∧
    (s.resolution.isDone = true ↔ s.written.length = 1) ∧
    (∀ e, s.resolution.phase ≠ .scanning ∨ (s.step sink e).resolution.waiting ≠ ∅ →
      (s.step sink e).deliveries = s.deliveries ∧
        (s.step sink e).sinkState = e.sinkChange s.sinkState) ∧
    (s.resolution.isDone = true → ∀ later,
      let final := s.run sink later
      final.resolution = s.resolution ∧ final.deliveries = s.deliveries ∧
        final.sinkState = later.foldl (fun state e => e.sinkChange state) s.sinkState ∧
        (∀ t, final.process sink t = (.ok .alreadyDone, final)) ∧
        final.finish sink = (.ok (), final)) := by
  intro s
  have faithful : s.Faithful config := faithful_run config sink sinkState events
  refine ⟨?_, ?_, fun e idle => step_of_waiting e idle, ?_⟩
  · cases done : s.resolution.isDone with
    | true => rw [faithful.written_of_done done]; exact Nat.le_refl 1
    | false => rw [faithful.written_of_not_done done]; exact Nat.zero_le 1
  · cases done : s.resolution.isDone with
    | true => simp [faithful.written_of_done done]
    | false => simp [faithful.written_of_not_done done]
  · intro done later final
    obtain ⟨receipt, phase⟩ := isDone_iff.mp done
    have halted : s.resolution.phase ≠ .scanning := by
      rw [phase]
      exact nofun
    have ran : final = _ := run_of_halted halted later
    have still : final.resolution.phase = .done receipt := by
      rw [ran]
      exact phase
    refine ⟨by rw [ran], by rw [ran], by rw [ran], ?_, finish_of_done still⟩
    intro t
    exact process_of_done still

theorem manifest_taken_after_refusal :
    let s := (start .standard false).run Sink.flaky recovery
    let final := s.run Sink.flaky [.change fun _ => true]
    s.resolution.isDone = true ∧ s.written.length = 1 ∧
      ∀ t, final.process Sink.flaky t = (.ok .alreadyDone, final) := by
  have done := recovery_done.1
  obtain ⟨-, once, -, later⟩ := manifest_taken_at_most_once .standard Sink.flaky false recovery
  exact ⟨done, once.mp done, (later done _).2.2.2.1⟩

end Session

end WrapperGen
