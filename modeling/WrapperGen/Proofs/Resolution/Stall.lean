import WrapperGen.Proofs.Resolution.Delivery

namespace WrapperGen

variable {σ ε ρ : Type}

namespace Session

open Resolution RoundView

variable {config : ScanConfig} {sink : Sink σ ε ρ} {s : Session σ ε ρ} {t : Table}

theorem Faithful.mem_waiting_iff (h : s.Faithful config) {q : String} :
    q ∈ s.resolution.waiting.toList ↔ Pending (s.views config) q := by
  rw [h.waiting_eq]
  exact mem_waiting_afterRounds config _

theorem Faithful.passes_eq (h : s.Faithful config) : s.resolution.passes = s.rounds.length := by
  rw [h.absorbed]
  change (afterRounds config (s.views config) : Resolution ρ).passes = _
  rw [passes_afterRounds, views, List.length_map]

theorem deliveries_deliver (sink : Sink σ ε ρ) (s : Session σ ε ρ) :
    ∃ answer, (s.deliver sink).2.deliveries =
      s.deliveries ++ [((s.deliver sink).2.resolution.entries, answer)] := by
  unfold deliver
  split
  next receipt _ _ => exact ⟨.ok receipt, rfl⟩
  next cause _ _ => exact ⟨.error cause, rfl⟩

theorem waiting_process (scanning : s.resolution.phase = .scanning) :
    (s.process sink t).2.resolution.waiting = (s.absorb t).resolution.waiting := by
  rw [process_of_scanning scanning]
  split
  next => exact waiting_deliver sink _
  next => split <;> rfl

theorem process_delivers_iff (scanning : s.resolution.phase = .scanning) :
    (∃ answer, (s.process sink t).2.deliveries =
      s.deliveries ++ [((s.process sink t).2.resolution.entries, answer)]) ↔
      (s.process sink t).2.resolution.waiting = ∅ := by
  constructor
  · rintro ⟨answer, called⟩
    by_contra nonempty
    rw [(process_of_waiting scanning nonempty).1] at called
    simp at called
  · intro empty
    rw [waiting_process scanning] at empty
    rw [process_of_scanning scanning, if_pos empty]
    exact deliveries_deliver sink (s.absorb t)

theorem deliver_ne_stalled {α : Type} (sink : Sink σ ε ρ) (s : Session σ ε ρ) (answer : Nat → α)
    (pass : Nat) (names : List String) :
    (s.deliver sink).1.map answer ≠ .error (.stalled pass names) := by
  unfold deliver
  split <;> exact nofun

theorem process_stalls_iff (scanning : s.resolution.phase = .scanning) {pass : Nat}
    {names : List String} :
    (s.process sink t).1 = .error (.stalled pass names) ↔
      (s.process sink t).2.resolution.waiting ≠ ∅ ∧
      (s.process sink t).2.resolution.waiting = s.resolution.waiting ∧
      pass = s.resolution.passes + 1 ∧
      names = (s.process sink t).2.resolution.waiting.toList := by
  have passes : (s.absorb t).resolution.passes = s.resolution.passes + 1 := rfl
  rw [waiting_process scanning, process_of_scanning scanning]
  split
  next empty =>
    constructor
    · intro answer
      exact absurd answer (deliver_ne_stalled sink _ _ _ _)
    · intro h
      exact absurd empty h.1
  next nonempty =>
    split
    next same =>
      constructor
      · intro answer
        cases answer
        exact ⟨nonempty, same, passes, rfl⟩
      · rintro ⟨-, -, rfl, rfl⟩
        rfl
    next changed =>
      constructor
      · exact nofun
      · intro h
        exact absurd h.2.1 changed

theorem process_defers (scanning : s.resolution.phase = .scanning)
    (nonempty : (s.process sink t).2.resolution.waiting ≠ ∅)
    (changed : (s.process sink t).2.resolution.waiting ≠ s.resolution.waiting) :
    (s.process sink t).1 = .ok (.deferred (s.resolution.passes + 1)
      (s.process sink t).2.resolution.waiting.size) := by
  rw [waiting_process scanning] at nonempty changed ⊢
  rw [process_of_scanning scanning, if_neg nonempty, if_neg changed]
  rfl

theorem finish_stalls (scanning : s.resolution.phase = .scanning)
    (nonempty : s.resolution.waiting ≠ ∅) :
    (s.finish sink).1 = .error (.stalled s.resolution.passes s.resolution.waiting.toList) := by
  rw [finish_of_scanning scanning, if_neg nonempty]

/-- All later calls fail in the same way and leave everything as it is. -/
def Stuck (sink : Sink σ ε ρ) (s : Session σ ε ρ) (pass : Nat) (names : List String) : Prop :=
  ∀ later, (s.run sink later).resolution = s.resolution ∧
    (s.run sink later).deliveries = s.deliveries ∧
    (∀ t, (s.run sink later).process sink t =
      (.error (.stalled pass names), s.run sink later)) ∧
    (s.run sink later).finish sink = (.error (.stalled pass names), s.run sink later)

theorem stuck_of_stalled {pass : Nat} {names : List String}
    (stalled : s.resolution.phase = .stalled pass names) : s.Stuck sink pass names := by
  intro later
  have halted : s.resolution.phase ≠ .scanning := by
    rw [stalled]
    exact nofun
  have ran : s.run sink later = _ := run_of_halted halted later
  have still : (s.run sink later).resolution.phase = .stalled pass names := by
    rw [ran]
    exact stalled
  exact ⟨by rw [ran], by rw [ran], fun t => process_of_stalled still, finish_of_stalled still⟩

theorem phase_of_process_stalled {pass : Nat} {names : List String}
    (answer : (s.process sink t).1 = .error (.stalled pass names)) :
    (s.process sink t).2.resolution.phase = .stalled pass names := by
  cases phase : s.resolution.phase with
  | scanning =>
    obtain ⟨nonempty, same, rfl, rfl⟩ := (process_stalls_iff phase).mp answer
    rw [waiting_process phase] at nonempty same ⊢
    rw [process_of_scanning phase, if_neg nonempty, if_pos same]
    rfl
  | done receipt =>
    rw [process_of_done phase] at answer
    cases answer
  | stalled pass' names' =>
    rw [process_of_stalled phase] at answer ⊢
    cases answer
    exact phase

theorem phase_of_finish_stalled {pass : Nat} {names : List String}
    (answer : (s.finish sink).1 = .error (.stalled pass names)) :
    (s.finish sink).2.resolution.phase = .stalled pass names := by
  cases phase : s.resolution.phase with
  | scanning =>
    rw [finish_of_scanning phase] at answer ⊢
    split at answer
    next => exact absurd answer (deliver_ne_stalled sink _ _ _ _)
    next nonempty =>
      cases answer
      rw [if_neg nonempty]
      rfl
  | done receipt =>
    rw [finish_of_done phase] at answer
    cases answer
  | stalled pass' names' =>
    rw [finish_of_stalled phase] at answer ⊢
    cases answer
    exact phase

/-- After every run the names that wait are those which the last round that mentions them has
deferred, in ascending order. A round in scanning calls the sink just when no name waits after it.
It stalls just when the names that wait are some and are the same as before it. -/
theorem waiting_names_of_rounds (config : ScanConfig) (sink : Sink σ ε ρ) (sinkState : σ)
    (events : List (Event σ)) :
    let s := (start config sinkState).run sink events
    let waiting := s.resolution.waiting
    s.resolution.passes = s.rounds.length ∧
    (∀ q, q ∈ waiting.toList ↔ Pending (s.views config) q) ∧
    waiting.toList.Pairwise (· < ·) ∧
    (s.resolution.phase = .scanning → ∀ t,
      let after := (s.process sink t).2
      let waitingAfter := after.resolution.waiting
      (∀ q, q ∈ waitingAfter.toList ↔ Pending (s.views config ++ [t.roundView config]) q) ∧
      waitingAfter.toList.Pairwise (· < ·) ∧
      ((∃ answer, after.deliveries = s.deliveries ++ [(after.resolution.entries, answer)]) ↔
        waitingAfter = ∅) ∧
      (∀ pass names, (s.process sink t).1 = .error (.stalled pass names) ↔
        waitingAfter ≠ ∅ ∧ (∀ q, q ∈ waitingAfter.toList ↔ q ∈ waiting.toList) ∧
          pass = s.rounds.length + 1 ∧ names = waitingAfter.toList) ∧
      (waitingAfter ≠ ∅ → ¬(∀ q, q ∈ waitingAfter.toList ↔ q ∈ waiting.toList) →
        (s.process sink t).1 =
          .ok (.deferred (s.rounds.length + 1) waitingAfter.toList.length))) ∧
    (s.resolution.phase = .scanning → waiting ≠ ∅ →
      (s.finish sink).1 = .error (.stalled s.rounds.length waiting.toList)) ∧
    (∀ t pass names, (s.process sink t).1 = .error (.stalled pass names) →
      (s.process sink t).2.Stuck sink pass names) ∧
    (∀ pass names, (s.finish sink).1 = .error (.stalled pass names) →
      (s.finish sink).2.Stuck sink pass names) := by
  intro s waiting
  have faithful : s.Faithful config := faithful_run config sink sinkState events
  refine ⟨faithful.passes_eq, fun q => faithful.mem_waiting_iff, waiting.ascending, ?_, ?_, ?_, ?_⟩
  · intro scanning t after waitingAfter
    have views : after.views config = s.views config ++ [t.roundView config] := by
      simp [Session.views, after, rounds_process scanning]
    have same_iff : (∀ q, q ∈ waitingAfter.toList ↔ q ∈ waiting.toList) ↔
        waitingAfter = waiting :=
      ⟨Roster.eq_of_mem_iff, fun same q => by rw [same]⟩
    rw [← views, same_iff, ← faithful.passes_eq]
    refine ⟨fun q => (faithful.process t).mem_waiting_iff, waitingAfter.ascending,
      process_delivers_iff scanning, fun pass names => process_stalls_iff scanning, ?_⟩
    exact process_defers scanning
  · intro scanning nonempty
    rw [← faithful.passes_eq]
    exact finish_stalls scanning nonempty
  · intro t pass names answer
    exact stuck_of_stalled (phase_of_process_stalled answer)
  · intro pass names answer
    exact stuck_of_stalled (phase_of_finish_stalled answer)

theorem earlySample_twice :
    (((start .standard false).run Sink.flaky [.round .earlySample]).process Sink.flaky
      .earlySample).1 = .error (.stalled 2 ["a.Waiting"]) := by
  cbv

theorem unknown_type_stalls :
    let s := (start .standard false).run Sink.flaky [.round .earlySample]
    (s.process Sink.flaky .earlySample).1 = .error (.stalled 2 ["a.Waiting"]) ∧
      (s.process Sink.flaky .earlySample).2.Stuck Sink.flaky 2 ["a.Waiting"] := by
  have facts := waiting_names_of_rounds .standard Sink.flaky false [.round .earlySample]
  obtain ⟨-, -, -, -, -, stuck, -⟩ := facts
  exact ⟨earlySample_twice, stuck _ _ _ earlySample_twice⟩

end Session

end WrapperGen
