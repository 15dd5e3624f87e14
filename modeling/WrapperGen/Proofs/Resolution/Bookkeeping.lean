import WrapperGen.Proofs.Resolution.Session

namespace WrapperGen

variable {σ ε ρ : Type}

namespace Resolution

theorem isDone_iff {r : Resolution ρ} : r.isDone = true ↔ ∃ receipt, r.phase = .done receipt := by
  unfold isDone receipt?
  cases r.phase <;> simp

theorem manifest?_eq (r : Resolution ρ) :
    r.manifest? =
      match r.phase with
      | .done _ => some r.entries
      | .scanning | .stalled _ _ => none := by
  unfold manifest? isDone receipt?
  cases r.phase <;> rfl

end Resolution

namespace Session

open Resolution

variable {config : ScanConfig} {sink : Sink σ ε ρ} {s : Session σ ε ρ} {t : Table}

/-- The resolution is what its rounds make of it, apart from its phase. The sink has taken the
entries of a resolution that is done and nothing else, and it has done so when nothing waited. -/
structure Faithful (config : ScanConfig) (s : Session σ ε ρ) : Prop where
  absorbed : s.resolution = (afterRounds config (s.views config)).inPhase s.resolution.phase
  written : s.written = s.resolution.manifest?.toList
  settled : s.resolution.isDone = true → s.resolution.waiting = ∅

theorem faithful_start (config : ScanConfig) (sinkState : σ) :
    (start config sinkState : Session σ ε ρ).Faithful config :=
  ⟨rfl, rfl, fun _ => rfl⟩

namespace Faithful

theorem config_eq (h : s.Faithful config) : s.resolution.config = config := by
  rw [h.absorbed]
  exact config_afterRounds config _

theorem entries_eq (h : s.Faithful config) :
    s.resolution.entries = (afterRounds config (s.views config) : Resolution ρ).entries := by
  rw [h.absorbed]
  rfl

theorem waiting_eq (h : s.Faithful config) :
    s.resolution.waiting = (afterRounds config (s.views config) : Resolution ρ).waiting := by
  rw [h.absorbed]
  rfl

theorem rejections_eq (h : s.Faithful config) :
    s.resolution.rejections = (afterRounds config (s.views config) : Resolution ρ).rejections := by
  rw [h.absorbed]
  rfl

theorem absorb (h : s.Faithful config) (scanning : s.resolution.phase = .scanning) (t : Table) :
    (s.absorb t).Faithful config where
  absorbed := by
    rw [views_absorb, afterRounds_concat]
    change s.resolution.absorb (t.roundView s.resolution.config) = _
    rw [h.config_eq]
    exact congrArg (·.absorb (t.roundView config)) h.absorbed
  written := by
    have manifest : (s.absorb t).resolution.manifest? = s.resolution.manifest? := by
      simp only [manifest?_eq, Session.absorb, Resolution.absorb, scanning]
    rw [manifest]
    exact h.written
  settled done := by
    obtain ⟨receipt, done⟩ := isDone_iff.mp done
    have phase : (s.absorb t).resolution.phase = .scanning := scanning
    rw [phase] at done
    cases done

theorem stall (h : s.Faithful config) (scanning : s.resolution.phase = .scanning) :
    s.stall.Faithful config where
  absorbed := congrArg (·.inPhase s.stall.resolution.phase) h.absorbed
  written := by
    have written := h.written
    rw [manifest?_eq, scanning] at written
    rw [manifest?_eq]
    exact written
  settled done := by
    obtain ⟨receipt, done⟩ := isDone_iff.mp done
    cases done

theorem deliver (h : s.Faithful config) (scanning : s.resolution.phase = .scanning)
    (empty : s.resolution.waiting = ∅) : (s.deliver sink).2.Faithful config := by
  -- A refusal leaves nothing behind, so the entries are the first that the sink takes.
  have nothing : s.written = [] := by
    rw [h.written, manifest?_eq, scanning]
    rfl
  unfold Session.deliver
  split
  next receipt sinkState _ =>
    refine ⟨congrArg (·.inPhase (.done receipt)) h.absorbed, ?_, fun _ => empty⟩
    have added : (s.accept receipt sinkState).written = s.written ++ [s.resolution.entries] := by
      simp [Session.written, Session.accept]
    rw [added, nothing, manifest?_eq]
    rfl
  next cause sinkState _ =>
    refine ⟨h.absorbed, ?_, h.settled⟩
    have same : (s.refuse cause sinkState).written = s.written := by
      simp [Session.written, Session.refuse]
    rw [same]
    exact h.written

theorem process (h : s.Faithful config) (t : Table) : (s.process sink t).2.Faithful config := by
  cases phase : s.resolution.phase with
  | scanning =>
    have next := h.absorb phase t
    rw [process_of_scanning phase]
    split
    next empty => exact next.deliver phase empty
    next =>
      split
      next => exact next.stall phase
      next => exact next
  | done receipt => rwa [process_of_done phase]
  | stalled pass names => rwa [process_of_stalled phase]

theorem finish (h : s.Faithful config) : (s.finish sink).2.Faithful config := by
  cases phase : s.resolution.phase with
  | scanning =>
    rw [finish_of_scanning phase]
    split
    next empty => exact h.deliver phase empty
    next => exact h.stall phase
  | done receipt => rwa [finish_of_done phase]
  | stalled pass names => rwa [finish_of_stalled phase]

theorem step (h : s.Faithful config) (e : Event σ) : (s.step sink e).Faithful config := by
  cases e with
  | round t => exact h.process t
  | finish => exact h.finish
  | change f => exact ⟨h.absorbed, h.written, h.settled⟩

theorem run (h : s.Faithful config) (events : List (Event σ)) :
    (s.run sink events).Faithful config := by
  induction events using List.reverseRecOn with
  | nil => exact h
  | append_singleton events e ih =>
    rw [run_concat]
    exact ih.step e

theorem written_of_done (h : s.Faithful config) (done : s.resolution.isDone = true) :
    s.written = [s.resolution.entries] := by
  obtain ⟨receipt, phase⟩ := isDone_iff.mp done
  rw [h.written, manifest?_eq, phase]
  rfl

theorem written_of_not_done (h : s.Faithful config)
    (undone : s.resolution.isDone = false) : s.written = [] := by
  rw [h.written, manifest?, undone]
  rfl

end Faithful

theorem faithful_run (config : ScanConfig) (sink : Sink σ ε ρ) (sinkState : σ)
    (events : List (Event σ)) : ((start config sinkState).run sink events).Faithful config :=
  (faithful_start config sinkState).run events

end Session

end WrapperGen
