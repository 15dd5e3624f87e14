import WrapperGen.Proofs.Resolution.Delivery

namespace WrapperGen

variable {σ ε ρ : Type}

namespace Session

open Resolution RoundView

variable {config : ScanConfig} {s : Session σ ε ρ}

namespace Faithful

theorem not_pending_of_done (h : s.Faithful config) (done : s.resolution.isDone = true)
    (q : String) : ¬Pending (s.views config) q := by
  rw [← mem_waiting_afterRounds (ρ := ρ) config, ← h.waiting_eq, h.settled done]
  exact List.not_mem_nil

end Faithful

/-- No marked type is lost: each one that a round has shown while the resolution was scanning is
in the written manifest under its name, or a rejection tells of that name. -/
theorem marked_types_accounted_for (config : ScanConfig) (sink : Sink σ ε ρ) (sinkState : σ)
    (events : List (Event σ)) :
    let s := (start config sinkState).run sink events
    s.resolution.isDone = true → ∃ m, s.written = [m] ∧
      ∀ t ∈ s.rounds, ∀ symbol ∈ t.markedSymbols .viewModel,
        (∃ e ∈ m.toList, e.className = symbol.displayName) ∨
          ∃ r ∈ s.resolution.rejections, r.symbol = symbol.displayName := by
  intro s done
  have faithful : s.Faithful config := faithful_run config sink sinkState events
  refine ⟨s.resolution.entries, faithful.written_of_done done, ?_⟩
  intro t ht symbol marked
  have mem : t.roundView config ∈ s.views config := List.mem_map_of_mem ht
  have mentioned := t.roundView_mentions config marked
  have notPending := faithful.not_pending_of_done done symbol.displayName
  obtain ⟨v, last⟩ := lastSettling_of_not_pending mem mentioned notPending
  rw [faithful.entries_eq, faithful.rejections_eq]
  exact accounted_of_lastSettling config _ last

theorem broken_type_accounted_for :
    let s := (start .standard false).run Sink.flaky recovery
    let broken : Symbol := ⟨"a.Broken", .classType, some "a.Broken", "Broken"⟩
    s.resolution.isDone = true ∧ Table.earlySample ∈ s.rounds ∧
      broken ∈ Table.earlySample.markedSymbols .viewModel ∧
      ∃ m, s.written = [m] ∧
        ((∃ e ∈ m.toList, e.className = broken.displayName) ∨
          ∃ r ∈ s.resolution.rejections, r.symbol = broken.displayName) := by
  intro s broken
  obtain ⟨done, rounds⟩ := recovery_done
  have shown : Table.earlySample ∈ s.rounds := rounds ▸ List.mem_cons_self
  have marked : Table.earlySample.markedSymbols .viewModel =
      [broken, ⟨"a.Waiting", .classType, some "a.Waiting", "Waiting"⟩] := by
    cbv
  have mem : broken ∈ Table.earlySample.markedSymbols .viewModel := by
    simp [marked]
  obtain ⟨m, written, accounted⟩ :=
    marked_types_accounted_for .standard Sink.flaky false recovery done
  exact ⟨done, shown, mem, m, written, accounted _ shown _ mem⟩

/-- The written manifest has an entry for the names whose last settling round has one, and it is
the last entry that this round has for the name. Of all rejections of the rounds in order, those
that say what an earlier one has said are dropped. -/
theorem written_manifest_of_rounds (config : ScanConfig) (sink : Sink σ ε ρ) (sinkState : σ)
    (events : List (Event σ)) :
    let s := (start config sinkState).run sink events
    s.resolution.isDone = true → ∃ m, s.written = [m] ∧
      (∀ q, q ∈ m.names ↔
        ∃ v, lastSettling (s.views config) q = some v ∧ ∃ e ∈ v.resolved, e.className = q) ∧
      (∀ e, e ∈ m.toList ↔
        ∃ v, lastSettling (s.views config) e.className = some v ∧
          v.latest? e.className = some e) ∧
      m.toList.Pairwise (fun a b => a.className < b.className) ∧
      s.resolution.rejections.Sublist ((s.views config).flatMap RoundView.rejections) ∧
      s.resolution.rejections.map Rejection.report =
        (((s.views config).flatMap RoundView.rejections).map Rejection.report).eraseDups := by
  intro s done
  have faithful : s.Faithful config := faithful_run config sink sinkState events
  refine ⟨s.resolution.entries, faithful.written_of_done done, ?_, ?_,
    s.resolution.entries.ascending, ?_, ?_⟩
  · intro q
    rw [faithful.entries_eq, Roster.mem_names_iff, find?_entries_afterRounds]
    cases lastSettling (s.views config) q with
    | none => simp
    | some v => simp [latest?_isSome_iff]
  · intro e
    rw [faithful.entries_eq]
    exact mem_entries_afterRounds config _
  · rw [faithful.rejections_eq, rejections_afterRounds]
    exact firstOfEach_sublist _ _
  · rw [faithful.rejections_eq, rejections_afterRounds]
    exact map_firstOfEach _ _

theorem waiting_type_written :
    let s := (start .standard false).run Sink.flaky recovery
    s.resolution.isDone = true ∧ ∃ m, s.written = [m] ∧
      ("a.Waiting" ∈ m.names ↔ ∃ v, lastSettling (s.views .standard) "a.Waiting" = some v ∧
        ∃ e ∈ v.resolved, e.className = "a.Waiting") := by
  intro s
  have done : s.resolution.isDone = true := recovery_done.1
  obtain ⟨m, written, names, -⟩ :=
    written_manifest_of_rounds .standard Sink.flaky false recovery done
  exact ⟨done, m, written, names "a.Waiting"⟩

end Session

end WrapperGen
