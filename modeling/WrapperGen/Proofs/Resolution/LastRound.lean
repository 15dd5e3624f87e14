import WrapperGen.Proofs.Resolution.Delivery

namespace WrapperGen

variable {σ ε ρ : Type}

/-- Both marked types of the early sample, of which neither has anything missing now. -/
def Table.mendedSample : Table :=
  ((∅ : Table).declare (.stateful "a.Broken" (.mk "StateFlow" [.type (.mk "Int" [] false)] false)))
    |>.declare .waiting |>.declare (.ofClass "a.Later")

namespace Resolution

open RoundView

/-- Once a round mentions every name that has come up before and defers none, nothing is left of
the rounds before it. -/
theorem entries_afterRounds_of_last (config : ScanConfig) {views : List RoundView} {v : RoundView}
    (mentioned : ∀ w ∈ views, ∀ q ∈ w.settled, v.mentions q = true)
    (none_deferred : v.deferredNames = []) :
    (afterRounds config (views ++ [v]) : Resolution ρ).entries =
      (afterRounds config [v] : Resolution ρ).entries := by
  have last : ∀ q, lastSettling (views ++ [v]) q = lastSettling [v] q := by
    intro q
    rw [lastSettling_concat, ← List.nil_append [v], lastSettling_concat]
    by_cases settled : q ∈ v.settled
    · rw [if_pos settled, if_pos settled]
    · rw [if_neg settled, if_neg settled]
      cases found : lastSettling views q with
      | none => rfl
      | some w =>
        obtain ⟨mem, settledBefore⟩ := of_lastSettling found
        rcases mentions_iff.mp (mentioned w mem q settledBefore) with settledNow | deferred
        · exact absurd settledNow settled
        · rw [none_deferred] at deferred
          cases deferred
  apply Roster.eq_of_mem_iff
  intro e
  rw [mem_entries_afterRounds, mem_entries_afterRounds, last]

end Resolution

namespace Session

open Resolution RoundView

variable {config : ScanConfig} {sink : Sink σ ε ρ} {s : Session σ ε ρ} {t : Table}

/-- A round that writes the manifest leaves no name waiting, and the sink takes the entries. -/
theorem of_process_written {pass count : Nat}
    (answer : (s.process sink t).1 = .ok (.written pass count)) :
    s.resolution.phase = .scanning ∧ (s.absorb t).resolution.waiting = ∅ ∧
      count = (s.absorb t).resolution.entries.size ∧
      ∃ receipt sinkState,
        (s.process sink t).2 = (s.absorb t).accept receipt sinkState := by
  cases phase : s.resolution.phase with
  | done receipt =>
    rw [process_of_done phase] at answer
    cases answer
  | stalled pass' names =>
    rw [process_of_stalled phase] at answer
    cases answer
  | scanning =>
    cases roundEnd_of_scanning sink t phase with
    | written empty receipt sinkState ended =>
      rw [ended] at answer ⊢
      cases answer
      exact ⟨rfl, empty, rfl, receipt, sinkState, rfl⟩
    | refused _ _ _ ended | stalled _ _ ended | deferred _ _ ended =>
      rw [ended] at answer
      cases answer

theorem Faithful.entries_absorb (h : s.Faithful config)
    (scanning : s.resolution.phase = .scanning) (t : Table) :
    (s.absorb t).resolution.entries =
      (afterRounds config (s.views config ++ [t.roundView config]) : Resolution ρ).entries := by
  rw [← views_absorb]
  exact (h.absorb scanning t).entries_eq

theorem deferredNames_of_waiting_absorb (h : s.Faithful config)
    (empty : (s.absorb t).resolution.waiting = ∅) : (t.roundView config).deferredNames = [] := by
  apply List.eq_nil_iff_forall_not_mem.mpr
  intro q deferred
  have waits : q ∈ (s.absorb t).resolution.waiting.toList := by
    change q ∈ (s.resolution.absorb (t.roundView s.resolution.config)).waiting.toList
    rw [h.config_eq]
    exact mem_waiting_absorb.mpr (.inl deferred)
  rw [empty] at waits
  cases waits

theorem waiting_absorb_start (sinkState : σ)
    (none_deferred : (t.roundView config).deferredNames = []) :
    ((start config sinkState : Session σ ε ρ).absorb t).resolution.waiting = ∅ := by
  apply Roster.eq_of_mem_iff
  intro q
  change q ∈ ((Resolution.start config).absorb (t.roundView config)).waiting.toList ↔ _
  rw [mem_waiting_absorb, none_deferred]
  simp [Resolution.start]

theorem deliver_of_taken {receipt : ρ} {next : σ}
    (taken : (sink s.resolution.entries).run s.sinkState = (.ok receipt, next)) :
    s.deliver sink = (.ok s.resolution.entries.size, s.accept receipt next) := by
  rw [deliver, taken]

theorem map_fst_deliveries_deliver (sink : Sink σ ε ρ) (s : Session σ ε ρ) :
    (s.deliver sink).2.deliveries.map Prod.fst =
      s.deliveries.map Prod.fst ++ [s.resolution.entries] := by
  unfold deliver
  split
  next => simp [accept]
  next => simp [refuse]

/-- A round that defers nothing is enough for a new session to hand its entries to the sink. -/
theorem process_start (sink : Sink σ ε ρ) (sinkState : σ)
    (none_deferred : (t.roundView config).deferredNames = []) :
    let s := (start config sinkState).process sink t
    let m := (afterRounds config [t.roundView config] : Resolution ρ).entries
    s.2.deliveries.map Prod.fst = [m] ∧
      ∀ receipt next, (sink m).run sinkState = (.ok receipt, next) →
        s.1 = .ok (.written 1 m.size) ∧ s.2.written = [m] := by
  intro s m
  have scanning : (start config sinkState : Session σ ε ρ).resolution.phase = .scanning := rfl
  have entries : ((start config sinkState : Session σ ε ρ).absorb t).resolution.entries = m :=
    (faithful_start config sinkState).entries_absorb scanning t
  have ran : s = _ := process_of_scanning scanning
  rw [if_pos (waiting_absorb_start sinkState none_deferred)] at ran
  refine ⟨?_, ?_⟩
  · rw [ran, map_fst_deliveries_deliver, entries]
    rfl
  · intro receipt next taken
    rw [← entries] at taken
    rw [deliver_of_taken taken, entries] at ran
    rw [ran]
    exact ⟨rfl, congrArg (fun m => [m]) entries⟩

/-- The manifest that a round writes is the one that this round alone gives, if the round shows
all marked types that earlier rounds have shown. -/
theorem written_manifest_of_last_round {σ' ε' ρ' : Type} (config : ScanConfig)
    (sink : Sink σ ε ρ) (sinkState : σ) (events : List (Event σ)) (t : Table) {pass count : Nat} :
    let s := (start config sinkState).run sink events
    (s.process sink t).1 = .ok (.written pass count) →
    (∀ u ∈ s.rounds, u.shownNames ⊆ t.shownNames) →
    ∃ m, (s.process sink t).2.written = [m] ∧
      ∀ (freshSink : Sink σ' ε' ρ') (freshState : σ'),
        let fresh := (start config freshState).process freshSink t
        fresh.2.deliveries.map Prod.fst = [m] ∧
        (∀ receipt next, (freshSink m).run freshState = (.ok receipt, next) →
          fresh.1 = .ok (.written 1 count) ∧ fresh.2.written = [m]) := by
  intro s written shown
  have faithful : s.Faithful config := faithful_run config sink sinkState events
  obtain ⟨scanning, empty, rfl, receipt, nextState, after⟩ := of_process_written written
  have none_deferred := deferredNames_of_waiting_absorb faithful empty
  have mentioned : ∀ w ∈ s.views config, ∀ q ∈ w.settled,
      (t.roundView config).mentions q = true := by
    intro w hw q settled
    obtain ⟨u, hu, rfl⟩ := List.mem_map.mp hw
    have shows := Table.mentions_roundView_iff.mp (mentions_iff.mpr (.inl settled))
    exact Table.mentions_roundView_iff.mpr (shown u hu shows)
  have entries : (s.absorb t).resolution.entries =
      (afterRounds config [t.roundView config] : Resolution ρ').entries :=
    (faithful.entries_absorb scanning t).trans
      (entries_afterRounds_of_last config mentioned none_deferred)
  have done : (s.process sink t).2.resolution.isDone = true := by
    rw [after]
    rfl
  have next : (s.process sink t).2.Faithful config := faithful.process t
  have taken := next.written_of_done done
  refine ⟨(s.absorb t).resolution.entries, ?_, ?_⟩
  · rw [taken, after]
    rfl
  · intro freshSink freshState
    rw [entries]
    exact process_start freshSink freshState none_deferred

theorem earlySample_mended :
    (((start .standard false).run Sink.flaky [.round .earlySample]).process Sink.flaky
      .mendedSample).1 = .ok (.written 2 2) := by
  cbv

theorem rejected_type_written :
    let s := (start .standard false).run Sink.flaky [.round .earlySample]
    let t := Table.mendedSample
    let fresh := (start .standard false).process Sink.flaky t
    (s.process Sink.flaky t).1 = .ok (.written 2 2) ∧
      (∀ u ∈ s.rounds, u.shownNames ⊆ t.shownNames) ∧
      ∃ m, (s.process Sink.flaky t).2.written = [m] ∧
        fresh.2.deliveries.map Prod.fst = [m] ∧
        (Sink.flaky m).run false = (.ok (), false) ∧
        fresh.1 = .ok (.written 1 2) ∧ fresh.2.written = [m] := by
  intro s t fresh
  have rounds : s.rounds = [.earlySample] := rounds_process rfl
  have shown : ∀ u ∈ s.rounds, u.shownNames ⊆ t.shownNames := by
    rw [rounds]
    decide +kernel
  obtain ⟨m, taken, alone⟩ := written_manifest_of_last_round .standard Sink.flaky false
    [.round .earlySample] t earlySample_mended shown
  obtain ⟨handed, accepted⟩ := alone Sink.flaky false
  have willing : (Sink.flaky m).run false = (.ok (), false) := rfl
  exact ⟨earlySample_mended, shown, m, taken, handed, willing, accepted () false willing⟩

end Session

end WrapperGen
