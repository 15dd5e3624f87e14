import WrapperGen.Proofs.Resolution.Settling
import WrapperGen.Proofs.Resolution.Stall

namespace WrapperGen

variable {σ ε ρ : Type}

/-! ## One more rejection -/

/-- A round view shows what another one shows, and a rejection under a name besides. -/
structure RoundView.Rejecting (v w : RoundView) (n : String) : Prop where
  resolved : v.resolved = w.resolved
  deferred : ∀ q, q ∈ v.deferredNames ↔ q ∈ w.deferredNames
  settled : ∀ q, q ∈ v.settled ↔ q = n ∨ q ∈ w.settled

namespace RoundView.Rejecting

variable {v w : RoundView} {n q : String} {r : Resolution ρ}

theorem find?_eq (h : v.Rejecting w n) (other : q ≠ n) :
    (r.absorb v).entries.find? q = (r.absorb w).entries.find? q := by
  have settled : q ∈ v.settled ↔ q ∈ w.settled := (h.settled q).trans (or_iff_right other)
  simp only [Resolution.find?_entries_absorb, settled, latest?, h.resolved]

theorem mem_waiting_iff (h : v.Rejecting w n) (other : q ≠ n) :
    q ∈ (r.absorb v).waiting.toList ↔ q ∈ (r.absorb w).waiting.toList := by
  have settled : q ∈ v.settled ↔ q ∈ w.settled := (h.settled q).trans (or_iff_right other)
  rw [Resolution.mem_waiting_absorb, Resolution.mem_waiting_absorb, settled, h.deferred]

/-- The rejection takes an entry away if there is one and nothing else settles its name. -/
theorem drops_iff (h : v.Rejecting w n) :
    (r.absorb v).entries.find? n = none ∧ ((r.absorb w).entries.find? n).isSome = true ↔
      (r.entries.find? n).isSome = true ∧ n ∉ w.settled := by
  have here : n ∈ v.settled := (h.settled n).mpr (.inl rfl)
  have same : v.latest? n = w.latest? n := by rw [latest?, h.resolved, latest?]
  rw [Resolution.find?_entries_absorb, Resolution.find?_entries_absorb, if_pos here, same]
  by_cases settled : n ∈ w.settled
  · rw [if_pos settled]
    constructor
    · rintro ⟨none, some⟩
      rw [none] at some
      cases some
    · exact fun impossible => absurd settled impossible.2
  · have unresolved : w.latest? n = none := by
      rw [← Option.not_isSome_iff_eq_none, latest?_isSome_iff]
      exact fun resolved => settled (mem_settled.mpr (.inr resolved))
    rw [if_neg settled, unresolved]
    exact ⟨fun dropped => ⟨dropped.2, settled⟩, fun dropped => ⟨rfl, dropped.1⟩⟩

/-- The rejection settles a name that has waited if the round does not mention it otherwise. -/
theorem settles_iff (h : v.Rejecting w n) :
    n ∉ (r.absorb v).waiting.toList ∧ n ∈ (r.absorb w).waiting.toList ↔
      n ∈ r.waiting.toList ∧ n ∉ w.settled ∧ n ∉ w.deferredNames := by
  have here : n ∈ v.settled := (h.settled n).mpr (.inl rfl)
  rw [Resolution.mem_waiting_absorb, Resolution.mem_waiting_absorb, h.deferred]
  by_cases deferred : n ∈ w.deferredNames <;> simp [here, deferred]

end RoundView.Rejecting

namespace Table

/-- What a round would show if it passed over a declaration. -/
def roundViewWithout (t : Table) (config : ScanConfig) (id : String) : RoundView :=
  .ofCandidates t config (t.candidates.filter (·.symbol.id ≠ id))

variable {t : Table} {config : ScanConfig} {l : Symbol} {q : String}

theorem eq_of_id_eq {m : Symbol} (marked : l ∈ t.markedSymbols .viewModel)
    (marked' : m ∈ t.markedSymbols .viewModel) (same : m.id = l.id) : m = l :=
  List.inj_on_of_nodup_map (t.nodup_markedSymbols .viewModel) marked' marked same

/-- A local declaration has no entry, whatever its members are. -/
theorem build_of_local (config : ScanConfig) {c : Candidate}
    (isLocal : c.symbol.qualifiedName = none) :
    ∃ r, t.build config c = .error r ∧ r.symbol = c.symbol.simpleName := by
  cases built : t.build config c with
  | ok e =>
    have named := build_qualifiedName built
    rw [isLocal] at named
    cases named
  | error r =>
    refine ⟨r, rfl, ?_⟩
    rw [build_symbol built, Symbol.displayName, isLocal]
    rfl

section

variable (config) (marked : l ∈ t.markedSymbols .viewModel)
include marked

theorem exists_mem_others (p : Symbol → Prop) :
    (∃ c ∈ t.candidates.filter (·.symbol.id ≠ l.id), p c.symbol) ↔
      ∃ m ∈ t.markedSymbols .viewModel, m ≠ l ∧ p m := by
  have others : (∃ c ∈ t.candidates.filter (·.symbol.id ≠ l.id), p c.symbol) ↔
      ∃ c ∈ t.candidates, c.symbol.id ≠ l.id ∧ p c.symbol := by
    simp only [List.mem_filter, decide_eq_true_eq, and_assoc]
  rw [others, exists_mem_candidates fun m => m.id ≠ l.id ∧ p m]
  refine exists_congr fun m => and_congr_right fun marked' => and_congr_left fun _ => ?_
  exact not_congr ⟨eq_of_id_eq marked marked', congrArg Symbol.id⟩

theorem mem_settled_roundViewWithout : q ∈ (t.roundViewWithout config l.id).settled ↔
    ∃ m ∈ t.markedSymbols .viewModel, m ≠ l ∧ t.isReady m.id = true ∧ m.displayName = q :=
  RoundView.mem_settled_ofCandidates.trans
    (exists_mem_others marked fun m => t.isReady m.id = true ∧ m.displayName = q)

theorem mem_deferredNames_roundViewWithout : q ∈ (t.roundViewWithout config l.id).deferredNames ↔
    ∃ m ∈ t.markedSymbols .viewModel, m ≠ l ∧ t.isReady m.id = false ∧ m.displayName = q :=
  RoundView.mem_deferredNames.trans
    (exists_mem_others marked fun m => t.isReady m.id = false ∧ m.displayName = q)

variable (isLocal : l.qualifiedName = none)
include isLocal

theorem resolved_roundViewWithout :
    (t.roundView config).resolved = (t.roundViewWithout config l.id).resolved := by
  rw [roundViewWithout, roundView, RoundView.ofCandidates_eq, RoundView.ofCandidates_eq]
  simp only [List.filterMap_filter]
  refine List.filterMap_congr fun c mem => ?_
  by_cases same : c.symbol.id = l.id
  · have symbol : c.symbol = l :=
      eq_of_id_eq marked (map_symbol_candidates t ▸ List.mem_map_of_mem mem) same
    obtain ⟨r, refused, -⟩ := build_of_local (t := t) config (symbol ▸ isLocal)
    simp [same, found?, refused]
  · simp [same]

variable (ready : t.isReady l.id = true)
include ready

/-- A local declaration that is ready adds its rejection to the round, and nothing else. -/
theorem rejecting_roundView :
    (t.roundView config).Rejecting (t.roundViewWithout config l.id) l.simpleName where
  resolved := resolved_roundViewWithout config marked isLocal
  deferred q := by
    rw [mem_deferredNames_roundView, mem_deferredNames_roundViewWithout config marked]
    refine exists_congr fun m => and_congr_right fun _ => ?_
    refine (and_iff_right_of_imp ?_).symm
    rintro ⟨unready, -⟩ rfl
    rw [ready] at unready
    cases unready
  settled q := by
    have name : l.displayName = l.simpleName := by
      rw [Symbol.displayName, isLocal]
      rfl
    rw [mem_settled_roundView, mem_settled_roundViewWithout config marked]
    constructor
    · rintro ⟨m, marked', ready', rfl⟩
      by_cases same : m = l
      · exact .inl (same ▸ name)
      · exact .inr ⟨m, marked', same, ready', rfl⟩
    · rintro (rfl | ⟨m, marked', -, settled⟩)
      · exact ⟨l, marked, ready, name⟩
      · exact ⟨m, marked', settled⟩

theorem exists_rejection : ∃ r ∈ (t.roundView config).rejections, r.symbol = l.simpleName := by
  obtain ⟨c, mem, rfl⟩ := List.mem_map.mp ((map_symbol_candidates t).symm ▸ marked)
  obtain ⟨r, refused, name⟩ := build_of_local (t := t) config isLocal
  exact ⟨r, RoundView.mem_rejections.mpr ⟨c, mem, ready, refused⟩, name⟩

end

end Table

namespace Session

open Resolution

variable {config : ScanConfig} {sink : Sink σ ε ρ} {s : Session σ ε ρ} {t : Table}

theorem entries_process (scanning : s.resolution.phase = .scanning) :
    (s.process sink t).2.resolution.entries = (s.absorb t).resolution.entries := by
  rw [process_of_scanning scanning]
  split
  next => unfold deliver; split <;> rfl
  next => split <;> rfl

/-- A local declaration that a round rejects reaches the entry and the waiting name of another type
if that type is called like it and the round shows no other type of the name. Nothing else is
reached: under other names the round leaves what it would leave if it passed over the local
declaration. -/
theorem local_rejection_reaches_iff (config : ScanConfig) (sink : Sink σ ε ρ) (sinkState : σ)
    (events : List (Event σ)) (t : Table) {l : Symbol} (marked : l ∈ t.markedSymbols .viewModel)
    (isLocal : l.qualifiedName = none) (ready : t.isReady l.id = true) :
    let s := (start config sinkState).run sink events
    let before := s.resolution
    let after := (s.process sink t).2.resolution
    let spared := before.absorb (t.roundViewWithout config l.id)
    before.phase = .scanning →
    (∃ r ∈ (t.roundView config).rejections, r.symbol = l.simpleName) ∧
    (∀ q, q ≠ l.simpleName → after.entries.find? q = spared.entries.find? q ∧
      (q ∈ after.waiting.toList ↔ q ∈ spared.waiting.toList)) ∧
    (after.entries.find? l.simpleName = none ∧ (spared.entries.find? l.simpleName).isSome = true ↔
      (before.entries.find? l.simpleName).isSome = true ∧ ∀ m ∈ t.markedSymbols .viewModel,
        t.isReady m.id = true → m.displayName = l.simpleName → m = l) ∧
    (l.simpleName ∉ after.waiting.toList ∧ l.simpleName ∈ spared.waiting.toList ↔
      l.simpleName ∈ before.waiting.toList ∧ ∀ m ∈ t.markedSymbols .viewModel,
        m.displayName = l.simpleName → m = l) := by
  intro s before after spared scanning
  have faithful : s.Faithful config := faithful_run config sink sinkState events
  have entries : after.entries = (before.absorb (t.roundView config)).entries :=
    (entries_process scanning).trans (by rw [← faithful.config_eq]; rfl)
  have waiting : after.waiting = (before.absorb (t.roundView config)).waiting :=
    (waiting_process scanning).trans (by rw [← faithful.config_eq]; rfl)
  have rejecting := Table.rejecting_roundView config marked isLocal ready
  have unsettled := Table.mem_settled_roundViewWithout config marked (q := l.simpleName)
  have undeferred := Table.mem_deferredNames_roundViewWithout config marked (q := l.simpleName)
  rw [entries, waiting]
  refine ⟨Table.exists_rejection config marked isLocal ready, fun q other => ?_, ?_, ?_⟩
  · exact ⟨rejecting.find?_eq other, rejecting.mem_waiting_iff other⟩
  · rw [rejecting.drops_iff, unsettled]
    simp only [not_exists, not_and]
    refine and_congr_right fun _ => forall₂_congr fun m _ => ?_
    exact ⟨fun h ready name => by_contra fun other => h other ready name,
      fun h other ready name => other (h ready name)⟩
  · rw [rejecting.settles_iff, unsettled, undeferred]
    refine and_congr_right fun _ => ⟨?_, fun alone => ⟨?_, ?_⟩⟩
    · rintro ⟨unsettled, undeferred⟩ m marked' name
      by_contra other
      cases ready' : t.isReady m.id with
      | true => exact unsettled ⟨m, marked', other, ready', name⟩
      | false => exact undeferred ⟨m, marked', other, ready', name⟩
    · rintro ⟨m, marked', other, -, name⟩
      exact other (alone m marked' name)
    · rintro ⟨m, marked', other, -, name⟩
      exact other (alone m marked' name)

/-! ## Types without a package and local types of their names -/

/-- The first type has an entry, and the second one has to wait. -/
def panelAndScreen : Table :=
  ((∅ : Table).declare ((Declaration.ofClass "Panel").marked .viewModel)).declare
    (.stateful "Screen" (.mk "StateFlow" [.type (.mk "a.Later" [] false)] false))

def localPanelAndScreen : Table :=
  ((∅ : Table).declare ((Declaration.ofLocal "local#1" .classType "Panel").marked .viewModel)).declare
    ((Declaration.ofLocal "local#2" .classType "Screen").marked .viewModel)

theorem panelAndScreen_deferred :
    let s : Session Bool Unit Unit := (start .standard false).run Sink.flaky [.round panelAndScreen]
    s.resolution.phase = .scanning ∧ s.resolution.entries.names = ["Panel"] ∧
      s.resolution.waiting.toList = ["Screen"] := by
  cbv

theorem localPanelAndScreen_rejected :
    let s : Session Bool Unit Unit := (start .standard false).run Sink.flaky [.round panelAndScreen]
    let after := s.process Sink.flaky localPanelAndScreen
    after.1 = .ok (.written 2 0) ∧ after.2.resolution.entries.names = [] ∧
      after.2.resolution.waiting.toList = [] := by
  cbv

/-- The local types of the second round take the entry and the waiting name of types that are not
local, which leaves nothing to be written. -/
theorem local_types_reach_namesakes :
    let s : Session Bool Unit Unit := (start .standard false).run Sink.flaky [.round panelAndScreen]
    let after := (s.process Sink.flaky localPanelAndScreen).2.resolution
    (panelAndScreen.markedSymbols .viewModel).map Symbol.qualifiedName =
        [some "Panel", some "Screen"] ∧
      (localPanelAndScreen.markedSymbols .viewModel).map Symbol.qualifiedName = [none, none] ∧
      s.resolution.phase = .scanning ∧
      "Panel" ∈ s.resolution.entries.names ∧ "Panel" ∉ after.entries.names ∧
      "Screen" ∈ s.resolution.waiting.toList ∧ "Screen" ∉ after.waiting.toList := by
  intro s after
  obtain ⟨scanning, entries, waiting⟩ := panelAndScreen_deferred
  obtain ⟨-, entries', waiting'⟩ := localPanelAndScreen_rejected
  refine ⟨by decide, by decide, scanning, ?_, ?_, ?_, ?_⟩
  · rw [entries]
    exact List.mem_singleton_self _
  · rw [entries']
    exact List.not_mem_nil
  · rw [waiting]
    exact List.mem_singleton_self _
  · rw [waiting']
    exact List.not_mem_nil

theorem local_panel_reaches_panel :
    let s : Session Bool Unit Unit := (start .standard false).run Sink.flaky [.round panelAndScreen]
    let t := localPanelAndScreen
    let l : Symbol := ⟨"local#1", .classType, none, "Panel"⟩
    l ∈ t.markedSymbols .viewModel ∧ l.qualifiedName = none ∧ t.isReady l.id = true ∧
      s.resolution.phase = .scanning ∧
      (s.process Sink.flaky t).2.resolution.entries.find? "Panel" = none ∧
      ((s.resolution.absorb (t.roundViewWithout .standard l.id)).entries.find? "Panel").isSome =
        true := by
  intro s t l
  have marked : l ∈ t.markedSymbols .viewModel := by decide
  have ready : t.isReady l.id = true := by cbv
  have scanning : s.resolution.phase = .scanning := panelAndScreen_deferred.1
  obtain ⟨-, -, drops, -⟩ := local_rejection_reaches_iff .standard Sink.flaky false
    [.round panelAndScreen] t marked rfl ready scanning
  have buffered : (s.resolution.entries.find? "Panel").isSome = true := by
    rw [← Roster.mem_names_iff, panelAndScreen_deferred.2.1]
    exact List.mem_singleton_self _
  have alone : ∀ m ∈ t.markedSymbols .viewModel, m.displayName = "Panel" → m = l := by decide
  obtain ⟨dropped, spared⟩ := drops.mpr ⟨buffered, fun m marked _ => alone m marked⟩
  exact ⟨marked, rfl, ready, scanning, dropped, spared⟩

end Session

end WrapperGen
