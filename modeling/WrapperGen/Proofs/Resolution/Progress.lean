import WrapperGen.Proofs.Resolution.LastRound
import WrapperGen.Proofs.Resolution.Stall

namespace WrapperGen

variable {σ ε ρ : Type}

namespace Table

variable {t : Table} {q : String}

/-- The names of the marked types that have something missing. -/
def unreadyNames (t : Table) : NameSet :=
  .ofList (((t.markedSymbols .viewModel).filter (!t.isReady ·.id)).map Symbol.displayName)

theorem mem_unreadyNames :
    q ∈ t.unreadyNames.toList ↔
      ∃ symbol ∈ t.markedSymbols .viewModel,
        t.isReady symbol.id = false ∧ symbol.displayName = q := by
  simp only [unreadyNames, NameSet.mem_ofList, List.mem_map, List.mem_filter, Bool.not_eq_true',
    and_assoc]

theorem shownNames_of_mem_unreadyNames (h : q ∈ t.unreadyNames.toList) : q ∈ t.shownNames := by
  obtain ⟨symbol, marked, -, name⟩ := mem_unreadyNames.mp h
  exact List.mem_map.mpr ⟨symbol, marked, name⟩

end Table

/-- Rounds that all show marked types of the same names. What is ready stays ready: of a name of
which a type is ready in one round none is unready in a later one. -/
structure GrowingRounds (names : List String) (rounds : Nat → Table) : Prop where
  shown : ∀ k, (rounds k).shownNames.Perm names
  lasting : ∀ {j k : Nat}, j < k →
    ∀ a ∈ (rounds j).markedSymbols .viewModel, ∀ b ∈ (rounds k).markedSymbols .viewModel,
      a.displayName = b.displayName → (rounds j).isReady a.id = true →
        (rounds k).isReady b.id = true

namespace GrowingRounds

variable {names : List String} {rounds : Nat → Table}

theorem unreadyNames_subset (growing : GrowingRounds names rounds) (k : Nat) :
    (rounds (k + 1)).unreadyNames.toList ⊆ (rounds k).unreadyNames.toList := by
  intro q unready
  obtain ⟨b, shownLater, unreadyLater, nameLater⟩ := Table.mem_unreadyNames.mp unready
  have later : q ∈ (rounds (k + 1)).shownNames := Table.shownNames_of_mem_unreadyNames unready
  have now : q ∈ (rounds k).shownNames :=
    (growing.shown k).mem_iff.mpr ((growing.shown (k + 1)).mem_iff.mp later)
  obtain ⟨a, shown, name⟩ := List.mem_map.mp now
  refine Table.mem_unreadyNames.mpr ⟨a, shown, ?_, name⟩
  by_contra ready
  have still := growing.lasting (Nat.lt_succ_self k) a shown b shownLater
    (name.trans nameLater.symm) (Bool.not_eq_false _ ▸ ready)
  rw [unreadyLater] at still
  cases still

theorem size_unreadyNames_le (growing : GrowingRounds names rounds) (k : Nat) :
    (rounds k).unreadyNames.size ≤ names.length := by
  have sub : (rounds k).unreadyNames.toList ⊆ names := fun q unready =>
    (growing.shown k).mem_iff.mp (Table.shownNames_of_mem_unreadyNames unready)
  exact (Roster.subperm_of_subset sub).length_le

/-- The names that are unready in the round before. -/
def unreadyBefore (rounds : Nat → Table) : Nat → NameSet
  | 0 => ∅
  | k + 1 => (rounds k).unreadyNames

/-- The round leaves nothing unready, or as much as the round before. -/
def IsEnd (rounds : Nat → Table) (k : Nat) : Prop :=
  (rounds k).unreadyNames = ∅ ∨ (rounds k).unreadyNames = unreadyBefore rounds k

instance (rounds : Nat → Table) : DecidablePred (IsEnd rounds) := fun k =>
  inferInstanceAs (Decidable ((rounds k).unreadyNames = ∅ ∨
    (rounds k).unreadyNames = unreadyBefore rounds k))

theorem size_unreadyNames_lt (growing : GrowingRounds names rounds) {k : Nat}
    (goesOn : ¬IsEnd rounds (k + 1)) :
    (rounds (k + 1)).unreadyNames.size < (rounds k).unreadyNames.size :=
  Roster.size_lt_of_subset (growing.unreadyNames_subset k)
    fun same => goesOn (.inr same)

/-- Every round but the last takes a name away. -/
theorem isEnd_or_size_le (growing : GrowingRounds names rounds) (k : Nat) :
    (∃ j ≤ k, IsEnd rounds j) ∨ k + (rounds k).unreadyNames.size ≤ names.length := by
  induction k with
  | zero =>
    right
    have size := growing.size_unreadyNames_le 0
    omega
  | succ k ih =>
    rcases ih with ⟨j, le, ends⟩ | bound
    · exact .inl ⟨j, Nat.le_succ_of_le le, ends⟩
    · by_cases ends : IsEnd rounds (k + 1)
      · exact .inl ⟨k + 1, Nat.le_refl _, ends⟩
      · right
        have smaller := growing.size_unreadyNames_lt ends
        omega

theorem exists_first_end (growing : GrowingRounds names rounds) :
    ∃ k ≤ names.length, IsEnd rounds k ∧ ∀ j < k, ¬IsEnd rounds j := by
  have some : ∃ k ≤ names.length, IsEnd rounds k := by
    rcases growing.isEnd_or_size_le names.length with ends | bound
    · exact ends
    · have none_left : (rounds names.length).unreadyNames.size = 0 := by omega
      exact ⟨names.length, Nat.le_refl _, .inl (Roster.size_eq_zero_iff.mp none_left)⟩
  obtain ⟨k, le, ends⟩ := some
  have found : ∃ k, IsEnd rounds k := ⟨k, ends⟩
  exact ⟨Nat.find found, (Nat.find_min' found ends).trans le, Nat.find_spec found,
    fun j earlier => Nat.find_min found earlier⟩

end GrowingRounds

namespace Session

open Resolution RoundView GrowingRounds

variable {config : ScanConfig} {sink : Sink σ ε ρ} {s : Session σ ε ρ} {t : Table}

/-- If a round shows all names that wait, the unready ones wait after it. -/
theorem waiting_absorb_of_shown (shown : s.resolution.waiting.toList ⊆ t.shownNames) :
    (s.absorb t).resolution.waiting = t.unreadyNames := by
  apply Roster.eq_of_mem_iff
  intro q
  have unready : q ∈ (t.roundView s.resolution.config).deferredNames ↔ q ∈ t.unreadyNames.toList :=
    Table.mem_deferredNames_roundView.trans Table.mem_unreadyNames.symm
  change q ∈ (s.resolution.absorb (t.roundView s.resolution.config)).waiting.toList ↔ _
  rw [mem_waiting_absorb, ← unready]
  constructor
  · rintro (deferred | ⟨waits, unsettled⟩)
    · exact deferred
    · have mentioned : (t.roundView s.resolution.config).mentions q = true :=
        Table.mentions_roundView_iff.mpr (shown waits)
      exact (mentions_iff.mp mentioned).resolve_left unsettled
  · exact .inl

/-- The session after the first `k` of the rounds. -/
def afterFirst (sink : Sink σ ε ρ) (s : Session σ ε ρ) (rounds : Nat → Table) (k : Nat) :
    Session σ ε ρ :=
  s.run sink ((List.range k).map fun j => .round (rounds j))

theorem afterFirst_succ (sink : Sink σ ε ρ) (s : Session σ ε ρ) (rounds : Nat → Table) (k : Nat) :
    s.afterFirst sink rounds (k + 1) =
      ((s.afterFirst sink rounds k).process sink (rounds k)).2 := by
  rw [afterFirst, List.range_succ, List.map_append]
  exact run_concat sink s _ _

theorem phase_afterFirst_of_halted {rounds : Nat → Table} {k j : Nat}
    (halted : (s.afterFirst sink rounds k).resolution.phase ≠ .scanning) (le : k ≤ j) :
    (s.afterFirst sink rounds j).resolution.phase =
      (s.afterFirst sink rounds k).resolution.phase := by
  induction j, le using Nat.le_induction with
  | base => rfl
  | succ j _ ih =>
    rw [← ih] at halted ⊢
    rw [afterFirst_succ]
    exact congrArg (·.resolution.phase) (step_of_halted halted (.round (rounds j)))

/-- What growing rounds keep until their end: the unready names of the last round wait. -/
structure OnWay (rounds : Nat → Table) (k : Nat) (s : Session σ ε ρ) : Prop where
  scanning : s.resolution.phase = .scanning
  passes : s.resolution.passes = k
  waiting : s.resolution.waiting = unreadyBefore rounds k

namespace OnWay

variable {names : List String} {rounds : Nat → Table} {k : Nat}

theorem waiting_absorb (h : s.OnWay rounds k) (growing : GrowingRounds names rounds) :
    (s.absorb (rounds k)).resolution.waiting = (rounds k).unreadyNames := by
  apply waiting_absorb_of_shown
  intro q waits
  rw [h.waiting] at waits
  cases k with
  | zero => cases waits
  | succ k =>
    have shown : q ∈ (rounds k).shownNames := Table.shownNames_of_mem_unreadyNames waits
    exact (growing.shown (k + 1)).mem_iff.mpr ((growing.shown k).mem_iff.mp shown)

theorem passes_absorb (h : s.OnWay rounds k) (t : Table) :
    (s.absorb t).resolution.passes = k + 1 :=
  congrArg (· + 1) h.passes

theorem process_goesOn (h : s.OnWay rounds k) (growing : GrowingRounds names rounds)
    (goesOn : ¬IsEnd rounds k) :
    (s.process sink (rounds k)).1 = .ok (.deferred (k + 1) (rounds k).unreadyNames.size) ∧
      (s.process sink (rounds k)).2.OnWay rounds (k + 1) := by
  obtain ⟨nonempty, changed⟩ := not_or.mp goesOn
  have waiting := h.waiting_absorb growing
  rw [process_of_scanning h.scanning, h.passes_absorb, waiting, if_neg nonempty, h.waiting,
    if_neg changed]
  exact ⟨rfl, h.scanning, h.passes_absorb _, waiting⟩

theorem process_written (h : s.OnWay rounds k) (growing : GrowingRounds names rounds)
    (willing : ∀ m state, ∃ receipt next, (sink m).run state = (.ok receipt, next))
    (allReady : (rounds k).unreadyNames = ∅) :
    let after := (s.process sink (rounds k)).2
    (s.process sink (rounds k)).1 = .ok (.written (k + 1) after.resolution.entries.size) ∧
      ∃ receipt, after.resolution.phase = .done receipt := by
  intro after
  have waiting := h.waiting_absorb growing
  have ran : s.process sink (rounds k) = _ := process_of_scanning h.scanning
  obtain ⟨receipt, next, taken⟩ :=
    willing (s.absorb (rounds k)).resolution.entries (s.absorb (rounds k)).sinkState
  rw [if_pos (waiting.trans allReady), deliver_of_taken taken, h.passes_absorb] at ran
  refine ⟨?_, receipt, ?_⟩
  · simp only [after, ran]
    rfl
  · simp only [after, ran]
    rfl

theorem process_stalled (h : s.OnWay rounds k) (growing : GrowingRounds names rounds)
    (nonempty : (rounds k).unreadyNames ≠ ∅)
    (same : (rounds k).unreadyNames = unreadyBefore rounds k) :
    (s.process sink (rounds k)).1 =
      .error (.stalled (k + 1) (rounds k).unreadyNames.toList) := by
  rw [process_of_scanning h.scanning, h.passes_absorb, h.waiting_absorb growing, if_neg nonempty,
    h.waiting, if_pos same]

end OnWay

theorem onWay_afterFirst {names : List String} {rounds : Nat → Table}
    (growing : GrowingRounds names rounds) (config : ScanConfig) (sink : Sink σ ε ρ)
    (sinkState : σ) {k : Nat} (goesOn : ∀ j < k, ¬IsEnd rounds j) :
    ((start config sinkState).afterFirst sink rounds k).OnWay rounds k := by
  induction k with
  | zero => exact ⟨rfl, rfl, rfl⟩
  | succ k ih =>
    have before := ih fun j earlier => goesOn j (Nat.lt_succ_of_lt earlier)
    rw [afterFirst_succ]
    exact (before.process_goesOn growing (goesOn k (Nat.lt_succ_self k))).2

/-- Growing rounds defer what is unready for as long as that becomes less from round to round. They
end with the first that leaves nothing unready, and the manifest is written, or the same as the
round before, and the rounds stall. There are at most as many deferrals as names. -/
theorem growing_rounds_end {names : List String} {rounds : Nat → Table}
    (growing : GrowingRounds names rounds) (config : ScanConfig) (sink : Sink σ ε ρ)
    (sinkState : σ)
    (willing : ∀ m state, ∃ receipt next, (sink m).run state = (.ok receipt, next)) :
    let unready := fun k => (rounds k).unreadyNames
    let s := (start config sinkState).afterFirst sink rounds
    let answer := fun k => ((s k).process sink (rounds k)).1
    ∃ k ≤ names.length,
      (∀ j < k, unready j ≠ ∅ ∧ answer j = .ok (.deferred (j + 1) (unready j).size)) ∧
      (∀ j, j + 1 < k → (unready (j + 1)).toList ⊆ (unready j).toList ∧
        (unready (j + 1)).size < (unready j).size) ∧
      (unready k = ∅ ∧
          answer k = .ok (.written (k + 1) (s (k + 1)).resolution.entries.size) ∧
          (s (k + 1)).written = [(s (k + 1)).resolution.entries] ∧
          (∀ j, k < j → answer j = .ok .alreadyDone) ∨
        unready k ≠ ∅ ∧ (∃ i, k = i + 1 ∧ unready k = unready i) ∧
          answer k = .error (.stalled (k + 1) (unready k).toList) ∧
          ∀ j, k < j → answer j = answer k) := by
  intro unready s answer
  obtain ⟨k, le, ends, goesOn⟩ := growing.exists_first_end
  have next : s (k + 1) = ((s k).process sink (rounds k)).2 := afterFirst_succ sink _ rounds k
  have onWay : (s k).OnWay rounds k := onWay_afterFirst growing config sink sinkState goesOn
  have still : ∀ j, k < j → (s (k + 1)).resolution.phase ≠ .scanning →
      (s j).resolution.phase = (s (k + 1)).resolution.phase :=
    fun j later halted => phase_afterFirst_of_halted halted later
  refine ⟨k, le, ?_, ?_, ?_⟩
  · intro j earlier
    have before : (s j).OnWay rounds j := onWay_afterFirst growing config sink sinkState
      fun i h => goesOn i (h.trans earlier)
    have deferred : answer j = .ok (.deferred (j + 1) (unready j).size) :=
      (before.process_goesOn growing (goesOn j earlier)).1
    exact ⟨fun empty => goesOn j earlier (.inl empty), deferred⟩
  · intro j earlier
    exact ⟨growing.unreadyNames_subset j,
      growing.size_unreadyNames_lt (goesOn (j + 1) earlier)⟩
  · by_cases allReady : unready k = ∅
    · left
      obtain ⟨written, receipt, done⟩ := onWay.process_written growing willing allReady
      rw [← next] at written done
      have faithful : (s (k + 1)).Faithful config := faithful_run config sink sinkState _
      refine ⟨allReady, written, faithful.written_of_done (isDone_iff.mpr ⟨receipt, done⟩), ?_⟩
      intro j later
      have phase := still j later (done ▸ nofun)
      exact congrArg Prod.fst (process_of_done (phase.trans done))
    · right
      have same := ends.resolve_left allReady
      have stalled : answer k = .error (.stalled (k + 1) (unready k).toList) :=
        onWay.process_stalled growing allReady same
      have halted := phase_of_process_stalled stalled
      rw [← next] at halted
      refine ⟨allReady, ?_, stalled, ?_⟩
      · cases k with
        | zero => exact absurd same allReady
        | succ i => exact ⟨i, rfl, same⟩
      · intro j later
        have phase := still j later (halted ▸ nofun)
        exact (congrArg Prod.fst (process_of_stalled (phase.trans halted))).trans stalled.symm

/-- The early sample, and then the mended one for good. -/
def mending : Nat → Table
  | 0 => .earlySample
  | _ + 1 => .mendedSample

theorem earlySample_unreadyNames : Table.earlySample.unreadyNames.toList = ["a.Waiting"] := by
  cbv

theorem mendedSample_unreadyNames : Table.mendedSample.unreadyNames.toList = [] := by
  cbv

theorem growing_mending : GrowingRounds ["a.Broken", "a.Waiting"] mending where
  shown k := by
    cases k <;>
      · simp only [mending]
        decide +kernel
  lasting {j k} later _ _ b marked _ _ := by
    cases k with
    | zero => exact absurd later (Nat.not_lt_zero j)
    | succ k =>
      by_contra unready
      have listed := Table.mem_unreadyNames.mpr ⟨b, marked, Bool.not_eq_true _ ▸ unready, rfl⟩
      rw [mending, mendedSample_unreadyNames] at listed
      cases listed

theorem mending_written :
    let accept : Sink Unit Unit Unit := fun _ => return .ok ()
    let s := (start .standard ()).afterFirst accept mending
    let answer := fun k => ((s k).process accept (mending k)).1
    GrowingRounds ["a.Broken", "a.Waiting"] mending ∧
      (∀ m state, ∃ receipt next, (accept m).run state = (.ok receipt, next)) ∧
      answer 0 = .ok (.deferred 1 1) ∧
      answer 1 = .ok (.written 2 (s 2).resolution.entries.size) ∧
      ∀ j, 1 < j → answer j = .ok .alreadyDone := by
  intro accept s answer
  have willing : ∀ m state, ∃ receipt next, (accept m).run state = (.ok receipt, next) :=
    fun _ _ => ⟨(), (), rfl⟩
  have first : (mending 0).unreadyNames ≠ ∅ := by
    intro empty
    have names : [] = ["a.Waiting"] :=
      (congrArg Roster.toList empty).symm.trans earlySample_unreadyNames
    cases names
  have second : (mending 1).unreadyNames = ∅ := Roster.ext mendedSample_unreadyNames
  obtain ⟨k, -, deferred, -, ended⟩ :=
    growing_rounds_end growing_mending .standard accept () willing
  have isSecond : k = 1 := by
    match k with
    | 0 =>
      rcases ended with ⟨empty, -⟩ | ⟨-, ⟨i, zero, -⟩, -⟩
      · exact absurd empty first
      · cases zero
    | 1 => rfl
    | k + 2 => exact absurd second (deferred 1 (by omega)).1
  subst isSecond
  obtain ⟨-, written, -, later⟩ := ended.resolve_right fun stalled => stalled.1 second
  have one : (mending 0).unreadyNames.size = 1 := congrArg List.length earlySample_unreadyNames
  have once : answer 0 = .ok (.deferred 1 (mending 0).unreadyNames.size) :=
    (deferred 0 Nat.one_pos).2
  rw [one] at once
  exact ⟨growing_mending, willing, once, written, later⟩

end Session

end WrapperGen
