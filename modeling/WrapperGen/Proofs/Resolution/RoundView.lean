import WrapperGen.Resolution

namespace WrapperGen

namespace Table

theorem buildState_symbol {t : Table} {config : ScanConfig} {owner : String}
    {members : List Member} {r : Rejection} (h : t.buildState config owner members = .error r) :
    r.symbol = owner := by
  unfold buildState at h
  split at h
  next => cases h
  next member =>
    split at h
    next => cases h; rfl
    next type _ =>
      split at h
      next => cases h; rfl
      next container _ =>
        split at h
        next => cases h; rfl
        next =>
          split at h
          next => cases h; rfl
          next => cases h; rfl
          next => split at h <;> cases h; rfl
          next => cases h; rfl
  next => cases h; rfl

/-- A declaration is rejected under the name by which it would have to wait. -/
theorem build_symbol {t : Table} {config : ScanConfig} {c : Candidate} {r : Rejection}
    (h : t.build config c = .error r) : r.symbol = c.symbol.displayName := by
  unfold build at h
  split at h
  next => cases h; rfl
  next =>
    split at h
    next none => cases h; simp [Symbol.displayName, none, Rejection.symbol]
    next qualifiedName some =>
      cases state : t.buildState config qualifiedName c.states with
      | error e =>
        rw [state] at h
        cases h
        simp [Symbol.displayName, some, buildState_symbol state]
      | ok state' =>
        rw [state] at h
        cases h

theorem build_qualifiedName {t : Table} {config : ScanConfig} {c : Candidate} {e : Entry}
    (h : t.build config c = .ok e) : c.symbol.qualifiedName = some e.className := by
  unfold build at h
  split at h
  next => cases h
  next =>
    split at h
    next => cases h
    next qualifiedName some =>
      cases state : t.buildState config qualifiedName c.states with
      | error e =>
        rw [state] at h
        cases h
      | ok state' =>
        rw [state] at h
        cases h
        exact some

theorem build_className {t : Table} {config : ScanConfig} {c : Candidate} {e : Entry}
    (h : t.build config c = .ok e) : e.className = c.symbol.displayName := by
  rw [Symbol.displayName, build_qualifiedName h]
  rfl

/-- The entry that a round finds for a candidate. -/
def found? (t : Table) (config : ScanConfig) (c : Candidate) : Option Entry :=
  if t.isReady c.symbol.id then
    match t.build config c with
    | .ok entry => some entry
    | .error _ => none
  else none

/-- The rejection that a round has for a candidate. -/
def rejection? (t : Table) (config : ScanConfig) (c : Candidate) : Option Rejection :=
  if t.isReady c.symbol.id then
    match t.build config c with
    | .ok _ => none
    | .error rejection => some rejection
  else none

section

variable {t : Table} {config : ScanConfig} {c : Candidate}

theorem found?_eq_some_iff {e : Entry} :
    t.found? config c = some e ↔ t.isReady c.symbol.id = true ∧ t.build config c = .ok e := by
  unfold found?
  cases t.isReady c.symbol.id <;> cases t.build config c <;> simp

theorem rejection?_eq_some_iff {r : Rejection} :
    t.rejection? config c = some r ↔
      t.isReady c.symbol.id = true ∧ t.build config c = .error r := by
  unfold rejection?
  cases t.isReady c.symbol.id <;> cases t.build config c <;> simp

end

end Table

namespace RoundView

def deferredNames (v : RoundView) : List String := v.deferred.map Symbol.displayName

def mentions (v : RoundView) (q : String) : Bool := q ∈ v.settled ∨ q ∈ v.deferredNames

theorem mentions_iff {v : RoundView} {q : String} :
    v.mentions q = true ↔ q ∈ v.settled ∨ q ∈ v.deferredNames := decide_eq_true_iff

theorem mem_settled {v : RoundView} {q : String} :
    q ∈ v.settled ↔ (∃ r ∈ v.rejections, r.symbol = q) ∨ ∃ e ∈ v.resolved, e.className = q := by
  simp [settled]

section

variable {t : Table} {config : ScanConfig} {candidates : List Candidate}

theorem ofCandidates_eq :
    ofCandidates t config candidates = {
      resolved := candidates.filterMap (t.found? config)
      deferred := (candidates.filter (!t.isReady ·.symbol.id)).map (·.symbol)
      rejections := candidates.filterMap (t.rejection? config) } := by
  induction candidates with
  | nil => rfl
  | cons c rest ih =>
    rw [ofCandidates, ih]
    cases ready : t.isReady c.symbol.id with
    | false => simp [Table.found?, Table.rejection?, ready]
    | true =>
      cases built : t.build config c <;> simp [Table.found?, Table.rejection?, ready, built]

theorem mem_deferred {s : Symbol} :
    s ∈ (ofCandidates t config candidates).deferred ↔
      ∃ c ∈ candidates, t.isReady c.symbol.id = false ∧ c.symbol = s := by
  simp only [ofCandidates_eq, List.mem_map, List.mem_filter, Bool.not_eq_true', and_assoc]

theorem mem_resolved {e : Entry} :
    e ∈ (ofCandidates t config candidates).resolved ↔
      ∃ c ∈ candidates, t.isReady c.symbol.id = true ∧ t.build config c = .ok e := by
  simp only [ofCandidates_eq, List.mem_filterMap, Table.found?_eq_some_iff]

theorem mem_rejections {r : Rejection} :
    r ∈ (ofCandidates t config candidates).rejections ↔
      ∃ c ∈ candidates, t.isReady c.symbol.id = true ∧ t.build config c = .error r := by
  simp only [ofCandidates_eq, List.mem_filterMap, Table.rejection?_eq_some_iff]

theorem mem_deferredNames {q : String} :
    q ∈ (ofCandidates t config candidates).deferredNames ↔
      ∃ c ∈ candidates, t.isReady c.symbol.id = false ∧ c.symbol.displayName = q := by
  rw [deferredNames, List.mem_map]
  constructor
  · rintro ⟨s, waits, name⟩
    obtain ⟨c, mem, unready, rfl⟩ := mem_deferred.mp waits
    exact ⟨c, mem, unready, name⟩
  · rintro ⟨c, mem, unready, name⟩
    exact ⟨c.symbol, mem_deferred.mpr ⟨c, mem, unready, rfl⟩, name⟩

theorem mem_settled_ofCandidates {q : String} :
    q ∈ (ofCandidates t config candidates).settled ↔
      ∃ c ∈ candidates, t.isReady c.symbol.id = true ∧ c.symbol.displayName = q := by
  rw [mem_settled]
  constructor
  · rintro (⟨r, hr, rfl⟩ | ⟨e, he, rfl⟩)
    · obtain ⟨c, mem, ready, built⟩ := mem_rejections.mp hr
      exact ⟨c, mem, ready, (Table.build_symbol built).symm⟩
    · obtain ⟨c, mem, ready, built⟩ := mem_resolved.mp he
      exact ⟨c, mem, ready, (Table.build_className built).symm⟩
  · rintro ⟨c, mem, ready, rfl⟩
    cases built : t.build config c with
    | ok e =>
      have found := mem_resolved.mpr ⟨c, mem, ready, built⟩
      exact .inr ⟨e, found, Table.build_className built⟩
    | error r =>
      have found := mem_rejections.mpr ⟨c, mem, ready, built⟩
      exact .inl ⟨r, found, Table.build_symbol built⟩

end

end RoundView

namespace Table

variable {t : Table} {config : ScanConfig} {q : String}

/-- The names of the marked types that are visible. -/
def shownNames (t : Table) : List String := (t.markedSymbols .viewModel).map Symbol.displayName

theorem exists_mem_candidates (p : Symbol → Prop) :
    (∃ c ∈ t.candidates, p c.symbol) ↔ ∃ symbol ∈ t.markedSymbols .viewModel, p symbol := by
  constructor
  · rintro ⟨c, mem, h⟩
    obtain ⟨symbol, marked, rfl⟩ := List.mem_map.mp mem
    exact ⟨symbol, marked, h⟩
  · rintro ⟨symbol, marked, h⟩
    exact ⟨_, List.mem_map_of_mem marked, h⟩

theorem mem_deferredNames_roundView :
    q ∈ (t.roundView config).deferredNames ↔
      ∃ symbol ∈ t.markedSymbols .viewModel,
        t.isReady symbol.id = false ∧ symbol.displayName = q :=
  RoundView.mem_deferredNames.trans
    (exists_mem_candidates fun s => t.isReady s.id = false ∧ s.displayName = q)

theorem mem_settled_roundView :
    q ∈ (t.roundView config).settled ↔
      ∃ symbol ∈ t.markedSymbols .viewModel,
        t.isReady symbol.id = true ∧ symbol.displayName = q :=
  RoundView.mem_settled_ofCandidates.trans
    (exists_mem_candidates fun s => t.isReady s.id = true ∧ s.displayName = q)

/-- A round mentions the marked types that it shows, and nothing else. -/
theorem mentions_roundView_iff : (t.roundView config).mentions q = true ↔ q ∈ t.shownNames := by
  rw [RoundView.mentions_iff, mem_settled_roundView, mem_deferredNames_roundView, shownNames,
    List.mem_map]
  constructor
  · rintro (⟨symbol, marked, -, name⟩ | ⟨symbol, marked, -, name⟩) <;>
      exact ⟨symbol, marked, name⟩
  · rintro ⟨symbol, marked, name⟩
    cases ready : t.isReady symbol.id with
    | true => exact .inl ⟨symbol, marked, ready, name⟩
    | false => exact .inr ⟨symbol, marked, ready, name⟩

/-- No marked type goes through a round without being mentioned. -/
theorem roundView_mentions (config : ScanConfig) {t : Table} {symbol : Symbol}
    (marked : symbol ∈ t.markedSymbols .viewModel) :
    (t.roundView config).mentions symbol.displayName = true :=
  mentions_roundView_iff.mpr (List.mem_map_of_mem marked)

end Table

end WrapperGen
