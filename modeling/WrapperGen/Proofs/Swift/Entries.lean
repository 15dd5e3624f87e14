import WrapperGen.Proofs.Swift.Checks
import WrapperGen.Proofs.Swift.FileNames
import WrapperGen.Proofs.Swift.Sources

namespace WrapperGen.Swift

/-! ## One entry -/

section

variable {c : GeneratorConfig} {e : Entry} {typeName : String}

theorem unit_eq_ok_iff {u : SourceUnit} :
    unit c e typeName = .ok u ↔ Writable typeName e ∧
      u = ⟨e.className, typeName, typeName ++ ".swift",
        renderSteps (wrapperSteps c e typeName) ++ "\n"⟩ := by
  simp only [unit, bind_eq_ok_iff, renderEntry_eq_ok_iff, checkEntry_eq_ok_iff]
  constructor
  · rintro ⟨_, ⟨writable, rfl⟩, made⟩
    exact ⟨writable, (Except.ok.inj made).symm⟩
  · rintro ⟨writable, rfl⟩
    exact ⟨_, ⟨writable, rfl⟩, rfl⟩

theorem of_unit_eq_error {f : EntryFailure} (failed : unit c e typeName = .error f) :
    f.className = e.className ∧ ¬Writable typeName e := by
  cases checked : checkEntry e typeName with
  | error g =>
    rw [unit, renderEntry, checked] at failed
    cases failed
    refine ⟨blames_checkEntry e typeName f checked, fun writable => ?_⟩
    rw [checkEntry_eq_ok_iff.mpr writable] at checked
    cases checked
  | ok _ =>
    rw [unit, renderEntry, checked] at failed
    cases failed

end

/-! ## All entries -/

theorem mem_units_collectUnits {results : List (Except EntryFailure SourceUnit)} {u : SourceUnit} :
    u ∈ (collectUnits results).units ↔ .ok u ∈ results := by
  induction results with
  | nil => simp [collectUnits]
  | cons result rest ih => cases result <;> simp [collectUnits, ih]

theorem mem_failures_collectUnits {results : List (Except EntryFailure SourceUnit)}
    {f : EntryFailure} : f ∈ (collectUnits results).failures ↔ .error f ∈ results := by
  induction results with
  | nil => simp [collectUnits]
  | cons result rest ih => cases result <;> simp [collectUnits, ih]

theorem classNames_collectUnits (c : GeneratorConfig) (typeName : Entry → String)
    (entries : List Entry) :
    let g := collectUnits (entries.map fun e => unit c e (typeName e))
    g.units.map SourceUnit.className =
        (entries.filter fun e => Writable (typeName e) e).map Entry.className ∧
      g.failures.map EntryFailure.className =
        (entries.filter fun e => ¬Writable (typeName e) e).map Entry.className := by
  induction entries with
  | nil => exact ⟨rfl, rfl⟩
  | cons e rest ih =>
    obtain ⟨units, failures⟩ := ih
    cases made : unit c e (typeName e) with
    | ok u =>
      obtain ⟨writable, rfl⟩ := unit_eq_ok_iff.mp made
      simp [collectUnits, made, writable, units, failures]
    | error f =>
      obtain ⟨name, other⟩ := of_unit_eq_error made
      simp [collectUnits, made, name, other, units, failures]

section

variable {c : GeneratorConfig} {m m' : Manifest} {e : Entry}

theorem mem_units_iff (mem : e ∈ m.toList) {u : SourceUnit} (same : u.className = e.className) :
    u ∈ (generate c m).units ↔ unit c e (wrapperName c m.toList e) = .ok u := by
  rw [generate, mem_units_collectUnits, List.mem_map]
  constructor
  · rintro ⟨other, memOther, made⟩
    have name : u.className = other.className := by rw [(unit_eq_ok_iff.mp made).2]
    rwa [m.eq_of_name_eq memOther mem (name.symm.trans same)] at made
  · exact fun made => ⟨e, mem, made⟩

theorem mem_failures_iff (mem : e ∈ m.toList) {f : EntryFailure}
    (same : f.className = e.className) :
    f ∈ (generate c m).failures ↔ unit c e (wrapperName c m.toList e) = .error f := by
  rw [generate, mem_failures_collectUnits, List.mem_map]
  constructor
  · rintro ⟨other, memOther, failed⟩
    have name := (of_unit_eq_error failed).1
    rwa [m.eq_of_name_eq memOther mem (name.symm.trans same)] at failed
  · exact fun failed => ⟨e, mem, failed⟩

/-- Of the other entries only one thing matters to the name of a wrapper. -/
theorem wrapperName_eq_of_sharesName_iff (mem : e ∈ m.toList) (mem' : e ∈ m'.toList)
    (alike : SharesName m.toList e ↔ SharesName m'.toList e) :
    wrapperName c m.toList e = wrapperName c m'.toList e := by
  by_cases shared : SharesName m.toList e
  · rw [wrapperName_of_sharesName (nodup_entries m) mem shared,
      wrapperName_of_sharesName (nodup_entries m') mem' (alike.mp shared)]
  · rw [wrapperName_of_not_sharesName (nodup_entries m) mem shared,
      wrapperName_of_not_sharesName (nodup_entries m') mem' (mt alike.mpr shared)]

end

/-- Every entry gets a unit if it is writable, else a failure with its name, both in the order of
the manifest; what it gets hangs on no other entry, but for whether one shares its simple name. -/
theorem entries_generated_apart (c : GeneratorConfig) (m : Manifest) :
    (generate c m).units.map SourceUnit.className =
      (m.toList.filter fun e => Writable (wrapperName c m.toList e) e).map Entry.className ∧
    (generate c m).failures.map EntryFailure.className =
      (m.toList.filter fun e => ¬Writable (wrapperName c m.toList e) e).map Entry.className ∧
    ∀ (m' : Manifest) (e : Entry), e ∈ m.toList → e ∈ m'.toList →
      (SharesName m.toList e ↔ SharesName m'.toList e) →
      (∀ u : SourceUnit, u.className = e.className →
        (u ∈ (generate c m).units ↔ u ∈ (generate c m').units)) ∧
      ∀ f : EntryFailure, f.className = e.className →
        (f ∈ (generate c m).failures ↔ f ∈ (generate c m').failures) := by
  obtain ⟨units, failures⟩ := classNames_collectUnits c (wrapperName c m.toList) m.toList
  refine ⟨units, failures, fun m' e mem mem' alike => ?_⟩
  have name : wrapperName c m.toList e = wrapperName c m'.toList e :=
    wrapperName_eq_of_sharesName_iff mem mem' alike
  constructor
  · intro u same
    rw [mem_units_iff mem same, mem_units_iff mem' same, name]
  · intro f same
    rw [mem_failures_iff mem same, mem_failures_iff mem' same, name]

/-- Another class called `Home` is enough, whatever its package and whatever fails beside it. -/
theorem homes_generated_alike :
    let e : Entry := .ofClass "com.a.Home"
    let m : Manifest := .ofList [.ofClass "com.a.1st", .ofClass "com.b.Home", e]
    let m' : Manifest := .ofList [e, ⟨"Main", "Home", none, [⟨"go to", []⟩]⟩]
    let g := generate .standard m
    e ∈ m.toList ∧ e ∈ m'.toList ∧ SharesName m.toList e ∧ SharesName m'.toList e ∧
      g.units.map SourceUnit.className = ["com.a.Home", "com.b.Home"] ∧
      g.failures.map EntryFailure.className = ["com.a.1st"] ∧
      ∀ u : SourceUnit, u.className = e.className →
        (u ∈ g.units ↔ u ∈ (generate .standard m').units) := by
  intro e m m' g
  have mem : e ∈ m.toList := by decide
  have mem' : e ∈ m'.toList := by decide
  have shared : SharesName m.toList e := ⟨.ofClass "com.b.Home", by decide⟩
  have shared' : SharesName m'.toList e :=
    ⟨⟨"Main", "Home", none, [⟨"go to", []⟩]⟩, by decide⟩
  have alike := iff_of_true shared shared'
  obtain ⟨units, failures, apart⟩ := entries_generated_apart .standard m
  have writable : (m.toList.filter fun e => Writable (wrapperName .standard m.toList e) e).map
      Entry.className = ["com.a.Home", "com.b.Home"] := by decide
  have others : (m.toList.filter fun e => ¬Writable (wrapperName .standard m.toList e) e).map
      Entry.className = ["com.a.1st"] := by decide
  exact ⟨mem, mem', shared, shared', units.trans writable, failures.trans others,
    (apart m' e mem mem' alike).1⟩

end WrapperGen.Swift
