import WrapperGen.Swift.Generation

namespace WrapperGen.Swift

theorem units_collectUnits (results : List (Except EntryFailure SourceUnit)) :
    (collectUnits results).units = results.filterMap Except.toOption := by
  induction results with
  | nil => rfl
  | cons result rest ih =>
    cases result <;> simp [collectUnits, Except.toOption, List.filterMap_cons, ih]

theorem units_generate (c : GeneratorConfig) (m : Manifest) :
    (generate c m).units =
      m.toList.filterMap fun e => (unit c e (wrapperName c m.toList e)).toOption := by
  rw [generate, units_collectUnits, List.filterMap_map]
  rfl

theorem toOption_unit_eq_some_iff {c : GeneratorConfig} {e : Entry} {typeName : String}
    {u : SourceUnit} :
    (unit c e typeName).toOption = some u ↔
      ∃ source, renderEntry c e typeName = .ok source ∧
        u = ⟨e.className, typeName, typeName ++ ".swift", source⟩ := by
  unfold unit
  cases rendered : renderEntry c e typeName with
  | error f =>
    constructor
    · intro h
      cases h
    · rintro ⟨source, h, -⟩
      cases h
  | ok source =>
    constructor
    · intro h
      cases h
      exact ⟨source, rfl, rfl⟩
    · rintro ⟨source', h, rfl⟩
      cases h
      rfl

end WrapperGen.Swift
