import Mathlib.Data.List.Nodup
import Mathlib.Data.List.Pairwise
import Mathlib.Data.List.TakeWhile
import WrapperGen.Files.Tree
import WrapperGen.Generator
import WrapperGen.Proofs.Roster.Lookup
import WrapperGen.Proofs.Swift.Units

namespace WrapperGen

/-- An entry without state and actions. -/
def Entry.ofClass (className : String) : Entry := ⟨className, lastSegment className, none, []⟩

namespace Swift

/-- Another entry has the same simple name. -/
def SharesName (entries : List Entry) (e : Entry) : Prop :=
  ∃ other ∈ entries, other ≠ e ∧ other.simpleName = e.simpleName

theorem one_lt_countP_iff {entries : List Entry} {e : Entry} (distinct : entries.Nodup)
    (mem : e ∈ entries) :
    1 < entries.countP (·.simpleName == e.simpleName) ↔ SharesName entries e := by
  have perm := List.perm_cons_erase mem
  have rest : entries.countP (·.simpleName == e.simpleName) =
      (entries.erase e).countP (·.simpleName == e.simpleName) + 1 := by
    rw [perm.countP_eq]
    simp
  rw [rest]
  constructor
  · intro h
    obtain ⟨other, hother, same⟩ := List.countP_pos_iff.mp (Nat.lt_of_succ_lt_succ h)
    obtain ⟨hne, hmem⟩ := (distinct.mem_erase_iff).mp hother
    exact ⟨other, hmem, hne, by simpa using same⟩
  · rintro ⟨other, hmem, hne, same⟩
    have hother := (distinct.mem_erase_iff).mpr ⟨hne, hmem⟩
    have found : 0 < (entries.erase e).countP (·.simpleName == e.simpleName) :=
      List.countP_pos_iff.mpr ⟨other, hother, by simpa using same⟩
    omega

theorem wrapperName_of_sharesName {c : GeneratorConfig} {entries : List Entry} {e : Entry}
    (distinct : entries.Nodup) (mem : e ∈ entries) (shared : SharesName entries e) :
    wrapperName c entries e = c.wrapperPrefix ++ flatName e.className := by
  rw [wrapperName, if_pos ((one_lt_countP_iff distinct mem).mpr shared)]

theorem wrapperName_of_not_sharesName {c : GeneratorConfig} {entries : List Entry} {e : Entry}
    (distinct : entries.Nodup) (mem : e ∈ entries) (own : ¬SharesName entries e) :
    wrapperName c entries e = c.wrapperPrefix ++ e.simpleName := by
  rw [wrapperName, if_neg (mt (one_lt_countP_iff distinct mem).mp own)]

/-- The first entry is named by its qualified name, and that is the name of the other one too. -/
def Clashes (entries : List Entry) (e other : Entry) : Prop :=
  SharesName entries e ∧
    (SharesName entries other ∧ flatName e.className = flatName other.className ∨
      ¬SharesName entries other ∧ flatName e.className = other.simpleName)

theorem wrapperName_eq_iff {c : GeneratorConfig} {entries : List Entry} {e other : Entry}
    (distinct : entries.Nodup) (mem : e ∈ entries) (memOther : other ∈ entries)
    (ne : e ≠ other) :
    wrapperName c entries e = wrapperName c entries other ↔
      Clashes entries e other ∨ Clashes entries other e := by
  by_cases shared : SharesName entries e <;> by_cases sharedOther : SharesName entries other
  · rw [wrapperName_of_sharesName distinct mem shared,
      wrapperName_of_sharesName distinct memOther sharedOther, String.append_right_inj]
    simp [Clashes, shared, sharedOther, eq_comm]
  · rw [wrapperName_of_sharesName distinct mem shared,
      wrapperName_of_not_sharesName distinct memOther sharedOther, String.append_right_inj]
    simp [Clashes, shared, sharedOther]
  · rw [wrapperName_of_not_sharesName distinct mem shared,
      wrapperName_of_sharesName distinct memOther sharedOther, String.append_right_inj]
    simp [Clashes, shared, sharedOther, eq_comm]
  · rw [wrapperName_of_not_sharesName distinct mem shared,
      wrapperName_of_not_sharesName distinct memOther sharedOther, String.append_right_inj]
    have different : e.simpleName ≠ other.simpleName :=
      fun same => sharedOther ⟨e, mem, ne, same⟩
    simp [Clashes, shared, sharedOther, different]

/-- The entry is given a wrapper. -/
def Renders (c : GeneratorConfig) (m : Manifest) (e : Entry) : Prop :=
  ∃ source, renderEntry c e (wrapperName c m.toList e) = .ok source

theorem nodup_entries (m : Manifest) : m.toList.Nodup := m.nodup_names.of_map

theorem fileNames_nodup_iff_wrapperNames (c : GeneratorConfig) (m : Manifest) :
    ((generate c m).units.map SourceUnit.fileName).Nodup ↔
      ∀ e ∈ m.toList, ∀ other ∈ m.toList, e ≠ other → Renders c m e → Renders c m other →
        wrapperName c m.toList e ≠ wrapperName c m.toList other := by
  let Differ (e other : Entry) : Prop := Renders c m e → Renders c m other →
    wrapperName c m.toList e ≠ wrapperName c m.toList other
  have symm : Std.Symm Differ := ⟨fun e other h ho he same => h he ho same.symm⟩
  have pairs : m.toList.Pairwise Differ ↔
      ∀ e ∈ m.toList, ∀ other ∈ m.toList, e ≠ other → Differ e other := by
    constructor
    · intro h e he other ho ne
      exact h.forall he ho ne
    · exact (nodup_entries m).pairwise_of_forall_ne
  rw [← pairs, units_generate, List.Nodup, List.pairwise_map, List.pairwise_filterMap]
  apply List.Pairwise.iff
  intro e other
  simp only [toOption_unit_eq_some_iff]
  constructor
  · rintro h ⟨source, he⟩ ⟨sourceOther, ho⟩ same
    exact h _ ⟨source, he, rfl⟩ _ ⟨sourceOther, ho, rfl⟩ (congrArg (· ++ ".swift") same)
  · rintro h _ ⟨source, he, rfl⟩ _ ⟨sourceOther, ho, rfl⟩ same
    exact h ⟨source, he⟩ ⟨sourceOther, ho⟩ ((String.append_left_inj ".swift").mp same)

theorem toList_flatName (className : String) :
    (flatName className).toList = className.toList.map fun c => if c = '.' then '_' else c := by
  rw [flatName, String.toList_ofList]

theorem flatName_of_not_dotted {className : String} (h : '.' ∉ className.toList) :
    flatName className = className := by
  apply String.toList_inj.mp
  rw [toList_flatName]
  refine (List.map_congr_left fun c hc => ?_).trans (List.map_id _)
  have : c ≠ '.' := fun eq => h (eq ▸ hc)
  simp [this]

theorem underscore_mem_flatName {className : String} (h : '.' ∈ className.toList) :
    '_' ∈ (flatName className).toList := by
  rw [toList_flatName]
  exact List.mem_map.mpr ⟨'.', h, rfl⟩

/-- Without underscores in them, qualified names can be read back from their flat forms. -/
theorem flatName_inj {a b : String} (ha : '_' ∉ a.toList) (hb : '_' ∉ b.toList)
    (same : flatName a = flatName b) : a = b := by
  let dotted (c : Char) : Char := if c = '_' then '.' else c
  have back : ∀ l : List Char, '_' ∉ l →
      (l.map fun c => if c = '.' then '_' else c).map dotted = l := by
    intro l hl
    rw [List.map_map]
    refine (List.map_congr_left fun c hc => ?_).trans (List.map_id _)
    have : c ≠ '_' := fun eq => hl (eq ▸ hc)
    by_cases dot : c = '.' <;> simp [dotted, dot, this]
  have lists := congrArg String.toList same
  rw [toList_flatName, toList_flatName] at lists
  apply String.toList_inj.mp
  rw [← back a.toList ha, ← back b.toList hb, lists]

theorem mem_of_mem_lastSegment {name : String} {c : Char} (h : c ∈ (lastSegment name).toList) :
    c ∈ name.toList := by
  rw [lastSegment, String.toList_ofList, List.mem_reverse] at h
  exact List.mem_reverse.mp ((List.takeWhile_sublist _).mem h)

theorem lastSegment_of_not_dotted {name : String} (h : '.' ∉ name.toList) :
    lastSegment name = name := by
  apply String.toList_inj.mp
  have whole : name.toList.reverse.takeWhile (· ≠ '.') = name.toList.reverse := by
    apply List.takeWhile_eq_self_iff.mpr
    intro c hc
    have : c ≠ '.' := fun eq => h (eq ▸ List.mem_reverse.mp hc)
    simpa using this
  rw [lastSegment, whole, List.reverse_reverse, String.toList_ofList]

/-- Simple names are the last parts of qualified ones, and these have no underscores. -/
def PlainNames (m : Manifest) : Prop :=
  ∀ e ∈ m.toList, '_' ∉ e.className.toList ∧ e.simpleName = lastSegment e.className

theorem not_clashes_of_plainNames {m : Manifest} (plain : PlainNames m) {e other : Entry}
    (mem : e ∈ m.toList) (memOther : other ∈ m.toList) (ne : e ≠ other) :
    ¬Clashes m.toList e other := by
  obtain ⟨he, simple⟩ := plain e mem
  obtain ⟨ho, simpleOther⟩ := plain other memOther
  rintro ⟨-, ⟨-, same⟩ | ⟨own, same⟩⟩
  · exact ne (m.eq_of_name_eq mem memOther (flatName_inj he ho same))
  · have undotted : '.' ∉ e.className.toList := by
      intro dotted
      have underscore := underscore_mem_flatName dotted
      rw [same, simpleOther] at underscore
      exact ho (mem_of_mem_lastSegment underscore)
    -- A name without dots is its own last segment, so the simple name is shared after all.
    rw [flatName_of_not_dotted undotted, ← lastSegment_of_not_dotted undotted, ← simple] at same
    exact own ⟨e, mem, ne, same⟩

/-- Two wrappers have one file name only if one of them is named by its qualified name, and its
flat form is the name of the other. In a manifest with plain names there are no such two. -/
theorem fileNames_nodup_iff (c : GeneratorConfig) (m : Manifest) :
    (((generate c m).units.map SourceUnit.fileName).Nodup ↔
      ∀ e ∈ m.toList, ∀ other ∈ m.toList, e ≠ other → Renders c m e → Renders c m other →
        ¬Clashes m.toList e other) ∧
    (PlainNames m → ((generate c m).units.map SourceUnit.fileName).Nodup) := by
  rw [fileNames_nodup_iff_wrapperNames]
  have clash_of_same : ∀ e ∈ m.toList, ∀ other ∈ m.toList, e ≠ other →
      wrapperName c m.toList e = wrapperName c m.toList other →
      Clashes m.toList e other ∨ Clashes m.toList other e :=
    fun e he other ho ne => (wrapperName_eq_iff (nodup_entries m) he ho ne).mp
  refine ⟨⟨?_, ?_⟩, ?_⟩
  · intro h e he other ho ne re ro clash
    have same := (wrapperName_eq_iff (c := c) (nodup_entries m) he ho ne).mpr (.inl clash)
    exact h e he other ho ne re ro same
  · intro h e he other ho ne re ro same
    rcases clash_of_same e he other ho ne same with clash | clash
    · exact h e he other ho ne re ro clash
    · exact h other ho e he ne.symm ro re clash
  · intro plain e he other ho ne _ _ same
    rcases clash_of_same e he other ho ne same with clash | clash
    · exact not_clashes_of_plainNames plain he ho ne clash
    · exact not_clashes_of_plainNames plain ho he ne.symm clash

theorem fileNames_of_homes :
    let m : Manifest := .ofList
      [.ofClass "com.b.Home", .ofClass "com.a.Home", .ofClass "com.a.Settings"]
    PlainNames m ∧ ((generate .standard m).units.map SourceUnit.fileName).Nodup := by
  intro m
  have plain : PlainNames m := by
    unfold PlainNames
    decide
  exact ⟨plain, (fileNames_nodup_iff .standard m).2 plain⟩

/-- A dot and an underscore are not told apart: the second wrapper takes the file of the first. -/
theorem one_file_for_two_packages :
    let m : Manifest := .ofList [.ofClass "a.b.X", .ofClass "a_b.X"]
    let g := generate .standard m
    g.units.map SourceUnit.fileName = ["Observablea_b_X.swift", "Observablea_b_X.swift"] ∧
      ((Output.write ⟨"out"⟩ g.files "" : StateM Tree _).run ∅).2.contents.map Prod.fst =
        [⟨"out/Observablea_b_X.swift"⟩, ⟨"out"⟩] ∧
      ¬(g.units.map SourceUnit.fileName).Nodup := by
  decide +kernel

end Swift

end WrapperGen
