import Mathlib.Data.List.Nodup
import WrapperGen.Candidate
import WrapperGen.Proofs.Text.Pieces

namespace WrapperGen

/-- What the parameter at a position is called when no name is declared for it. -/
def positionLabel (index : Nat) : String := "p" ++ toString index

/-- Different positions have different numerals, so no two positions share a label. -/
theorem positionLabel_inj {i j : Nat} : positionLabel i = positionLabel j ↔ i = j :=
  (String.append_right_inj "p").trans repr_inj

namespace Param

/-- The name that is declared for a parameter; an empty one is none. -/
def declaredName? (p : Param) : Option String := p.name.filter (· ≠ "")

/-- What the parameter at a position is called. -/
def labelAt (index : Nat) (p : Param) : String := p.declaredName?.getD (positionLabel index)

end Param

/-- Two parameters are called the same only if one of them has no name and the name that is declared
for the other one is the label of its position. -/
theorem nodup_labels_iff {params : List Param}
    (distinct : (params.filterMap Param.declaredName?).Nodup) :
    (params.mapIdx Param.labelAt).Nodup ↔ ∀ i p, params[i]? = some p → p.declaredName? = none →
      positionLabel i ∉ params.filterMap Param.declaredName? := by
  constructor
  · intro labels i p there unnamed taken
    obtain ⟨q, mem, named⟩ := List.mem_filterMap.mp taken
    obtain ⟨j, there'⟩ := List.mem_iff_getElem?.mp mem
    have same : (params.mapIdx Param.labelAt)[i]? = (params.mapIdx Param.labelAt)[j]? := by
      simp [Param.labelAt, there, there', named, unnamed]
    have inside : i < (params.mapIdx Param.labelAt).length := by
      rw [List.length_mapIdx]
      exact (List.getElem?_eq_some_iff.mp there).1
    obtain rfl := (List.getElem?_inj inside labels).mp same
    obtain rfl := Option.some.inj (there.symm.trans there')
    rw [unnamed] at named
    cases named
  · intro free
    rw [List.Nodup, List.pairwise_filterMap, List.pairwise_iff_getElem] at distinct
    rw [List.Nodup, List.pairwise_iff_getElem]
    intro i j inside inside' before same
    rw [List.length_mapIdx] at inside inside'
    rw [List.getElem_mapIdx, List.getElem_mapIdx, Param.labelAt, Param.labelAt] at same
    have declared : ∀ {k : Nat} (here : k < params.length) {name : String},
        params[k].declaredName? = some name → name ∈ params.filterMap Param.declaredName? :=
      fun here _ named => List.mem_filterMap.mpr ⟨_, List.getElem_mem here, named⟩
    cases name : params[i].declaredName? with
    | none =>
      have unlike := free i _ (List.getElem?_eq_getElem inside) name
      cases name' : params[j].declaredName? with
      | none =>
        rw [name, name'] at same
        exact Nat.ne_of_lt before (positionLabel_inj.mp same)
      | some label =>
        rw [name, name', Option.getD_none, Option.getD_some] at same
        exact unlike (same ▸ declared inside' name')
    | some label =>
      cases name' : params[j].declaredName? with
      | none =>
        rw [name, name', Option.getD_some, Option.getD_none] at same
        exact free j _ (List.getElem?_eq_getElem inside') name' (same ▸ declared inside name)
      | some label' =>
        rw [name, name'] at same
        exact distinct i j inside inside' before label name label' name' same

namespace Table

theorem label_buildParam (t : Table) (index : Nat) (p : Param) :
    (t.buildParam index p).label = p.labelAt index := by
  obtain ⟨name, type⟩ := p
  cases name with
  | none => rfl
  | some name =>
    by_cases empty : name = ""
    · subst empty
      rfl
    · simp [buildParam, Param.labelAt, Param.declaredName?, Option.filter, empty]

/-- An action is called with one label for each parameter, in order. If all declared names differ,
the labels differ just if none of these names is the label of a position without a name. -/
theorem labels_of_action (t : Table) (name : String) {params : List Param}
    (distinct : (params.filterMap Param.declaredName?).Nodup) :
    ∃ action, t.buildAction? ⟨name, .function params⟩ = some action ∧
      action.params.map (·.label) = params.mapIdx Param.labelAt ∧
      ((action.params.map (·.label)).Nodup ↔
        ∀ i p, params[i]? = some p → p.declaredName? = none →
          positionLabel i ∉ params.filterMap Param.declaredName?) := by
  have labels : (params.mapIdx t.buildParam).map (·.label) = params.mapIdx Param.labelAt :=
    List.ext_getElem (by simp) fun i _ _ => by simp [label_buildParam]
  refine ⟨⟨name, params.mapIdx t.buildParam⟩, rfl, labels, ?_⟩
  rw [labels]
  exact nodup_labels_iff distinct

/-- The declared name is the label of its own position, which has a name. -/
theorem labels_beside_own_position :
    let params : List Param := [⟨none, .mk "Int" [] false⟩, ⟨some "p1", .mk "Int" [] false⟩,
      ⟨some "", .mk "Int" [] false⟩]
    (params.filterMap Param.declaredName?).Nodup ∧
      ∃ action, empty.buildAction? ⟨"pick", .function params⟩ = some action ∧
        action.params.map (·.label) = ["p0", "p1", "p2"] ∧
        (action.params.map (·.label)).Nodup := by
  intro params
  have distinct : (params.filterMap Param.declaredName?).Nodup := by decide
  obtain ⟨action, built, labels, nodup⟩ := empty.labels_of_action "pick" distinct
  refine ⟨distinct, action, built, labels.trans (by decide), nodup.mpr ?_⟩
  intro i p there unnamed
  match i with
  | 0 => decide
  | 1 =>
    cases there
    cases unnamed
  | 2 => decide
  | i + 3 => cases there

/-- The label of the first position is the declared name of the second parameter. -/
theorem position_label_taken :
    let params : List Param :=
      [⟨none, .mk "Int" [] false⟩, ⟨some "p0", .mk "String" [] false⟩]
    (params.filterMap Param.declaredName?).Nodup ∧
      ∃ action, empty.buildAction? ⟨"pick", .function params⟩ = some action ∧
        action.params.map (·.label) = ["p0", "p0"] ∧
        ¬(action.params.map (·.label)).Nodup :=
  ⟨by decide, _, rfl, by decide, by decide⟩

end Table

end WrapperGen
