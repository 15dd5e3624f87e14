import WrapperGen.Proofs.Table.Answers

namespace WrapperGen

/-- The members that carry the marker, without their annotations. -/
def Marker.select (m : Marker) (members : List AnnotatedMember) : List Member :=
  (members.filter (m.isAmong ·.annotations)).map (·.member)

namespace Table

variable {t : Table} {row : Row}

theorem markedMembers_eq_select {id : String} (found : t.row? id = some row) (m : Marker) :
    t.markedMembers id m = m.select (t.visibleMembers row) := by
  simp only [markedMembers, found, Marker.select]

/-- The walk meets the row first, and then only declarations above it. -/
theorem exists_ancestry_eq_cons (mem : row ∈ t.rows) :
    ∃ above, t.ancestry row = row :: above ∧ ∀ r ∈ above, t.Inherits row r ∧ r ≠ row := by
  have new : t.rows.any (·.id == row.id) = true :=
    List.any_eq_true.mpr ⟨row, mem, beq_self_eq_true _⟩
  have walk : t.ancestry row = row :: t.visit (row.others t.rows) (t.parents row ++ []) := by
    rw [ancestry, visit, dif_pos new]
  refine ⟨_, walk, fun r later => ⟨?_, ?_⟩⟩
  · exact (mem_ancestry_iff mem).mp (walk ▸ List.mem_cons_of_mem _ later)
  · rintro rfl
    have once := nodup_visit (t := t) t.rows [r]
    rw [← ancestry, walk, List.map_cons, List.nodup_cons] at once
    exact once.1 (List.mem_map_of_mem later)

/-- The row's own members come first, and what it inherits has none of their shapes. -/
theorem exists_visibleMembers_eq_append (mem : row ∈ t.rows) :
    ∃ inherited, t.visibleMembers row =
        firstOfEach (·.member.shape) row.declaration.members ++ inherited ∧
      ∀ a ∈ inherited, a.member.shape ∉ row.declaration.members.map (·.member.shape) ∧
        ∃ r, t.Inherits row r ∧ r ≠ row ∧ a ∈ r.declaration.members := by
  obtain ⟨above, walk, inherits⟩ := exists_ancestry_eq_cons mem
  have members : t.visibleMembers row = firstOfEach (·.member.shape)
      (row.declaration.members ++ above.flatMap (·.declaration.members)) := by
    rw [visibleMembers, walk, List.flatMap_cons]
  refine ⟨_, members.trans (firstOfEach_append _ _ _), fun a visible => ?_⟩
  obtain ⟨first, fresh⟩ := List.mem_filter.mp visible
  obtain ⟨r, higher, own⟩ := List.mem_flatMap.mp ((firstOfEach_sublist _ _).subset first)
  obtain ⟨inherited, other⟩ := inherits r higher
  exact ⟨by simpa using fresh, r, inherited, other, own⟩

end Table

namespace Marker

variable {m : Marker} {own inherited : List AnnotatedMember}

theorem mem_select_iff {y : Member} :
    y ∈ m.select own ↔ ∃ a ∈ own, m.isAmong a.annotations = true ∧ a.member = y := by
  simp only [select, List.mem_map, List.mem_filter, and_assoc]

theorem select_append : m.select (own ++ inherited) = m.select own ++ m.select inherited := by
  simp only [select, List.filter_append, List.map_append]

/-- All own members that carry the marker lead what is selected just if each of them is the first
own member of its shape. -/
theorem select_prefix_iff
    (fresh : ∀ a ∈ inherited, a.member.shape ∉ own.map (·.member.shape)) :
    m.select own <+: m.select (firstOfEach (·.member.shape) own) ++ m.select inherited ↔
      own.Pairwise fun a b =>
        a.member.shape = b.member.shape → m.isAmong b.annotations = false := by
  rw [← filter_firstOfEach_eq_filter_iff (fun a : AnnotatedMember => a.member.shape)
    (m.isAmong ·.annotations)]
  constructor
  · intro lead
    have shorter : m.select own <+: m.select (firstOfEach (·.member.shape) own) := by
      obtain shorter | ⟨more, longer⟩ :=
        List.prefix_or_prefix_of_prefix lead (List.prefix_append _ _)
      · exact shorter
      · rw [← longer, List.prefix_append_right_inj] at lead
        cases more with
        | nil =>
          rw [← longer, List.append_nil]
        | cons y more =>
          have fromOwn : y ∈ m.select own := longer ▸ List.mem_append_right _ List.mem_cons_self
          obtain ⟨a, ownMember, -, rfl⟩ := mem_select_iff.mp fromOwn
          obtain ⟨b, above, -, same⟩ := mem_select_iff.mp (lead.subset List.mem_cons_self)
          refine absurd ?_ (fresh b above)
          rw [same]
          exact List.mem_map_of_mem ownMember
    have count := shorter.length_le
    rw [select, select, List.length_map, List.length_map] at count
    exact ((firstOfEach_sublist _ own).filter _).eq_of_length_le count
  · intro first
    rw [select, ← first]
    exact List.prefix_append _ _

end Marker

/-- A declaration's own members that carry the marker come first, in the order written, but of
several own members of one shape only the first is there, marked or not. They are all there just if
no marked one has the shape of another own member before it. What is inherited has other shapes. -/
theorem IndexedTable.own_members_lead_iff (calls : List Table.Call) {row : Row}
    (mem : row ∈ (Table.after calls).rows) (m : Marker) :
    let x := IndexedTable.after calls
    let own := row.declaration.members
    (∃ inherited, x.markedMembers row.id m =
        m.select (firstOfEach (·.member.shape) own) ++ m.select inherited ∧
      ∀ a ∈ inherited, a.member.shape ∉ own.map (·.member.shape) ∧
        ∃ r, (Table.after calls).Inherits row r ∧ r ≠ row ∧ a ∈ r.declaration.members) ∧
      (m.select own <+: x.markedMembers row.id m ↔ own.Pairwise fun a b =>
        a.member.shape = b.member.shape → m.isAmong b.annotations = false) := by
  intro x own
  have found : (Table.after calls).row? row.id = some row := Table.row?_eq_some_iff.mpr ⟨mem, rfl⟩
  obtain ⟨inherited, visible, above⟩ := Table.exists_visibleMembers_eq_append mem
  have listed : x.markedMembers row.id m =
      m.select (firstOfEach (·.member.shape) own) ++ m.select inherited := by
    rw [(represents_after calls).markedMembers_eq, Table.markedMembers_eq_select found, visible,
      Marker.select_append]
  refine ⟨⟨inherited, listed, above⟩, ?_⟩
  rw [listed]
  exact Marker.select_prefix_iff fun a later => (above a later).1

/-- A view-model with one action and a function that nobody may call. -/
def Declaration.drawer : Declaration :=
  (((Declaration.ofClass "a.Drawer").extending (.mk "a.Base" [] false)).withMember
    ⟨"open", .function []⟩ [.uiAction]).withMember ⟨"close", .function []⟩ []

/-- The action comes before the inherited one of another shape, and the inherited function of the
shape of the view-model's own one is hidden. -/
theorem IndexedTable.own_action_leads :
    let base := ((Declaration.ofClass "a.Base").withMember ⟨"close", .function []⟩
      [.uiAction]).withMember ⟨"open", .function [⟨none, .mk "Int" [] false⟩]⟩ [.uiAction]
    let calls : List Table.Call := [.declare .drawer, .declare base]
    let row : Row := ⟨"a.Drawer", .drawer⟩
    let x := IndexedTable.after calls
    row ∈ (Table.after calls).rows ∧
      Marker.uiAction.select Declaration.drawer.members = [⟨"open", .function []⟩] ∧
      Marker.uiAction.select Declaration.drawer.members <+: x.markedMembers "a.Drawer" .uiAction ∧
      x.markedMembers "a.Drawer" .uiAction =
        [⟨"open", .function []⟩, ⟨"open", .function [⟨none, .mk "Int" [] false⟩]⟩] := by
  intro base calls row x
  have mem : row ∈ (Table.after calls).rows := List.mem_of_getElem? (i := 0) (by cbv)
  have lead := (own_members_lead_iff calls mem .uiAction).2.mpr (by decide)
  refine ⟨mem, by cbv, lead, ?_⟩
  rw [(represents_after calls).markedMembers_eq]
  cbv

/-- Two actions of one name and one number of parameters, of different types. -/
def Declaration.picker : Declaration :=
  ((Declaration.ofClass "a.Picker").withMember
    ⟨"pick", .function [⟨some "item", .mk "Int" [] false⟩]⟩ [.uiAction]).withMember
    ⟨"pick", .function [⟨some "item", .mk "String" [] false⟩]⟩ [.uiAction]

/-- The second action is dropped although the declaration itself declares it. -/
theorem IndexedTable.own_overload_dropped :
    let x := IndexedTable.after [.declare .picker]
    let pick : String → Member := fun type =>
      ⟨"pick", .function [⟨some "item", .mk type [] false⟩]⟩
    Marker.uiAction.select Declaration.picker.members = [pick "Int", pick "String"] ∧
      x.markedMembers "a.Picker" .uiAction = [pick "Int"] ∧
      ¬Marker.uiAction.select Declaration.picker.members <+:
        x.markedMembers "a.Picker" .uiAction := by
  intro x pick
  have own : Marker.uiAction.select Declaration.picker.members = [pick "Int", pick "String"] := by
    cbv
  have listed : x.markedMembers "a.Picker" .uiAction = [pick "Int"] := by
    rw [(represents_after [.declare .picker]).markedMembers_eq]
    cbv
  refine ⟨own, listed, fun lead => ?_⟩
  have count := lead.length_le
  rw [own, listed] at count
  exact absurd count (by decide)

end WrapperGen
