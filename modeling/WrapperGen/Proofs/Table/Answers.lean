import WrapperGen.Proofs.Table.Positions
import WrapperGen.Proofs.Table.Preorder
import WrapperGen.Proofs.Table.Readiness

namespace WrapperGen

theorem addShapes_eq {found : List AnnotatedMember} (members : List AnnotatedMember)
    (distinct : (found.map (·.member.shape)).Nodup) :
    addShapes found members = firstOfEach (·.member.shape) (found ++ members) := by
  induction members generalizing found with
  | nil => rw [List.append_nil, firstOfEach_of_nodup _ distinct]; rfl
  | cons a rest ih =>
    have step : addShapes found (a :: rest) =
        addShapes (if found.any (·.member.shape == a.member.shape) then found else found ++ [a])
          rest := rfl
    have known : found.any (·.member.shape == a.member.shape) = true ↔
        a.member.shape ∈ found.map (·.member.shape) := by
      simp only [List.any_eq_true, beq_iff_eq, List.mem_map]
    rw [step]
    by_cases old : a.member.shape ∈ found.map (·.member.shape)
    · rw [if_pos (known.mpr old), ih distinct, firstOfEach_append_cons _ old]
    · have distinct' : ((found ++ [a]).map (·.member.shape)).Nodup := by
        rw [List.map_append, List.map_singleton, List.nodup_append]
        refine ⟨distinct, List.nodup_singleton _, ?_⟩
        intro shape mem shape' only same
        rw [List.mem_singleton.mp only] at same
        exact old (same ▸ mem)
      rw [if_neg (mt known.mp old), ih distinct', List.append_assoc, List.singleton_append]

/-- The declaration that a supertype stands for. -/
def Table.parent? (t : Table) (supertype : TypeRef) : Option Row :=
  (t.resolveName supertype.name).bind fun n => t.declared? n.qualifiedName

namespace IndexedTable

variable {x : IndexedTable} {t : Table}

namespace Represents

theorem declared?_eq_bind (h : x.Represents t) (q : String) :
    t.declared? q = (x.byQualified.get? q).bind (t.rows[·]?) := by
  rw [← h.declared?_eq, declared?, h.rows_eq]

theorem exists_row_of_byQualified (h : x.Represents t) {q : String} {i : Nat}
    (found : x.byQualified.get? q = some i) :
    ∃ r, t.rows[i]? = some r ∧ t.declared? q = some r := by
  rw [h.indexes.byQualified] at found
  obtain ⟨r, there, _⟩ := mem_findIdxs_iff.mp (List.mem_of_getLast? found)
  refine ⟨r, there, ?_⟩
  rw [h.declared?_eq_bind, h.indexes.byQualified, found]
  exact there

/-- The index has a single position for a simple name just if one declaration only is called so. -/
theorem only_named (h : x.Represents t) (name : String) :
    (∃ i row, x.bySimple.get? name = some [i] ∧ t.rows[i]? = some row ∧
        t.namedSimply name = [row]) ∨
      (∀ i, x.bySimple.get? name ≠ some [i]) ∧ ∀ row, t.namedSimply name ≠ [row] := by
  have positions := h.indexes.bySimple name
  have named : (t.rows.findIdxs (·.declaration.simpleName == name)).filterMap (t.rows[·]?) =
      t.namedSimply name := filterMap_findIdxs _ _
  have count : (t.rows.findIdxs (·.declaration.simpleName == name)).length =
      (t.namedSimply name).length := by
    rw [List.length_findIdxs, List.countP_eq_length_filter]
    rfl
  rw [← positions] at named count
  by_cases single : ∃ i, x.bySimple.get? name = some [i]
  · obtain ⟨i, index⟩ := single
    rw [index] at named count
    obtain ⟨row, only⟩ := List.length_eq_one_iff.mp count.symm
    rw [only] at named
    refine .inl ⟨i, row, index, ?_, only⟩
    cases there : t.rows[i]? with
    | none => simp [there] at named
    | some r => simpa [there] using named
  · refine .inr ⟨fun i index => single ⟨i, index⟩, fun row only => ?_⟩
    rw [only] at count
    obtain ⟨i, alone⟩ := List.length_eq_one_iff.mp count
    cases index : x.bySimple.get? name with
    | none =>
      rw [index] at alone
      cases alone
    | some listed =>
      rw [index] at alone
      exact single ⟨i, index.trans (congrArg some alone)⟩

/-- A name stands for the same in both forms of the table. -/
theorem resolveName_eq (h : x.Represents t) : x.resolveName = t.resolveName := by
  funext name
  unfold resolveName Table.resolveName
  cases found : x.byQualified.get? name with
  | some i =>
    obtain ⟨r, there, declared⟩ := h.exists_row_of_byQualified found
    rw [declared]
    simp only [h.getElem?_declarations, there]
    rfl
  | none =>
    have undeclared : t.declared? name = none := by
      rw [h.declared?_eq_bind, found]
      rfl
    rw [undeclared, h.externals]
    cases builtin? name with
    | some q => rfl
    | none =>
      by_cases external : name ∈ t.externals
      · simp only [external, ↓reduceIte]
      · simp only [external, ↓reduceIte]
        obtain ⟨i, row, index, there, only⟩ | ⟨noIndex, notOnly⟩ := h.only_named name
        · simp only [index, only, h.getElem?_declarations, there]
          rfl
        · split
          next i index => exact absurd index (noIndex i)
          next =>
            split
            next row only => exact absurd only (notOnly row)
            next => rfl

theorem resolveType_eq (h : x.Represents t) : x.resolveType = t.resolveType := by
  funext type
  rw [resolveType, Table.resolveType, h.resolveName_eq]

theorem knows_eq (h : x.Represents t) : x.knows = t.knows := by
  funext type
  rw [knows, Table.knows, h.resolveName_eq]
  rfl

/-- The position of a parent is that of the declaration which the supertype stands for. -/
theorem parent?_eq (h : x.Represents t) (s : TypeRef) :
    t.parent? s = (x.parent? s).bind (t.rows[·]?) := by
  rw [Table.parent?, parent?, h.resolveName_eq, Option.bind_assoc]
  exact Option.bind_congr fun n _ => h.declared?_eq_bind n.qualifiedName

theorem map_parents (h : x.Represents t) (row : Row) :
    (x.parents row.declaration).map (t.rows[·]?) = (t.parents row).map some := by
  change _ = (row.declaration.supertypes.filterMap t.parent?).map some
  rw [parents]
  induction row.declaration.supertypes with
  | nil => rfl
  | cons s rest ih =>
    have first := h.parent?_eq s
    cases parent : x.parent? s with
    | none =>
      rw [parent] at first
      rw [List.filterMap_cons_none parent, List.filterMap_cons_none first, ih]
    | some i =>
      obtain ⟨n, _, found⟩ := Option.bind_eq_some_iff.mp parent
      obtain ⟨r, there, _⟩ := h.exists_row_of_byQualified found
      rw [parent, Option.bind_some, there] at first
      rw [List.filterMap_cons_some parent, List.filterMap_cons_some first, List.map_cons,
        List.map_cons, there, ih]

/-- The loop over positions adds what the walk over rows meets, each shape once. -/
theorem collect_eq (h : x.Represents t) {visited waiting : List Nat}
    {found : List AnnotatedMember} {unseen stack : List Row}
    (same : waiting.map (t.rows[·]?) = stack.map some)
    (new : ∀ i r, t.rows[i]? = some r → (unseen.any (·.id == r.id) = true ↔ i ∉ visited))
    (distinct : (found.map (·.member.shape)).Nodup) :
    x.collect visited found waiting = firstOfEach (·.member.shape)
      (found ++ (t.visit unseen stack).flatMap (·.declaration.members)) := by
  fun_induction x.collect visited found waiting generalizing unseen stack with
  | case1 visited found =>
    obtain rfl : stack = [] := List.map_eq_nil_iff.mp same.symm
    rw [Table.visit, List.flatMap_nil, List.append_nil, firstOfEach_of_nodup _ distinct]
  | case2 visited found i waiting again ih =>
    obtain _ | ⟨row, stack⟩ := stack
    · cases same
    obtain ⟨there, same'⟩ : t.rows[i]? = some row ∧ _ := List.cons.inj same
    have met : ¬unseen.any (·.id == row.id) = true := fun h => (new i row there).mp h again
    rw [Table.visit, dif_neg met]
    exact ih same' new distinct
  | case3 visited found i waiting _ outside ih =>
    obtain _ | ⟨row, stack⟩ := stack
    · cases same
    obtain ⟨there, _⟩ : t.rows[i]? = some row ∧ _ := List.cons.inj same
    rw [h.getElem?_declarations, there] at outside
    cases outside
  | case4 visited found i waiting first d here ih =>
    obtain _ | ⟨row, stack⟩ := stack
    · cases same
    obtain ⟨there, same'⟩ : t.rows[i]? = some row ∧ _ := List.cons.inj same
    obtain rfl : row.declaration = d := by
      rw [h.getElem?_declarations, there] at here
      exact Option.some.inj here
    have unmet : unseen.any (·.id == row.id) = true := (new i row there).mpr first
    have shapes := addShapes_eq row.declaration.members distinct
    have waits : (x.parents row.declaration ++ waiting).map (t.rows[·]?) =
        (t.parents row ++ stack).map some := by
      rw [List.map_append, List.map_append, h.map_parents, same']
    have new' : ∀ j r, t.rows[j]? = some r →
        ((row.others unseen).any (·.id == r.id) = true ↔ j ∉ i :: visited) := by
      intro j r there'
      rw [Row.any_others, new j r there', List.mem_cons, not_or, and_comm]
      have places : j = i ↔ r.id = row.id := by
        constructor
        · rintro rfl
          rw [Option.some.inj (there'.symm.trans there)]
        · intro ids
          have rows := Table.row_inj (List.mem_of_getElem? there') (List.mem_of_getElem? there) ids
          obtain ⟨inside, _⟩ := List.getElem?_eq_some_iff.mp there'
          have distinctRows : t.rows.Nodup := t.distinct.of_map
          exact (List.getElem?_inj inside distinctRows).mp (there'.trans (rows ▸ there.symm))
      rw [places]
    have distinct' : ((addShapes found row.declaration.members).map (·.member.shape)).Nodup :=
      shapes ▸ nodup_firstOfEach _ _
    rw [ih waits new' distinct', Table.visit, dif_pos unmet, List.flatMap_cons, shapes,
      firstOfEach_append_firstOfEach, List.append_assoc]

theorem membersAt_eq (h : x.Represents t) {i : Nat} {row : Row} (there : t.rows[i]? = some row) :
    x.membersAt i = t.visibleMembers row := by
  have start : [i].map (t.rows[·]?) = [row].map some := congrArg (fun r => [r]) there
  refine h.collect_eq start (fun j r there' => ?_) .nil
  exact iff_of_true
    (List.any_eq_true.mpr ⟨r, List.mem_of_getElem? there', beq_self_eq_true _⟩) List.not_mem_nil

theorem markedSymbols_eq (h : x.Represents t) : x.markedSymbols = t.markedSymbols := by
  funext m
  rw [markedSymbols, h.rows_eq]
  rfl

/-- An identity has no position, or one at which the row of the identity stands. -/
theorem byId_cases (h : x.Represents t) (id : String) :
    (x.byId.get? id = none ∧ t.row? id = none) ∨
      ∃ i row, x.byId.get? id = some i ∧ t.row? id = some row ∧ t.rows[i]? = some row := by
  cases found : x.byId.get? id with
  | none =>
    refine .inl ⟨rfl, ?_⟩
    rw [← h.row?_eq, row?, found]
    rfl
  | some i =>
    obtain ⟨row, there, same⟩ := h.get?_byId_iff.mp found
    exact .inr ⟨i, row, rfl, Table.row?_eq_some_iff.mpr ⟨List.mem_of_getElem? there, same⟩, there⟩

theorem markedMembers_eq (h : x.Represents t) : x.markedMembers = t.markedMembers := by
  funext id m
  unfold markedMembers Table.markedMembers
  obtain ⟨unknown, unknown'⟩ | ⟨i, row, found, found', there⟩ := h.byId_cases id
  · rw [unknown, unknown']
  · simp only [found, found', h.membersAt_eq there]

theorem isReady_eq (h : x.Represents t) : x.isReady = t.isReady := by
  funext id
  unfold isReady Table.isReady
  obtain ⟨unknown, unknown'⟩ | ⟨i, row, found, found', there⟩ := h.byId_cases id
  · rw [unknown, unknown']
  · simp only [found, found', h.getElem?_declarations, there, Option.map_some, h.membersAt_eq there,
      h.knows_eq]

end Represents

end IndexedTable

namespace Table

variable {t : Table} {row : Row}

theorem ancestry_eq_preorder (t : Table) (row : Row) : t.ancestry row = t.preorder t.rows [row] :=
  visit_eq_preorder t.rows [row]

theorem nodup_shapes_markedMembers (t : Table) (id : String) (m : Marker) :
    ((t.markedMembers id m).map Member.shape).Nodup := by
  unfold markedMembers
  cases t.row? id with
  | none => exact .nil
  | some row =>
    rw [List.map_map]
    exact (nodup_firstOfEach _ _).sublist (List.filter_sublist.map _)

/-- If the first member of a shape does not carry the marker, no member of that shape is listed. -/
theorem shape_ne_of_unmarked {id : String} (found : t.row? id = some row) {a : AnnotatedMember}
    (first : ((t.ancestry row).flatMap (·.declaration.members)).find?
      (·.member.shape = a.member.shape) = some a)
    {m : Marker} (unmarked : m.isAmong a.annotations = false) :
    ∀ y ∈ t.markedMembers id m, y.shape ≠ a.member.shape := by
  intro y listed same
  obtain ⟨b, visible, marked, rfl⟩ := (mem_markedMembers_iff found).mp listed
  have first' := (mem_firstOfEach_iff (fun a : AnnotatedMember => a.member.shape)).mp visible
  rw [same, first] at first'
  obtain rfl := Option.some.inj first'
  exact Bool.false_ne_true (unmarked.symm.trans marked)

end Table

/-- Whatever the supertypes are, the loop over positions ends with the members of the declarations
that the recursive walk meets, each of them once, and of each shape with the first member only. -/
theorem IndexedTable.members_met_depth_first (calls : List Table.Call) {i : Nat} {row : Row}
    (there : (Table.after calls).rows[i]? = some row) :
    let t := Table.after calls
    let x := IndexedTable.after calls
    let met := t.preorder t.rows [row]
    let members := met.flatMap (·.declaration.members)
    (met.map Row.id).Nodup ∧ (∀ r, r ∈ met ↔ t.Inherits row r) ∧
      x.membersAt i = firstOfEach (·.member.shape) members ∧
      t.visibleMembers row = firstOfEach (·.member.shape) members ∧
      ∀ m, x.markedMembers row.id m = t.markedMembers row.id m ∧
        t.markedMembers row.id m =
          ((firstOfEach (·.member.shape) members).filter (m.isAmong ·.annotations)).map (·.member) ∧
        ((t.markedMembers row.id m).map Member.shape).Nodup ∧
        ∀ a, members.find? (·.member.shape = a.member.shape) = some a →
          m.isAmong a.annotations = false →
            ∀ y ∈ t.markedMembers row.id m, y.shape ≠ a.member.shape := by
  intro t x met members
  have h : x.Represents t := represents_after calls
  have mem : row ∈ t.rows := List.mem_of_getElem? there
  have found : t.row? row.id = some row := Table.row?_eq_some_iff.mpr ⟨mem, rfl⟩
  have walked : t.ancestry row = met := t.ancestry_eq_preorder row
  have visible : t.visibleMembers row = firstOfEach (·.member.shape) members := by
    rw [Table.visibleMembers, walked]
  refine ⟨?_, ?_, (h.membersAt_eq there).trans visible, visible, fun m => ?_⟩
  · exact walked ▸ Table.nodup_visit t.rows [row]
  · exact fun r => walked ▸ Table.mem_ancestry_iff mem
  · refine ⟨by rw [h.markedMembers_eq], ?_, t.nodup_shapes_markedMembers row.id m, ?_⟩
    · simp only [Table.markedMembers, found, visible]
    · intro a first unmarked
      exact Table.shape_ne_of_unmarked found (walked ▸ first) unmarked

/-- A view-model that comes upon the same ancestor twice. -/
def Declaration.diamondTop : Declaration :=
  (((Declaration.ofClass "a.Top").extending (.mk "Left" [] false)).extending
    (.mk "a.Right" [] false)).withMember ⟨"go", .function []⟩ []

/-- The ancestor inherits from the view-model again, and one declaration from itself. -/
def Table.diamond : List Table.Call := [
  .declare .diamondTop,
  .declare ((Declaration.ofClass "a.Left").extending (.mk "a.Base" [] false)),
  .declare (((Declaration.ofClass "a.Right").extending (.mk "a.Right" [] false)).extending
    (.mk "a.Base" [] false)),
  .declare ((((Declaration.ofClass "a.Base").extending (.mk "a.Top" [] false)).withMember
    ⟨"go", .function []⟩ [.uiAction]).withMember ⟨"stay", .function []⟩ [.uiAction])]

/-- The ancestor that is reached twice comes once, and the action that the view-model declares
without a marker is not taken from it. -/
theorem IndexedTable.diamond_met_depth_first :
    let t := Table.after Table.diamond
    let x := IndexedTable.after Table.diamond
    let top : Row := ⟨"a.Top", .diamondTop⟩
    t.rows[0]? = some top ∧
      (t.preorder t.rows [top]).map Row.id = ["a.Top", "a.Left", "a.Base", "a.Right"] ∧
      x.membersAt 0 = t.visibleMembers top ∧
      x.markedMembers "a.Top" .uiAction = [⟨"stay", .function []⟩] := by
  intro t x top
  have there : t.rows[0]? = some top := by cbv
  obtain ⟨_, _, members, visible, marked⟩ := members_met_depth_first Table.diamond there
  refine ⟨there, by cbv, members.trans visible.symm, ?_⟩
  exact (marked .uiAction).1.trans (by cbv)

end WrapperGen
