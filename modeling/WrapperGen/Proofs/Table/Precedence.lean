import WrapperGen.Proofs.Table.Additions
import WrapperGen.Proofs.Table.Positions

namespace WrapperGen

/-! ## What a name stands for -/

/-- The declaration stands at the position and is the last one of the qualified name. -/
structure LastOf (declarations : List Declaration) (qualifiedName : String) (position : Nat)
    (d : Declaration) : Prop where
  there : declarations[position]? = some d
  named : d.qualifiedName = some qualifiedName
  last : ∀ j later, declarations[j]? = some later → later.qualifiedName = some qualifiedName →
    j ≤ position

/-- The declaration stands at the position and no other one has its simple name. -/
structure OnlyOf (declarations : List Declaration) (simpleName : String) (position : Nat)
    (d : Declaration) : Prop where
  there : declarations[position]? = some d
  named : d.simpleName = simpleName
  only : ∀ j other, declarations[j]? = some other → other.simpleName = simpleName → j = position

/-- The ways in which a name can stand for a type, given what is declared and what is known by its
name alone. Each way is open only if those before it are not. -/
inductive StandsFor (declarations : List Declaration) (externals : List String) (name : String) :
    ResolvedName → Prop
  | declared {position : Nat} {d : Declaration} (last : LastOf declarations name position d) :
    StandsFor declarations externals name ⟨name, d.simpleName⟩
  | builtin {q : String} (undeclared : ∀ d ∈ declarations, d.qualifiedName ≠ some name)
    (mem : q ∈ builtinTypes) (named : q = name ∨ lastSegment q = name) :
    StandsFor declarations externals name ⟨q, lastSegment q⟩
  | external (undeclared : ∀ d ∈ declarations, d.qualifiedName ≠ some name)
    (unlisted : ∀ q ∈ builtinTypes, q ≠ name ∧ lastSegment q ≠ name) (mem : name ∈ externals) :
    StandsFor declarations externals name ⟨name, lastSegment name⟩
  | simply {position : Nat} {d : Declaration} {q : String}
    (undeclared : ∀ d ∈ declarations, d.qualifiedName ≠ some name)
    (unlisted : ∀ q ∈ builtinTypes, q ≠ name ∧ lastSegment q ≠ name) (unknown : name ∉ externals)
    (only : OnlyOf declarations name position d) (named : d.qualifiedName = some q) :
    StandsFor declarations externals name ⟨q, d.simpleName⟩

/-- All names of the built-in types, qualified and simple ones, are different. -/
theorem nodup_builtinNames : (builtinTypes ++ builtinTypes.map lastSegment).Nodup := by
  decide +kernel

theorem builtin?_eq_some_iff {name q : String} :
    builtin? name = some q ↔ q ∈ builtinTypes ∧ (q = name ∨ lastSegment q = name) := by
  obtain ⟨distinct, distinct', apart⟩ := List.nodup_append.mp nodup_builtinNames
  constructor
  · intro found
    have named := List.find?_some found
    exact ⟨List.mem_of_find?_eq_some found, by simpa using named⟩
  · rintro ⟨mem, named⟩
    have some : (builtin? name).isSome :=
      List.find?_isSome.mpr ⟨q, mem, by simpa using named⟩
    obtain ⟨q', found⟩ := Option.isSome_iff_exists.mp some
    have mem' : q' ∈ builtinTypes := List.mem_of_find?_eq_some found
    have named' : q' = name ∨ lastSegment q' = name := by simpa using List.find?_some found
    rw [found]
    refine congrArg _ ?_
    have segment := fun {r} => List.mem_map_of_mem (f := lastSegment) (a := r) (l := builtinTypes)
    rcases named with rfl | simple <;> rcases named' with rfl | simple'
    · rfl
    · exact absurd simple'.symm (apart q mem _ (segment mem'))
    · exact absurd simple.symm (apart q' mem' _ (segment mem))
    · exact List.inj_on_of_nodup_map distinct' mem' mem (simple'.trans simple.symm)

theorem builtin?_eq_none_iff {name : String} :
    builtin? name = none ↔ ∀ q ∈ builtinTypes, q ≠ name ∧ lastSegment q ≠ name := by
  simp [builtin?]

/-! ## How it is found -/

/-- A qualified name that a declaration has leads to the last declaration that has it. -/
theorem exists_lastOf {declarations : List Declaration} {d : Declaration} {q : String}
    (mem : d ∈ declarations) (named : d.qualifiedName = some q) :
    ∃ position d', LastOf declarations q position d' := by
  have holds : ∀ d' : Declaration, (d'.qualifiedName == some q) = true ↔
      d'.qualifiedName = some q := fun _ => beq_iff_eq
  obtain ⟨i, there⟩ := List.mem_iff_getElem?.mp mem
  have listed : i ∈ declarations.findIdxs (·.qualifiedName == some q) :=
    mem_findIdxs_iff.mpr ⟨d, there, (holds d).mpr named⟩
  cases last : (declarations.findIdxs (·.qualifiedName == some q)).getLast? with
  | none =>
    rw [List.getLast?_eq_none_iff.mp last] at listed
    cases listed
  | some position =>
    obtain ⟨mem', greatest⟩ := getLast?_findIdxs_iff.mp last
    obtain ⟨d', there', named'⟩ := mem_findIdxs_iff.mp mem'
    refine ⟨position, d', there', (holds d').mp named', fun j later there'' named'' => ?_⟩
    exact greatest j (mem_findIdxs_iff.mpr ⟨later, there'', (holds later).mpr named''⟩)

theorem LastOf.mem {declarations : List Declaration} {q : String} {position : Nat}
    {d : Declaration} (last : LastOf declarations q position d) : d ∈ declarations :=
  List.mem_of_getElem? last.there

theorem OnlyOf.mem {declarations : List Declaration} {n : String} {position : Nat}
    {d : Declaration} (only : OnlyOf declarations n position d) : d ∈ declarations :=
  List.mem_of_getElem? only.there

/-- What a name stands for is itself what its qualified name stands for, but perhaps under another
simple name. -/
theorem StandsFor.again {declarations : List Declaration} {externals : List String} {name : String}
    {n : ResolvedName} (stands : StandsFor declarations externals name n) :
    ∃ simpleName,
      StandsFor declarations externals n.qualifiedName ⟨n.qualifiedName, simpleName⟩ := by
  cases stands with
  | declared last => exact ⟨_, .declared last⟩
  | @builtin q undeclared mem named =>
    -- a built-in type may be declared as well, and then its qualified name leads there
    by_cases redeclared : ∃ d ∈ declarations, d.qualifiedName = some q
    · obtain ⟨d, mem', named'⟩ := redeclared
      obtain ⟨position, d', last⟩ := exists_lastOf mem' named'
      exact ⟨_, .declared last⟩
    · have undeclared' : ∀ d ∈ declarations, d.qualifiedName ≠ some q := fun d mem' named' =>
        redeclared ⟨d, mem', named'⟩
      exact ⟨_, .builtin undeclared' mem (.inl rfl)⟩
  | external undeclared unlisted mem => exact ⟨_, .external undeclared unlisted mem⟩
  | simply undeclared unlisted unknown only named =>
    obtain ⟨position, d', last⟩ := exists_lastOf only.mem named
    exact ⟨_, .declared last⟩

namespace IndexedTable

variable {x : IndexedTable} {name : String}

namespace Sound

theorem get?_byQualified_iff (sound : x.Sound) {i : Nat} :
    x.byQualified.get? name = some i ↔ ∃ d, LastOf x.declarations name i d := by
  rw [sound.byQualified]
  constructor
  · rintro ⟨⟨d, there, named⟩, last⟩
    exact ⟨d, there, named, last⟩
  · rintro ⟨d, last⟩
    exact ⟨⟨d, last.there, last.named⟩, last.last⟩

theorem get?_byQualified_eq_none_iff (sound : x.Sound) :
    x.byQualified.get? name = none ↔ ∀ d ∈ x.declarations, d.qualifiedName ≠ some name := by
  constructor
  · intro none d mem named
    obtain ⟨i, d', last⟩ := exists_lastOf mem named
    have found := sound.get?_byQualified_iff.mpr ⟨d', last⟩
    rw [none] at found
    cases found
  · intro undeclared
    refine Option.eq_none_iff_forall_ne_some.mpr fun i found => ?_
    obtain ⟨d, last⟩ := sound.get?_byQualified_iff.mp found
    exact undeclared d last.mem last.named

/-- A simple name has a single position just if one declaration only has it. -/
theorem get?_bySimple_single_iff (sound : x.Sound) {i : Nat} :
    x.bySimple.get? name = some [i] ↔ ∃ d, OnlyOf x.declarations name i d := by
  rw [sound.bySimple]
  constructor
  · rintro ⟨_, _, positions⟩
    obtain ⟨d, there, named⟩ := (positions i).mp (List.mem_singleton_self i)
    refine ⟨d, there, named, fun j other there' named' => ?_⟩
    exact List.mem_singleton.mp ((positions j).mpr ⟨other, there', named'⟩)
  · rintro ⟨d, only⟩
    refine ⟨List.cons_ne_nil _ _, List.pairwise_singleton _ _, fun j => ?_⟩
    rw [List.mem_singleton]
    constructor
    · rintro rfl
      exact ⟨d, only.there, only.named⟩
    · rintro ⟨other, there, named⟩
      exact only.only j other there named

end Sound

/-- A table whose indexes are sound answers with what the name stands for. -/
theorem Sound.resolveName_eq_some_iff (sound : x.Sound) {n : ResolvedName} :
    x.resolveName name = some n ↔ StandsFor x.declarations x.externals name n := by
  constructor
  · intro resolved
    unfold resolveName at resolved
    split at resolved
    next i found =>
      obtain ⟨d, last⟩ := sound.get?_byQualified_iff.mp found
      rw [last.there] at resolved
      cases resolved
      exact .declared last
    next missing =>
      have undeclared := sound.get?_byQualified_eq_none_iff.mp missing
      split at resolved
      next q found =>
        obtain ⟨mem, named⟩ := builtin?_eq_some_iff.mp found
        cases resolved
        exact .builtin undeclared mem named
      next missing' =>
        have unlisted := builtin?_eq_none_iff.mp missing'
        split at resolved
        next external =>
          cases resolved
          exact .external undeclared unlisted external
        next unknown =>
          split at resolved
          next i found =>
            obtain ⟨d, only⟩ := sound.get?_bySimple_single_iff.mp found
            rw [only.there] at resolved
            obtain ⟨q, named, rfl⟩ := Option.map_eq_some_iff.mp resolved
            exact .simply undeclared unlisted unknown only named
          next => cases resolved
  · intro stands
    unfold resolveName
    cases stands with
    | declared last =>
      rw [sound.get?_byQualified_iff.mpr ⟨_, last⟩]
      simp only [last.there, Option.map_some]
    | builtin undeclared mem named =>
      rw [sound.get?_byQualified_eq_none_iff.mpr undeclared,
        builtin?_eq_some_iff.mpr ⟨mem, named⟩]
    | external undeclared unlisted mem =>
      rw [sound.get?_byQualified_eq_none_iff.mpr undeclared, builtin?_eq_none_iff.mpr unlisted]
      simp only [mem, ↓reduceIte]
    | simply undeclared unlisted unknown only named =>
      rw [sound.get?_byQualified_eq_none_iff.mpr undeclared, builtin?_eq_none_iff.mpr unlisted,
        sound.get?_bySimple_single_iff.mpr ⟨_, only⟩]
      simp only [unknown, ↓reduceIte, only.there, Option.bind_some, named, Option.map_some]

end IndexedTable

namespace Table

/-- The names known without a declaration are those that a call has made known. -/
theorem mem_externals_after {calls : List Table.Call} {name : String} :
    name ∈ (after calls).externals ↔ .withExternal name ∈ calls := by
  induction calls using List.reverseRecOn with
  | nil => simp [after, EmptyCollection.emptyCollection, empty]
  | append_singleton calls c ih =>
    rw [after, List.foldl_concat, ← after, List.mem_append, List.mem_singleton, ← ih]
    cases c with
    | declare d =>
      have kept : ((after calls).call (.declare d)).externals = (after calls).externals := rfl
      simp [kept]
    | withExternal n =>
      refine mem_externals_withExternal.trans (or_congr_right ?_)
      simp

end Table

/-- After any calls a type leads to what its name stands for among the declarations, in the order of
the table, and the names that have been made known; its arguments stay as written. Nothing else is
found, and what is found is found again under its qualified name. -/
theorem IndexedTable.names_resolved_in_turn (calls : List Table.Call) (type : TypeRef) :
    let x := after calls
    (∀ name, name ∈ x.externals ↔ .withExternal name ∈ calls) ∧
      (∀ r, x.resolveType type = some r ↔
        StandsFor x.declarations x.externals type.name ⟨r.qualifiedName, r.simpleName⟩ ∧
          r.args = type.args) ∧
      (x.resolveType type = none ↔
        ∀ n, ¬StandsFor x.declarations x.externals type.name n) ∧
      ∀ r, x.resolveType type = some r → ∀ again : TypeRef, again.name = r.qualifiedName →
        ∃ r', x.resolveType again = some r' ∧ r'.qualifiedName = r.qualifiedName := by
  intro x
  have h : x.Represents (Table.after calls) := represents_after calls
  have found : ∀ (type : TypeRef) r, x.resolveType type = some r ↔
      StandsFor x.declarations x.externals type.name ⟨r.qualifiedName, r.simpleName⟩ ∧
        r.args = type.args := by
    intro type r
    rw [resolveType, Option.map_eq_some_iff]
    constructor
    · rintro ⟨n, resolved, rfl⟩
      exact ⟨h.sound.resolveName_eq_some_iff.mp resolved, rfl⟩
    · rintro ⟨stands, args⟩
      refine ⟨_, h.sound.resolveName_eq_some_iff.mpr stands, ?_⟩
      cases r
      cases args
      rfl
  refine ⟨fun name => ?_, found type, ?_, fun r resolved again same => ?_⟩
  · rw [h.externals]
    exact Table.mem_externals_after
  · rw [resolveType, Option.map_eq_none_iff, Option.eq_none_iff_forall_ne_some]
    exact forall_congr' fun n => not_congr h.sound.resolveName_eq_some_iff
  · obtain ⟨stands, _⟩ := (found type r).mp resolved
    obtain ⟨simpleName, stands'⟩ := stands.again
    rw [← same] at stands'
    exact ⟨⟨again.name, simpleName, again.args⟩, (found again _).mpr ⟨stands', rfl⟩, same⟩

/-- A declared built-in type is found by its simple name as well, but is called there as the
language calls it; a name known by itself goes before a declaration of that simple name. -/
example :
    let whole := { Declaration.ofClass "kotlin.Int" with simpleName := "Whole" }
    let x := IndexedTable.after [.declare whole, .declare (.ofClass "a.Item"), .withExternal "Item"]
    x.resolveName "kotlin.Int" = some ⟨"kotlin.Int", "Whole"⟩ ∧
      x.resolveName "Int" = some ⟨"kotlin.Int", "Int"⟩ ∧
      x.resolveName "Item" = some ⟨"Item", "Item"⟩ := by
  cbv

end WrapperGen
