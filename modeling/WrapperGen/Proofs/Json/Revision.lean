import Mathlib.Logic.Relator
import WrapperGen.Proofs.Json.Records

namespace WrapperGen.Json

/-! ## What may be made of a node -/

/-- A field that a record may have: its name, what may be made of its value, and the values with
which it may be left out. -/
structure Part where
  name : String
  revised : Node → Node → Prop
  isDefault : Node → Prop

namespace Part

/-- A field that must be there and is left as it is. -/
def fixed (name : String) : Part := ⟨name, Eq, fun _ => False⟩

/-- A list that may be left out if it is empty. -/
def orEmpty (name : String) (revised : Node → Node → Prop) : Part :=
  ⟨name, revised, fun n => n = .list [] none⟩

end Part

/-- Each of the parts is kept or left out; what stands in a row under other names may go. -/
inductive PartsRevised (parts : List Part) : Row → Row → Prop
  | nil : PartsRevised parts [] []
  | keep {part : Part} {n n' : Node} {row kept : Row} (known : part ∈ parts)
    (value : part.revised n n') (others : PartsRevised parts row kept) :
    PartsRevised parts ((part.name, n) :: row) ((part.name, n') :: kept)
  | leave {part : Part} {n : Node} {row kept : Row} (known : part ∈ parts)
    (default : part.isDefault n) (others : PartsRevised parts row kept) :
    PartsRevised parts ((part.name, n) :: row) kept
  | drop {name : String} {n : Node} {row kept : Row} (unknown : name ∉ parts.map Part.name)
    (others : PartsRevised parts row kept) : PartsRevised parts ((name, n) :: row) kept

/-- The fields may be put in any order and any others added, under names that are not those of
parts. -/
inductive RecordRevised (parts : List Part) : Node → Node → Prop
  | intro {row kept extra row' : Row} (known : PartsRevised parts row kept)
    (unknown : ∀ f ∈ extra, f.1 ∉ parts.map Part.name) (order : row'.Perm (kept ++ extra)) :
    RecordRevised parts (.named row) (.named row')

/-- The items stay in their order. -/
inductive ListRevised (item : Node → Node → Prop) : Node → Node → Prop
  | intro {items items' : List Node} (each : List.Forall₂ item items items') :
    ListRevised item (.list items none) (.list items' none)

/-- The items may be put in any order. -/
inductive PermutedRevised (item : Node → Node → Prop) : Node → Node → Prop
  | intro {items items' items'' : List Node} (each : List.Forall₂ item items items')
    (order : items'.Perm items'') : PermutedRevised item (.list items none) (.list items'' none)

inductive OptionalRevised (item : Node → Node → Prop) : Node → Node → Prop
  | null : OptionalRevised item .null .null
  | some {n n' : Node} (value : item n n') : OptionalRevised item n n'

/-! ## Reading what has been made of a node -/

variable {α β : Type}

/-- What is read from a node is read from all that is made of it and has nothing wrong in it, up to
`same`. -/
def Carries (reader : Reader α) (revised : Node → Node → Prop) (same : α → α → Prop) : Prop :=
  ∀ ⦃room n n' a⦄, revised n n' → n'.skip = .ok () → reader room n = .ok a →
    ∃ a', reader room n' = .ok a' ∧ same a a'

theorem carries_eq (reader : Reader α) : Carries reader Eq Eq := by
  rintro room n _ a rfl _ read
  exact ⟨a, read, rfl⟩

section

variable {reader : Reader α} {revised : Node → Node → Prop} {room : Nat}

theorem readItems_revised (item : Carries reader revised Eq) {nodes nodes' : List Node}
    {items : List α} (each : List.Forall₂ revised nodes nodes')
    (fine : ∀ n ∈ nodes', n.skip = .ok ()) (read : readItems reader room nodes = .ok items) :
    readItems reader room nodes' = .ok items := by
  rw [readItems_eq_ok_iff] at read ⊢
  induction each generalizing items with
  | nil => exact read
  | cons first _ ih =>
    obtain ⟨here, later⟩ := List.forall_mem_cons.mp fine
    cases read with
    | cons head tail =>
      obtain ⟨_, again, rfl⟩ := item first here head
      exact .cons again (ih later tail)

theorem carries_list (item : Carries reader revised Eq) :
    Carries (readList reader) (ListRevised revised) Eq := by
  rintro room _ _ items ⟨each⟩ fine read
  obtain ⟨inner, _, rfl, ⟨⟩, inside⟩ := readList_eq_ok_iff.mp read
  rw [skip_list_eq_ok_iff] at fine
  have again := readItems_revised item each fine.1 inside
  exact ⟨items, readList_eq_ok_iff.mpr ⟨inner, _, rfl, rfl, again⟩, rfl⟩

theorem carries_permuted (item : Carries reader revised Eq) :
    Carries (readList reader) (PermutedRevised revised) List.Perm := by
  rintro room _ _ items ⟨each, order⟩ fine read
  obtain ⟨inner, _, rfl, ⟨⟩, inside⟩ := readList_eq_ok_iff.mp read
  rw [skip_list_eq_ok_iff] at fine
  have sound := fun n mem => fine.1 n (order.subset mem)
  have again := readItems_eq_ok_iff.mp (readItems_revised item each sound inside)
  obtain ⟨items', reordered, perm⟩ := List.perm_comp_forall₂ order.symm again
  have reread := readItems_eq_ok_iff.mpr reordered
  exact ⟨items', readList_eq_ok_iff.mpr ⟨inner, _, rfl, rfl, reread⟩, perm.symm⟩

theorem carries_optional (item : Carries reader revised Eq)
    (present : ∀ {n n'}, revised n n' → n ≠ .null ∧ n' ≠ .null) :
    Carries (readOptional reader) (OptionalRevised revised) Eq := by
  rintro room n n' a h fine read
  cases h with
  | null => exact ⟨a, read, rfl⟩
  | some value =>
    obtain ⟨here, there⟩ := present value
    obtain ⟨absent, -⟩ | ⟨b, inner, -, rfl⟩ := readOptional_eq_ok_iff.mp read
    · exact absurd absent here
    · obtain ⟨_, again, rfl⟩ := item value fine inner
      refine ⟨some b, ?_, rfl⟩
      rw [readOptional_of_ne_null there, again]
      rfl

end

/-! ## Reading what has been made of a record -/

/-- What became of a field in what was made of a record. -/
inductive Part.Follows (p : Part) : Option Node → Option Node → Prop
  | absent : p.Follows none none
  | kept {n n' : Node} (value : p.revised n n') (fine : n'.skip = .ok ()) :
    p.Follows (some n) (some n')
  | left {n : Node} (default : p.isDefault n) : p.Follows (some n) none

section

variable {parts : List Part} {row kept row' extra : Row}

theorem PartsRevised.sublist (h : PartsRevised parts row kept) :
    (kept.map Prod.fst).Sublist ((among (parts.map Part.name) row).map Prod.fst) := by
  induction h with
  | nil => exact .slnil
  | keep known _ _ ih =>
    rw [among_cons_of_mem (List.mem_map_of_mem known)]
    exact ih.cons_cons _
  | leave known _ _ ih =>
    rw [among_cons_of_mem (List.mem_map_of_mem known)]
    exact ih.cons _
  | drop unknown _ ih =>
    rw [among_cons_of_notMem unknown]
    exact ih

theorem PartsRevised.known (h : PartsRevised parts row kept) :
    ∀ f ∈ kept, f.1 ∈ parts.map Part.name := by
  intro f mem
  obtain ⟨g, here, same⟩ := List.mem_map.mp (h.sublist.subset (List.mem_map_of_mem mem))
  exact same ▸ (mem_among.mp here).2

theorem PartsRevised.follows (h : PartsRevised parts row kept)
    (distinct : (parts.map Part.name).Nodup)
    (once : ((among (parts.map Part.name) row).map Prod.fst).Nodup)
    (fine : ∀ f ∈ kept, f.2.skip = .ok ()) {part : Part} (mem : part ∈ parts) :
    part.Follows ((among (parts.map Part.name) row).lookup part.name) (kept.lookup part.name) := by
  induction h with
  | nil => exact .absent
  | @keep other n n' row kept known value others ih =>
    rw [among_cons_of_mem (List.mem_map_of_mem known)] at once ⊢
    obtain ⟨-, onceLater⟩ := List.nodup_cons.mp once
    obtain ⟨here, later⟩ := List.forall_mem_cons.mp fine
    by_cases same : part.name = other.name
    · obtain rfl := List.inj_on_of_nodup_map distinct mem known same
      rw [List.lookup_cons_self, List.lookup_cons_self]
      exact .kept value here
    · rw [List.lookup_cons, List.lookup_cons, beq_false_of_ne same]
      exact ih onceLater later
  | @leave other n row kept known default others ih =>
    rw [among_cons_of_mem (List.mem_map_of_mem known)] at once ⊢
    obtain ⟨alone, onceLater⟩ := List.nodup_cons.mp once
    by_cases same : part.name = other.name
    · obtain rfl := List.inj_on_of_nodup_map distinct mem known same
      have gone := lookup_eq_none_of_notMem fun mem => alone (others.sublist.subset mem)
      rw [List.lookup_cons_self, gone]
      exact .left default
    · rw [List.lookup_cons, beq_false_of_ne same]
      exact ih onceLater fine
  | drop unknown others ih =>
    rw [among_cons_of_notMem unknown] at once ⊢
    exact ih once fine

/-- The parts that are kept are all that is found of the parts in the end. -/
theorem PartsRevised.among_perm (h : PartsRevised parts row kept)
    (unknown : ∀ f ∈ extra, f.1 ∉ parts.map Part.name) (order : row'.Perm (kept ++ extra)) :
    (among (parts.map Part.name) row').Perm kept := by
  have all : among (parts.map Part.name) kept = kept :=
    List.filter_eq_self.mpr (by simpa using h.known)
  have none : among (parts.map Part.name) extra = [] :=
    List.filter_eq_nil_iff.mpr (by simpa using unknown)
  have same := order.filter fun f => decide (f.1 ∈ parts.map Part.name)
  rw [List.filter_append] at same
  change (among _ row').Perm (among _ kept ++ among _ extra) at same
  rwa [all, none, List.append_nil] at same

end

namespace RecordReader

open Relator

variable {parts parts' : List Part} {same : α → α → Prop} {same' : β → β → Prop}

/-- The record has the parts for fields, and it is built again of what became of them. -/
structure Carries (r : RecordReader α) (parts : List Part) (same : α → α → Prop) : Prop where
  names : r.fields.map Prod.fst = parts.map Part.name
  checked : ∀ {room row a}, r.build room row = .ok a → ∀ known ∈ r.fields, ∀ n,
    row.lookup known.1 = some n → known.2 room n = .ok ()
  built : ∀ {room row row' a},
    (∀ part ∈ parts, part.Follows (row.lookup part.name) (row'.lookup part.name)) →
    r.build room row = .ok a → ∃ a', r.build room row' = .ok a' ∧ same a a'

section

variable (part : Part) {reader : Reader α}

theorem carries_field (value : Json.Carries reader part.revised same)
    (needed : ∀ n, ¬part.isDefault n) : (field part.name reader).Carries [part] same where
  names := rfl
  checked built known mem n found := by
    obtain rfl := List.mem_singleton.mp mem
    simp only [field, found] at built
    exact check_of_ok built
  built {room row row' a} follows built := by
    have here := follows part (List.mem_singleton_self _)
    simp only [field] at built ⊢
    generalize row.lookup part.name = before, row'.lookup part.name = after at here built ⊢
    cases here with
    | absent => cases built
    | kept revised fine => exact value revised fine built
    | left default => exact absurd default (needed _)

theorem carries_fieldOr {default : α} (value : Json.Carries reader part.revised same)
    (left : ∀ {room n a}, part.isDefault n → reader room n = .ok a → same a default)
    (self : same default default) :
    (fieldOr part.name reader default).Carries [part] same where
  names := rfl
  checked built known mem n found := by
    obtain rfl := List.mem_singleton.mp mem
    simp only [fieldOr, found] at built
    exact check_of_ok built
  built {room row row' a} follows built := by
    have here := follows part (List.mem_singleton_self _)
    simp only [fieldOr] at built ⊢
    generalize row.lookup part.name = before, row'.lookup part.name = after at here built ⊢
    cases here with
    | absent =>
      cases built
      exact ⟨default, rfl, self⟩
    | kept revised fine => exact value revised fine built
    | left isDefault => exact ⟨default, rfl, left isDefault built⟩

end

theorem build_seq_eq_ok_iff {f : RecordReader (α → β)} {r : RecordReader α} {room : Nat}
    {row : Row} {b : β} : (f <*> r).build room row = .ok b ↔
      ∃ g, f.build room row = .ok g ∧ ∃ a, r.build room row = .ok a ∧ g a = b := by
  change (do
    let g ← f.build room row
    let x ← r.build room row
    return g x) = _ ↔ _
  simp only [bind_eq_ok_iff, pure, Except.pure, Except.ok.injEq]

theorem Carries.seq {f : RecordReader (α → β)} {r : RecordReader α}
    (hf : f.Carries parts (same ⇒ same'))
    (ha : r.Carries parts' same) : (f <*> r).Carries (parts ++ parts') same' where
  names := by
    rw [List.map_append, ← hf.names, ← ha.names]
    exact List.map_append
  checked built := by
    obtain ⟨g, first, a, second, -⟩ := build_seq_eq_ok_iff.mp built
    exact List.forall_mem_append.mpr ⟨hf.checked first, ha.checked second⟩
  built follows built := by
    obtain ⟨g, first, a, second, rfl⟩ := build_seq_eq_ok_iff.mp built
    obtain ⟨followsFirst, followsSecond⟩ := List.forall_mem_append.mp follows
    obtain ⟨g', firstAgain, sameG⟩ := hf.built followsFirst first
    obtain ⟨a', secondAgain, sameA⟩ := ha.built followsSecond second
    exact ⟨g' a', build_seq_eq_ok_iff.mpr ⟨g', firstAgain, a', secondAgain, rfl⟩,
      sameG sameA⟩

theorem Carries.map {r : RecordReader α} (h : r.Carries parts same) {g : α → β}
    (alike : (same ⇒ same') g g) : (g <$> r).Carries parts same' := by
  have constant : (pure g : RecordReader (α → β)).Carries [] (same ⇒ same') := by
    refine ⟨rfl, nofun, fun _ built => ?_⟩
    cases built
    exact ⟨g, rfl, alike⟩
  exact constant.seq h

/-- A record is read again from what was made of it. -/
theorem Carries.openRead {r : RecordReader α} (h : r.Carries parts same)
    (distinct : (parts.map Part.name).Nodup) :
    Json.Carries r.openRead (RecordRevised parts) same := by
  intro room n n' a revised fine read
  obtain @⟨row, kept, extra, row', known, unknown, order⟩ := revised
  obtain ⟨inner, rfl, -, once, built⟩ := openRead_named_eq_ok_iff.mp read
  rw [h.names] at once built
  rw [skip_named_eq_ok_iff] at fine
  have perm := known.among_perm unknown order
  have onceKept : (kept.map Prod.fst).Nodup := known.sublist.nodup once
  have onceAgain : ((among (parts.map Part.name) row').map Prod.fst).Nodup :=
    (perm.map Prod.fst).nodup_iff.mpr onceKept
  have sound : ∀ f ∈ kept, f.2.skip = .ok () := fun f mem =>
    fine f (order.mem_iff.mpr (List.mem_append_left _ mem))
  have follows : ∀ part ∈ parts,
      part.Follows ((among (parts.map Part.name) row).reverse.lookup part.name)
        ((among (parts.map Part.name) row').reverse.lookup part.name) := by
    intro part mem
    rw [← lookup_eq_of_perm once (List.reverse_perm _).symm,
      ← lookup_eq_of_perm onceKept (perm.symm.trans (List.reverse_perm _).symm)]
    exact known.follows distinct once sound mem
  obtain ⟨a', again, alike⟩ := h.built follows built
  have checked : ∀ known ∈ r.fields, ∀ n, (known.1, n) ∈ row' → known.2 inner n = .ok () := by
    intro known mem n found
    refine h.checked again known mem n ?_
    rw [← lookup_eq_of_perm onceAgain (List.reverse_perm _).symm, lookup_eq_some_iff_mem onceAgain,
      mem_among, ← h.names]
    exact ⟨found, List.mem_map_of_mem mem⟩
  refine ⟨a', openRead_named_eq_ok_iff.mpr
    ⟨inner, rfl, forall_passes fine checked, ?_, ?_⟩, alike⟩ <;> rwa [h.names]

end RecordReader

end WrapperGen.Json
