namespace WrapperGen

/-- Values in ascending order of their names, one for each name. -/
structure Roster {α : Type} (name : α → String) where
  toList : List α
  ascending : toList.Pairwise fun a b => name a < name b

namespace Roster

variable {α : Type} {name : α → String}

@[ext]
theorem ext {r s : Roster name} (h : r.toList = s.toList) : r = s := by
  cases r
  cases s
  cases h
  rfl

instance [DecidableEq α] : DecidableEq (Roster name) := fun r s =>
  if h : r.toList = s.toList then isTrue (ext h) else isFalse fun e => h (congrArg toList e)

def empty : Roster name := ⟨[], .nil⟩

instance : EmptyCollection (Roster name) := ⟨empty⟩
instance : Inhabited (Roster name) := ⟨empty⟩

def size (r : Roster name) : Nat := r.toList.length

def isEmpty (r : Roster name) : Bool := r.toList.isEmpty

def names (r : Roster name) : List String := r.toList.map name

def find? (r : Roster name) (n : String) : Option α :=
  r.toList.find? (name · == n)

/-- Puts a value where its name belongs, in the place of a value of that name. -/
def place (name : α → String) (a : α) : List α → List α
  | [] => [a]
  | b :: rest =>
    if name a < name b then a :: b :: rest
    else if name a = name b then a :: rest
    else b :: place name a rest

theorem mem_place {a x : α} {l : List α} (h : x ∈ place name a l) : x = a ∨ x ∈ l := by
  induction l with
  | nil => simpa [place] using h
  | cons b rest ih =>
    rw [place] at h
    split at h
    · simpa using h
    · split at h
      · rcases List.mem_cons.mp h with h | h
        · exact .inl h
        · exact .inr (List.mem_cons_of_mem _ h)
      · rcases List.mem_cons.mp h with h | h
        · exact .inr (h ▸ List.mem_cons_self)
        · exact (ih h).imp id (List.mem_cons_of_mem _)

theorem pairwise_place (a : α) {l : List α} (h : l.Pairwise fun a b => name a < name b) :
    (place name a l).Pairwise fun a b => name a < name b := by
  induction l with
  | nil => simp [place]
  | cons b rest ih =>
    obtain ⟨first, later⟩ := List.pairwise_cons.mp h
    rw [place]
    split
    · rename_i before
      refine List.pairwise_cons.mpr ⟨fun x hx => ?_, h⟩
      rcases List.mem_cons.mp hx with rfl | hx
      · exact before
      · exact String.lt_trans before (first x hx)
    · split
      · rename_i same
        exact List.pairwise_cons.mpr ⟨fun x hx => same ▸ first x hx, later⟩
      · rename_i notBefore other
        refine List.pairwise_cons.mpr ⟨fun x hx => ?_, ih later⟩
        rcases mem_place hx with rfl | hx
        · exact Std.lt_of_le_of_ne (String.not_lt.mp notBefore) (Ne.symm other)
        · exact first x hx

/-- Adds a value; it takes the place of the value of the same name. -/
def insert (r : Roster name) (a : α) : Roster name :=
  ⟨place name a r.toList, pairwise_place a r.ascending⟩

def filter (p : α → Bool) (r : Roster name) : Roster name :=
  ⟨r.toList.filter p, r.ascending.filter p⟩

/-- Removes the value of the given name, if there is one. -/
def erase (r : Roster name) (n : String) : Roster name :=
  r.filter (name · != n)

/-- Of several values of one name the last is kept. -/
def ofList (values : List α) : Roster name :=
  values.foldl insert empty

@[simp]
theorem toList_empty : (∅ : Roster name).toList = [] := rfl

@[simp]
theorem toList_filter (p : α → Bool) (r : Roster name) :
    (r.filter p).toList = r.toList.filter p := rfl

end Roster

/-- Strings in ascending order, each once. -/
abbrev NameSet := Roster (α := String) id

end WrapperGen
