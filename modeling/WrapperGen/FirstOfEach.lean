namespace WrapperGen

variable {α β : Type} [DecidableEq β]

/-- The first element of each key, in order. -/
def firstOfEach (key : α → β) : List α → List α
  | [] => []
  | a :: rest => a :: (firstOfEach key rest).filter (key · ≠ key a)

theorem firstOfEach_sublist (key : α → β) (l : List α) : (firstOfEach key l).Sublist l := by
  induction l with
  | nil => exact .slnil
  | cons a rest ih => exact (List.filter_sublist.trans ih).cons_cons a

theorem nodup_firstOfEach (key : α → β) (l : List α) : ((firstOfEach key l).map key).Nodup := by
  induction l with
  | nil => exact .nil
  | cons a rest ih =>
    refine List.nodup_cons.mpr ⟨?_, (List.filter_sublist.map key).nodup ih⟩
    intro h
    obtain ⟨b, hb, same⟩ := List.mem_map.mp h
    simp [same] at hb

end WrapperGen
