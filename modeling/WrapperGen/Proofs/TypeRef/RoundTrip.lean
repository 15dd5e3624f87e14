import WrapperGen.Proofs.TypeRef.Display

namespace WrapperGen.TypeRef

/-- Both parsers take one step of the fuel at a time, so the induction is on the fuel for both. -/
theorem isName_of_parse (fuel : Nat) :
    (∀ text t rest, parseType fuel text = .ok (t, rest) → t.WellFormed) ∧
      ∀ text args rest, parseArgs fuel text = .ok (args, rest) →
        ∀ t ∈ walkArgs args, IsName t.name := by
  induction fuel with
  | zero => exact ⟨nofun, nofun⟩
  | succ fuel ih =>
    obtain ⟨types, arguments⟩ := ih
    constructor
    · intro text t rest h
      obtain ⟨named, ⟨inner, args, after, -, inside, mark⟩ | mark⟩ := of_parseType h
      · obtain ⟨nullable, rfl, -⟩ := of_takeMark mark
        exact wellFormed_mk.mpr ⟨named, arguments inner args after inside⟩
      · obtain ⟨nullable, rfl, -⟩ := of_takeMark mark
        exact wellFormed_mk.mpr ⟨named, nofun⟩
    · intro text args rest h
      obtain ⟨arg, after, more, first⟩ := of_parseArgs h
      have front : ∀ t ∈ walkArgs [arg], IsName t.name := by
        obtain ⟨rfl, -⟩ | ⟨t, rfl, read⟩ := first
        · exact nofun
        · have named := types _ t after read
          simpa [WellFormed, names, walkArgs] using named
      obtain ⟨later, others, -, inside, rfl⟩ | ⟨-, rfl⟩ := of_parseMore more
      · intro t mem
        exact ((mem_walkArgs_cons arg others).mp mem).elim (front t)
          (arguments later others rest inside t)
      · exact front

theorem wellFormed_of_parse {text : String} {t : TypeRef} (h : parse text = .ok t) :
    t.WellFormed := by
  obtain ⟨⟨u, rest⟩, read, h⟩ := bind_eq_ok_iff.mp h
  simp only at h
  split at h
  next =>
    cases h
    exact (isName_of_parse _).1 text.toList t rest read
  next => cases h

/-- The names of a type that is read are such as the parser takes, and every type with such names
is read back from what is shown of it, the words for variance among them. -/
theorem reading_and_showing :
    (∀ text t, parse text = .ok t → ∀ name ∈ t.names, IsDottedName name) ∧
    (∀ t : TypeRef, (∀ name ∈ t.names, IsDottedName name) → parse t.display = .ok t) ∧
    (∀ text t, parse text = .ok t → parse t.display = .ok t) ∧
    IsDottedName "out" ∧ IsDottedName "in" := by
  refine ⟨fun text t read name mem => ?_, fun t named => ?_, fun text t read => ?_, ?_, ?_⟩
  · exact isName_iff.mp (wellFormed_of_parse read name mem)
  · exact parse_display fun name mem => isName_iff.mpr (named name mem)
  · exact parse_display (wellFormed_of_parse read)
  · exact isName_iff.mp (by decide)
  · exact isName_iff.mp (by decide)

/-- The second `in` is the name of the argument, and so is the `out` in front of the bracket. -/
theorem variance_names_read_back :
    let inner : TypeRef := .mk "in" [] true
    let t : TypeRef := .mk "Map" [.type (.mk "out" [.type inner, .star] false)] false
    parse "Map< out out < in in? ,*>>" = .ok t ∧ t.display = "Map<out<in?, *>>" ∧
      (∀ name ∈ t.names, IsDottedName name) ∧ parse t.display = .ok t := by
  intro inner t
  have read : parse "Map< out out < in in? ,*>>" = .ok t := by decide +kernel
  have named := reading_and_showing.1 _ t read
  exact ⟨read, rfl, named, reading_and_showing.2.1 t named⟩

end WrapperGen.TypeRef
