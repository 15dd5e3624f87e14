import Mathlib.Data.List.Pairwise
import WrapperGen.Manifest.Text
import WrapperGen.Proofs.Roster.Lookup

namespace WrapperGen

theorem firstRepeated_eq_none_iff {seen names : List String} :
    firstRepeated seen names = none ↔ names.Nodup ∧ ∀ n ∈ names, n ∉ seen := by
  induction names generalizing seen with
  | nil => simp [firstRepeated]
  | cons name rest ih =>
    rw [firstRepeated]
    by_cases again : name ∈ seen
    · simp [again]
    · rw [if_neg again, ih]
      constructor
      · rintro ⟨distinct, fresh⟩
        refine ⟨List.nodup_cons.mpr ⟨fun mem => fresh name mem List.mem_cons_self, distinct⟩, ?_⟩
        intro n mem
        rcases List.mem_cons.mp mem with rfl | mem
        · exact again
        · exact fun old => fresh n mem (List.mem_cons_of_mem name old)
      · rintro ⟨distinct, fresh⟩
        obtain ⟨other, distinct⟩ := List.nodup_cons.mp distinct
        refine ⟨distinct, fun n mem old => ?_⟩
        rcases List.mem_cons.mp old with rfl | old
        · exact other mem
        · exact fresh n (List.mem_cons_of_mem name mem) old

theorem firstRepeated_eq_some_iff {seen names : List String} {n : String} :
    firstRepeated seen names = some n ↔
      ∃ before after, names = before ++ n :: after ∧ before.Nodup ∧ (∀ a ∈ before, a ∉ seen) ∧
        (n ∈ before ∨ n ∈ seen) := by
  induction names generalizing seen with
  | nil => simp [firstRepeated]
  | cons name rest ih =>
    rw [firstRepeated]
    by_cases again : name ∈ seen
    · rw [if_pos again]
      constructor
      · intro h
        cases h
        exact ⟨[], rest, rfl, .nil, nofun, .inr again⟩
      · rintro ⟨before, after, split, -, fresh, -⟩
        cases before with
        | nil => rw [(List.cons.inj split).1]
        | cons a before =>
          cases (List.cons.inj split).1
          exact absurd again (fresh name List.mem_cons_self)
    · rw [if_neg again, ih]
      constructor
      · rintro ⟨before, after, rfl, distinct, fresh, repeated⟩
        refine ⟨name :: before, after, rfl, ?_, ?_, ?_⟩
        · exact List.nodup_cons.mpr ⟨fun mem => fresh name mem List.mem_cons_self, distinct⟩
        · intro a mem
          rcases List.mem_cons.mp mem with rfl | mem
          · exact again
          · exact fun old => fresh a mem (List.mem_cons_of_mem name old)
        · rcases repeated with mem | mem
          · exact .inl (List.mem_cons_of_mem name mem)
          · rcases List.mem_cons.mp mem with rfl | old
            · exact .inl List.mem_cons_self
            · exact .inr old
      · rintro ⟨before, after, split, distinct, fresh, repeated⟩
        cases before with
        | nil =>
          cases (List.cons.inj split).1
          exact absurd (repeated.resolve_left List.not_mem_nil) again
        | cons a before =>
          obtain ⟨rfl, behind⟩ := List.cons.inj split
          obtain ⟨other, distinct⟩ := List.nodup_cons.mp distinct
          refine ⟨before, after, behind, distinct, ?_, ?_⟩
          · intro b mem old
            rcases List.mem_cons.mp old with rfl | old
            · exact other mem
            · exact fresh b (List.mem_cons_of_mem _ mem) old
          · rcases repeated with mem | old
            · rcases List.mem_cons.mp mem with rfl | mem
              · exact .inr List.mem_cons_self
              · exact .inl mem
            · exact .inr (List.mem_cons_of_mem _ old)

/-- The name of the first entry that repeats the name of an earlier one. -/
def FirstRepeat (entries : List Entry) (q : String) : Prop :=
  ∃ before e after, entries = before ++ e :: after ∧ (before.map Entry.className).Nodup ∧
    e.className ∈ before.map Entry.className ∧ e.className = q

theorem firstRepeated_iff_firstRepeat {entries : List Entry} {q : String} :
    firstRepeated [] (entries.map Entry.className) = some q ↔ FirstRepeat entries q := by
  rw [firstRepeated_eq_some_iff]
  constructor
  · rintro ⟨names, namesAfter, split, distinct, -, repeated⟩
    obtain ⟨before, rest, rfl, rfl, behind⟩ := List.map_eq_append_iff.mp split
    obtain ⟨e, after, rfl, rfl, rfl⟩ := List.map_eq_cons_iff.mp behind
    exact ⟨before, e, after, rfl, distinct, repeated.resolve_right List.not_mem_nil, rfl⟩
  · rintro ⟨before, e, after, rfl, distinct, repeated, rfl⟩
    exact ⟨before.map Entry.className, after.map Entry.className, by simp, distinct, nofun,
      .inl repeated⟩

theorem exists_firstRepeat_iff {entries : List Entry} :
    (∃ q, FirstRepeat entries q) ↔ ¬(entries.map Entry.className).Nodup := by
  simp only [← firstRepeated_iff_firstRepeat, ← Option.isSome_iff_exists]
  rw [Option.isSome_iff_ne_none, ne_eq, firstRepeated_eq_none_iff]
  simp

namespace ManifestDraft

variable {d : ManifestDraft}

theorem manifest_eq_unsupported_iff {found : Nat} :
    d.manifest = .error (.unsupportedVersion found) ↔
      d.version = found ∧ found ≠ manifestVersion := by
  unfold manifest
  split
  next other =>
    constructor
    · intro h
      cases h
      exact ⟨rfl, other⟩
    · rintro ⟨rfl, -⟩
      rfl
  next current =>
    have agrees : ¬(d.version = found ∧ found ≠ manifestVersion) :=
      fun ⟨same, other⟩ => current (same ▸ other)
    refine iff_of_false ?_ agrees
    split <;> nofun

theorem manifest_of_current (current : d.version = manifestVersion) :
    d.manifest =
      match firstRepeated [] (d.entries.map Entry.className) with
      | some className => .error (.duplicateEntry className)
      | none => .ok (.ofList d.entries) :=
  if_neg (not_not_intro current)

theorem manifest_eq_duplicate_iff (current : d.version = manifestVersion) {q : String} :
    d.manifest = .error (.duplicateEntry q) ↔ FirstRepeat d.entries q := by
  rw [manifest_of_current current, ← firstRepeated_iff_firstRepeat]
  cases firstRepeated [] (d.entries.map Entry.className) <;> simp

theorem manifest_eq_ok_iff {m : Manifest} :
    d.manifest = .ok m ↔
      d.version = manifestVersion ∧ (d.entries.map Entry.className).Nodup ∧
        m = .ofList d.entries := by
  by_cases current : d.version = manifestVersion
  · rw [manifest_of_current current]
    cases repeated : firstRepeated [] (d.entries.map Entry.className) with
    | none =>
      have distinct := (firstRepeated_eq_none_iff.mp repeated).1
      constructor
      · intro h
        cases h
        exact ⟨current, distinct, rfl⟩
      · rintro ⟨-, -, rfl⟩
        rfl
    | some q =>
      refine iff_of_false nofun ?_
      rintro ⟨-, distinct, -⟩
      rw [firstRepeated_eq_none_iff.mpr ⟨distinct, fun _ _ => List.not_mem_nil⟩] at repeated
      cases repeated
  · refine iff_of_false ?_ fun h => current h.1
    rw [manifest, if_pos current]
    nofun

end ManifestDraft

end WrapperGen
