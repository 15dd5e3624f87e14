import WrapperGen.Proofs.Json.Printing
import WrapperGen.Proofs.Json.Records
import WrapperGen.Proofs.Manifest.Draft

namespace WrapperGen

open Json RecordReader

theorem StateEntry.readsBack (s : StateEntry) : ReadsBack StateEntry.read s.value s := by
  refine (Rebuilds.seq (.map StateEntry.mk ?_) ?_).readsBack (by simp)
  · exact rebuilds_text (by simp)
  · exact rebuilds_text (by simp)

theorem ParamEntry.readsBack (p : ParamEntry) : ReadsBack ParamEntry.read p.value p := by
  refine (Rebuilds.seq (.map ParamEntry.mk ?_) ?_).readsBack (by simp)
  · exact rebuilds_text (by simp)
  · exact rebuilds_text (by simp)

theorem ActionEntry.readsBack (a : ActionEntry) : ReadsBack ActionEntry.read a.value a := by
  refine (Rebuilds.seq (.map ActionEntry.mk ?_) ?_).readsBack (by simp)
  · exact rebuilds_text (by simp)
  · exact rebuilds_list (by simp) fun p _ => p.readsBack

theorem rebuilds_state {fields : List (String × Value)} {state : Option StateEntry}
    (mem : ("state", (state.map StateEntry.value).getD .null) ∈ fields) :
    (fieldOr "state" (readOptional StateEntry.read) none).Rebuilds fields state := by
  cases state with
  | none => exact rebuilds_fieldOr mem (fun _ => rfl) readsBack_none
  | some s => exact rebuilds_fieldOr mem nofun (readsBack_some nofun s.readsBack)

theorem Entry.readsBack (e : Entry) : ReadsBack Entry.read e.value e := by
  refine (Rebuilds.seq (.seq (.seq (.map Entry.mk ?_) ?_) ?_) ?_).readsBack (by simp)
  · exact rebuilds_text (by simp)
  · exact rebuilds_text (by simp)
  · exact rebuilds_state (by simp)
  · exact rebuilds_list (by simp) fun a _ => a.readsBack

namespace Manifest

/-- The parts of a manifest, as they are read before its version and its entries are looked at. -/
def draft (m : Manifest) : ManifestDraft := ⟨manifestVersion, m.toList⟩

theorem readsBack_value (m : Manifest) : ReadsBack ManifestDraft.read (value m) (draft m) := by
  have current : manifestVersion < Nat.pow 2 32 := by decide
  refine (Rebuilds.seq (.map ManifestDraft.mk ?_) ?_).readsBack (by simp)
  · exact rebuilds_fieldOr (by simp) (fun _ => rfl) (readsBack_nat current)
  · exact rebuilds_list (by simp) fun e _ => e.readsBack

theorem hasDigits_value (m : Manifest) : (value m).HasDigits := by
  have state : ∀ s : Option StateEntry, ((s.map StateEntry.value).getD .null).HasDigits := by
    intro s
    cases s <;> simp [StateEntry.value, Value.HasDigits, FieldsHaveDigits]
  have params : ∀ p : ParamEntry, p.value.HasDigits := by
    simp [ParamEntry.value, Value.HasDigits, FieldsHaveDigits]
  have actions : ∀ a : ActionEntry, a.value.HasDigits := by
    simp [ActionEntry.value, Value.HasDigits, FieldsHaveDigits, itemsHaveDigits_map, params]
  have entries : ∀ e : Entry, e.value.HasDigits := by
    simp [Entry.value, Value.HasDigits, FieldsHaveDigits, itemsHaveDigits_map, state, actions]
  simp [value, Value.nat, Number.ofNat, Value.HasDigits, FieldsHaveDigits, itemsHaveDigits_map,
    entries]

theorem within_value (m : Manifest) : (value m).Within maxDepth := by
  have current : (Number.ofNat manifestVersion).isFinite = true := by decide +kernel
  have state : ∀ s : Option StateEntry, ((s.map StateEntry.value).getD .null).Within 124 := by
    intro s
    cases s <;> simp [StateEntry.value, Value.Within, FieldsWithin]
  simp [value, Entry.value, ActionEntry.value, ParamEntry.value, Value.nat, Value.Within,
    FieldsWithin, itemsWithin_map, maxDepth, current, state]

theorem writtenText_text (m : Manifest) : WrittenText (value m).node (text m) := by
  have spelled := spelled_indentedChars (value m) (hasDigits_value m) 0
  have newline : IsSpaces ['\n'] := by simp [IsSpaces, isSpace]
  refine ⟨[], _, ['\n'], isSpaces_nil, spelled.written, newline, ?_⟩
  rw [text, Value.indented, List.nil_append, String.ofList_append]

theorem read_text (m : Manifest) : Json.read ManifestDraft.read (text m) = .ok (draft m) := by
  rw [read_written ManifestDraft.read (writtenText_text m)]
  exact readsBack_value m _ _ (reworked_self _) (within_value m)

theorem manifest_draft (m : Manifest) : (draft m).manifest = .ok m :=
  ManifestDraft.manifest_eq_ok_iff.mpr ⟨rfl, m.nodup_names, (Roster.ofList_toList m).symm⟩

/-- Whatever texts the entries hold and however many actions and parameters they have, the manifest
of them is read back from its text. -/
theorem ofText_text_ofList (entries : List Entry) :
    ofText (text (.ofList entries)) = .ok (.ofList entries) := by
  rw [ofText, read_text]
  exact manifest_draft (.ofList entries)

/-- The order in which the names come in is the order of a sort by name. -/
theorem toList_eq_mergeSort {entries : List Entry}
    (distinct : (entries.map Entry.className).Nodup) :
    (Roster.ofList entries : Manifest).toList =
      entries.mergeSort fun a b => decide (a.className ≤ b.className) := by
  have perm := (Roster.perm_ofList distinct).trans
    (List.mergeSort_perm entries fun a b => decide (a.className ≤ b.className)).symm
  have ascending : (Roster.ofList entries : Manifest).toList.Pairwise
      fun a b => a.className ≤ b.className :=
    (Roster.ofList entries : Manifest).ascending.imp fun h => String.not_lt.mp (String.lt_asymm h)
  have sorted : (entries.mergeSort fun a b => decide (a.className ≤ b.className)).Pairwise
      fun a b => decide (a.className ≤ b.className) = true :=
    List.pairwise_mergeSort (by simpa using fun a b c => String.le_trans)
      (by simpa using fun a b => String.le_total _ _) entries
  refine perm.eq_of_pairwise ?_ ascending (sorted.imp fun h => of_decide_eq_true h)
  intro a b mem memB before after
  exact Roster.eq_of_name_eq mem (perm.mem_iff.mpr memB) (String.le_antisymm before after)

/-- A text of the form of a manifest is refused for its version, then for the first entry whose
name stands before; else it gives the manifest of its entries, whose own text gives it again. -/
theorem ofText_of_draft {text : String} {version : Nat} {entries : List Entry}
    (parsed : Json.read ManifestDraft.read text = .ok ⟨version, entries⟩) :
    (ofText text = .error (.unsupportedVersion version) ↔ version ≠ 1) ∧
    (version = 1 →
      ((∃ q, ofText text = .error (.duplicateEntry q)) ↔
        ¬(entries.map Entry.className).Nodup) ∧
      (∀ q, ofText text = .error (.duplicateEntry q) ↔ FirstRepeat entries q) ∧
      ((entries.map Entry.className).Nodup → ∃ m : Manifest, ofText text = .ok m ∧
        m = .ofList entries ∧ m.toList.Perm entries ∧
        m.toList.Pairwise (fun a b => a.className < b.className) ∧
        m.toList = entries.mergeSort fun a b => decide (a.className ≤ b.className))) ∧
    ∀ m, ofText text = .ok m → ofText (Manifest.text m) = .ok m := by
  have opened : ofText text = ManifestDraft.manifest ⟨version, entries⟩ := by
    rw [ofText, parsed]
  rw [opened]
  refine ⟨?_, ?_, ?_⟩
  · rw [ManifestDraft.manifest_eq_unsupported_iff]
    exact and_iff_right rfl
  · rintro rfl
    have repeats : ∀ q, ManifestDraft.manifest ⟨1, entries⟩ = .error (.duplicateEntry q) ↔
        FirstRepeat entries q :=
      fun q => ManifestDraft.manifest_eq_duplicate_iff (d := ⟨1, entries⟩) rfl
    refine ⟨?_, repeats, ?_⟩
    · simp only [repeats, exists_firstRepeat_iff]
    · intro distinct
      exact ⟨.ofList entries, ManifestDraft.manifest_eq_ok_iff.mpr ⟨rfl, distinct, rfl⟩, rfl,
        Roster.perm_ofList distinct, (Roster.ofList entries : Manifest).ascending,
        toList_eq_mergeSort distinct⟩
  · intro m _
    rw [ofText, read_text]
    exact manifest_draft m

/-- The third entry is the first to repeat a name, although the fourth repeats that of the first. -/
theorem second_a_refused :
    let text := "\x7b\"viewModels\": [\x7b\"className\": \"b.B\", \"simpleName\": \"B\"\x7d,
      \x7b\"className\": \"a.A\", \"simpleName\": \"A\", \"later\": [true]\x7d,
      \x7b\"simpleName\": \"A\", \"className\": \"a.\\u0041\"\x7d, [\"b.B\", \"B\"]]\x7d"
    let entries : List Entry := [⟨"b.B", "B", none, []⟩, ⟨"a.A", "A", none, []⟩,
      ⟨"a.A", "A", none, []⟩, ⟨"b.B", "B", none, []⟩]
    Json.read ManifestDraft.read text = .ok ⟨1, entries⟩ ∧
      ofText text = .error (.duplicateEntry "a.A") := by
  intro text entries
  have parsed : Json.read ManifestDraft.read text = .ok ⟨1, entries⟩ := by
    -- on the characters, as it takes long to evaluate what the characters of a text are
    rw [read_ofList]
    decide +kernel
  have repeated : FirstRepeat entries "a.A" :=
    ⟨entries.take 2, ⟨"a.A", "A", none, []⟩, entries.drop 3, rfl, by decide, by decide, rfl⟩
  exact ⟨parsed, (((ofText_of_draft parsed).2.1 rfl).2.1 "a.A").mpr repeated⟩

end Manifest

end WrapperGen
