import WrapperGen.Proofs.Json.Acceptance
import WrapperGen.Proofs.Json.Revision
import WrapperGen.Proofs.Manifest.RoundTrip

namespace WrapperGen

open Json RecordReader Relator

/-! ## What may be made of the parts of a manifest -/

def ParamEntry.Revised : Node → Node → Prop :=
  RecordRevised [.fixed "paramLabel", .fixed "typeSimpleName"]

def ActionEntry.Revised : Node → Node → Prop :=
  RecordRevised [.fixed "function", .orEmpty "params" (ListRevised ParamEntry.Revised)]

def StateEntry.Revised : Node → Node → Prop :=
  RecordRevised [.fixed "property", .fixed "typeSimpleName"]

def Entry.Revised : Node → Node → Prop :=
  RecordRevised [.fixed "className", .fixed "simpleName",
    ⟨"state", OptionalRevised StateEntry.Revised, fun n => n = .null⟩,
    .orEmpty "actions" (ListRevised ActionEntry.Revised)]

/-- The entries may be put in any order, but no actions and parameters. -/
def Manifest.Revised : Node → Node → Prop :=
  RecordRevised [⟨"version", Eq, fun n => n = .number (.ofNat 1)⟩,
    .orEmpty "viewModels" (PermutedRevised Entry.Revised)]

/-! ## Reading them -/

theorem carries_fixed (name : String) : (field name readText).Carries [.fixed name] Eq :=
  carries_field (.fixed name) (carries_eq readText) fun _ => id

theorem readList_nil {α : Type} {item : Reader α} {room : Nat} {n : Node} {items : List α}
    (empty : n = .list [] none) (read : readList item room n = .ok items) : items = [] := by
  subst empty
  obtain ⟨_, _, -, ⟨⟩, inside⟩ := readList_eq_ok_iff.mp read
  cases inside
  rfl

theorem carries_orEmpty {α : Type} {item : Reader α} {revised : Node → Node → Prop} (name : String)
    (each : Json.Carries item revised Eq) :
    (fieldOr name (readList item) []).Carries [.orEmpty name (ListRevised revised)] Eq :=
  carries_fieldOr (.orEmpty name (ListRevised revised)) (carries_list each) readList_nil rfl

theorem ParamEntry.carries : Json.Carries ParamEntry.read ParamEntry.Revised Eq := by
  have alike : (Eq ⇒ Eq ⇒ Eq) ParamEntry.mk ParamEntry.mk := by
    rintro label _ rfl type _ rfl
    rfl
  exact (((carries_fixed "paramLabel").map alike).seq
    (carries_fixed "typeSimpleName")).openRead (by decide)

theorem StateEntry.carries : Json.Carries StateEntry.read StateEntry.Revised Eq := by
  have alike : (Eq ⇒ Eq ⇒ Eq) StateEntry.mk StateEntry.mk := by
    rintro property _ rfl type _ rfl
    rfl
  exact (((carries_fixed "property").map alike).seq
    (carries_fixed "typeSimpleName")).openRead (by decide)

theorem ActionEntry.carries : Json.Carries ActionEntry.read ActionEntry.Revised Eq := by
  have alike : (Eq ⇒ Eq ⇒ Eq) ActionEntry.mk ActionEntry.mk := by
    rintro function _ rfl params _ rfl
    rfl
  exact (((carries_fixed "function").map alike).seq
    (carries_orEmpty "params" ParamEntry.carries)).openRead (by decide)

theorem carries_state :
    (fieldOr "state" (readOptional StateEntry.read) none).Carries
      [⟨"state", OptionalRevised StateEntry.Revised, fun n => n = .null⟩] Eq := by
  refine carries_fieldOr ⟨"state", _, _⟩ (carries_optional StateEntry.carries ?_) ?_ rfl
  · rintro _ _ ⟨⟩
    exact ⟨nofun, nofun⟩
  · rintro room n a rfl read
    exact (Except.ok.inj read).symm

theorem Entry.carries : Json.Carries Entry.read Entry.Revised Eq := by
  have alike : (Eq ⇒ Eq ⇒ Eq ⇒ Eq ⇒ Eq) Entry.mk Entry.mk := by
    rintro className _ rfl simpleName _ rfl state _ rfl actions _ rfl
    rfl
  exact (((((carries_fixed "className").map alike).seq (carries_fixed "simpleName")).seq
    carries_state).seq (carries_orEmpty "actions" ActionEntry.carries)).openRead (by decide)

namespace ManifestDraft

/-- The drafts have the same entries. -/
structure Alike (d d' : ManifestDraft) : Prop where
  version : d.version = d'.version
  entries : d.entries.Perm d'.entries

theorem carries_version :
    (fieldOr "version" (readNat (Nat.pow 2 32)) manifestVersion).Carries
      [⟨"version", Eq, fun n => n = .number (.ofNat 1)⟩] Eq := by
  refine carries_fieldOr ⟨"version", _, _⟩ (carries_eq _) ?_ rfl
  rintro room n a rfl read
  exact (Except.ok.inj read).symm

theorem carries_entries :
    (fieldOr "viewModels" (readList Entry.read) []).Carries
      [.orEmpty "viewModels" (PermutedRevised Entry.Revised)] List.Perm :=
  carries_fieldOr (.orEmpty "viewModels" _) (carries_permuted Entry.carries)
    (fun empty read => .of_eq (readList_nil empty read)) .nil

theorem carries : Json.Carries ManifestDraft.read Manifest.Revised Alike := by
  have alike : (Eq ⇒ List.Perm ⇒ Alike) ManifestDraft.mk ManifestDraft.mk := by
    rintro version _ rfl entries entries' order
    exact ⟨rfl, order⟩
  exact ((carries_version.map alike).seq carries_entries).openRead (by decide)

/-- Drafts with the same entries give the same manifest. -/
theorem Alike.manifest {d d' : ManifestDraft} {m : Manifest} (alike : Alike d d')
    (made : d.manifest = .ok m) : d'.manifest = .ok m := by
  obtain ⟨version, distinct, rfl⟩ := manifest_eq_ok_iff.mp made
  have names := alike.entries.map Entry.className
  have distinct' := names.nodup_iff.mp distinct
  refine manifest_eq_ok_iff.mpr ⟨alike.version ▸ version, distinct', ?_⟩
  refine Roster.eq_of_mem_iff fun e => ?_
  rw [Roster.mem_ofList_of_nodup distinct, Roster.mem_ofList_of_nodup distinct',
    alike.entries.mem_iff]

end ManifestDraft

/-! ## Only texts with nothing wrong in them are read -/

theorem ParamEntry.minds : Json.Minds ParamEntry.read :=
  (((minds_field _ minds_text).map _).seq (minds_field _ minds_text)).read

theorem StateEntry.minds : Json.Minds StateEntry.read :=
  (((minds_field _ minds_text).map _).seq (minds_field _ minds_text)).read

theorem ActionEntry.minds : Json.Minds ActionEntry.read :=
  (((minds_field _ minds_text).map _).seq
    (minds_fieldOr _ (minds_list ParamEntry.minds) _)).read

theorem Entry.minds : Json.Minds Entry.read :=
  (((((minds_field _ minds_text).map _).seq (minds_field _ minds_text)).seq
    (minds_fieldOr _ (minds_optional StateEntry.minds) _)).seq
    (minds_fieldOr _ (minds_list ActionEntry.minds) _)).read

theorem ManifestDraft.minds : Json.Minds ManifestDraft.read :=
  (((minds_fieldOr _ (minds_nat _) _).map _).seq
    (minds_fieldOr _ (minds_list Entry.minds) _)).read

/-! ## Reading what has been made of a text -/

namespace Manifest

theorem ofText_eq_ok_iff {text : String} {m : Manifest} :
    ofText text = .ok m ↔ ∃ d, Json.read ManifestDraft.read text = .ok d ∧ d.manifest = .ok m := by
  unfold ofText
  cases Json.read ManifestDraft.read text <;> simp

/-- A manifest is written in the text, and what was made of it in the other. -/
def RevisedText (text text' : String) : Prop :=
  ∃ n n', WrittenText n text ∧ Manifest.Revised n n' ∧ WrittenText n' text'

/-- Only JSON texts are read as manifests; and whatever is made of one that is read, by reordering,
adding and leaving out fields, reordering entries and spacing tokens, is read as the same
manifest. -/
theorem revised_text_read {text : String} {m : Manifest} (read : ofText text = .ok m) :
    (∃ n, WrittenText n text) ∧
      ∀ text', RevisedText text text' → ofText text' = .ok m := by
  obtain ⟨d, parsed, made⟩ := ofText_eq_ok_iff.mp read
  constructor
  · obtain ⟨n, written, -⟩ := exists_written_of_read ManifestDraft.minds parsed
    exact ⟨n, written⟩
  · rintro text' ⟨n, n', written, revised, written'⟩
    rw [read_written _ written] at parsed
    obtain ⟨d', again, alike⟩ := ManifestDraft.carries revised written'.skip parsed
    exact ofText_eq_ok_iff.mpr ⟨d', by rw [read_written _ written', again], alike.manifest made⟩

/-- What is kept of the fields may stand the other way round behind an unknown one. -/
theorem recordRevised_reversed {parts : List Part} (fields kept : List (String × Value))
    (known : PartsRevised parts (fields.map fun f => (f.1, f.2.node))
      (kept.map fun f => (f.1, f.2.node)))
    {new : String × Value} (unknown : new.1 ∉ parts.map Part.name) :
    RecordRevised parts (Value.record fields).node (Value.record (new :: kept.reverse)).node := by
  have order : ((new :: kept.reverse).map fun f => (f.1, f.2.node)).Perm
      ((kept.map fun f => (f.1, f.2.node)) ++ [(new.1, new.2.node)]) := by
    rw [List.map_cons, List.map_reverse]
    exact ((List.reverse_perm _).cons _).trans (List.perm_append_singleton _ _).symm
  rw [node_record, node_record]
  exact .intro known (by simpa using unknown) order

/-- All fields stand the other way round behind an unknown one, and so do the entries; the version
and what `Menu` does not have are left out. -/
theorem reversed_home_read :
    let m : Manifest := .ofList [⟨"a.Home", "Home", some ⟨"title", "Int"⟩,
      [⟨"go", [⟨"to", "Int"⟩]⟩]⟩, ⟨"a.Menu", "Menu", none, []⟩]
    let since : String × Value := ("since", .list [.nat 2, .null])
    let param : Value :=
      .record [since, ("typeSimpleName", .text "Int"), ("paramLabel", .text "to")]
    let action : Value := .record [since, ("params", .list [param]), ("function", .text "go")]
    let state : Value :=
      .record [since, ("typeSimpleName", .text "Int"), ("property", .text "title")]
    let home : Value := .record [since, ("actions", .list [action]), ("state", state),
      ("simpleName", .text "Home"), ("className", .text "a.Home")]
    let menu : Value := .record [since, ("simpleName", .text "Menu"), ("className", .text "a.Menu")]
    let revised : Value := .record [since, ("viewModels", .list [menu, home])]
    RevisedText (text m) revised.compact ∧ ofText revised.compact = .ok m := by
  intro m since param action state home menu revised
  have revisedParam : ParamEntry.Revised (ParamEntry.mk "to" "Int").value.node param.node := by
    let fields := [("paramLabel", Value.text "to"), ("typeSimpleName", .text "Int")]
    exact recordRevised_reversed fields fields
      (.keep (.head _) rfl (.keep (.tail _ (.head _)) rfl .nil)) (by decide)
  have revisedState : StateEntry.Revised (StateEntry.mk "title" "Int").value.node state.node := by
    let fields := [("property", Value.text "title"), ("typeSimpleName", .text "Int")]
    exact recordRevised_reversed fields fields
      (.keep (.head _) rfl (.keep (.tail _ (.head _)) rfl .nil)) (by decide)
  have revisedAction : ActionEntry.Revised (ActionEntry.mk "go" [⟨"to", "Int"⟩]).value.node
      action.node := by
    let fields (param : Value) := [("function", Value.text "go"), ("params", .list [param])]
    refine recordRevised_reversed (fields (ParamEntry.value ⟨"to", "Int"⟩)) (fields param) ?_
      (by decide)
    exact .keep (.head _) rfl
      (.keep (.tail _ (.head _)) (.intro (.cons revisedParam .nil)) .nil)
  let names (className simpleName : String) :=
    [("className", Value.text className), ("simpleName", .text simpleName)]
  have revisedHome : Entry.Revised (Entry.mk "a.Home" "Home" (some ⟨"title", "Int"⟩)
      [⟨"go", [⟨"to", "Int"⟩]⟩]).value.node home.node := by
    let fields (state action : Value) :=
      names "a.Home" "Home" ++ [("state", state), ("actions", .list [action])]
    refine recordRevised_reversed (fields (StateEntry.value ⟨"title", "Int"⟩)
      (ActionEntry.value ⟨"go", [⟨"to", "Int"⟩]⟩)) (fields state action) ?_ (by decide)
    exact .keep (.head _) rfl (.keep (.tail _ (.head _)) rfl
      (.keep (.tail _ (.tail _ (.head _))) (.some revisedState)
        (.keep (.tail _ (.tail _ (.tail _ (.head _)))) (.intro (.cons revisedAction .nil)) .nil)))
  have revisedMenu : Entry.Revised (Entry.mk "a.Menu" "Menu" none []).value.node menu.node := by
    let fields := names "a.Menu" "Menu" ++ [("state", Value.null), ("actions", .list [])]
    refine recordRevised_reversed fields (names "a.Menu" "Menu") ?_ (by decide)
    exact .keep (.head _) rfl (.keep (.tail _ (.head _)) rfl
      (.leave (.tail _ (.tail _ (.head _))) rfl
        (.leave (.tail _ (.tail _ (.tail _ (.head _)))) rfl .nil)))
  have entries : m.toList = [⟨"a.Home", "Home", some ⟨"title", "Int"⟩,
      [⟨"go", [⟨"to", "Int"⟩]⟩]⟩, ⟨"a.Menu", "Menu", none, []⟩] := rfl
  have revisedManifest : Manifest.Revised (value m).node revised.node := by
    rw [value, entries]
    refine recordRevised_reversed _ [("viewModels", .list [menu, home])] ?_ ?_
    · exact .leave (.head _) rfl (.keep (.tail _ (.head _))
        (.intro (.cons revisedHome (.cons revisedMenu .nil)) (.swap _ _ _)) .nil)
    · decide
  have digits : revised.HasDigits := by
    simp [revised, since, menu, home, state, action, param, Value.HasDigits, FieldsHaveDigits,
      ItemsHaveDigits, Value.nat, Number.ofNat]
  have changed : RevisedText (text m) revised.compact :=
    ⟨_, _, writtenText_text m, revisedManifest, writtenText_compact revised digits⟩
  have read : ofText (text m) = .ok m := ofText_eq_ok_iff.mpr ⟨_, read_text m, manifest_draft m⟩
  exact ⟨changed, (revised_text_read read).2 _ changed⟩

end Manifest

end WrapperGen
