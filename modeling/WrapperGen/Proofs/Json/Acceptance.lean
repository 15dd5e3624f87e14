import WrapperGen.Proofs.Json.Records
import WrapperGen.Proofs.Json.Soundness

namespace WrapperGen.Json

section

variable {α β : Type}

/-- Nothing is wrong in a node that is read. -/
def Minds (reader : Reader α) : Prop :=
  ∀ ⦃room n a⦄, reader room n = .ok a → n.skip = .ok ()

theorem skip_of_read {q : Quoted} {s : String} (read : q.read = .ok s) : q.skip = .ok () := by
  cases q with
  | text => rfl
  | unpaired | fault => cases read

theorem minds_text : Minds readText := by
  intro room n s read
  unfold readText at read
  split at read
  next => exact skip_of_read read
  next => cases read

theorem minds_nat (limit : Nat) : Minds (readNat limit) := by
  intro room n k read
  unfold readNat at read
  split at read
  next => rfl
  next => cases read

theorem minds_optional {reader : Reader α} (minds : Minds reader) :
    Minds (readOptional reader) := by
  intro room n value read
  obtain ⟨rfl, -⟩ | ⟨a, inner, -⟩ := readOptional_eq_ok_iff.mp read
  · rfl
  · exact minds inner

theorem forall_mem_of_readItems {item : Reader α} (minds : Minds item) {room : Nat}
    {nodes : List Node} {items : List α} (read : readItems item room nodes = .ok items) :
    ∀ n ∈ nodes, n.skip = .ok () := by
  rw [readItems_eq_ok_iff] at read
  induction read with
  | nil => exact List.forall_mem_nil _
  | cons first _ ih => exact List.forall_mem_cons.mpr ⟨minds first, ih⟩

theorem minds_list {item : Reader α} (minds : Minds item) : Minds (readList item) := by
  intro room n items read
  obtain ⟨inner, nodes, rfl, rfl, inside⟩ := readList_eq_ok_iff.mp read
  exact skip_list_eq_ok_iff.mpr ⟨forall_mem_of_readItems minds inside, rfl⟩

namespace RecordReader

theorem minds_check {reader : Reader α} (minds : Minds reader) : Minds (check reader) := by
  intro room n _ checked
  unfold check at checked
  cases read : reader room n with
  | ok a => exact minds read
  | error p =>
    rw [read] at checked
    cases checked

/-- All fields are checked by readers that mind what is wrong. -/
def Minds (r : RecordReader α) : Prop := ∀ known ∈ r.fields, Json.Minds known.2

theorem minds_field (name : String) {reader : Reader α} (minds : Json.Minds reader) :
    (field name reader).Minds :=
  List.forall_mem_singleton.mpr (minds_check minds)

theorem minds_fieldOr (name : String) {reader : Reader α} (minds : Json.Minds reader)
    (default : α) : (fieldOr name reader default).Minds :=
  List.forall_mem_singleton.mpr (minds_check minds)

theorem Minds.seq {f : RecordReader (α → β)} {r : RecordReader α} (hf : f.Minds) (ha : r.Minds) :
    (f <*> r).Minds :=
  List.forall_mem_append.mpr ⟨hf, ha⟩

theorem Minds.map (g : α → β) {r : RecordReader α} (h : r.Minds) : (g <$> r).Minds :=
  Minds.seq (f := pure g) nofun h

variable {known : List (String × Reader Unit)} {closed : Bool} {room : Nat}

theorem skip_of_collect (minds : ∀ k ∈ known, Json.Minds k.2) {fields : List (Key × Node)}
    {row found : Row} (collected : collect known closed room row fields = .ok found) :
    ∀ f ∈ fields, f.1.skip = .ok () ∧ f.2.skip = .ok () := by
  induction fields generalizing row with
  | nil => exact List.forall_mem_nil _
  | cons f rest ih =>
    obtain ⟨key, n⟩ := f
    obtain ⟨name, named, collected⟩ := bind_eq_ok_iff.mp collected
    have readable : key.skip = .ok () := by
      cases key with
      | quoted q => exact skip_of_read named
      | stray => cases named
    split at collected
    next check here =>
      split at collected
      next => cases collected
      next =>
        obtain ⟨checked, collected⟩ := check_bind_eq_ok_iff.mp collected
        have fine := minds _ (mem_of_lookup_eq_some here) checked
        exact List.forall_mem_cons.mpr ⟨⟨readable, fine⟩, ih collected⟩
    next =>
      split at collected
      next => cases collected
      next =>
        obtain ⟨fine, collected⟩ := check_bind_eq_ok_iff.mp collected
        exact List.forall_mem_cons.mpr ⟨⟨readable, fine⟩, ih collected⟩

theorem skip_of_collectItems (minds : ∀ k ∈ known, Json.Minds k.2) {nodes : List Node}
    {row found : Row} (collected : collectItems room row known nodes = .ok found) :
    ∀ n ∈ nodes, n.skip = .ok () := by
  induction nodes generalizing known row with
  | nil => exact List.forall_mem_nil _
  | cons n rest ih =>
    cases known with
    | nil => cases collected
    | cons k known =>
      obtain ⟨here, later⟩ := List.forall_mem_cons.mp minds
      obtain ⟨checked, collected⟩ := check_bind_eq_ok_iff.mp collected
      exact List.forall_mem_cons.mpr ⟨here checked, ih later collected⟩

theorem Minds.read {r : RecordReader α} (h : r.Minds) : Json.Minds (r.read closed) := by
  intro room n a read
  unfold RecordReader.read at read
  split at read
  next => cases read
  next => cases read
  next inner fields ending =>
    obtain ⟨row, collected, read⟩ := bind_eq_ok_iff.mp read
    obtain ⟨closed, -⟩ := check_bind_eq_ok_iff.mp read
    exact skip_record_eq_ok_iff.mpr ⟨skip_of_collect h collected, orElse_eq_ok_iff.mp closed⟩
  next inner nodes ending =>
    obtain ⟨row, collected, read⟩ := bind_eq_ok_iff.mp read
    obtain ⟨closed, -⟩ := check_bind_eq_ok_iff.mp read
    exact skip_list_eq_ok_iff.mpr ⟨skip_of_collectItems h collected, orElse_eq_ok_iff.mp closed⟩
  next => cases read

end RecordReader

/-- Only JSON texts are read. -/
theorem exists_written_of_read {reader : Reader α} (minds : Minds reader) {text : String} {a : α}
    (found : read reader text = .ok a) : ∃ n, WrittenText n text ∧ reader maxDepth n = .ok a := by
  obtain ⟨n, trailing, scanned⟩ : ∃ n trailing, scanText text = (n, trailing) := ⟨_, _, rfl⟩
  unfold read at found
  rw [scanned] at found
  obtain ⟨b, inner, ended⟩ := bind_eq_ok_iff.mp found
  cases trailing with
  | true => cases ended
  | false =>
    cases ended
    exact ⟨n, of_scanText scanned (minds inner), inner⟩

end

end WrapperGen.Json
