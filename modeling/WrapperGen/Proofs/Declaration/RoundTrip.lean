import WrapperGen.Declaration.Text
import WrapperGen.Proofs.Json.Printing
import WrapperGen.Proofs.Json.Records
import WrapperGen.Proofs.TypeRef.Display

namespace WrapperGen

open Json RecordReader

theorem TypeRef.ofText?_display {t : TypeRef} (named : t.WellFormed) :
    ofText? t.display = some t := by
  rw [ofText?, parse_display named]

theorem TypeRef.readsBack {t : TypeRef} (named : t.WellFormed) :
    ReadsBack TypeRef.read (.text t.display) t := by
  intro room v' h _
  cases h
  show orMismatch (ofText? t.display) = _
  rw [ofText?_display named]
  rfl

theorem Kind.readsBack (k : Kind) : ReadsBack Kind.read (.text k.word) k := by
  intro room v' h _
  cases h
  cases k <;> rfl

/-! ## Members are collected first and looked at then -/

theorem Param.nameOf?_reworked {name : Option String} {v : Value}
    (h : Reworked (.optionalText name) v) : nameOf? v = some name := by
  cases name with
  | none =>
    cases h
    rfl
  | some s =>
    cases h
    rfl

theorem Param.ofValue?_reworked {p : Param} (named : p.type.WellFormed) {v : Value}
    (h : Reworked p.value v) : ofValue? v = some p := by
  obtain ⟨fields, rfl, keeps⟩ := h.exists_fields (by simp)
  have type : Value.onlyField? "type" fields = some (.text p.type.display) :=
    keeps.onlyField?_text (by simp)
  have name : ∃ found, Value.fieldOnce? "name" fields = some found ∧
      nameOf? (found.getD .null) = some p.name := by
    have mem : ("name", Value.optionalText p.name) ∈
        [("name", Value.optionalText p.name), ("type", .text p.type.display)] := by simp
    obtain ⟨v, same, found⟩ | ⟨default, gone⟩ := keeps.fieldOnce? mem
    · exact ⟨some v, found, nameOf?_reworked same⟩
    · exact ⟨none, gone, congrArg some (eq_none_of_isDefault_optionalText default).symm⟩
  obtain ⟨found, here, same⟩ := name
  simp [ofValue?, type, here, same, TypeRef.ofValue?, Value.text?, TypeRef.ofText?_display named]

theorem Param.ofValues?_reworked {params : List Param} (named : ∀ p ∈ params, p.type.WellFormed)
    {v : Value} (h : Reworked (.list (params.map Param.value)) v) : ofValues? v = some params := by
  cases h with
  | @list _ items each =>
    rw [ofValues?]
    induction params generalizing items with
    | nil =>
      cases each
      rfl
    | cons p rest ih =>
      cases each with
      | cons first others =>
        have head := ofValue?_reworked (named p List.mem_cons_self) first
        have tail := ih (fun q mem => named q (List.mem_cons_of_mem p mem)) others
        simp [head, tail]

/-- The fields of a member but its annotations. -/
def Member.fields (m : Member) : List (String × Value) :=
  ("name", .text m.name) ::
    match m.form with
    | .property type => [("kind", .text "property"), ("type", .text type.display)]
    | .function params => [("kind", .text "function"), ("params", .list (params.map Param.value))]

theorem AnnotatedMember.value_eq (m : AnnotatedMember) :
    m.value = .record (("annotations", .texts m.annotations) :: m.member.fields) := by
  unfold AnnotatedMember.value Member.fields
  cases m.member.form <;> rfl

theorem Member.ofFields?_reworked {m : Member} (named : ∀ t ∈ m.types, t.WellFormed)
    {fields : List (String × Value)} (keeps : KeepsFields m.fields fields) :
    ofFields? fields = some m := by
  obtain ⟨name, form⟩ := m
  have called : Value.onlyField? "name" fields = some (.text name) :=
    keeps.onlyField?_text List.mem_cons_self
  have shape : MemberForm.ofFields? fields = some form := by
    cases form with
    | property type =>
      have kind : Value.onlyField? "kind" fields = some (.text "property") :=
        keeps.onlyField?_text (by simp [Member.fields])
      have shown : Value.onlyField? "type" fields = some (.text type.display) :=
        keeps.onlyField?_text (by simp [Member.fields])
      have parsed := TypeRef.ofText?_display (named type (by simp [types]))
      simp [MemberForm.ofFields?, kind, MemberKind.ofValue?, shown, TypeRef.ofValue?, Value.text?,
        parsed]
    | function params =>
      have kind : Value.onlyField? "kind" fields = some (.text "function") :=
        keeps.onlyField?_text (by simp [Member.fields])
      have inner : ∀ p ∈ params, p.type.WellFormed := fun p mem =>
        named p.type (List.mem_map_of_mem mem)
      have mem : ("params", Value.list (params.map Param.value)) ∈
          (Member.mk name (.function params)).fields := by simp [Member.fields]
      obtain ⟨v, same, found⟩ | ⟨default, gone⟩ := keeps.fieldOnce? mem
      · simp [MemberForm.ofFields?, kind, MemberKind.ofValue?, found,
          Param.ofValues?_reworked inner same]
      · simp [MemberForm.ofFields?, kind, MemberKind.ofValue?, gone,
          eq_nil_of_isDefault_list default]
  simp [ofFields?, called, Value.text?, shape]

namespace AnnotatedMember

theorem collect_of_none {room : Nat} {fields : List (String × Value)}
    (within : FieldsWithin room fields) (gone : fields.filter (·.1 == "annotations") = [])
    (annotations : Option (List String)) :
    collect room annotations (fieldNodes fields) = .ok (annotations, fields) := by
  induction fields with
  | nil => rfl
  | cons field rest ih =>
    obtain ⟨name, v⟩ := field
    obtain ⟨other, others⟩ := List.forall_mem_cons.mp (List.filter_eq_nil_iff.mp gone)
    have later := ih within.2 (List.filter_eq_nil_iff.mpr others)
    simp only [beq_iff_eq] at other
    simp [fieldNodes, collect, Key.read, Quoted.read, other, value_node v within.1, later, bind,
      Except.bind, pure, Except.pure]

/-- The annotations may stand anywhere among the fields; the others keep their order. -/
theorem collect_of_one {room : Nat} {fields : List (String × Value)}
    (within : FieldsWithin room fields) {v : Value} {annotations : List String}
    (one : fields.filter (·.1 == "annotations") = [("annotations", v)])
    (found : readList readText room v.node = .ok annotations) :
    collect room none (fieldNodes fields) =
      .ok (some annotations, fields.filter (·.1 != "annotations")) := by
  induction fields with
  | nil => cases one
  | cons field rest ih =>
    obtain ⟨name, w⟩ := field
    by_cases here : name = "annotations"
    · subst here
      rw [List.filter_cons_of_pos (by simp)] at one
      obtain ⟨same, gone⟩ := List.cons.inj one
      cases same
      rw [List.filter_cons_of_neg (by simp), filter_ne_eq_self gone]
      simp [fieldNodes, collect, Key.read, Quoted.read, found, collect_of_none within.2 gone, bind,
        Except.bind]
    · rw [List.filter_cons_of_neg (by simpa using here)] at one
      rw [List.filter_cons_of_pos (by simpa using here)]
      simp [fieldNodes, collect, Key.read, Quoted.read, here, value_node w within.1,
        ih within.2 one, bind, Except.bind, pure, Except.pure]

/-- A member is read wherever its annotations and its kind stand among its fields. -/
theorem readsBack {m : AnnotatedMember} (named : ∀ t ∈ m.member.types, t.WellFormed) :
    ReadsBack AnnotatedMember.read m.value m := by
  intro room v h within
  have distinct : ((("annotations", Value.texts m.annotations) :: m.member.fields).map
      Prod.fst).Nodup := by
    unfold Member.fields
    cases m.member.form <;> simp
  rw [value_eq] at h
  obtain ⟨fields, rfl, keeps⟩ := h.exists_fields distinct
  obtain ⟨room, rfl⟩ := Nat.exists_eq_add_one.mpr within.1
  have inner : FieldsWithin room fields := within.2
  have whole := Member.ofFields?_reworked named
    (keeps.of_cons (List.nodup_cons.mp distinct).1)
  have collected : ∃ found, collect room none (fieldNodes fields) =
      .ok (found, fields.filter (·.1 != "annotations")) ∧ found.getD [] = m.annotations := by
    obtain ⟨v, same, one⟩ | ⟨default, gone⟩ := keeps "annotations" _ List.mem_cons_self
    · have found := readsBack_list (fun s _ => readsBack_text s) room v same
        (within_of_filter inner one)
      exact ⟨some m.annotations, collect_of_one inner one found, rfl⟩
    · refine ⟨none, ?_, (eq_nil_of_isDefault_list default).symm⟩
      rw [filter_ne_eq_self gone]
      exact collect_of_none inner gone none
  obtain ⟨found, collected, same⟩ := collected
  simp [Value.node, read, collected, same, whole, orElse, orMismatch, bind, Except.bind, pure,
    Except.pure]

end AnnotatedMember

/-! ## Declarations -/

namespace Declaration

/-- All types in the declaration are well formed. -/
def WellFormed (d : Declaration) : Prop := ∀ t ∈ d.types, t.WellFormed

theorem readsBack {d : Declaration} (named : d.WellFormed) :
    ReadsBack Declaration.read d.value d := by
  have annotations : ∀ s ∈ d.annotations, ReadsBack readText (.text s) s :=
    fun s _ => readsBack_text s
  have supertypes : ∀ t ∈ d.supertypes, ReadsBack TypeRef.read (.text t.display) t :=
    fun t mem => TypeRef.readsBack (named t (List.mem_append_left _ mem))
  have members : ∀ m ∈ d.members, ReadsBack AnnotatedMember.read m.value m :=
    fun m mem => AnnotatedMember.readsBack fun t inside =>
      named t (List.mem_append_right _ (List.mem_flatMap.mpr ⟨m, mem, inside⟩))
  refine (Rebuilds.seq (.seq (.seq (.seq (.seq (.seq (.map Declaration.mk ?_) ?_) ?_) ?_) ?_) ?_)
    ?_).readsBack (by simp)
  · exact rebuilds_fieldOr (by simp) eq_none_of_isDefault_optionalText (readsBack_optionalText d.id)
  · exact rebuilds_field (by simp) (not_isDefault_text _) d.kind.readsBack
  · exact rebuilds_fieldOr (by simp) eq_none_of_isDefault_optionalText
      (readsBack_optionalText d.qualifiedName)
  · exact rebuilds_text (by simp)
  · exact rebuilds_list (by simp [Value.texts]) annotations
  · exact rebuilds_list (by simp [Value.texts]) supertypes
  · exact rebuilds_list (by simp) members

theorem hasDigits_value (d : Declaration) : d.value.HasDigits := by
  have optional : ∀ s : Option String, (Value.optionalText s).HasDigits := by
    intro s
    cases s <;> exact trivial
  have params : ∀ p : Param, p.value.HasDigits := by
    simp [Param.value, Value.HasDigits, FieldsHaveDigits, optional]
  have members : ∀ m : AnnotatedMember, m.value.HasDigits := by
    intro m
    rw [AnnotatedMember.value_eq]
    unfold Member.fields
    cases m.member.form <;>
      simp [Value.texts, Value.HasDigits, FieldsHaveDigits, itemsHaveDigits_map, params]
  simp [value, Value.texts, Value.HasDigits, FieldsHaveDigits, itemsHaveDigits_map, optional,
    members, - List.map_map]

theorem within_value (d : Declaration) : d.value.Within maxDepth := by
  have optional : ∀ room (s : Option String), (Value.optionalText s).Within room := by
    intro room s
    cases s <;> exact trivial
  have params : ∀ p : Param, p.value.Within 123 := by
    simp [Param.value, Value.Within, FieldsWithin, optional]
  have members : ∀ m : AnnotatedMember, m.value.Within 125 := by
    intro m
    rw [AnnotatedMember.value_eq]
    unfold Member.fields
    cases m.member.form <;>
      simp [Value.texts, Value.Within, FieldsWithin, itemsWithin_map, params]
  simp [value, Value.texts, Value.Within, FieldsWithin, itemsWithin_map, maxDepth, optional,
    members, - List.map_map]

/-- The text says what the dump form of the declaration says: spaces are anywhere between its
parts, texts are escaped in any way, the fields of each record stand in any order, those with a
default may be left out, and others stand among them. -/
def IsDumped (d : Declaration) (text : String) : Prop :=
  ∃ v chars before behind, Reworked d.value v ∧ v.Within maxDepth ∧ Spelled v chars ∧
    IsSpaces before ∧ IsSpaces behind ∧ text = String.ofList (before ++ (chars ++ behind))

theorem isDumped_text (d : Declaration) : d.IsDumped d.text :=
  ⟨d.value, d.value.chars, [], [], reworked_self _, d.within_value,
    spelled_chars _ d.hasDigits_value, isSpaces_nil, isSpaces_nil, by simp [text, Value.compact]⟩

/-- Every declaration comes back from its dump form and from each text that says the same. -/
theorem read_dumped {d : Declaration} (named : d.WellFormed) :
    Json.read Declaration.read d.text = .ok d ∧
      ∀ text, d.IsDumped text → Json.read Declaration.read text = .ok d := by
  have each : ∀ text, d.IsDumped text → Json.read Declaration.read text = .ok d := by
    rintro text ⟨v, chars, before, behind, reworked, within, spelled, front, back, rfl⟩
    rw [read_spelled Declaration.read front spelled back]
    exact readsBack named maxDepth v reworked within
  exact ⟨each d.text d.isDumped_text, each⟩

/-- All fields stand in the opposite order, what may be left out is left out, and the member has a
field more. -/
theorem backward_dump_read :
    let text := "\x7b\"members\":[\x7b\"new\":[-1e2,null]," ++
      "\"params\":[\x7b\"type\":\"Map<out?, *>\"\x7d],\"kind\":\"function\",\"name\":\"f\"\x7d]," ++
      "\"simpleName\":\"B\",\"qualifiedName\":\"a.B\",\"kind\":\"class\"\x7d"
    let param : Param := ⟨none, .mk "Map" [.type (.mk "out" [] true), .star] false⟩
    let member : AnnotatedMember := ⟨[], ⟨"f", .function [param]⟩⟩
    let d : Declaration := ⟨none, .classType, some "a.B", "B", [], [], [member]⟩
    d.WellFormed ∧ d.IsDumped text ∧ Json.read Declaration.read text = .ok d := by
  intro text param member d
  have named : d.WellFormed := by
    have names : param.type.names = ["Map", "out"] := by
      simp [param, TypeRef.names, TypeRef.walk, TypeRef.walkArgs, TypeRef.name]
    intro t mem name inside
    obtain rfl := List.mem_singleton.mp mem
    rw [names] at inside
    simp only [List.mem_cons, List.not_mem_nil, or_false] at inside
    obtain rfl | rfl := inside <;> decide
  have dumped : d.IsDumped text := by
    let type : List (String × Value) := [("type", .text "Map<out?, *>")]
    have typeKept : FieldsReworked [("name", .null), ("type", .text param.type.display)] type :=
      .leave (.inl rfl) (.keep (.text _) .nil)
    have params : List.Forall₂ Reworked [param.value] [.record type] :=
      .cons (.record typeKept (by simp) (List.Perm.refl (type ++ []))) .nil
    let new : String × Value := ("new", .list [.number ⟨true, 1, [], some 2⟩, .null])
    let inner : List (String × Value) :=
      [("name", .text "f"), ("kind", .text "function"), ("params", .list [.record type])]
    have innerKept : FieldsReworked (("annotations", .texts []) :: member.member.fields) inner :=
      .leave (.inr rfl) (.keep (.text _) (.keep (.text _) (.keep (.list params) .nil)))
    have members : List.Forall₂ Reworked [member.value] [.record (inner ++ [new]).reverse] :=
      .cons (.record innerKept (by simp [new, member]) (List.reverse_perm _)) .nil
    let outer : List (String × Value) := [("kind", .text "class"), ("qualifiedName", .text "a.B"),
      ("simpleName", .text "B"), ("members", .list [.record (inner ++ [new]).reverse])]
    have reworked : Reworked d.value (.record (outer ++ []).reverse) := by
      refine .record ?_ (by simp) (List.reverse_perm (outer ++ []))
      exact .leave (.inl rfl) (.keep (.text _) (.keep (.text _) (.keep (.text _)
        (.leave (.inr rfl) (.leave (.inr rfl) (.keep (.list members) .nil))))))
    have finite : (Number.mk true 1 [] (some 2)).isFinite = true := by decide +kernel
    refine ⟨_, _, [], [], reworked, ?_, spelled_chars _ ?_, isSpaces_nil, isSpaces_nil, ?_⟩
    · simp [outer, inner, new, type, Value.Within, FieldsWithin, ItemsWithin, maxDepth, finite]
    · simp [outer, inner, new, type, Value.HasDigits, FieldsHaveDigits, ItemsHaveDigits]
    · decide +kernel
  exact ⟨named, dumped, (read_dumped named).2 text dumped⟩

end Declaration

end WrapperGen
