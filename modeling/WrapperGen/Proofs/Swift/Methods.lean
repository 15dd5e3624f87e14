import WrapperGen.Manifest
import WrapperGen.Proofs.Swift.Checks
import WrapperGen.Proofs.Swift.Front
import WrapperGen.Proofs.Swift.Names
import WrapperGen.Proofs.Text.Pieces

namespace WrapperGen.Swift

theorem map_inj_on {α β : Type} {f : α → β} {xs ys : List α}
    (inj : ∀ x ∈ xs, ∀ y ∈ ys, f x = f y → x = y) (same : xs.map f = ys.map f) : xs = ys := by
  induction xs generalizing ys with
  | nil => exact (List.map_eq_nil_iff.mp same.symm).symm
  | cons x xs ih =>
    obtain ⟨y, ys, rfl, first, others⟩ := List.map_eq_cons_iff.mp same.symm
    have front := inj x List.mem_cons_self y List.mem_cons_self first.symm
    have back := ih (fun x mem y memY => inj x (List.mem_cons_of_mem _ mem) y
      (List.mem_cons_of_mem _ memY)) others.symm
    rw [front, back]

/-! ## Labels with commas between them -/

/-- Labels, with what stands behind the colon of each. -/
def labelled (pairs : List (String × String)) : String :=
  ", ".intercalate (pairs.map fun p => p.1 ++ ": " ++ p.2)

/-- The text has none of the marks that tell the parts of a signature apart. -/
def IsWord (text : String) : Prop := ∀ mark ∈ ['(', ')', ',', ':'], mark ∉ text.toList

def AreWords (pairs : List (String × String)) : Prop := ∀ p ∈ pairs, IsWord p.1 ∧ IsWord p.2

def labelChars (p : String × String) : List Char := p.1.toList ++ ':' :: ' ' :: p.2.toList

/-- Labels with a comma in front of each. -/
def commaChars (pairs : List (String × String)) : List Char :=
  pairs.flatMap fun p => ',' :: ' ' :: labelChars p

theorem toList_labelled_cons (p : String × String) (rest : List (String × String)) :
    (labelled (p :: rest)).toList = labelChars p ++ commaChars rest := by
  induction rest generalizing p with
  | nil => simp [labelled, labelChars, commaChars]
  | cons q rest ih =>
    have later := ih q
    rw [labelled, List.map_cons] at later ⊢
    rw [List.map_cons, String.intercalate_cons_cons, String.toList_append, later]
    simp [labelChars, commaChars]

theorem labelChars_append_inj {p q : String × String} {rest rest' : List Char}
    (hp : IsWord p.1 ∧ IsWord p.2) (hq : IsWord q.1 ∧ IsWord q.2)
    (ends : ∀ c ∈ rest.head?, c = ',') (ends' : ∀ c ∈ rest'.head?, c = ',')
    (same : labelChars p ++ rest = labelChars q ++ rest') : p = q ∧ rest = rest' := by
  simp only [labelChars, List.append_assoc, List.cons_append] at same
  obtain ⟨label, behind⟩ := cut_inj (hp.1 ':' (by decide)) (hq.1 ':' (by decide)) same
  have each : ∀ text : String, IsWord text → ∀ c ∈ text.toList, decide (c ≠ ',') = true :=
    fun text word c mem => decide_eq_true fun comma => word ',' (by decide) (comma ▸ mem)
  obtain ⟨value, others⟩ := run_inj (each p.2 hp.2) (fun c first => by simp [ends c first])
    (each q.2 hq.2) (fun c first => by simp [ends' c first]) (List.cons.inj behind).2
  exact ⟨Prod.ext (String.toList_inj.mp label) (String.toList_inj.mp value), others⟩

theorem head?_commaChars (pairs : List (String × String)) :
    ∀ c ∈ (commaChars pairs).head?, c = ',' := by
  cases pairs <;> simp [commaChars]

theorem commaChars_inj {ps qs : List (String × String)} (hp : AreWords ps) (hq : AreWords qs)
    (same : commaChars ps = commaChars qs) : ps = qs := by
  induction ps generalizing qs with
  | nil =>
    cases qs with
    | nil => rfl
    | cons q qs => cases same
  | cons p ps ih =>
    cases qs with
    | nil => cases same
    | cons q qs =>
      obtain ⟨firstP, laterP⟩ := List.forall_mem_cons.mp hp
      obtain ⟨firstQ, laterQ⟩ := List.forall_mem_cons.mp hq
      have behind : labelChars p ++ commaChars ps = labelChars q ++ commaChars qs :=
        (List.cons.inj (List.cons.inj same).2).2
      obtain ⟨rfl, others⟩ := labelChars_append_inj firstP firstQ (head?_commaChars ps)
        (head?_commaChars qs) behind
      rw [ih laterP laterQ others]

theorem labelled_inj {ps qs : List (String × String)} (hp : AreWords ps) (hq : AreWords qs)
    (same : labelled ps = labelled qs) : ps = qs := by
  have some : ∀ p rest, labelChars p ++ rest ≠ [] := by simp [labelChars]
  have texts := congrArg String.toList same
  cases ps with
  | nil =>
    cases qs with
    | nil => rfl
    | cons q qs =>
      rw [toList_labelled_cons] at texts
      exact absurd texts.symm (some q _)
  | cons p ps =>
    cases qs with
    | nil =>
      rw [toList_labelled_cons] at texts
      exact absurd texts (some p _)
    | cons q qs =>
      rw [toList_labelled_cons, toList_labelled_cons] at texts
      exact commaChars_inj hp hq (congrArg (',' :: ' ' :: ·) texts)

theorem notMem_labelled {pairs : List (String × String)} (words : AreWords pairs) :
    ')' ∉ (labelled pairs).toList := by
  have label : ∀ p, IsWord p.1 ∧ IsWord p.2 → ')' ∉ labelChars p := by
    rintro p ⟨front, back⟩
    simp [labelChars, front ')' (by decide), back ')' (by decide)]
  have others : ∀ rest, AreWords rest → ')' ∉ commaChars rest := by
    intro rest words mem
    obtain ⟨p, here, inside⟩ := List.mem_flatMap.mp mem
    simp [label p (words p here)] at inside
  cases pairs with
  | nil => simp [labelled]
  | cons p rest =>
    obtain ⟨first, later⟩ := List.forall_mem_cons.mp words
    rw [toList_labelled_cons, List.mem_append, not_or]
    exact ⟨label p first, others rest later⟩

/-! ## Methods -/

/-- A method of a wrapper: its name, its parameters with their types, and the function of the
view-model that it calls, with a value for each label of the call. -/
structure Method where
  name : String
  params : List (String × String)
  callee : String
  args : List (String × String)

namespace Method

/-- The method as it is written, with an empty line in front. -/
def text (m : Method) : String :=
  "\n    func " ++ m.name ++ "(" ++ labelled m.params ++ ") \x7b\n        viewModel." ++
    m.callee ++ "(" ++ labelled m.args ++ ")\n    \x7d\n"

/-- All its names are words. -/
structure Plain (m : Method) : Prop where
  name : IsWord m.name
  params : AreWords m.params
  callee : IsWord m.callee
  args : AreWords m.args

theorem toList_text_append (m : Method) (rest : List Char) :
    m.text.toList ++ rest = "\n    func ".toList ++ (m.name.toList ++ '(' ::
      ((labelled m.params).toList ++ ')' :: (" \x7b\n        viewModel.".toList ++
        (m.callee.toList ++ '(' :: ((labelled m.args).toList ++ ')' ::
          ("\n    \x7d\n".toList ++ rest)))))) := by
  delta text
  simp only [String.toList_append, List.append_assoc]
  rfl

theorem text_append_inj {m m' : Method} (plain : m.Plain) (plain' : m'.Plain)
    {rest rest' : List Char} (same : m.text.toList ++ rest = m'.text.toList ++ rest') :
    m = m' ∧ rest = rest' := by
  rw [toList_text_append, toList_text_append] at same
  have signature := List.append_cancel_left same
  obtain ⟨name, signature⟩ := cut_inj (plain.name '(' (by decide)) (plain'.name '(' (by decide))
    signature
  obtain ⟨params, body⟩ := cut_inj (notMem_labelled plain.params) (notMem_labelled plain'.params)
    signature
  have call := List.append_cancel_left body
  obtain ⟨callee, call⟩ := cut_inj (plain.callee '(' (by decide)) (plain'.callee '(' (by decide))
    call
  obtain ⟨args, behind⟩ := cut_inj (notMem_labelled plain.args) (notMem_labelled plain'.args) call
  have sameParams := labelled_inj plain.params plain'.params (String.toList_inj.mp params)
  have sameArgs := labelled_inj plain.args plain'.args (String.toList_inj.mp args)
  cases m
  cases m'
  cases String.toList_inj.mp name
  cases String.toList_inj.mp callee
  cases sameParams
  cases sameArgs
  exact ⟨rfl, List.append_cancel_left behind⟩

/-- Methods can be told from their text up to the bracket behind them. -/
theorem texts_inj {ms ms' : List Method} (plain : ∀ m ∈ ms, m.Plain)
    (plain' : ∀ m ∈ ms', m.Plain) {rest rest' : List Char}
    (same : ms.flatMap (·.text.toList) ++ '\x7d' :: rest =
      ms'.flatMap (·.text.toList) ++ '\x7d' :: rest') : ms = ms' := by
  have feed : ∀ (m : Method) behind, ∃ later, m.text.toList ++ behind = '\n' :: later :=
    fun m behind => ⟨_, toList_text_append m behind⟩
  induction ms generalizing ms' with
  | nil =>
    cases ms' with
    | nil => rfl
    | cons m' ms' =>
      rw [List.flatMap_cons, List.append_assoc] at same
      obtain ⟨later, starts⟩ := feed m' (ms'.flatMap (·.text.toList) ++ '\x7d' :: rest')
      rw [starts] at same
      cases same
  | cons m ms ih =>
    rw [List.flatMap_cons, List.append_assoc] at same
    cases ms' with
    | nil =>
      obtain ⟨later, starts⟩ := feed m (ms.flatMap (·.text.toList) ++ '\x7d' :: rest)
      rw [starts] at same
      cases same
    | cons m' ms' =>
      rw [List.flatMap_cons, List.append_assoc] at same
      obtain ⟨first, others⟩ := List.forall_mem_cons.mp plain
      obtain ⟨first', others'⟩ := List.forall_mem_cons.mp plain'
      obtain ⟨rfl, behind⟩ := text_append_inj first first' same
      rw [ih others others' behind]

/-- The method that hands an action on: it passes every parameter under its label. -/
def ofAction (a : ActionEntry) : Method where
  name := escape a.function
  params := a.params.map fun p => (escape p.label, p.typeName)
  callee := escape a.function
  args := a.params.map fun p => (escape p.label, escape p.label)

theorem isMark_of_mem {mark : Char} (mem : mark ∈ ['(', ')', ',', ':']) : IsMark mark := by
  simp only [List.mem_cons, List.not_mem_nil, or_false] at mem
  rcases mem with rfl | rfl | rfl | rfl <;> decide

theorem isWord_escape {name : String} (identifier : isIdentifier name = true) :
    IsWord (escape name) :=
  fun _ mem => notMem_escape identifier (isMark_of_mem mem)

theorem isWord_of_isIdentifier {name : String} (identifier : isIdentifier name = true) :
    IsWord name :=
  fun _ mem => notMem_of_isIdentifier identifier (isMark_of_mem mem).1

theorem plain_ofAction {a : ActionEntry} (writable : WritableAction a) : (ofAction a).Plain := by
  obtain ⟨function, params⟩ := writable
  refine ⟨isWord_escape function, fun p mem => ?_, isWord_escape function, fun p mem => ?_⟩
  · obtain ⟨param, here, rfl⟩ := List.mem_map.mp mem
    obtain ⟨label, bridged⟩ := params param here
    exact ⟨isWord_escape label, isWord_of_isIdentifier (isIdentifier_of_isBridged bridged)⟩
  · obtain ⟨param, here, rfl⟩ := List.mem_map.mp mem
    have label := isWord_escape (params param here).1
    exact ⟨label, label⟩

theorem ofAction_inj {a b : ActionEntry} (ha : WritableAction a) (hb : WritableAction b)
    (same : ofAction a = ofAction b) : a = b := by
  have function := escape_inj ha.1 hb.1 (congrArg name same)
  have params : a.params = b.params := by
    refine map_inj_on (fun p mem q memQ pair => ?_) (congrArg Method.params same)
    obtain ⟨label, type⟩ := Prod.mk.inj pair
    have labels := escape_inj (ha.2 p mem).1 (hb.2 q memQ).1 label
    cases p
    cases q
    cases labels
    cases type
    rfl
  cases a
  cases b
  cases function
  cases params
  rfl

end Method

/-! ## The methods of a wrapper -/

theorem toList_indented {text : String} (some : text ≠ "") (depth : Nat) :
    (SourceWriter.indented depth text).toList =
      List.replicate (4 * depth) ' ' ++ text.toList := by
  rw [SourceWriter.indented, if_neg (by simpa using some), String.toList_append,
    String.toList_ofList]

theorem signature_eq (a : ActionEntry) : signature a = labelled (Method.ofAction a).params := by
  simp [signature, labelled, Method.ofAction, Function.comp_def]

theorem arguments_eq (a : ActionEntry) : arguments a = labelled (Method.ofAction a).args := by
  simp [arguments, labelled, Method.ofAction, Function.comp_def]

theorem textOf_actionSteps (a : ActionEntry) :
    textOf (linesOf 1 (actionSteps a)) = (Method.ofAction a).text.toList := by
  let declaration := "func " ++ escape a.function ++ "(" ++ signature a ++ ") \x7b"
  let call := "viewModel." ++ escape a.function ++ "(" ++ arguments a ++ ")"
  have lines : linesOf 1 (actionSteps a) = [SourceWriter.indented 1 "",
      SourceWriter.indented 1 declaration, SourceWriter.indented 2 call,
      SourceWriter.indented 1 "\x7d"] := rfl
  have someDeclaration : declaration ≠ "" := by simp [declaration]
  have someCall : call ≠ "" := by simp [call]
  have whole := Method.toList_text_append (Method.ofAction a) []
  rw [List.append_nil] at whole
  rw [lines, whole, ← signature_eq, ← arguments_eq]
  simp only [textOf_cons, toList_indented someDeclaration, toList_indented someCall, declaration,
    call, String.toList_append, List.append_assoc]
  rfl

theorem haltOf_flatMap_actionSteps (actions : List ActionEntry) :
    haltOf (actions.flatMap actionSteps) = none := by
  induction actions with
  | nil => rfl
  | cons a rest ih =>
    rw [List.flatMap_cons, haltOf_append, ih]
    rfl

/-- The methods stand in the order of the actions. -/
theorem textOf_flatMap_actionSteps (actions : List ActionEntry) :
    textOf (linesOf 1 (actions.flatMap actionSteps)) =
      (actions.map Method.ofAction).flatMap (·.text.toList) := by
  induction actions with
  | nil => rfl
  | cons a rest ih =>
    have ended : haltOf (actionSteps a) = none := rfl
    rw [List.flatMap_cons, linesOf_append ended, textOf_append, textOf_actionSteps, ih,
      List.map_cons, List.flatMap_cons]

end WrapperGen.Swift
