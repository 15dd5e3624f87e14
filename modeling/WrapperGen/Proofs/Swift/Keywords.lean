import WrapperGen.Proofs.Swift.Readback

namespace WrapperGen.Swift

variable {c : GeneratorConfig} {e : Entry} {typeName source name : String} {usage : Usage}

/-! ## The words of a text -/

/-- The words of a text are its longest runs of characters that names are written with. -/
def wordsOf (text : List Char) : List (List Char) :=
  (text.splitOnP (IsMark ·)).filter (· ≠ [])

def IsOneWord (text : String) : Prop := text ≠ "" ∧ ∀ c ∈ text.toList, ¬IsMark c

theorem wordsOf_append_cons (text rest : List Char) {mark : Char} (isMark : IsMark mark) :
    wordsOf (text ++ mark :: rest) = wordsOf text ++ wordsOf rest := by
  have pieces := List.splitOnP_append_cons (p := fun c => decide (IsMark c)) text rest
    (decide_eq_true isMark)
  rw [wordsOf, pieces, List.filter_append]
  rfl

theorem wordsOf_cons {mark : Char} (isMark : IsMark mark) (rest : List Char) :
    wordsOf (mark :: rest) = wordsOf rest :=
  wordsOf_append_cons [] rest isMark

theorem IsOneWord.wordsOf_eq {text : String} (word : IsOneWord text) :
    wordsOf text.toList = [text.toList] := by
  have whole := List.splitOnP_eq_singleton fun c mem => decide_eq_false (word.2 c mem)
  have some : text.toList ≠ [] := by simpa using word.1
  rw [wordsOf, whole]
  simp [some]

theorem wordsOf_append_of_endsWith {text : String} (ends : EndsWith IsMark text)
    (rest : List Char) : wordsOf (text.toList ++ rest) = wordsOf text.toList ++ wordsOf rest := by
  obtain ⟨mark, last, isMark⟩ := ends
  obtain ⟨front, whole⟩ := List.getLast?_eq_some_iff.mp last
  have alone := wordsOf_append_cons front [] isMark
  rw [whole, alone, List.append_assoc, List.singleton_append, wordsOf_append_cons _ _ isMark]
  simp [wordsOf]

theorem wordsOf_append_of_startsWith {text : String} (starts : StartsWith IsMark text)
    (front rest : List Char) :
    wordsOf (front ++ (text.toList ++ rest)) = wordsOf front ++ wordsOf (text.toList ++ rest) := by
  obtain ⟨mark, first, isMark⟩ := starts
  obtain ⟨behind, whole⟩ := List.head?_eq_some_iff.mp first
  rw [whole, List.cons_append, wordsOf_append_cons _ _ isMark, wordsOf_cons isMark]

theorem isOneWord_of_isIdentifier (identifier : isIdentifier name = true) : IsOneWord name :=
  ⟨ne_empty_of_isIdentifier identifier,
    fun _ mem isMark => notMem_of_isIdentifier identifier isMark.1 mem⟩

theorem isOneWord_escape (identifier : isIdentifier name = true) : IsOneWord (escape name) := by
  refine ⟨?_, fun _ mem isMark => notMem_escape identifier isMark mem⟩
  unfold escape
  split
  · simp
  · exact ne_empty_of_isIdentifier identifier

/-! ## The parts of a class -/

/-- Names of classes and types are written as they are. -/
def Usage.isBare : Usage → Bool
  | .wrapperName | .simpleName | .stateType _ | .paramType _ _ => true
  | .stateProperty | .action | .paramLabel _ => false

/-- How a name is written in a place of its own. -/
def Usage.written (usage : Usage) (name : String) : String :=
  bif usage.isBare then name else escape name

/-- A part of the text of a class: text that no name from the entry has a share in, the variable for
the subscription to a property, or a name in a place of its own. -/
inductive Part where
  | code (text : String)
  | subscription (property : String)
  | place (usage : Usage) (name : String)
  deriving DecidableEq

def Part.text : Part → String
  | .code text => text
  | .subscription property => property ++ "Subscription"
  | .place usage name => usage.written name

/-- Each name is a word of its own. -/
def Part.words : Part → List (List Char)
  | .code text => wordsOf text.toList
  | part => [part.text.toList]

def partsText (parts : List Part) : List Char := parts.flatMap (·.text.toList)

/-- Parts of which no two are words side by side: behind each word stands text with a mark at both
ends. -/
inductive Spelled : List Part → Prop
  | nil : Spelled []
  | code {text : String} {rest : List Part} (ends : EndsWith IsMark text)
    (later : Spelled rest) : Spelled (.code text :: rest)
  | word {part : Part} {text : String} {rest : List Part} (word : IsOneWord part.text)
    (starts : StartsWith IsMark text) (ends : EndsWith IsMark text) (later : Spelled rest) :
    Spelled (part :: .code text :: rest)

theorem Part.wordsOf_text {part : Part} (word : IsOneWord part.text) :
    wordsOf part.text.toList = part.words := by
  cases part with
  | code text => rfl
  | subscription property => exact word.wordsOf_eq
  | place usage name => exact word.wordsOf_eq

namespace Spelled

variable {parts later : List Part}

theorem append (spelled : Spelled parts) (behind : Spelled later) : Spelled (parts ++ later) := by
  induction spelled with
  | nil => exact behind
  | code ends _ ih => exact .code ends ih
  | word word starts ends _ ih => exact .word word starts ends ih

/-- The words of spelled parts are those of each. -/
theorem wordsOf_partsText (spelled : Spelled parts) :
    wordsOf (partsText parts) = parts.flatMap Part.words := by
  induction spelled with
  | nil => simp [partsText, wordsOf]
  | @code text rest ends later ih =>
    rw [partsText, List.flatMap_cons, List.flatMap_cons, ← ih]
    exact wordsOf_append_of_endsWith ends _
  | @word part text rest word starts ends later ih =>
    -- The word ends where the text behind it starts, and that text ends before the rest.
    rw [partsText, List.flatMap_cons, List.flatMap_cons, List.flatMap_cons, List.flatMap_cons,
      ← ih, ← Part.wordsOf_text word]
    have behind := wordsOf_append_of_endsWith ends (partsText rest)
    exact (wordsOf_append_of_startsWith starts _ _).trans (congrArg _ behind)

end Spelled

theorem partsText_cons (part : Part) (rest : List Part) :
    partsText (part :: rest) = part.text.toList ++ partsText rest :=
  List.flatMap_cons

theorem partsText_append (parts later : List Part) :
    partsText (parts ++ later) = partsText parts ++ partsText later :=
  List.flatMap_append

/-- The parts for each parameter with commas between them. -/
def commaParts (first second : ParamEntry → Part) (params : List ParamEntry) : List Part :=
  [Part.code ", "].intercalate (params.map fun p => [first p, .code ": ", second p])

def stateParts (c : GeneratorConfig) : Option StateEntry → List Part
  | none => []
  | some s =>
    [.code "    private var ", .subscription s.property,
      .code (": " ++ c.subscriptionType ++ "?\n\n    @Published private(set) var "),
      .place .stateProperty s.property, .code ": ", .place (.stateType s.property) s.typeName,
      .code "\n"]

def subscribeParts (c : GeneratorConfig) : Option StateEntry → List Part
  | none => []
  | some s =>
    [.code "        self.", .place .stateProperty s.property, .code " = viewModel.",
      .place .stateProperty s.property, .code ".value as! ",
      .place (.stateType s.property) s.typeName, .code "\n        self.", .subscription s.property,
      .code " = viewModel.", .place .stateProperty s.property,
      .code ("." ++ c.subscribeMethod ++ " \x7b [weak self] value in\n" ++
        "            DispatchQueue.main.async \x7b\n                self?."),
      .place .stateProperty s.property, .code " = value as! ",
      .place (.stateType s.property) s.typeName, .code "\n            \x7d\n        \x7d\n"]

def deinitParts (c : GeneratorConfig) : Option StateEntry → List Part
  | none => []
  | some s =>
    [.code "\n    deinit \x7b\n        ", .subscription s.property,
      .code ("?." ++ c.closeMethod ++ "()\n    \x7d\n")]

def actionParts (a : ActionEntry) : List Part :=
  let label p := Part.place (.paramLabel a.function) p.label
  [.code "\n    func ", .place .action a.function, .code "("] ++
    commaParts label (fun p => .place (.paramType p.label a.function) p.typeName) a.params ++
    [.code ") \x7b\n        viewModel.", .place .action a.function, .code "("] ++
    commaParts label label a.params ++ [.code ")\n    \x7d\n"]

/-- The parts of the text of a class. -/
def classParts (c : GeneratorConfig) (e : Entry) (typeName : String) : List Part :=
  [.code "@MainActor\nfinal class ", .place .wrapperName typeName,
      .code ": ObservableObject \x7b\n    private let viewModel: ", .place .simpleName e.simpleName,
      .code "\n"] ++
    stateParts c e.state ++
    [.code "\n    init(_ viewModel: ", .place .simpleName e.simpleName,
      .code ") \x7b\n        self.viewModel = viewModel\n"] ++
    subscribeParts c e.state ++ [.code "    \x7d\n"] ++ deinitParts c e.state ++
    e.actions.flatMap actionParts ++ [.code "\x7d\n"]

theorem commaParts_cons_cons (first second : ParamEntry → Part) (p q : ParamEntry)
    (rest : List ParamEntry) : commaParts first second (p :: q :: rest) =
      [first p, .code ": ", second p, .code ", "] ++ commaParts first second (q :: rest) := by
  simp [commaParts, List.intercalate_cons_cons]

/-! ### Their text -/

theorem partsText_commaParts (first second : ParamEntry → Part) (params : List ParamEntry) :
    partsText (commaParts first second params) = (", ".intercalate
      (params.map fun p => (first p).text ++ ": " ++ (second p).text)).toList := by
  induction params with
  | nil => rfl
  | cons p rest ih =>
    cases rest with
    | nil => simp [commaParts, partsText, Part.text]
    | cons q rest =>
      rw [commaParts_cons_cons, partsText_append, ih]
      simp [partsText, Part.text, String.intercalate_cons_cons]

theorem textOf_stateSteps (c : GeneratorConfig) (state : Option StateEntry) :
    textOf (linesOf 1 (stateSteps c state)) = partsText (stateParts c state) := by
  cases state with
  | none => rfl
  | some s =>
    rw [textOf_stateSteps_some]
    simp [stateText, stateParts, partsText, Part.text, Usage.written, Usage.isBare]

set_option maxRecDepth 1000 in
theorem textOf_subscribeSteps (c : GeneratorConfig) (state : Option StateEntry) :
    textOf (linesOf 2 (subscribeSteps c state)) = partsText (subscribeParts c state) := by
  cases state with
  | none => rfl
  | some s =>
    let first := "self." ++ escape s.property ++ " = viewModel." ++ escape s.property ++
      ".value as! " ++ s.typeName
    let subscribed := "self." ++ s.property ++ "Subscription = viewModel." ++ escape s.property ++
      "." ++ c.subscribeMethod ++ " \x7b [weak self] value in"
    let next := "self?." ++ escape s.property ++ " = value as! " ++ s.typeName
    have lines : linesOf 2 (subscribeSteps c (some s)) = [SourceWriter.indented 2 first,
        SourceWriter.indented 2 subscribed,
        SourceWriter.indented 3 "DispatchQueue.main.async \x7b", SourceWriter.indented 4 next,
        SourceWriter.indented 3 "\x7d", SourceWriter.indented 2 "\x7d"] := rfl
    rw [lines]
    simp [textOf, toList_indented, first, subscribed, next, subscribeParts, partsText, Part.text,
      Usage.written, Usage.isBare]

theorem textOf_initSteps (c : GeneratorConfig) (e : Entry) :
    textOf (linesOf 1 (.line "" :: initSteps c e)) =
      partsText ([.code "\n    init(_ viewModel: ", .place .simpleName e.simpleName,
        .code ") \x7b\n        self.viewModel = viewModel\n"] ++ subscribeParts c e.state ++
        [.code "    \x7d\n"]) := by
  let declaration := "init(_ viewModel: " ++ e.simpleName ++ ") \x7b"
  have ended : haltOf (subscribeSteps c e.state) = none := by cases e.state <;> rfl
  have lines : linesOf 1 (.line "" :: initSteps c e) = SourceWriter.indented 1 "" ::
      SourceWriter.indented 1 declaration :: SourceWriter.indented 2 "self.viewModel = viewModel" ::
      (linesOf 2 (subscribeSteps c e.state) ++ [SourceWriter.indented 1 "\x7d"]) := by
    simp [initSteps, linesOf, Step.linesAt, Step.halt?, haltOf, ended, declaration]
  have someDeclaration : declaration ≠ "" := by simp [declaration]
  rw [lines]
  simp only [textOf_cons, textOf_append, toList_indented someDeclaration, textOf_subscribeSteps,
    partsText_append, partsText_cons, Part.text, Usage.written, declaration, String.toList_append,
    List.append_assoc]
  simp [partsText, textOf, SourceWriter.indented, Usage.isBare]

theorem textOf_deinitSteps (c : GeneratorConfig) (state : Option StateEntry) :
    textOf (linesOf 1 (deinitSteps c state)) = partsText (deinitParts c state) := by
  cases state with
  | none => rfl
  | some s =>
    let call := s.property ++ "Subscription?." ++ c.closeMethod ++ "()"
    have lines : linesOf 1 (deinitSteps c (some s)) = [SourceWriter.indented 1 "",
        SourceWriter.indented 1 "deinit \x7b", SourceWriter.indented 2 call,
        SourceWriter.indented 1 "\x7d"] := rfl
    rw [lines]
    simp [textOf, SourceWriter.indented, call, deinitParts, partsText, Part.text]

theorem textOf_actionParts (a : ActionEntry) :
    textOf (linesOf 1 (actionSteps a)) = partsText (actionParts a) := by
  have whole := Method.toList_text_append (Method.ofAction a) []
  rw [List.append_nil, ← signature_eq, ← arguments_eq] at whole
  rw [textOf_actionSteps, whole]
  simp only [actionParts, partsText_append, partsText_commaParts, partsText_cons, Part.text,
    Usage.written, List.append_assoc]
  rfl

theorem textOf_actions (actions : List ActionEntry) :
    textOf (linesOf 1 (actions.flatMap actionSteps)) = partsText (actions.flatMap actionParts) := by
  induction actions with
  | nil => rfl
  | cons a rest ih =>
    have ended : haltOf (actionSteps a) = none := rfl
    rw [List.flatMap_cons, List.flatMap_cons, linesOf_append ended, textOf_append, partsText_append,
      textOf_actionParts, ih]

/-- The text of a class is that of its parts. -/
theorem textOf_classSteps (c : GeneratorConfig) (e : Entry) (typeName : String) :
    textOf (linesOf 0 (classSteps c e typeName)) = partsText (classParts c e typeName) := by
  let declaration := "final class " ++ typeName ++ ": ObservableObject \x7b"
  let owned := "private let viewModel: " ++ e.simpleName
  let body := .line owned :: (stateSteps c e.state ++ ((.line "" :: initSteps c e) ++
    (deinitSteps c e.state ++ e.actions.flatMap actionSteps)))
  -- The steps of the class with their appends nested to the right, as `linesOf_append` takes them.
  have sorted : classSteps c e typeName =
      [.line "@MainActor", .line declaration, .indent body, .line "\x7d"] := by
    simp [classSteps, body, declaration, owned]
  have initEnded : haltOf (.line "" :: initSteps c e) = none := haltOf_initSteps c e
  have ended : haltOf body = none := by
    simp [body, haltOf_append, haltOf, Step.halt?, haltOf_stateSteps, haltOf_initSteps,
      haltOf_deinitSteps, haltOf_flatMap_actionSteps]
  have inside : linesOf 1 body = SourceWriter.indented 1 owned ::
      (linesOf 1 (stateSteps c e.state) ++ (linesOf 1 (.line "" :: initSteps c e) ++
        (linesOf 1 (deinitSteps c e.state) ++ linesOf 1 (e.actions.flatMap actionSteps)))) := by
    rw [← linesOf_append (haltOf_deinitSteps c e.state), ← linesOf_append initEnded,
      ← linesOf_append (haltOf_stateSteps c e.state)]
    rfl
  have lines : linesOf 0 (classSteps c e typeName) =
      "@MainActor" :: declaration :: (linesOf 1 body ++ ["\x7d"]) := by
    rw [sorted]
    simp [linesOf, Step.linesAt, Step.halt?, ended, SourceWriter.indented_zero]
  have someOwned : owned ≠ "" := by simp [owned]
  rw [lines, inside]
  simp only [textOf_cons, textOf_append, toList_indented someOwned, textOf_stateSteps,
    textOf_initSteps, textOf_deinitSteps, textOf_actions, classParts, partsText_append,
    partsText_cons, Part.text, Usage.written, declaration, owned, String.toList_append,
    List.append_assoc, List.cons_append]
  simp [partsText, textOf, Usage.isBare]

/-! ### Their words -/

theorem spelled_commaParts {first second : ParamEntry → Part} {params : List ParamEntry}
    (words : ∀ p ∈ params, IsOneWord (first p).text ∧ IsOneWord (second p).text) {text : String}
    (starts : StartsWith IsMark text) (ends : EndsWith IsMark text) {rest : List Part}
    (later : Spelled rest) : Spelled (commaParts first second params ++ .code text :: rest) := by
  have colon : StartsWith IsMark ": " ∧ EndsWith IsMark ": " := by decide
  have comma : StartsWith IsMark ", " ∧ EndsWith IsMark ", " := by decide
  induction params with
  | nil => exact .code ends later
  | cons p params ih =>
    obtain ⟨⟨front, back⟩, others⟩ := List.forall_mem_cons.mp words
    cases params with
    | nil => exact .word front colon.1 colon.2 (.word back starts ends later)
    | cons q params =>
      rw [commaParts_cons_cons, List.append_assoc]
      exact .word front colon.1 colon.2 (.word back comma.1 comma.2 (ih others))

theorem isOneWord_subscription {property : String} (identifier : isIdentifier property = true) :
    IsOneWord (Part.subscription property).text := by
  have suffix : isIdentifier "Subscription" = true := by decide
  refine ⟨by simp [Part.text], fun c mem isMark => ?_⟩
  rw [Part.text, String.toList_append, List.mem_append] at mem
  obtain front | back := mem
  · exact notMem_of_isIdentifier identifier isMark.1 front
  · exact notMem_of_isIdentifier suffix isMark.1 back

theorem spelled_stateParts {state : Option StateEntry} (writable : ∀ s ∈ state, WritableState s) :
    Spelled (stateParts c state) := by
  cases state with
  | none => exact .nil
  | some s =>
    obtain ⟨property, bridged⟩ := writable s rfl
    have type := isIdentifier_of_isBridged bridged
    exact .code (by decide) (.word (isOneWord_subscription property)
      (.append (.append (by decide) _) _) (.append (by decide) _)
      (.word (isOneWord_escape property) (by decide) (by decide)
        (.word (isOneWord_of_isIdentifier type) (by decide) (by decide) .nil)))

theorem spelled_subscribeParts {state : Option StateEntry}
    (writable : ∀ s ∈ state, WritableState s) : Spelled (subscribeParts c state) := by
  cases state with
  | none => exact .nil
  | some s =>
    obtain ⟨property, bridged⟩ := writable s rfl
    have shown : IsOneWord (Part.place .stateProperty s.property).text := isOneWord_escape property
    have type : IsOneWord (Part.place (.stateType s.property) s.typeName).text :=
      isOneWord_of_isIdentifier (isIdentifier_of_isBridged bridged)
    exact .code (by decide) (.word shown (by decide) (by decide)
      (.word shown (by decide) (by decide) (.word type (by decide) (by decide)
        (.word (isOneWord_subscription property) (by decide) (by decide)
          (.word shown (.append (.append (.append (by decide) _) _) _) (.append (by decide) _)
            (.word shown (by decide) (by decide) (.word type (by decide) (by decide) .nil)))))))

theorem spelled_deinitParts {state : Option StateEntry}
    (writable : ∀ s ∈ state, WritableState s) : Spelled (deinitParts c state) := by
  cases state with
  | none => exact .nil
  | some s =>
    obtain ⟨property, -⟩ := writable s rfl
    exact .code (by decide) (.word (isOneWord_subscription property)
      (.append (.append (by decide) _) _) (.append (by decide) _) .nil)

theorem spelled_actionParts {a : ActionEntry} (writable : WritableAction a) :
    Spelled (actionParts a) := by
  obtain ⟨function, params⟩ := writable
  have called : IsOneWord (Part.place .action a.function).text := isOneWord_escape function
  have label : ∀ p ∈ a.params, IsOneWord (Part.place (.paramLabel a.function) p.label).text :=
    fun p mem => isOneWord_escape (params p mem).1
  have type : ∀ p ∈ a.params,
      IsOneWord (Part.place (.paramType p.label a.function) p.typeName).text :=
    fun p mem => isOneWord_of_isIdentifier (isIdentifier_of_isBridged (params p mem).2)
  simp only [actionParts, List.append_assoc, List.cons_append, List.nil_append]
  refine .code (by decide) (.word called (by decide) (by decide) ?_)
  refine spelled_commaParts (fun p mem => ⟨label p mem, type p mem⟩) (by decide) (by decide) ?_
  refine .word called (by decide) (by decide) ?_
  exact spelled_commaParts (fun p mem => ⟨label p mem, label p mem⟩) (by decide) (by decide) .nil

theorem spelled_flatMap_actionParts {actions : List ActionEntry}
    (writable : ∀ a ∈ actions, WritableAction a) : Spelled (actions.flatMap actionParts) := by
  induction actions with
  | nil => exact .nil
  | cons a rest ih =>
    obtain ⟨first, others⟩ := List.forall_mem_cons.mp writable
    exact (spelled_actionParts first).append (ih others)

theorem spelled_classParts (writable : Writable typeName e) :
    Spelled (classParts c e typeName) := by
  have simple : IsOneWord (Part.place .simpleName e.simpleName).text :=
    isOneWord_of_isIdentifier writable.simple
  have wrapper : IsOneWord (Part.place .wrapperName typeName).text :=
    isOneWord_of_isIdentifier writable.wrapper
  have declaration : Spelled [.code "@MainActor\nfinal class ", .place .wrapperName typeName,
      .code ": ObservableObject \x7b\n    private let viewModel: ",
      .place .simpleName e.simpleName, .code "\n"] :=
    .code (by decide) (.word wrapper (by decide) (by decide)
      (.word simple (by decide) (by decide) .nil))
  have init : Spelled [.code "\n    init(_ viewModel: ", .place .simpleName e.simpleName,
      .code ") \x7b\n        self.viewModel = viewModel\n"] :=
    .code (by decide) (.word simple (by decide) (by decide) .nil)
  exact ((((((declaration.append (spelled_stateParts writable.state)).append init).append
    (spelled_subscribeParts writable.state)).append (.code (by decide) .nil)).append
      (spelled_deinitParts writable.state)).append
        (spelled_flatMap_actionParts writable.actions)).append (.code (by decide) .nil)

/-! ### Their names -/

/-- The name has that use in a state. -/
inductive NamesState (s : StateEntry) : Usage → String → Prop
  | property : NamesState s .stateProperty s.property
  | type : NamesState s (.stateType s.property) s.typeName

inductive NamesAction (a : ActionEntry) : Usage → String → Prop
  | function : NamesAction a .action a.function
  | label {p : ParamEntry} (passed : p ∈ a.params) : NamesAction a (.paramLabel a.function) p.label
  | type {p : ParamEntry} (passed : p ∈ a.params) :
    NamesAction a (.paramType p.label a.function) p.typeName

/-- The name has that use in the wrapper of an entry. -/
inductive Names (e : Entry) (typeName : String) : Usage → String → Prop
  | wrapper : Names e typeName .wrapperName typeName
  | simple : Names e typeName .simpleName e.simpleName
  | state {s : StateEntry} {usage : Usage} {name : String} (shown : s ∈ e.state)
    (names : NamesState s usage name) : Names e typeName usage name
  | action {a : ActionEntry} {usage : Usage} {name : String} (called : a ∈ e.actions)
    (names : NamesAction a usage name) : Names e typeName usage name

theorem place_mem_stateParts {state : Option StateEntry} :
    .place usage name ∈ stateParts c state ↔ ∃ s ∈ state, NamesState s usage name := by
  cases state with
  | none => simp [stateParts]
  | some s =>
    simp only [stateParts, List.mem_cons, Part.place.injEq, List.not_mem_nil, reduceCtorEq,
      or_false, false_or, Option.mem_some, exists_eq_left']
    constructor
    · rintro (⟨rfl, rfl⟩ | ⟨rfl, rfl⟩)
      · exact .property
      · exact .type
    · rintro (_ | _)
      · exact .inl ⟨rfl, rfl⟩
      · exact .inr ⟨rfl, rfl⟩

/-- The subscription repeats names of the state and has none of its own. -/
theorem place_mem_subscribeParts {state : Option StateEntry}
    (mem : .place usage name ∈ subscribeParts c state) : ∃ s ∈ state, NamesState s usage name := by
  cases state with
  | none => cases mem
  | some s =>
    refine ⟨s, rfl, ?_⟩
    have property : usage = .stateProperty ∧ name = s.property → NamesState s usage name := by
      rintro ⟨rfl, rfl⟩
      exact .property
    have type : usage = .stateType s.property ∧ name = s.typeName → NamesState s usage name := by
      rintro ⟨rfl, rfl⟩
      exact .type
    simp only [subscribeParts, List.mem_cons, Part.place.injEq, List.not_mem_nil, reduceCtorEq,
      or_false, false_or] at mem
    tauto

theorem place_notMem_deinitParts {state : Option StateEntry} :
    .place usage name ∉ deinitParts c state := by
  cases state <;> simp [deinitParts]

theorem place_mem_commaParts {first second : ParamEntry → Part} {params : List ParamEntry} :
    .place usage name ∈ commaParts first second params ↔
      ∃ p ∈ params, .place usage name = first p ∨ .place usage name = second p := by
  induction params with
  | nil => simp [commaParts]
  | cons p params ih =>
    cases params with
    | nil => simp [commaParts]
    | cons q params =>
      rw [commaParts_cons_cons, List.mem_append, ih]
      simp [or_assoc]

theorem place_mem_actionParts {a : ActionEntry} :
    .place usage name ∈ actionParts a ↔ NamesAction a usage name := by
  simp only [actionParts, List.mem_append, place_mem_commaParts, List.mem_cons, Part.place.injEq,
    List.not_mem_nil, reduceCtorEq, or_false, false_or]
  constructor
  · rintro (((⟨rfl, rfl⟩ | ⟨p, passed, ⟨rfl, rfl⟩ | ⟨rfl, rfl⟩⟩) | ⟨rfl, rfl⟩) |
      ⟨p, passed, ⟨rfl, rfl⟩ | ⟨rfl, rfl⟩⟩)
    · exact .function
    · exact .label passed
    · exact .type passed
    · exact .function
    · exact .label passed
    · exact .label passed
  · rintro (_ | @⟨p, passed⟩ | @⟨p, passed⟩)
    · exact .inl (.inr ⟨rfl, rfl⟩)
    · exact .inr ⟨p, passed, .inl ⟨rfl, rfl⟩⟩
    · exact .inl (.inl (.inr ⟨p, passed, .inr ⟨rfl, rfl⟩⟩))

/-- The names of an entry and of its wrapper have places in the class, and no others have. -/
theorem place_mem_classParts :
    .place usage name ∈ classParts c e typeName ↔ Names e typeName usage name := by
  simp only [classParts, List.mem_append, List.mem_flatMap, place_notMem_deinitParts,
    place_mem_stateParts, place_mem_actionParts, List.mem_cons, Part.place.injEq,
    List.not_mem_nil, reduceCtorEq, or_false, false_or]
  constructor
  · rintro (((((⟨rfl, rfl⟩ | ⟨rfl, rfl⟩) | ⟨s, shown, names⟩) | ⟨rfl, rfl⟩) | mem) |
      ⟨a, called, names⟩)
    · exact .wrapper
    · exact .simple
    · exact .state shown names
    · exact .simple
    · obtain ⟨s, shown, names⟩ := place_mem_subscribeParts mem
      exact .state shown names
    · exact .action called names
  · rintro (_ | _ | ⟨shown, names⟩ | ⟨called, names⟩)
    · exact .inl (.inl (.inl (.inl (.inl ⟨rfl, rfl⟩))))
    · exact .inl (.inl (.inl (.inl (.inr ⟨rfl, rfl⟩))))
    · exact .inl (.inl (.inl (.inr ⟨_, shown, names⟩)))
    · exact .inr ⟨_, called, names⟩

/-! ## Keywords -/

/-- The name is no keyword, or it is written between backticks. -/
def IsShielded (name written : String) : Prop := name ∉ keywords ∨ written = "`" ++ name ++ "`"

instance (name written : String) : Decidable (IsShielded name written) :=
  inferInstanceAs (Decidable (name ∉ keywords ∨ written = "`" ++ name ++ "`"))

theorem isShielded_escape (name : String) : IsShielded name (escape name) := by
  by_cases keyword : name ∈ keywords
  · exact .inr (if_pos keyword)
  · exact .inl keyword

/-- A name is never its own form between backticks. -/
theorem isShielded_self_iff : IsShielded name name ↔ name ∉ keywords := by
  refine or_iff_left fun ticked => ?_
  have longer : name.toList.length = name.toList.length + 1 + 1 := by
    simpa using congrArg (·.toList.length) ticked
  omega

/-- Only in a use whose names are written as they are a keyword can be bare. -/
theorem isShielded_written_iff :
    IsShielded name (usage.written name) ↔ ¬(usage.isBare = true ∧ name ∈ keywords) := by
  rw [Usage.written]
  cases usage.isBare with
  | true => simp [isShielded_self_iff]
  | false => simp [isShielded_escape]

theorem shielded_iff : (∀ usage name, Names e typeName usage name →
      IsShielded name (usage.written name)) ↔
    typeName ∉ keywords ∧ e.simpleName ∉ keywords ∧ (∀ s ∈ e.state, s.typeName ∉ keywords) ∧
      ∀ a ∈ e.actions, ∀ p ∈ a.params, p.typeName ∉ keywords := by
  simp only [isShielded_written_iff]
  constructor
  · intro each
    exact ⟨fun keyword => each _ _ .wrapper ⟨rfl, keyword⟩,
      fun keyword => each _ _ .simple ⟨rfl, keyword⟩,
      fun s shown keyword => each _ _ (.state shown .type) ⟨rfl, keyword⟩,
      fun a called p passed keyword => each _ _ (.action called (.type passed)) ⟨rfl, keyword⟩⟩
  · rintro ⟨wrapper, simple, state, params⟩ usage name names ⟨bare, keyword⟩
    cases names with
    | wrapper => exact wrapper keyword
    | simple => exact simple keyword
    | @state s _ _ shown names =>
      cases names with
      | property => cases bare
      | type => exact state s shown keyword
    | @action a _ _ called names =>
      cases names with
      | function => cases bare
      | label passed => cases bare
      | type passed => exact params a called _ passed keyword

/-- Behind its front, a wrapper is the text of parts, in which each name is a word of its own. The
names are those of the entry and of the wrapper, each in its use. A keyword among them stands
between backticks but where it is the name of a class or of a type. So all of them do, just if
neither the wrapper nor the view-model nor a type is called by a keyword. -/
theorem keywords_shielded_iff (rendered : renderEntry c e typeName = .ok source) :
    source.toList = (frontText c).toList ++ partsText (classParts c e typeName) ∧
      wordsOf (partsText (classParts c e typeName)) =
        (classParts c e typeName).flatMap Part.words ∧
      (∀ usage name, .place usage name ∈ classParts c e typeName ↔ Names e typeName usage name) ∧
      (∀ usage name, .place usage name ∈ classParts c e typeName →
        (IsShielded name (usage.written name) ↔ ¬(usage.isBare = true ∧ name ∈ keywords))) ∧
      ((∀ usage name, .place usage name ∈ classParts c e typeName →
          IsShielded name (usage.written name)) ↔
        typeName ∉ keywords ∧ e.simpleName ∉ keywords ∧ (∀ s ∈ e.state, s.typeName ∉ keywords) ∧
          ∀ a ∈ e.actions, ∀ p ∈ a.params, p.typeName ∉ keywords) := by
  obtain ⟨checked, rfl⟩ := renderEntry_eq_ok_iff.mp rendered
  have spelled := spelled_classParts (c := c) (checkEntry_eq_ok_iff.mp checked)
  refine ⟨?_, spelled.wordsOf_partsText, fun _ _ => place_mem_classParts,
    fun _ _ _ => isShielded_written_iff, ?_⟩
  · rw [toList_renderSteps_wrapperSteps, textOf_classSteps]
  · simp only [place_mem_classParts]
    exact shielded_iff

/-- A property, a function and a label are keywords, the names of types are not. -/
theorem player_keywords_shielded :
    let e : Entry := ⟨"com.a.Player", "Player", some ⟨"in", "State"⟩,
      [⟨"repeat", []⟩, ⟨"seek", [⟨"to", "Int"⟩, ⟨"for", "Song"⟩]⟩]⟩
    let source := renderSteps (wrapperSteps .standard e "PlayerModel") ++ "\n"
    renderEntry .standard e "PlayerModel" = .ok source ∧
      ∀ usage name, .place usage name ∈ classParts .standard e "PlayerModel" →
        IsShielded name (usage.written name) := by
  intro e source
  have writable : Writable "PlayerModel" e := by decide
  have rendered : renderEntry .standard e "PlayerModel" = .ok source :=
    renderEntry_eq_ok_iff.mpr ⟨checkEntry_eq_ok_iff.mpr writable, rfl⟩
  exact ⟨rendered, (keywords_shielded_iff rendered).2.2.2.2.mpr (by decide)⟩

/-- An entry whose wrapper, view-model and types are called by keywords is written with the bare
words. -/
theorem keywords_written_bare :
    let e : Entry := ⟨"a.class", "class", some ⟨"state", "Self"⟩, [⟨"set", [⟨"to", "in"⟩]⟩]⟩
    let source := renderSteps (wrapperSteps .standard e "protocol") ++ "\n"
    let places := [(Usage.wrapperName, "protocol"), (.simpleName, "class"),
      (.stateType "state", "Self"), (.paramType "to" "set", "in")]
    renderEntry .standard e "protocol" = .ok source ∧
      source.toList =
        (frontText .standard).toList ++ partsText (classParts .standard e "protocol") ∧
      ∀ place ∈ places, .place place.1 place.2 ∈ classParts .standard e "protocol" ∧
        ¬IsShielded place.2 (place.1.written place.2) := by
  intro e source places
  have writable : Writable "protocol" e := by decide
  refine ⟨renderEntry_eq_ok_iff.mpr ⟨checkEntry_eq_ok_iff.mpr writable, rfl⟩, ?_, by decide⟩
  rw [toList_renderSteps_wrapperSteps, textOf_classSteps]

end WrapperGen.Swift
