import WrapperGen.Proofs.Swift.Methods
import WrapperGen.Proofs.Swift.Sources

namespace WrapperGen.Swift

variable {c : GeneratorConfig} {e e' : Entry} {typeName source : String}

/-! ## The parts of a wrapper -/

/-- The steps inside the class but for the methods. -/
def memberSteps (c : GeneratorConfig) (e : Entry) : List Step :=
  .line ("private let viewModel: " ++ e.simpleName) :: stateSteps c e.state ++
    .line "" :: initSteps c e ++ deinitSteps c e.state

theorem haltOf_stateSteps (c : GeneratorConfig) (state : Option StateEntry) :
    haltOf (stateSteps c state) = none := by
  cases state <;> rfl

theorem haltOf_initSteps (c : GeneratorConfig) (e : Entry) : haltOf (initSteps c e) = none := by
  obtain ⟨_, _, state, _⟩ := e
  cases state <;> rfl

theorem haltOf_deinitSteps (c : GeneratorConfig) (state : Option StateEntry) :
    haltOf (deinitSteps c state) = none := by
  cases state <;> rfl

/-- The text of a wrapper up to its methods. -/
def headText (c : GeneratorConfig) (e : Entry) (typeName : String) : List Char :=
  textOf (linesOf 0 (headerSteps c ++ importSteps c)) ++
    (textOf (linesOf 0 [.line "@MainActor",
      .line ("final class " ++ typeName ++ ": ObservableObject \x7b")]) ++
    textOf (linesOf 1 (memberSteps c e)))

theorem haltOf_memberSteps (c : GeneratorConfig) (e : Entry) : haltOf (memberSteps c e) = none := by
  simp [memberSteps, haltOf_append, haltOf, Step.halt?, haltOf_stateSteps, haltOf_initSteps,
    haltOf_deinitSteps]

theorem toList_wrapper (c : GeneratorConfig) (e : Entry) (typeName : String) :
    (renderSteps (wrapperSteps c e typeName) ++ "\n").toList =
      headText c e typeName ++
        ((e.actions.map Method.ofAction).flatMap (·.text.toList) ++ ['\x7d', '\n']) := by
  let opening := [Step.line "@MainActor",
    .line ("final class " ++ typeName ++ ": ObservableObject \x7b")]
  let body := memberSteps c e ++ e.actions.flatMap actionSteps
  have ended : haltOf body = none := by
    rw [haltOf_append, haltOf_memberSteps, haltOf_flatMap_actionSteps]
    rfl
  have bracketed : linesOf 0 [.indent body, .line "\x7d"] = linesOf 1 body ++ ["\x7d"] := by
    rw [linesOf, Step.halt?, ended]
    rfl
  have classLines : linesOf 0 (classSteps c e typeName) =
      linesOf 0 opening ++ (linesOf 1 (memberSteps c e) ++
        linesOf 1 (e.actions.flatMap actionSteps) ++ ["\x7d"]) := by
    rw [← linesOf_append (haltOf_memberSteps c e), ← bracketed]
    rfl
  rw [toList_renderSteps_wrapperSteps, ← textOf_frontSteps, classLines]
  simp only [textOf_append, textOf_flatMap_actionSteps, headText, List.append_assoc, opening]
  rfl

/-! ## Reading the entry from the text -/

/-- The text that a class shows its state in, up to the type. -/
def stateText (c : GeneratorConfig) (s : StateEntry) : List Char :=
  (s.property ++ "Subscription").toList ++ ':' :: (" " ++ c.subscriptionType ++
    "?\n\n    @Published private(set) var " ++ escape s.property ++ ": ").toList

theorem textOf_stateSteps_none (c : GeneratorConfig) :
    textOf (linesOf 1 (stateSteps c none)) = [] :=
  rfl

theorem textOf_stateSteps_some (c : GeneratorConfig) (s : StateEntry) :
    textOf (linesOf 1 (stateSteps c (some s))) =
      "    private var ".toList ++ (stateText c s ++ (s.typeName.toList ++ ['\n'])) := by
  let subscription := "private var " ++ s.property ++ "Subscription: " ++ c.subscriptionType ++ "?"
  let shown := "@Published private(set) var " ++ escape s.property ++ ": " ++ s.typeName
  have lines : linesOf 1 (stateSteps c (some s)) = [SourceWriter.indented 1 subscription,
      SourceWriter.indented 1 "", SourceWriter.indented 1 shown] := rfl
  have someSubscription : subscription ≠ "" := by simp [subscription]
  have someShown : shown ≠ "" := by simp [shown]
  rw [lines]
  simp only [textOf_cons, toList_indented someSubscription, toList_indented someShown,
    subscription, shown, stateText, String.toList_append, List.append_assoc, List.cons_append]
  rfl

/-- What stands between the state and the methods. -/
def lifetimeText (c : GeneratorConfig) (e : Entry) : List Char :=
  textOf (linesOf 1 (.line "" :: initSteps c e ++ deinitSteps c e.state))

theorem textOf_memberSteps (c : GeneratorConfig) (e : Entry) :
    textOf (linesOf 1 (memberSteps c e)) =
      "    private let viewModel: ".toList ++ (e.simpleName.toList ++ '\n' ::
        (textOf (linesOf 1 (stateSteps c e.state)) ++ lifetimeText c e)) := by
  let owned := "private let viewModel: " ++ e.simpleName
  have lines : linesOf 1 (memberSteps c e) = SourceWriter.indented 1 owned ::
      (linesOf 1 (stateSteps c e.state) ++
        linesOf 1 (.line "" :: initSteps c e ++ deinitSteps c e.state)) := by
    rw [← linesOf_append (haltOf_stateSteps c e.state)]
    simp only [memberSteps, List.append_assoc, List.cons_append]
    rfl
  have someOwned : owned ≠ "" := by simp [owned]
  rw [lines, textOf_cons, toList_indented someOwned, textOf_append, String.toList_append,
    List.append_assoc, List.append_assoc]
  rfl

theorem lifetimeText_eq_cons (c : GeneratorConfig) (e : Entry) :
    ∃ later, lifetimeText c e = '\n' :: later :=
  ⟨_, rfl⟩

theorem stateText_append_inj {s s' : StateEntry} (writable : WritableState s)
    (writable' : WritableState s') {rest rest' : List Char}
    (same : stateText c s ++ (s.typeName.toList ++ '\n' :: rest) =
      stateText c s' ++ (s'.typeName.toList ++ '\n' :: rest')) : s = s' ∧ rest = rest' := by
  have subscription : ∀ {s : StateEntry}, WritableState s →
      ':' ∉ (s.property ++ "Subscription").toList := by
    intro s writable
    have property := notMem_of_isIdentifier writable.1 (c := ':') (by decide)
    simp [property]
  have feed : ∀ {s : StateEntry}, WritableState s → '\n' ∉ s.typeName.toList :=
    fun writable => notMem_of_isIdentifier (isIdentifier_of_isBridged writable.2) (by decide)
  obtain ⟨property, type⟩ := s
  obtain ⟨property', type'⟩ := s'
  simp only [stateText, List.append_assoc, List.cons_append] at same
  obtain ⟨front, behind⟩ := cut_inj (subscription writable) (subscription writable') same
  rw [String.toList_append, String.toList_append] at front
  obtain rfl := String.toList_inj.mp (List.append_cancel_right front)
  obtain ⟨types, others⟩ := cut_inj (feed writable) (feed writable')
    (List.append_cancel_left behind)
  obtain rfl := String.toList_inj.mp types
  exact ⟨rfl, others⟩

theorem stateSteps_append_inj {state state' : Option StateEntry}
    (writable : ∀ s ∈ state, WritableState s) (writable' : ∀ s ∈ state', WritableState s)
    {rest rest' : List Char}
    (same : textOf (linesOf 1 (stateSteps c state)) ++ '\n' :: rest =
      textOf (linesOf 1 (stateSteps c state')) ++ '\n' :: rest') : state = state' := by
  cases state with
  | none =>
    cases state' with
    | none => rfl
    | some s' =>
      rw [textOf_stateSteps_none, textOf_stateSteps_some] at same
      cases same
  | some s =>
    cases state' with
    | none =>
      rw [textOf_stateSteps_none, textOf_stateSteps_some] at same
      cases same
    | some s' =>
      rw [textOf_stateSteps_some, textOf_stateSteps_some] at same
      simp only [List.append_assoc] at same
      have behind := List.append_cancel_left same
      rw [(stateText_append_inj (writable s rfl) (writable' s' rfl) behind).1]

theorem lifetimeText_congr (simple : e.simpleName = e'.simpleName) (state : e.state = e'.state) :
    lifetimeText c e = lifetimeText c e' := by
  rw [lifetimeText, lifetimeText, initSteps, initSteps, simple, state]

theorem memberSteps_append_inj (writable : Writable typeName e) (writable' : Writable typeName e')
    {rest rest' : List Char}
    (same : textOf (linesOf 1 (memberSteps c e)) ++ rest =
      textOf (linesOf 1 (memberSteps c e')) ++ rest') :
    e.simpleName = e'.simpleName ∧ e.state = e'.state ∧ rest = rest' := by
  rw [textOf_memberSteps, textOf_memberSteps] at same
  simp only [List.append_assoc, List.cons_append] at same
  have feed : ∀ {e : Entry}, Writable typeName e → '\n' ∉ e.simpleName.toList :=
    fun writable => notMem_of_isIdentifier writable.simple (by decide)
  obtain ⟨simple, behind⟩ := cut_inj (feed writable) (feed writable')
    (List.append_cancel_left same)
  have names := String.toList_inj.mp simple
  obtain ⟨later, starts⟩ := lifetimeText_eq_cons c e
  obtain ⟨later', starts'⟩ := lifetimeText_eq_cons c e'
  have states : e.state = e'.state := by
    rw [starts, starts', List.cons_append, List.cons_append] at behind
    exact stateSteps_append_inj writable.state writable'.state behind
  rw [states, lifetimeText_congr names states] at behind
  exact ⟨names, states, List.append_cancel_left (List.append_cancel_left behind)⟩

theorem eq_of_wrapper_eq (writable : Writable typeName e) (writable' : Writable typeName e')
    (same : renderSteps (wrapperSteps c e typeName) ++ "\n" =
      renderSteps (wrapperSteps c e' typeName) ++ "\n") :
    e.simpleName = e'.simpleName ∧ e.state = e'.state ∧ e.actions = e'.actions := by
  have plain : ∀ {e : Entry}, Writable typeName e →
      ∀ m ∈ e.actions.map Method.ofAction, m.Plain := by
    intro e writable m mem
    obtain ⟨a, here, rfl⟩ := List.mem_map.mp mem
    exact Method.plain_ofAction (writable.actions a here)
  have texts := congrArg String.toList same
  rw [toList_wrapper, toList_wrapper] at texts
  simp only [headText, List.append_assoc] at texts
  have members := List.append_cancel_left (List.append_cancel_left texts)
  obtain ⟨names, states, methods⟩ := memberSteps_append_inj writable writable' members
  have alike := Method.texts_inj (plain writable) (plain writable') methods
  exact ⟨names, states, map_inj_on (fun a mem b memB => Method.ofAction_inj
    (writable.actions a mem) (writable'.actions b memB)) alike⟩

/-- The text of a wrapper shows the entry it was made from. Behind what a wrapper without actions
begins with, it has one method for each action, in order, that calls the function it is named for
and passes every parameter under its label. -/
theorem entry_read_back (rendered : renderEntry c e typeName = .ok source) :
    (∀ e' : Entry, renderEntry c e' typeName = .ok source →
      e'.simpleName = e.simpleName ∧ e'.state = e.state ∧ e'.actions = e.actions) ∧
    ∃ (head : String) (methods : List Method),
      renderEntry c { e with actions := [] } typeName = .ok (head ++ "\x7d\n") ∧
      source = head ++ String.join (methods.map Method.text) ++ "\x7d\n" ∧
      methods.map Method.name = e.actions.map (fun a => escape a.function) ∧
      methods.map Method.params =
        e.actions.map (fun a => a.params.map fun p => (escape p.label, p.typeName)) ∧
      ∀ m ∈ methods, m.callee = m.name ∧ m.args = m.params.map fun p => (p.1, p.1) := by
  obtain ⟨checked, rfl⟩ := renderEntry_eq_ok_iff.mp rendered
  have writable := checkEntry_eq_ok_iff.mp checked
  constructor
  · intro e' again
    obtain ⟨checked', same⟩ := renderEntry_eq_ok_iff.mp again
    exact eq_of_wrapper_eq (checkEntry_eq_ok_iff.mp checked') writable same.symm
  · refine ⟨String.ofList (headText c e typeName), e.actions.map Method.ofAction, ?_, ?_, ?_, ?_,
      ?_⟩
    · have bare : Writable typeName { e with actions := [] } :=
        ⟨writable.wrapper, writable.simple, writable.state, nofun⟩
      have texts := toList_wrapper c { e with actions := [] } typeName
      refine renderEntry_eq_ok_iff.mpr ⟨checkEntry_eq_ok_iff.mpr bare, String.toList_inj.mp ?_⟩
      rw [texts, String.toList_append, String.toList_ofList]
      rfl
    · refine String.toList_inj.mp ?_
      rw [toList_wrapper, String.toList_append, String.toList_append, String.toList_ofList,
        String.toList_join, List.flatMap_map, List.flatMap_map, List.flatMap_map,
        List.append_assoc]
      rfl
    · rw [List.map_map]
      rfl
    · rw [List.map_map]
      rfl
    · intro m mem
      obtain ⟨a, -, rfl⟩ := List.mem_map.mp mem
      refine ⟨rfl, ?_⟩
      simp [Method.ofAction]

/-- A keyword stands between backticks as a property, as a function and as a label. -/
theorem player_read_back :
    let e : Entry := ⟨"com.a.Player", "Player", some ⟨"in", "State"⟩,
      [⟨"repeat", []⟩, ⟨"seek", [⟨"to", "Int"⟩, ⟨"for", "Song"⟩]⟩]⟩
    let source := renderSteps (wrapperSteps .standard e "PlayerModel") ++ "\n"
    renderEntry .standard e "PlayerModel" = .ok source ∧
      ∀ e' : Entry, renderEntry .standard e' "PlayerModel" = .ok source →
        e'.simpleName = "Player" ∧ e'.state = e.state ∧ e'.actions = e.actions := by
  intro e source
  have writable : Writable "PlayerModel" e := by decide
  have rendered : renderEntry .standard e "PlayerModel" = .ok source :=
    renderEntry_eq_ok_iff.mpr ⟨checkEntry_eq_ok_iff.mpr writable, rfl⟩
  exact ⟨rendered, (entry_read_back rendered).1⟩

end WrapperGen.Swift
