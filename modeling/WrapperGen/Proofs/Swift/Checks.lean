import Mathlib.Data.List.Basic
import WrapperGen.Proofs.Fallible
import WrapperGen.Swift.Wrapper

namespace WrapperGen.Swift

/-- The name stands for a class on the other side too. -/
def IsBridged (typeName : String) : Prop := checkType typeName = .ok ()

def WritableState (s : StateEntry) : Prop := isIdentifier s.property = true ∧ IsBridged s.typeName

def WritableParam (p : ParamEntry) : Prop := isIdentifier p.label = true ∧ IsBridged p.typeName

def WritableAction (a : ActionEntry) : Prop :=
  isIdentifier a.function = true ∧ ∀ p ∈ a.params, WritableParam p

/-- All names of the entry and of its wrapper are identifiers, and all its types are bridged. -/
structure Writable (typeName : String) (e : Entry) : Prop where
  wrapper : isIdentifier typeName = true
  simple : isIdentifier e.simpleName = true
  state : ∀ s ∈ e.state, WritableState s
  actions : ∀ a ∈ e.actions, WritableAction a

theorem isIdentifier_of_isBridged {typeName : String} (bridged : IsBridged typeName) :
    isIdentifier typeName = true := by
  unfold IsBridged checkType at bridged
  split at bridged
  next => cases bridged
  next named => simpa using named

section

variable {className function : String}

theorem checkName_eq_ok_iff {name : String} {usage : Usage} :
    checkName className name usage = .ok () ↔ isIdentifier name = true := by
  unfold checkName
  split <;> simp_all

theorem checkUse_eq_ok_iff {typeName : String} {usage : Usage} :
    checkUse className typeName usage = .ok () ↔ IsBridged typeName := by
  unfold checkUse IsBridged
  split <;> simp_all

theorem checkState_eq_ok_iff {state : Option StateEntry} :
    checkState className state = .ok () ↔ ∀ s ∈ state, WritableState s := by
  cases state with
  | none => simp [checkState]
  | some s =>
    simp [checkState, check_bind_eq_ok_iff, checkName_eq_ok_iff, checkUse_eq_ok_iff,
      WritableState]

theorem checkParams_eq_ok_iff {params : List ParamEntry} :
    checkParams className function params = .ok () ↔ ∀ p ∈ params, WritableParam p := by
  induction params with
  | nil => simp [checkParams]
  | cons p rest ih =>
    simp [checkParams, check_bind_eq_ok_iff, checkName_eq_ok_iff, checkUse_eq_ok_iff, ih,
      WritableParam, and_assoc]

theorem checkActions_eq_ok_iff {actions : List ActionEntry} :
    checkActions className actions = .ok () ↔ ∀ a ∈ actions, WritableAction a := by
  induction actions with
  | nil => simp [checkActions]
  | cons a rest ih =>
    simp [checkActions, check_bind_eq_ok_iff, checkName_eq_ok_iff, checkParams_eq_ok_iff, ih,
      WritableAction, and_assoc]

end

theorem checkEntry_eq_ok_iff {e : Entry} {typeName : String} :
    checkEntry e typeName = .ok () ↔ Writable typeName e := by
  simp only [checkEntry, check_bind_eq_ok_iff, checkName_eq_ok_iff, checkState_eq_ok_iff,
    checkActions_eq_ok_iff]
  constructor
  · rintro ⟨wrapper, simple, state, actions⟩
    exact ⟨wrapper, simple, state, actions⟩
  · rintro ⟨wrapper, simple, state, actions⟩
    exact ⟨wrapper, simple, state, actions⟩

instance (typeName : String) (e : Entry) : Decidable (Writable typeName e) :=
  decidable_of_iff _ checkEntry_eq_ok_iff

/-! ## Whom a failure is about -/

/-- When the check fails, the failure carries the name of the class. -/
def Blames (className : String) (check : Except EntryFailure Unit) : Prop :=
  ∀ f, check = .error f → f.className = className

section

variable {className function : String}

theorem Blames.bind {check : Except EntryFailure Unit} {later : Unit → Except EntryFailure Unit}
    (first : Blames className check) (others : Blames className (later ())) :
    Blames className (check >>= later) := by
  intro f failed
  cases checked : check with
  | error g =>
    rw [checked] at failed
    cases failed
    exact first f checked
  | ok _ =>
    rw [checked] at failed
    exact others f failed

theorem blames_ok : Blames className (.ok ()) := nofun

theorem blames_checkName (name : String) (usage : Usage) :
    Blames className (checkName className name usage) := by
  unfold checkName Blames
  split
  next => exact nofun
  next =>
    rintro f ⟨⟩
    rfl

theorem blames_checkUse (typeName : String) (usage : Usage) :
    Blames className (checkUse className typeName usage) := by
  unfold checkUse Blames
  split
  next => exact nofun
  next =>
    rintro f ⟨⟩
    rfl

theorem blames_checkState (state : Option StateEntry) :
    Blames className (checkState className state) := by
  cases state with
  | none => exact blames_ok
  | some s => exact (blames_checkName _ _).bind (blames_checkUse _ _)

theorem blames_checkParams (params : List ParamEntry) :
    Blames className (checkParams className function params) := by
  induction params with
  | nil => exact blames_ok
  | cons p rest ih => exact (blames_checkName _ _).bind ((blames_checkUse _ _).bind ih)

theorem blames_checkActions (actions : List ActionEntry) :
    Blames className (checkActions className actions) := by
  induction actions with
  | nil => exact blames_ok
  | cons a rest ih => exact (blames_checkName _ _).bind ((blames_checkParams _).bind ih)

end

theorem blames_checkEntry (e : Entry) (typeName : String) :
    Blames e.className (checkEntry e typeName) :=
  (blames_checkName _ _).bind ((blames_checkName _ _).bind ((blames_checkState _).bind
    (blames_checkActions _)))

end WrapperGen.Swift
