import WrapperGen.Candidate

namespace WrapperGen

/-- What one round shows of each marked type: an entry, that it has to wait, or a rejection. -/
structure RoundView where
  resolved : List Entry
  deferred : List Symbol
  rejections : List Rejection

namespace RoundView

def empty : RoundView := ⟨[], [], []⟩

/-- A type that is not ready has to wait; the others are built. -/
def ofCandidates (t : Table) (config : ScanConfig) : List Candidate → RoundView
  | [] => empty
  | c :: rest =>
    let view := ofCandidates t config rest
    if !t.isReady c.symbol.id then { view with deferred := c.symbol :: view.deferred }
    else
      match t.build config c with
      | .ok entry => { view with resolved := entry :: view.resolved }
      | .error rejection => { view with rejections := rejection :: view.rejections }

/-- The names that the round settles, by an entry or by a rejection. -/
def settled (v : RoundView) : List String :=
  v.rejections.map Rejection.symbol ++ v.resolved.map Entry.className

end RoundView

def Table.roundView (t : Table) (config : ScanConfig) : RoundView :=
  .ofCandidates t config t.candidates

/-- Whether a manifest is still to be written. The sink that took it has given a receipt. -/
inductive Phase (ρ : Type) where
  | scanning
  | done (receipt : ρ)
  | stalled (pass : Nat) (names : List String)
  deriving DecidableEq

/-- How far the rounds have come: the entries found, the names of the types that wait, and the
rejections, of which no two say the same. -/
structure Resolution (ρ : Type) where
  config : ScanConfig
  phase : Phase ρ
  passes : Nat
  entries : Manifest
  waiting : NameSet
  rejections : List Rejection

inductive Outcome where
  | deferred (pass count : Nat)
  | written (pass count : Nat)
  | alreadyDone
  deriving DecidableEq

/-- Why no manifest comes about. -/
inductive Failure (ε : Type) where
  | stalled (pass : Nat) (names : List String)
  | sink (cause : ε)

def Failure.message {ε : Type} : Failure ε → String
  | .stalled pass names =>
    "resolution stalled at pass " ++ toString pass ++ ": still deferred: " ++
      ", ".intercalate names
  | .sink _ => "failed to write manifest"

namespace Resolution

variable {ρ : Type}

def start (config : ScanConfig) : Resolution ρ where
  config := config
  phase := .scanning
  passes := 0
  entries := ∅
  waiting := ∅
  rejections := []

/-- What the sink gave for the manifest, once it has been written. -/
def receipt? (r : Resolution ρ) : Option ρ :=
  match r.phase with
  | .done receipt => some receipt
  | .scanning | .stalled _ _ => none

def isDone (r : Resolution ρ) : Bool := r.receipt?.isSome

/-- The manifest, once it has been written. -/
def manifest? (r : Resolution ρ) : Option Manifest :=
  if r.isDone then some r.entries else none

/-- Takes in what a round shows. A rejection removes the entry of its name, and an entry takes the
place of an earlier one. A rejection that says what an earlier one has said is dropped. A name waits
if the round defers it, or if it has waited before and the round does not settle it. -/
def absorb (r : Resolution ρ) (v : RoundView) : Resolution ρ where
  config := r.config
  phase := r.phase
  passes := r.passes + 1
  entries := v.resolved.foldl Roster.insert (v.rejections.foldl (·.erase ·.symbol) r.entries)
  waiting :=
    v.deferred.foldl (fun names s => names.insert s.displayName)
      (r.waiting.filter (· ∉ v.settled))
  rejections := firstOfEach Rejection.report (r.rejections ++ v.rejections)

variable {m : Type → Type} [Monad m] {ε : Type}

/-- Hands the entries to the sink; the rounds are done if it takes them. -/
def deliver (r : Resolution ρ) (sink : Manifest → m (Except ε ρ)) :
    m (Except (Failure ε) Nat × Resolution ρ) := do
  match ← sink r.entries with
  | .ok receipt => return (.ok r.entries.size, { r with phase := .done receipt })
  | .error cause => return (.error (.sink cause), r)

def stall (r : Resolution ρ) : Except (Failure ε) Outcome × Resolution ρ :=
  (.error (.stalled r.passes r.waiting.toList),
    { r with phase := .stalled r.passes r.waiting.toList })

/-- One round. The manifest is written when no type waits any longer; two rounds in a row after
which the same types wait are a stall. -/
def process (r : Resolution ρ) (sink : Manifest → m (Except ε ρ)) (t : Table) :
    m (Except (Failure ε) Outcome × Resolution ρ) :=
  match r.phase with
  | .done _ => return (.ok .alreadyDone, r)
  | .stalled pass names => return (.error (.stalled pass names), r)
  | .scanning =>
    let next := r.absorb (t.roundView r.config)
    if next.waiting.isEmpty then do
      let (answer, final) ← next.deliver sink
      return (answer.map (.written next.passes), final)
    else if next.waiting = r.waiting then return next.stall
    else return (.ok (.deferred next.passes next.waiting.size), next)

/-- The end of the rounds: the manifest is written if that is still to be done. -/
def finish (r : Resolution ρ) (sink : Manifest → m (Except ε ρ)) :
    m (Except (Failure ε) Unit × Resolution ρ) :=
  match r.phase with
  | .done _ => return (.ok (), r)
  | .stalled pass names => return (.error (.stalled pass names), r)
  | .scanning =>
    if r.waiting.isEmpty then do
      let (answer, final) ← r.deliver sink
      return (answer.map fun _ => (), final)
    else
      let (answer, final) := r.stall
      return (answer.map fun _ => (), final)

end Resolution

end WrapperGen
