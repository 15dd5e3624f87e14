import WrapperGen.Proofs.Resolution.Absorption

namespace WrapperGen

/-- What takes the manifest in the end, or refuses it. Its state is free, so that it may refuse one
manifest and take the next. -/
abbrev Sink (σ ε ρ : Type) := Manifest → StateM σ (Except ε ρ)

variable {σ ε ρ : Type}

/-- The same sink, which notes what it is handed and how it answers. -/
def Sink.noting (sink : Sink σ ε ρ) : Sink (σ × List (Manifest × Except ε ρ)) ε ρ := fun m => do
  let (s, notes) ← get
  let (answer, s) := (sink m).run s
  set (s, notes ++ [(m, answer)])
  return answer

def Resolution.inPhase (r : Resolution ρ) (phase : Phase ρ) : Resolution ρ :=
  { r with phase := phase }

/-- A resolution and its sink on their way through a number of calls. The rounds that were made
while the resolution was scanning and everything that the sink was handed are kept. -/
structure Session (σ ε ρ : Type) where
  resolution : Resolution ρ
  sinkState : σ
  rounds : List Table
  deliveries : List (Manifest × Except ε ρ)

namespace Session

def start (config : ScanConfig) (sinkState : σ) : Session σ ε ρ :=
  ⟨.start config, sinkState, [], []⟩

def process (sink : Sink σ ε ρ) (s : Session σ ε ρ) (t : Table) :
    Except (Failure ε) Outcome × Session σ ε ρ :=
  let ((answer, resolution), sinkState, deliveries) :=
    (s.resolution.process sink.noting t).run (s.sinkState, s.deliveries)
  let rounds :=
    match s.resolution.phase with
    | .scanning => s.rounds ++ [t]
    | .done _ | .stalled _ _ => s.rounds
  (answer, ⟨resolution, sinkState, rounds, deliveries⟩)

def finish (sink : Sink σ ε ρ) (s : Session σ ε ρ) :
    Except (Failure ε) Unit × Session σ ε ρ :=
  let ((answer, resolution), sinkState, deliveries) :=
    (s.resolution.finish sink.noting).run (s.sinkState, s.deliveries)
  (answer, ⟨resolution, sinkState, s.rounds, deliveries⟩)

/-- What can happen to a session: a round, the end of the rounds, or a change of the sink by
others, after which it may fail or work again. -/
inductive Event (σ : Type) where
  | round (t : Table)
  | finish
  | change (f : σ → σ)

def step (sink : Sink σ ε ρ) (s : Session σ ε ρ) : Event σ → Session σ ε ρ
  | .round t => (s.process sink t).2
  | .finish => (s.finish sink).2
  | .change f => { s with sinkState := f s.sinkState }

def run (sink : Sink σ ε ρ) (s : Session σ ε ρ) (events : List (Event σ)) : Session σ ε ρ :=
  events.foldl (step sink) s

def written (s : Session σ ε ρ) : List Manifest :=
  s.deliveries.filterMap fun (m, answer) =>
    match answer with
    | .ok _ => some m
    | .error _ => none

def views (s : Session σ ε ρ) (config : ScanConfig) : List RoundView :=
  s.rounds.map (·.roundView config)

theorem run_concat (sink : Sink σ ε ρ) (s : Session σ ε ρ) (events : List (Event σ))
    (e : Event σ) : s.run sink (events ++ [e]) = (s.run sink events).step sink e := by
  simp [run]

section

variable {sink : Sink σ ε ρ} {s : Session σ ε ρ} {t : Table}

theorem process_of_done {receipt : ρ} (done : s.resolution.phase = .done receipt) :
    s.process sink t = (.ok .alreadyDone, s) := by
  simp only [process, Resolution.process, done]
  rfl

theorem process_of_stalled {pass : Nat} {names : List String}
    (stalled : s.resolution.phase = .stalled pass names) :
    s.process sink t = (.error (.stalled pass names), s) := by
  simp only [process, Resolution.process, stalled]
  rfl

theorem finish_of_done {receipt : ρ} (done : s.resolution.phase = .done receipt) :
    s.finish sink = (.ok (), s) := by
  simp only [finish, Resolution.finish, done]
  rfl

theorem finish_of_stalled {pass : Nat} {names : List String}
    (stalled : s.resolution.phase = .stalled pass names) :
    s.finish sink = (.error (.stalled pass names), s) := by
  simp only [finish, Resolution.finish, stalled]
  rfl

end

def absorb (s : Session σ ε ρ) (t : Table) : Session σ ε ρ where
  resolution := s.resolution.absorb (t.roundView s.resolution.config)
  sinkState := s.sinkState
  rounds := s.rounds ++ [t]
  deliveries := s.deliveries

theorem views_absorb (s : Session σ ε ρ) (t : Table) (config : ScanConfig) :
    (s.absorb t).views config = s.views config ++ [t.roundView config] := by
  simp [views, absorb]

def accept (s : Session σ ε ρ) (receipt : ρ) (sinkState : σ) : Session σ ε ρ where
  resolution := { s.resolution with phase := .done receipt }
  sinkState := sinkState
  rounds := s.rounds
  deliveries := s.deliveries ++ [(s.resolution.entries, .ok receipt)]

def refuse (s : Session σ ε ρ) (cause : ε) (sinkState : σ) : Session σ ε ρ where
  resolution := s.resolution
  sinkState := sinkState
  rounds := s.rounds
  deliveries := s.deliveries ++ [(s.resolution.entries, .error cause)]

def stall (s : Session σ ε ρ) : Session σ ε ρ where
  resolution := s.resolution.inPhase (.stalled s.resolution.passes s.resolution.waiting.toList)
  sinkState := s.sinkState
  rounds := s.rounds
  deliveries := s.deliveries

def deliver (sink : Sink σ ε ρ) (s : Session σ ε ρ) : Except (Failure ε) Nat × Session σ ε ρ :=
  match (sink s.resolution.entries).run s.sinkState with
  | (.ok receipt, sinkState) => (.ok s.resolution.entries.size, s.accept receipt sinkState)
  | (.error cause, sinkState) => (.error (.sink cause), s.refuse cause sinkState)

theorem run_deliver (sink : Sink σ ε ρ) (s : Session σ ε ρ) :
    (s.resolution.deliver sink).run s.sinkState =
      (((s.deliver sink).1, (s.deliver sink).2.resolution), (s.deliver sink).2.sinkState) := by
  rw [Resolution.deliver, StateT.run_bind, deliver]
  split
  next receipt sinkState given => rw [given]; rfl
  next cause sinkState given => rw [given]; rfl

theorem run_deliver_noting (sink : Sink σ ε ρ) (s : Session σ ε ρ) :
    (s.resolution.deliver sink.noting).run (s.sinkState, s.deliveries) =
      (((s.deliver sink).1, (s.deliver sink).2.resolution), (s.deliver sink).2.sinkState,
        (s.deliver sink).2.deliveries) := by
  have noted : (sink.noting s.resolution.entries).run (s.sinkState, s.deliveries) =
      (((sink s.resolution.entries).run s.sinkState).1,
        ((sink s.resolution.entries).run s.sinkState).2,
        s.deliveries ++
          [(s.resolution.entries, ((sink s.resolution.entries).run s.sinkState).1)]) := rfl
  rw [Resolution.deliver, StateT.run_bind, noted, deliver]
  split
  next receipt sinkState given => rw [given]; rfl
  next cause sinkState given => rw [given]; rfl

theorem rounds_deliver (sink : Sink σ ε ρ) (s : Session σ ε ρ) :
    (s.deliver sink).2.rounds = s.rounds := by
  unfold deliver
  split <;> rfl

/-- What a round does to a session whose resolution is scanning. -/
theorem process_of_scanning {sink : Sink σ ε ρ} {s : Session σ ε ρ} {t : Table}
    (scanning : s.resolution.phase = .scanning) :
    s.process sink t =
      if (s.absorb t).resolution.waiting = ∅ then
        (((s.absorb t).deliver sink).1.map (.written (s.absorb t).resolution.passes),
          ((s.absorb t).deliver sink).2)
      else if (s.absorb t).resolution.waiting = s.resolution.waiting then
        (.error (.stalled (s.absorb t).resolution.passes (s.absorb t).resolution.waiting.toList),
          (s.absorb t).stall)
      else
        (.ok (.deferred (s.absorb t).resolution.passes (s.absorb t).resolution.waiting.size),
          s.absorb t) := by
  have next : s.resolution.absorb (t.roundView s.resolution.config) = (s.absorb t).resolution := rfl
  simp only [process, Resolution.process, scanning, next, Roster.isEmpty_iff]
  by_cases empty : (s.absorb t).resolution.waiting = ∅
  · have ran : ((s.absorb t).resolution.deliver sink.noting).run (s.sinkState, s.deliveries) = _ :=
      run_deliver_noting sink (s.absorb t)
    rw [if_pos empty, if_pos empty, StateT.run_bind, ran]
    change (_, (⟨_, _, (s.absorb t).rounds, _⟩ : Session σ ε ρ)) = _
    rw [← rounds_deliver sink (s.absorb t)]
  · rw [if_neg empty, if_neg empty]
    by_cases same : (s.absorb t).resolution.waiting = s.resolution.waiting
    · rw [if_pos same, if_pos same]
      rfl
    · rw [if_neg same, if_neg same]
      rfl

/-- What a round can come to while names are scanned. -/
inductive RoundEnd (sink : Sink σ ε ρ) (s : Session σ ε ρ) (t : Table) : Prop
  | written (empty : (s.absorb t).resolution.waiting = ∅) (receipt : ρ) (sinkState : σ)
    (ended : s.process sink t =
      (.ok (.written (s.absorb t).resolution.passes (s.absorb t).resolution.entries.size),
        (s.absorb t).accept receipt sinkState))
  | refused (empty : (s.absorb t).resolution.waiting = ∅) (cause : ε) (sinkState : σ)
    (ended : s.process sink t = (.error (.sink cause), (s.absorb t).refuse cause sinkState))
  | stalled (nonempty : (s.absorb t).resolution.waiting ≠ ∅)
    (same : (s.absorb t).resolution.waiting = s.resolution.waiting)
    (ended : s.process sink t =
      (.error (.stalled (s.absorb t).resolution.passes (s.absorb t).resolution.waiting.toList),
        (s.absorb t).stall))
  | deferred (nonempty : (s.absorb t).resolution.waiting ≠ ∅)
    (changed : (s.absorb t).resolution.waiting ≠ s.resolution.waiting)
    (ended : s.process sink t =
      (.ok (.deferred (s.absorb t).resolution.passes (s.absorb t).resolution.waiting.size),
        s.absorb t))

theorem roundEnd_of_scanning (sink : Sink σ ε ρ) {s : Session σ ε ρ} (t : Table)
    (scanning : s.resolution.phase = .scanning) : RoundEnd sink s t := by
  have whole : s.process sink t = _ := process_of_scanning scanning
  by_cases empty : (s.absorb t).resolution.waiting = ∅
  · rw [if_pos empty, deliver] at whole
    split at whole
    next receipt sinkState _ => exact .written empty receipt sinkState whole
    next cause sinkState _ => exact .refused empty cause sinkState whole
  · rw [if_neg empty] at whole
    by_cases same : (s.absorb t).resolution.waiting = s.resolution.waiting
    · exact .stalled empty same (whole.trans (if_pos same))
    · exact .deferred empty same (whole.trans (if_neg same))

theorem rounds_process {sink : Sink σ ε ρ} {s : Session σ ε ρ} {t : Table}
    (scanning : s.resolution.phase = .scanning) :
    (s.process sink t).2.rounds = s.rounds ++ [t] := by
  rw [process_of_scanning scanning]
  split
  next => exact rounds_deliver sink _
  next => split <;> rfl

theorem finish_of_scanning {sink : Sink σ ε ρ} {s : Session σ ε ρ}
    (scanning : s.resolution.phase = .scanning) :
    s.finish sink =
      if s.resolution.waiting = ∅ then ((s.deliver sink).1.map fun _ => (), (s.deliver sink).2)
      else (.error (.stalled s.resolution.passes s.resolution.waiting.toList), s.stall) := by
  simp only [finish, Resolution.finish, scanning, Roster.isEmpty_iff]
  by_cases empty : s.resolution.waiting = ∅
  · rw [if_pos empty, if_pos empty, StateT.run_bind, run_deliver_noting]
    change (_, (⟨_, _, s.rounds, _⟩ : Session σ ε ρ)) = _
    rw [← rounds_deliver sink s]
  · rw [if_neg empty, if_neg empty]
    rfl

/-- A session does what its resolution does with a sink that notes nothing. -/
theorem run_process (sink : Sink σ ε ρ) (s : Session σ ε ρ) (t : Table) :
    (s.resolution.process sink t).run s.sinkState =
      (((s.process sink t).1, (s.process sink t).2.resolution),
        (s.process sink t).2.sinkState) := by
  cases phase : s.resolution.phase with
  | scanning =>
    have next : s.resolution.absorb (t.roundView s.resolution.config) = (s.absorb t).resolution :=
      rfl
    have ran : ((s.absorb t).resolution.deliver sink).run s.sinkState = _ :=
      run_deliver sink (s.absorb t)
    rw [process_of_scanning phase]
    simp only [Resolution.process, phase, next, Roster.isEmpty_iff]
    split
    next => rw [StateT.run_bind, ran]; rfl
    next => split <;> rfl
  | done receipt =>
    rw [process_of_done phase]
    simp only [Resolution.process, phase]
    rfl
  | stalled pass names =>
    rw [process_of_stalled phase]
    simp only [Resolution.process, phase]
    rfl

theorem run_finish (sink : Sink σ ε ρ) (s : Session σ ε ρ) :
    (s.resolution.finish sink).run s.sinkState =
      (((s.finish sink).1, (s.finish sink).2.resolution), (s.finish sink).2.sinkState) := by
  cases phase : s.resolution.phase with
  | scanning =>
    rw [finish_of_scanning phase]
    simp only [Resolution.finish, phase, Roster.isEmpty_iff]
    split
    next => rw [StateT.run_bind, run_deliver]; rfl
    next => rfl
  | done receipt =>
    rw [finish_of_done phase]
    simp only [Resolution.finish, phase]
    rfl
  | stalled pass names =>
    rw [finish_of_stalled phase]
    simp only [Resolution.finish, phase]
    rfl

end Session

end WrapperGen
