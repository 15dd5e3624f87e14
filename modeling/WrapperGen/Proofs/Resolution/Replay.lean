import WrapperGen.Proofs.Resolution.LastRound

namespace WrapperGen

variable {σ ε ρ : Type}

/-- Two marked types of one name; the local one is rejected and the other one is not. -/
def Table.namesakes : Table :=
  ((∅ : Table).declare ((Declaration.ofLocal "local#1" .classType "Panel").marked .viewModel)).declare
    ((Declaration.ofClass "Panel").marked .viewModel)

namespace Resolution

open RoundView

/-- A round that is taken in a second time is counted once more, and that is all. -/
theorem absorb_absorb (r : Resolution ρ) (v : RoundView) :
    (r.absorb v).absorb v = { r.absorb v with passes := (r.absorb v).passes + 1 } := by
  have entries : ((r.absorb v).absorb v).entries = (r.absorb v).entries := by
    apply Roster.eq_of_find?
    intro q
    rw [find?_entries_absorb, find?_entries_absorb]
    by_cases settled : q ∈ v.settled <;> simp [settled]
  have waiting : ((r.absorb v).absorb v).waiting = (r.absorb v).waiting := by
    apply Roster.eq_of_mem_iff
    intro q
    rw [mem_waiting_absorb, mem_waiting_absorb]
    by_cases deferred : q ∈ v.deferredNames <;> simp [deferred]
  have rejections : ((r.absorb v).absorb v).rejections = (r.absorb v).rejections := by
    -- whatever the round rejects has been said the first time
    have said : (firstOfEach Rejection.report v.rejections).filter
        (·.report ∉ (r.rejections ++ v.rejections).map Rejection.report) = [] := by
      refine List.filter_eq_nil_iff.mpr fun rejection mem => ?_
      have known : rejection ∈ r.rejections ++ v.rejections :=
        List.mem_append_right _ ((firstOfEach_sublist _ _).subset mem)
      have said : rejection.report ∈ (r.rejections ++ v.rejections).map Rejection.report :=
        List.mem_map_of_mem known
      simp only [said, not_true_eq_false, decide_false, Bool.false_eq_true, not_false_eq_true]
    simp only [absorb]
    rw [firstOfEach_append_firstOfEach, firstOfEach_append, said, List.append_nil]
  exact (Resolution.mk.injEq ..).mpr ⟨rfl, rfl, rfl, entries, waiting, rejections⟩

end Resolution

namespace Session

open Resolution

variable {config : ScanConfig} {sink : Sink σ ε ρ} {s : Session σ ε ρ} {t : Table}

theorem resolution_absorb_absorb (s : Session σ ε ρ) (t : Table) :
    ((s.absorb t).absorb t).resolution =
      { (s.absorb t).resolution with passes := (s.absorb t).resolution.passes + 1 } :=
  Resolution.absorb_absorb s.resolution (t.roundView s.resolution.config)

/-- A round that answers that names have to wait is taken in, and that is all. -/
theorem of_process_deferred (scanning : s.resolution.phase = .scanning) {pass count : Nat}
    (answer : (s.process sink t).1 = .ok (.deferred pass count)) :
    (s.absorb t).resolution.waiting ≠ ∅ ∧ pass = (s.absorb t).resolution.passes ∧
      (s.process sink t).2 = s.absorb t := by
  cases roundEnd_of_scanning sink t scanning with
  | deferred nonempty changed ended =>
    rw [ended] at answer ⊢
    cases answer
    exact ⟨nonempty, rfl, rfl⟩
  | written _ _ _ ended | refused _ _ _ ended | stalled _ _ ended =>
    rw [ended] at answer
    cases answer

/-- A round whose manifest is refused is taken in, and the refusal changes nothing but the sink. -/
theorem of_process_refused (scanning : s.resolution.phase = .scanning) {cause : ε}
    (answer : (s.process sink t).1 = .error (.sink cause)) :
    (s.absorb t).resolution.waiting = ∅ ∧
      ∃ sinkState, (s.process sink t).2 = (s.absorb t).refuse cause sinkState := by
  cases roundEnd_of_scanning sink t scanning with
  | refused empty cause' sinkState ended =>
    rw [ended] at answer ⊢
    cases answer
    exact ⟨empty, sinkState, rfl⟩
  | written _ _ _ ended | stalled _ _ ended | deferred _ _ ended =>
    rw [ended] at answer
    cases answer

/-- The same round once more finds the same names waiting. -/
theorem process_absorb (scanning : s.resolution.phase = .scanning)
    (nonempty : (s.absorb t).resolution.waiting ≠ ∅) :
    (s.absorb t).process sink t =
      (.error (.stalled ((s.absorb t).resolution.passes + 1)
        (s.absorb t).resolution.waiting.toList), ((s.absorb t).absorb t).stall) := by
  have again := resolution_absorb_absorb s t
  have still : (s.absorb t).resolution.phase = .scanning := scanning
  rw [process_of_scanning still, if_neg (by rwa [again]), if_pos (by rw [again]), again]

theorem process_again_of_deferred (scanning : s.resolution.phase = .scanning) {pass count : Nat}
    (answer : (s.process sink t).1 = .ok (.deferred pass count)) :
    let again := (s.process sink t).2.process sink t
    again.1 = .error (.stalled (pass + 1) (s.process sink t).2.resolution.waiting.toList) ∧
      again.2.resolution.waiting = (s.process sink t).2.resolution.waiting ∧
      again.2.resolution.entries = (s.process sink t).2.resolution.entries ∧
      again.2.resolution.rejections = (s.process sink t).2.resolution.rejections ∧
      again.2.deliveries = (s.process sink t).2.deliveries := by
  obtain ⟨nonempty, rfl, taken⟩ := of_process_deferred scanning answer
  have same := resolution_absorb_absorb s t
  rw [taken, process_absorb scanning nonempty]
  exact ⟨rfl, by rw [stall, same]; rfl, by rw [stall, same]; rfl, by rw [stall, same]; rfl, rfl⟩

/-- A sink that takes in the end what it has refused gets the same from the end of the rounds and
from the same round once more. -/
theorem finish_and_process_of_refused {r : Session σ ε ρ}
    (scanning : s.resolution.phase = .scanning) (empty : (s.absorb t).resolution.waiting = ∅)
    (same : r.resolution = (s.absorb t).resolution) {receipt : ρ} {next : σ}
    (taken : (sink r.resolution.entries).run r.sinkState = (.ok receipt, next)) :
    r.finish sink = (.ok (), r.accept receipt next) ∧
      r.process sink t = (.ok (.written (r.resolution.passes + 1) r.resolution.entries.size),
        (r.absorb t).accept receipt next) ∧
      (r.absorb t).resolution.entries = r.resolution.entries ∧
      (r.absorb t).resolution.rejections = r.resolution.rejections := by
  have still : r.resolution.phase = .scanning := by rw [same]; exact scanning
  have again : (r.absorb t).resolution =
      { r.resolution with passes := r.resolution.passes + 1 } := by
    have repeated := resolution_absorb_absorb s t
    simp only [absorb, same] at repeated ⊢
    exact repeated
  have taken' : (sink (r.absorb t).resolution.entries).run (r.absorb t).sinkState =
      (.ok receipt, next) := by
    rw [again]
    exact taken
  refine ⟨?_, ?_, by rw [again], by rw [again]⟩
  · rw [finish_of_scanning still, if_pos (same ▸ empty), deliver_of_taken taken]
    rfl
  · rw [process_of_scanning still, if_pos (by rw [again, same]; exact empty),
      deliver_of_taken taken', again]
    rfl

/-- To repeat a round that has left names waiting is a stall, which names them. A round whose
manifest is refused can be made up for: once the sink takes that manifest, it gets it from the end
of the rounds as well as from the same round once more. -/
theorem round_repeated (config : ScanConfig) (sink : Sink σ ε ρ) (sinkState : σ)
    (events : List (Event σ)) (t : Table) :
    let s := (start config sinkState).run sink events
    let after := (s.process sink t).2
    let m := after.resolution.entries
    s.resolution.phase = .scanning →
    (∀ pass count, (s.process sink t).1 = .ok (.deferred pass count) →
      let again := after.process sink t
      again.1 = .error (.stalled (pass + 1) after.resolution.waiting.toList) ∧
        again.2.resolution.waiting = after.resolution.waiting ∧
        again.2.resolution.entries = m ∧
        again.2.resolution.rejections = after.resolution.rejections ∧
        again.2.deliveries = after.deliveries) ∧
    (∀ cause, (s.process sink t).1 = .error (.sink cause) →
      after.resolution.phase = .scanning ∧ after.resolution.waiting = ∅ ∧
        after.resolution.passes = s.resolution.passes + 1 ∧
        after.deliveries = s.deliveries ++ [(m, .error cause)] ∧
        ∀ state receipt next, (sink m).run state = (.ok receipt, next) →
          let mended := after.step sink (.change fun _ => state)
          let ended := mended.finish sink
          let retried := mended.process sink t
          (ended.1 = .ok () ∧ ended.2.resolution.isDone = true ∧
            ended.2.deliveries = after.deliveries ++ [(m, .ok receipt)]) ∧
          retried.1 = .ok (.written (after.resolution.passes + 1) m.size) ∧
            retried.2.resolution.isDone = true ∧
            retried.2.deliveries = after.deliveries ++ [(m, .ok receipt)] ∧
            retried.2.resolution.rejections = after.resolution.rejections) := by
  intro s after m scanning
  refine ⟨fun pass count answer => process_again_of_deferred scanning answer, ?_⟩
  intro cause answer
  obtain ⟨empty, refusedState, refused⟩ := of_process_refused scanning answer
  have left : after = (s.absorb t).refuse cause refusedState := refused
  have same : after.resolution = (s.absorb t).resolution := by
    rw [left]
    rfl
  refine ⟨same ▸ scanning, same ▸ empty, congrArg passes same, ?_, ?_⟩
  · simp only [m, left]
    rfl
  · intro state receipt next taken mended ended retried
    obtain ⟨finished, processed, entries, rejections⟩ :=
      finish_and_process_of_refused (r := mended) scanning empty same taken
    constructor
    · rw [show ended = _ from finished]
      exact ⟨rfl, rfl, rfl⟩
    · have delivered : ((mended.absorb t).accept receipt next).deliveries =
          after.deliveries ++ [(m, .ok receipt)] := by
        change after.deliveries ++ [((mended.absorb t).resolution.entries, .ok receipt)] = _
        rw [entries]
        rfl
      rw [show retried = _ from processed]
      exact ⟨rfl, rfl, delivered, rejections⟩

theorem earlySample_deferred :
    ((start .standard true).process Sink.flaky .earlySample).1 = .ok (.deferred 1 1) := by
  cbv

/-- The round rejects one type of the name and has an entry for the other one. -/
theorem namesakes_refused :
    ((start .standard true).process Sink.flaky .namesakes).1 = .error (.sink ()) ∧
      ((start .standard true).process Sink.flaky .namesakes).2.resolution.rejections =
        [.unresolvableSymbol "Panel"] ∧
      ((start .standard true).process Sink.flaky .namesakes).2.resolution.entries.names =
        ["Panel"] := by
  cbv

/-- The early sample is left waiting and stalls when it is repeated. The manifest of the namesakes
is refused at first and taken afterwards. -/
theorem panel_written_in_the_end :
    let s : Session Bool Unit Unit := start .standard true
    let early := (s.process Sink.flaky .earlySample).2
    let refused := (s.process Sink.flaky .namesakes).2
    let mended := refused.step Sink.flaky (.change fun _ => false)
    s.resolution.phase = .scanning ∧
      (s.process Sink.flaky .earlySample).1 = .ok (.deferred 1 1) ∧
      (early.process Sink.flaky .earlySample).1 =
        .error (.stalled 2 early.resolution.waiting.toList) ∧
      (s.process Sink.flaky .namesakes).1 = .error (.sink ()) ∧
      refused.resolution.rejections = [.unresolvableSymbol "Panel"] ∧
      refused.resolution.entries.names = ["Panel"] ∧
      (Sink.flaky refused.resolution.entries).run false = (.ok (), false) ∧
      (mended.process Sink.flaky .namesakes).1 =
        .ok (.written (refused.resolution.passes + 1) refused.resolution.entries.size) ∧
      (mended.finish Sink.flaky).1 = .ok () := by
  intro s early refused mended
  obtain ⟨stalls, -⟩ := round_repeated .standard Sink.flaky true [] .earlySample rfl
  obtain ⟨-, recovers⟩ := round_repeated .standard Sink.flaky true [] .namesakes rfl
  obtain ⟨-, -, -, -, later⟩ := recovers () namesakes_refused.1
  have willing : (Sink.flaky refused.resolution.entries).run false = (.ok (), false) := rfl
  obtain ⟨⟨ended, -, -⟩, retried, -, -, -⟩ := later false () false willing
  obtain ⟨failed, rejections, names⟩ := namesakes_refused
  exact ⟨rfl, earlySample_deferred, (stalls 1 1 earlySample_deferred).1, failed, rejections, names,
    willing, retried, ended⟩

end Session

end WrapperGen
