import WrapperGen.Declaration.Text
import WrapperGen.Manifest.Text
import WrapperGen.Proofs.Resolution.Delivery
import WrapperGen.Proofs.Table.Rearrangement

namespace WrapperGen

variable {σ ε ρ : Type}

/-- The identity that a declaration has wherever it stands. -/
def Declaration.statedId? (d : Declaration) : Option String := d.id <|> d.qualifiedName

theorem Declaration.idAt_of_statedId? {d : Declaration} {id : String}
    (h : d.statedId? = some id) (count : Nat) : d.idAt count = id := by
  unfold statedId? at h
  unfold idAt
  cases own : d.id with
  | some id' => simpa [own] using h
  | none =>
    cases name : d.qualifiedName with
    | some q => simpa [own, name] using h
    | none => simp [own, name] at h

/-- The row of a declaration that states its identity. -/
def Declaration.row (d : Declaration) : Row := ⟨d.statedId?.getD "", d⟩

namespace Dump

/-- Every declaration has an identity wherever it stands, and no two of them have the same one or
the same qualified name. -/
structure Distinct (d : Dump) : Prop where
  stated : ∀ x ∈ d.declarations, x.statedId?.isSome
  ids : (d.declarations.map Declaration.statedId?).Nodup
  names : (d.declarations.filterMap Declaration.qualifiedName).Nodup

/-- The same declarations in another order, and the same external types. -/
structure Rearranged (d e : Dump) : Prop where
  declarations : d.declarations.Perm e.declarations
  externals : ∀ n, n ∈ d.externals ↔ n ∈ e.externals

theorem Distinct.of_rearranged {d e : Dump} (distinct : d.Distinct) (h : d.Rearranged e) :
    e.Distinct where
  stated x mem := distinct.stated x (h.declarations.mem_iff.mpr mem)
  ids := (h.declarations.map _).nodup_iff.mp distinct.ids
  names := (h.declarations.filterMap _).nodup_iff.mp distinct.names

/-- Declarations of new identities come behind those that are there. -/
theorem rows_foldl_declare {declarations : List Declaration} {t : Table}
    (stated : ∀ x ∈ declarations, x.statedId?.isSome)
    (fresh : ((t.rows ++ declarations.map Declaration.row).map Row.id).Nodup) :
    (declarations.foldl Table.declare t).rows = t.rows ++ declarations.map Declaration.row := by
  induction declarations generalizing t with
  | nil => simp
  | cons x rest ih =>
    obtain ⟨id, given⟩ := Option.isSome_iff_exists.mp (stated x List.mem_cons_self)
    have this : (⟨x.idAt t.size, x⟩ : Row) = x.row := by
      rw [Declaration.idAt_of_statedId? given, Declaration.row, given]
      rfl
    have new : x.row.id ∉ t.rows.map Row.id := by
      intro mem
      rw [List.map_append, List.nodup_append] at fresh
      exact fresh.2.2 _ mem _ (by simp) rfl
    have rows : (t.declare x).rows = t.rows ++ [x.row] := by
      change Row.upsert ⟨x.idAt t.size, x⟩ t.rows = _
      rw [this, Row.upsert_of_fresh new]
    have behind : t.rows ++ (x :: rest).map Declaration.row =
        (t.declare x).rows ++ rest.map Declaration.row := by
      rw [rows, List.append_assoc]
      rfl
    rw [behind] at fresh ⊢
    exact ih (fun y mem => stated y (List.mem_cons_of_mem _ mem)) fresh

theorem externals_foldl_declare (declarations : List Declaration) (t : Table) :
    (declarations.foldl Table.declare t).externals = t.externals := by
  induction declarations generalizing t with
  | nil => rfl
  | cons x rest ih => rw [List.foldl_cons, ih]; rfl

theorem rows_foldl_withExternal (names : List String) (t : Table) :
    (names.foldl Table.withExternal t).rows = t.rows := by
  induction names generalizing t with
  | nil => rfl
  | cons n rest ih => rw [List.foldl_cons, ih]; rfl

theorem mem_foldl_withExternal {names : List String} {t : Table} {n : String} :
    n ∈ (names.foldl Table.withExternal t).externals ↔ n ∈ names ∨ n ∈ t.externals := by
  induction names generalizing t with
  | nil => simp
  | cons m rest ih =>
    rw [List.foldl_cons, ih, Table.withExternal]
    by_cases known : m ∈ t.externals
    · by_cases same : n = m <;> simp [known, same]
    · by_cases same : n = m <;> simp [known, same]

theorem mem_externals_table {d : Dump} {n : String} :
    n ∈ d.table.externals ↔ n ∈ d.externals := by
  rw [table, externals_foldl_declare, mem_foldl_withExternal]
  exact or_iff_left List.not_mem_nil

theorem Distinct.rows_table {d : Dump} (distinct : d.Distinct) :
    d.table.rows = d.declarations.map Declaration.row := by
  have none_yet : (d.externals.foldl Table.withExternal ∅).rows = [] := rows_foldl_withExternal _ _
  have ids : ((d.declarations.map Declaration.row).map Row.id).Nodup := by
    rw [List.map_map]
    refine List.pairwise_map.mpr ((List.pairwise_map.mp distinct.ids).imp_of_mem ?_)
    intro x y memX memY apart same
    obtain ⟨id, given⟩ := Option.isSome_iff_exists.mp (distinct.stated x memX)
    obtain ⟨id', given'⟩ := Option.isSome_iff_exists.mp (distinct.stated y memY)
    rw [given, given'] at apart
    simp only [Function.comp, Declaration.row, given, given', Option.getD_some] at same
    exact apart (congrArg some same)
  have rows := rows_foldl_declare (t := d.externals.foldl Table.withExternal ∅) distinct.stated
  rw [none_yet] at rows
  exact rows ids

theorem Rearranged.table {d e : Dump} (h : d.Rearranged e) (distinct : d.Distinct) :
    d.table.Rearranged e.table where
  rows := by
    rw [distinct.rows_table, (distinct.of_rearranged h).rows_table]
    exact h.declarations.map _
  externals n := by rw [mem_externals_table, mem_externals_table, h.externals]
  distinct := by
    rw [distinct.rows_table, List.filterMap_map]
    exact distinct.names

end Dump

namespace RoundView

variable {v w : RoundView}

theorem Rearranged.latest?_eq (h : v.Rearranged w) (q : String) : v.latest? q = w.latest? q := by
  rw [latest?, latest?, List.findRev?_eq_find?_reverse, List.findRev?_eq_find?_reverse]
  refine find?_reverse_of_perm h.resolved ?_
  intro a mem b mem' named named'
  have same : a.className = b.className := (beq_iff_eq.mp named).trans (beq_iff_eq.mp named').symm
  exact List.inj_on_of_nodup_map h.distinct mem mem' same

theorem Rearranged.mem_settled_iff (h : v.Rearranged w) {q : String} :
    q ∈ v.settled ↔ q ∈ w.settled :=
  ((h.rejections.map _).append (h.resolved.map _)).mem_iff

end RoundView

namespace Resolution

/-- Nothing but the order of the rejections is different, and which of those that say the same is
kept. -/
structure Rearranged (r q : Resolution ρ) : Prop where
  config : r.config = q.config
  phase : r.phase = q.phase
  passes : r.passes = q.passes
  entries : r.entries = q.entries
  waiting : r.waiting = q.waiting
  reports : (r.rejections.map Rejection.report).Perm (q.rejections.map Rejection.report)

theorem Rearranged.absorb {r q : Resolution ρ} {v w : RoundView} (h : r.Rearranged q)
    (views : v.Rearranged w) : (r.absorb v).Rearranged (q.absorb w) where
  config := h.config
  phase := h.phase
  passes := congrArg (· + 1) h.passes
  entries := by
    apply Roster.eq_of_find?
    intro n
    simp only [find?_entries_absorb, views.mem_settled_iff, views.latest?_eq, h.entries]
  waiting := by
    apply Roster.eq_of_mem_iff
    intro n
    have deferred : n ∈ v.deferredNames ↔ n ∈ w.deferredNames := (views.deferred.map _).mem_iff
    rw [mem_waiting_absorb, mem_waiting_absorb, deferred, views.mem_settled_iff, h.waiting]
  reports := by
    refine (List.perm_ext_iff_of_nodup (nodup_firstOfEach _ _) (nodup_firstOfEach _ _)).mpr ?_
    intro report
    have perm := h.reports.append (views.rejections.map Rejection.report)
    rw [mem_map_firstOfEach, mem_map_firstOfEach, List.map_append, List.map_append]
    exact perm.mem_iff

end Resolution

namespace Session

/-- Two sessions that their sink cannot tell apart. -/
structure Rearranged (s s' : Session σ ε ρ) : Prop where
  resolution : s.resolution.Rearranged s'.resolution
  sinkState : s.sinkState = s'.sinkState
  deliveries : s.deliveries = s'.deliveries

/-- The same call, in which the declarations of a round may come in another order. -/
inductive Event.Rearranged : Event σ → Event σ → Prop where
  | round {d e : Dump} : d.Distinct → d.Rearranged e → Rearranged (.round d.table) (.round e.table)
  | finish : Rearranged .finish .finish
  | change (f : σ → σ) : Rearranged (.change f) (.change f)

namespace Rearranged

variable {sink : Sink σ ε ρ} {s s' : Session σ ε ρ} {t u : Table}

theorem absorb (h : s.Rearranged s') (tables : t.Rearranged u) :
    (s.absorb t).Rearranged (s'.absorb u) where
  resolution := by
    have views := tables.roundView s.resolution.config
    rw [Session.absorb, Session.absorb, ← h.resolution.config]
    exact h.resolution.absorb views
  sinkState := h.sinkState
  deliveries := h.deliveries

theorem stall (h : s.Rearranged s') : s.stall.Rearranged s'.stall where
  resolution := {
    config := h.resolution.config
    phase := by
      change Phase.stalled s.resolution.passes s.resolution.waiting.toList = .stalled _ _
      rw [h.resolution.passes, h.resolution.waiting]
    passes := h.resolution.passes
    entries := h.resolution.entries
    waiting := h.resolution.waiting
    reports := h.resolution.reports }
  sinkState := h.sinkState
  deliveries := h.deliveries

theorem deliver (h : s.Rearranged s') (sink : Sink σ ε ρ) :
    (s.deliver sink).1 = (s'.deliver sink).1 ∧ (s.deliver sink).2.Rearranged (s'.deliver sink).2 := by
  have entries := h.resolution.entries
  unfold Session.deliver
  rw [← entries, ← h.sinkState]
  split
  next receipt next _ =>
    refine ⟨rfl, ?_, rfl, ?_⟩
    · exact ⟨h.resolution.config, rfl, h.resolution.passes, entries, h.resolution.waiting,
        h.resolution.reports⟩
    · simp only [accept, entries, h.deliveries]
  next cause next _ =>
    refine ⟨rfl, h.resolution, rfl, ?_⟩
    simp only [refuse, entries, h.deliveries]

theorem process (h : s.Rearranged s') (tables : t.Rearranged u) :
    (s.process sink t).1 = (s'.process sink u).1 ∧
      (s.process sink t).2.Rearranged (s'.process sink u).2 := by
  have phases := h.resolution.phase
  cases phase : s.resolution.phase with
  | done receipt =>
    rw [process_of_done phase, process_of_done (phases ▸ phase)]
    exact ⟨rfl, h⟩
  | stalled pass names =>
    rw [process_of_stalled phase, process_of_stalled (phases ▸ phase)]
    exact ⟨rfl, h⟩
  | scanning =>
    have next := h.absorb tables
    rw [process_of_scanning phase, process_of_scanning (phases ▸ phase),
      ← next.resolution.waiting, ← next.resolution.passes, ← h.resolution.waiting]
    split
    next =>
      obtain ⟨answer, after⟩ := next.deliver sink
      exact ⟨by rw [answer], after⟩
    next =>
      split
      next => exact ⟨rfl, next.stall⟩
      next => exact ⟨rfl, next⟩

theorem finish (h : s.Rearranged s') :
    (s.finish sink).1 = (s'.finish sink).1 ∧ (s.finish sink).2.Rearranged (s'.finish sink).2 := by
  have phases := h.resolution.phase
  cases phase : s.resolution.phase with
  | done receipt =>
    rw [finish_of_done phase, finish_of_done (phases ▸ phase)]
    exact ⟨rfl, h⟩
  | stalled pass names =>
    rw [finish_of_stalled phase, finish_of_stalled (phases ▸ phase)]
    exact ⟨rfl, h⟩
  | scanning =>
    rw [finish_of_scanning phase, finish_of_scanning (phases ▸ phase), ← h.resolution.waiting,
      ← h.resolution.passes]
    split
    next =>
      obtain ⟨answer, after⟩ := h.deliver sink
      exact ⟨by rw [answer], after⟩
    next => exact ⟨rfl, h.stall⟩

theorem step {e e' : Event σ} (h : s.Rearranged s') (events : e.Rearranged e') :
    (s.step sink e).Rearranged (s'.step sink e') := by
  cases events with
  | round distinct dumps => exact (h.process (dumps.table distinct)).2
  | finish => exact h.finish.2
  | change f => exact ⟨h.resolution, congrArg f h.sinkState, h.deliveries⟩

theorem run {events events' : List (Event σ)} (h : s.Rearranged s')
    (related : List.Forall₂ Event.Rearranged events events') :
    (s.run sink events).Rearranged (s'.run sink events') := by
  induction related generalizing s s' with
  | nil => exact h
  | cons first _ ih => exact ih (h.step first)

end Rearranged

/-- The order in which the declarations of each round come does not show. Every call is answered in
the same way, the sink is handed the same manifests, the manifest written has the same text, and the
same is reported. -/
theorem declaration_order_is_hidden (config : ScanConfig) (sink : Sink σ ε ρ) (sinkState : σ)
    {events events' : List (Event σ)} (related : List.Forall₂ Event.Rearranged events events') :
    let s := (start config sinkState).run sink events
    let s' := (start config sinkState).run sink events'
    (∀ d e, Dump.Distinct d → d.Rearranged e →
      (s.process sink d.table).1 = (s'.process sink e.table).1) ∧
    (s.finish sink).1 = (s'.finish sink).1 ∧
    s.deliveries = s'.deliveries ∧ s.sinkState = s'.sinkState ∧
    s.written.map Manifest.text = s'.written.map Manifest.text ∧
    (s.resolution.rejections.map Rejection.report).Perm
      (s'.resolution.rejections.map Rejection.report) := by
  intro s s'
  have same : (start config sinkState : Session σ ε ρ).Rearranged (start config sinkState) :=
    ⟨⟨rfl, rfl, rfl, rfl, rfl, .rfl⟩, rfl, rfl⟩
  have h : s.Rearranged s' := same.run related
  refine ⟨?_, h.finish.1, h.deliveries, h.sinkState, ?_, h.resolution.reports⟩
  · intro d e distinct dumps
    exact (h.process (dumps.table distinct)).1
  · rw [written, written, h.deliveries]

end Session

/-- The dumps of the two samples and of the same declarations the other way round. -/
def Dump.earlySample : Dump := ⟨[.stateful "a.Broken" (.mk "Int" [] false), .waiting], []⟩

def Dump.lateSample : Dump := ⟨[.waiting, .ofClass "a.Later"], []⟩

def Dump.reversed (d : Dump) : Dump := ⟨d.declarations.reverse, d.externals⟩

theorem Dump.rearranged_reversed (d : Dump) : d.Rearranged d.reversed :=
  ⟨d.declarations.reverse_perm.symm, fun _ => .rfl⟩

theorem Dump.distinct_earlySample : Dump.earlySample.Distinct :=
  ⟨by decide +kernel, by decide +kernel, by decide +kernel⟩

theorem Dump.distinct_lateSample : Dump.lateSample.Distinct :=
  ⟨by decide +kernel, by decide +kernel, by decide +kernel⟩

namespace Session

theorem recovery_reversed :
    let late := Dump.lateSample
    let reversed : List (Event Bool) :=
      [.round Dump.earlySample.reversed.table, .change fun _ => true, .round late.reversed.table,
        .change fun _ => false, .finish]
    let s := (start .standard false).run Sink.flaky recovery
    let s' := (start .standard false).run Sink.flaky reversed
    List.Forall₂ Event.Rearranged recovery reversed ∧
      late.Distinct ∧ late.Rearranged late.reversed ∧
      (s.process Sink.flaky late.table).1 = (s'.process Sink.flaky late.reversed.table).1 ∧
      s.resolution.isDone = true ∧ s.written.map Manifest.text = s'.written.map Manifest.text := by
  intro late reversed s s'
  have lateRearranged : late.Rearranged late.reversed := late.rearranged_reversed
  have first : (Event.round (σ := Bool) .earlySample).Rearranged _ :=
    .round Dump.distinct_earlySample (Dump.rearranged_reversed _)
  have third : (Event.round (σ := Bool) .lateSample).Rearranged _ :=
    .round Dump.distinct_lateSample lateRearranged
  have related : List.Forall₂ Event.Rearranged recovery reversed :=
    .cons first (.cons (.change _) (.cons third (.cons (.change _) (.cons .finish .nil))))
  obtain ⟨answers, -, -, -, texts, -⟩ :=
    declaration_order_is_hidden .standard Sink.flaky false related
  have answered := answers late late.reversed Dump.distinct_lateSample lateRearranged
  exact ⟨related, Dump.distinct_lateSample, lateRearranged, answered, recovery_done.1, texts⟩

end Session

end WrapperGen
