import Mathlib.Data.List.Forall2
import WrapperGen.Proofs.Resolution.Absorption
import WrapperGen.Proofs.Table.Ancestry

namespace WrapperGen

namespace RoundView

variable {t : Table} {config : ScanConfig} {candidates : List Candidate} {view : RoundView}
  {deferred resolved rejected : List Candidate}

/-- The candidates fall into three lists, each in the order in which they are shown. The first is
what the round defers, the second gives its entries and the third its rejections, each under the
name by which the candidate would have to wait. -/
structure Shares (t : Table) (config : ScanConfig) (candidates : List Candidate) (view : RoundView)
    (deferred resolved rejected : List Candidate) : Prop where
  perm : (deferred ++ (resolved ++ rejected)).Perm candidates
  sublists : deferred.Sublist candidates ∧ resolved.Sublist candidates ∧
    rejected.Sublist candidates
  waits : List.Forall₂ (fun c s => t.isReady c.symbol.id = false ∧ s = c.symbol)
    deferred view.deferred
  built : List.Forall₂ (fun c e => t.isReady c.symbol.id = true ∧ t.build config c = .ok e ∧
    e.className = c.symbol.displayName) resolved view.resolved
  refused : List.Forall₂ (fun c r => t.isReady c.symbol.id = true ∧ t.build config c = .error r ∧
    r.symbol = c.symbol.displayName) rejected view.rejections

theorem exists_shares (t : Table) (config : ScanConfig) (candidates : List Candidate) :
    ∃ deferred resolved rejected,
      Shares t config candidates (ofCandidates t config candidates) deferred resolved rejected := by
  -- each candidate comes first in one of the three lists and is passed over by the other two
  induction candidates with
  | nil => exact ⟨[], [], [], .nil, ⟨.slnil, .slnil, .slnil⟩, .nil, .nil, .nil⟩
  | cons c rest ih =>
    obtain ⟨deferred, resolved, rejected, perm, ⟨first, second, third⟩, waits, built, refused⟩ := ih
    cases ready : t.isReady c.symbol.id with
    | false =>
      refine ⟨c :: deferred, resolved, rejected, perm.cons c, ?_, ?_, ?_, ?_⟩
      · exact ⟨first.cons_cons c, second.cons c, third.cons c⟩
      · simpa [ofCandidates, ready] using waits
      · simpa [ofCandidates, ready] using built
      · simpa [ofCandidates, ready] using refused
    | true =>
      cases entry : t.build config c with
      | ok e =>
        have name := Table.build_className entry
        refine ⟨deferred, c :: resolved, rejected, ?_, ?_, ?_, ?_, ?_⟩
        · exact List.perm_middle.trans (perm.cons c)
        · exact ⟨first.cons c, second.cons_cons c, third.cons c⟩
        · simpa [ofCandidates, ready, entry] using waits
        · simpa [ofCandidates, ready, entry, name] using built
        · simpa [ofCandidates, ready, entry] using refused
      | error r =>
        have name := Table.build_symbol entry
        refine ⟨deferred, resolved, c :: rejected, ?_, ?_, ?_, ?_, ?_⟩
        · rw [← List.append_assoc] at perm ⊢
          exact List.perm_middle.trans (perm.cons c)
        · exact ⟨first.cons c, second.cons c, third.cons_cons c⟩
        · simpa [ofCandidates, ready, entry] using waits
        · simpa [ofCandidates, ready, entry] using built
        · simpa [ofCandidates, ready, entry, name] using refused

/-- No candidate is lost and none is counted twice. -/
theorem Shares.length_add (shares : Shares t config candidates view deferred resolved rejected) :
    view.deferred.length + view.resolved.length + view.rejections.length = candidates.length := by
  have total := shares.perm.length_eq
  have first := shares.waits.length_eq
  have second := shares.built.length_eq
  have third := shares.refused.length_eq
  simp only [List.length_append] at total
  omega

end RoundView

namespace Table

variable {ρ : Type}

theorem map_symbol_candidates (t : Table) :
    t.candidates.map (·.symbol) = t.markedSymbols .viewModel := by
  rw [candidates, List.map_map]
  exact List.map_id' _

theorem nodup_markedSymbols (t : Table) (m : Marker) : ((t.markedSymbols m).map (·.id)).Nodup := by
  have ids : (t.markedSymbols m).map (·.id) =
      (t.rows.filter fun row => m.isAmong row.declaration.annotations).map Row.id := by
    rw [markedSymbols, List.map_map]
    rfl
  rw [ids]
  exact t.distinct.sublist (List.filter_sublist.map Row.id)

/-- A round shows each marked type once: it defers it, has an entry for it or rejects it. What it
settles a type under is the name by which the type would wait, whatever it is rejected for, so that
a name goes on waiting only while a type of that name is deferred or none is shown. -/
theorem types_settled_under_display_names (t : Table) (config : ScanConfig) :
    let view := t.roundView config
    (t.candidates.map (·.symbol) = t.markedSymbols .viewModel ∧
        (t.candidates.map (·.symbol.id)).Nodup) ∧
      (∃ deferred resolved rejected,
        RoundView.Shares t config t.candidates view deferred resolved rejected) ∧
      view.deferred.length + view.resolved.length + view.rejections.length =
        (t.markedSymbols .viewModel).length ∧
      (∀ c, (∀ e, t.build config c = .ok e → e.className = c.symbol.displayName) ∧
        ∀ r, t.build config c = .error r → r.symbol = c.symbol.displayName) ∧
      ∀ (before : Resolution ρ) q, q ∈ (before.absorb view).waiting.toList ↔
        (∃ s ∈ t.markedSymbols .viewModel, t.isReady s.id = false ∧ s.displayName = q) ∨
          q ∈ before.waiting.toList ∧
            ∀ s ∈ t.markedSymbols .viewModel, t.isReady s.id = true → s.displayName ≠ q := by
  intro view
  obtain ⟨deferred, resolved, rejected, shares⟩ := RoundView.exists_shares t config t.candidates
  have symbols := t.map_symbol_candidates
  refine ⟨⟨symbols, ?_⟩, ⟨deferred, resolved, rejected, shares⟩, ?_, fun c => ?_, ?_⟩
  · have ids : t.candidates.map (·.symbol.id) = (t.markedSymbols .viewModel).map (·.id) := by
      rw [← symbols, List.map_map]
      rfl
    rw [ids]
    exact t.nodup_markedSymbols .viewModel
  · have total := shares.length_add
    rw [← symbols, List.length_map]
    exact total
  · exact ⟨fun e => build_className, fun r => build_symbol⟩
  · intro before q
    rw [Resolution.mem_waiting_absorb, mem_deferredNames_roundView, mem_settled_roundView]
    simp only [not_exists, not_and, ne_eq]

end Table

end WrapperGen
