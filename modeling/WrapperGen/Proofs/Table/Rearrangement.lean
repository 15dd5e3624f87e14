import Mathlib.Data.List.Find
import Mathlib.Data.List.Nodup
import Mathlib.Data.List.Pairwise
import WrapperGen.Proofs.Resolution.RoundView
import WrapperGen.Proofs.Table.Frame

namespace WrapperGen

theorem eq_of_nodup_filterMap {α β : Type} {f : α → Option β} {l : List α}
    (nodup : (l.filterMap f).Nodup) {a a' : α} (mem : a ∈ l) (mem' : a' ∈ l) {b : β}
    (value : f a = some b) (value' : f a' = some b) : a = a' := by
  by_contra different
  have apart := List.pairwise_filterMap.mp nodup
  have symmetric : Std.Symm fun a a' => ∀ b, f a = some b → ∀ b', f a' = some b' → b ≠ b' :=
    ⟨fun _ _ h b value b' value' same => h b' value' b value same.symm⟩
  exact apart.forall mem mem' different b value b value' rfl

/-- If one element at most is looked for, the last one of a list is the last one in another order. -/
theorem find?_reverse_of_perm {α : Type} {p : α → Bool} {l l' : List α} (perm : l.Perm l')
    (unique : ∀ a ∈ l, ∀ b ∈ l, p a = true → p b = true → a = b) :
    l.reverse.find? p = l'.reverse.find? p := by
  have reversed : l.reverse.Perm l'.reverse :=
    (List.reverse_perm l).trans (perm.trans (List.reverse_perm l').symm)
  refine List.find?_eq_find?_of_perm reversed ?_
  rintro a ⟨mem, found⟩ b ⟨mem', found'⟩
  exact unique a (List.mem_reverse.mp mem) b (List.mem_reverse.mp mem') found found'

/-- What one round shows, in another order. No two of the entries are of one name. -/
structure RoundView.Rearranged (v w : RoundView) : Prop where
  resolved : v.resolved.Perm w.resolved
  deferred : v.deferred.Perm w.deferred
  rejections : v.rejections.Perm w.rejections
  distinct : (v.resolved.map Entry.className).Nodup

namespace Table

/-- The same rows in another order, and the same types that are known by name alone. No two of the
rows are of one qualified name. -/
structure Rearranged (t u : Table) : Prop where
  rows : t.rows.Perm u.rows
  externals : ∀ n, n ∈ t.externals ↔ n ∈ u.externals
  distinct : (t.rows.filterMap (·.declaration.qualifiedName)).Nodup

namespace Rearranged

variable {t u : Table}

theorem row?_eq (h : t.Rearranged u) (id : String) : t.row? id = u.row? id := by
  refine List.find?_eq_find?_of_perm h.rows ?_
  rintro a ⟨mem, named⟩ b ⟨mem', named'⟩
  have same : a.id = b.id := (beq_iff_eq.mp named).trans (beq_iff_eq.mp named').symm
  exact List.inj_on_of_nodup_map t.distinct mem mem' same

theorem declared?_eq (h : t.Rearranged u) (q : String) : t.declared? q = u.declared? q := by
  refine find?_reverse_of_perm h.rows ?_
  intro a mem b mem' named named'
  exact eq_of_nodup_filterMap h.distinct mem mem' (beq_iff_eq.mp named) (beq_iff_eq.mp named')

theorem namedSimply_perm (h : t.Rearranged u) (name : String) :
    (t.namedSimply name).Perm (u.namedSimply name) :=
  h.rows.filter _

/-- Of several declarations of a simple name none counts, so the order of them does not matter. -/
theorem resolveName_eq (h : t.Rearranged u) : t.resolveName = u.resolveName := by
  funext name
  have perm := h.namedSimply_perm name
  unfold resolveName
  simp only [h.declared?_eq, h.externals]
  by_cases one : ∃ row, t.namedSimply name = [row]
  · obtain ⟨row, one⟩ := one
    rw [one] at perm
    rw [one, List.singleton_perm.mp perm]
  · have one' : ¬∃ row, u.namedSimply name = [row] := by
      rintro ⟨row, one'⟩
      rw [one'] at perm
      exact one ⟨row, List.perm_singleton.mp perm⟩
    split
    next => rfl
    next =>
      split
      next => rfl
      next =>
        split
        next => rfl
        next =>
          split
          next row same => exact absurd ⟨row, same⟩ one
          next =>
            split
            next row same => exact absurd ⟨row, same⟩ one'
            next => rfl

theorem agrees (h : t.Rearranged u) (type : TypeRef) : u.Agrees t type :=
  fun name _ => congrFun h.resolveName_eq name

theorem knows_eq (h : t.Rearranged u) : t.knows = u.knows := by
  funext type
  exact (h.agrees type).knows_eq

theorem parents_eq (h : t.Rearranged u) : t.parents = u.parents := by
  funext row
  simp only [parents, h.resolveName_eq, h.declared?_eq]

/-- The walk asks of the rows that it has not met only whether one is among them. -/
theorem visit_eq (h : t.Rearranged u) {unseen unseen' stack : List Row}
    (perm : unseen.Perm unseen') : t.visit unseen stack = u.visit unseen' stack := by
  fun_induction visit t unseen stack generalizing unseen' with
  | case1 unseen => rw [visit]
  | case2 unseen row stack met ih =>
    rw [visit, dif_pos (perm.any_eq ▸ met), ih (perm.filter _), h.parents_eq]
    rfl
  | case3 unseen row stack unmet ih =>
    rw [visit, dif_neg (perm.any_eq ▸ unmet), ih perm]

theorem visibleMembers_eq (h : t.Rearranged u) : t.visibleMembers = u.visibleMembers := by
  funext row
  simp only [visibleMembers, ancestry, h.visit_eq h.rows]

theorem markedMembers_eq (h : t.Rearranged u) : t.markedMembers = u.markedMembers := by
  funext id m
  simp only [markedMembers, h.row?_eq, h.visibleMembers_eq]

theorem isReady_eq (h : t.Rearranged u) : t.isReady = u.isReady := by
  funext id
  simp only [isReady, h.row?_eq, h.visibleMembers_eq, h.knows_eq]

theorem candidates_perm (h : t.Rearranged u) : t.candidates.Perm u.candidates := by
  simp only [candidates, markedSymbols, h.markedMembers_eq]
  exact ((h.rows.filter _).map _).map _

theorem build_eq (h : t.Rearranged u) : t.build = u.build := by
  funext config c
  exact build_eq_of_agrees (fun _ _ type _ => h.agrees type)
    (fun _ _ type _ => h.agrees type) config

theorem nodup_candidates (h : t.Rearranged u) :
    (t.candidates.filterMap (·.symbol.qualifiedName)).Nodup := by
  have names : t.candidates.filterMap (·.symbol.qualifiedName) =
      (t.rows.filter fun row => Marker.viewModel.isAmong row.declaration.annotations).filterMap
        (·.declaration.qualifiedName) := by
    simp only [candidates, markedSymbols, List.filterMap_map]
    rfl
  rw [names]
  exact h.distinct.sublist (List.filter_sublist.filterMap _)

theorem roundView (h : t.Rearranged u) (config : ScanConfig) :
    (t.roundView config).Rearranged (u.roundView config) := by
  have entry : t.found? config = u.found? config := by
    funext c
    simp only [found?, h.isReady_eq, h.build_eq]
  have rejection : t.rejection? config = u.rejection? config := by
    funext c
    simp only [rejection?, h.isReady_eq, h.build_eq]
  unfold Table.roundView
  rw [RoundView.ofCandidates_eq, RoundView.ofCandidates_eq, ← entry, ← rejection, ← h.isReady_eq]
  have perm := h.candidates_perm
  refine ⟨perm.filterMap _, (perm.filter _).map _, perm.filterMap _, ?_⟩
  refine List.pairwise_map.mpr (List.pairwise_filterMap.mpr ?_)
  refine (List.pairwise_filterMap.mp h.nodup_candidates).imp ?_
  intro c c' apart e built e' built'
  exact apart _ (build_qualifiedName (found?_eq_some_iff.mp built).2) _
    (build_qualifiedName (found?_eq_some_iff.mp built').2)

end Rearranged

end Table

end WrapperGen
