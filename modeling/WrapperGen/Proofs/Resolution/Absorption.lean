import Mathlib.Data.List.Induction
import WrapperGen.Proofs.FirstOfEach
import WrapperGen.Proofs.Resolution.RoundView
import WrapperGen.Proofs.Roster.Lookup

namespace WrapperGen

theorem of_findRev?_eq_some {α : Type} {p : α → Bool} {l : List α} {a : α}
    (found : l.findRev? p = some a) : a ∈ l ∧ p a = true := by
  rw [List.findRev?_eq_find?_reverse] at found
  exact ⟨List.mem_reverse.mp (List.mem_of_find?_eq_some found), List.find?_some found⟩

namespace RoundView

/-- The entry that a round has for a name; of several the last one counts. -/
def latest? (v : RoundView) (q : String) : Option Entry := v.resolved.findRev? (·.className == q)

theorem latest?_isSome_iff {v : RoundView} {q : String} :
    (v.latest? q).isSome ↔ ∃ e ∈ v.resolved, e.className = q := by
  simp [latest?]

def lastSettling (views : List RoundView) (q : String) : Option RoundView :=
  views.findRev? (q ∈ ·.settled)

def lastMentioning (views : List RoundView) (q : String) : Option RoundView :=
  views.findRev? (·.mentions q)

theorem lastSettling_concat (views : List RoundView) (v : RoundView) (q : String) :
    lastSettling (views ++ [v]) q = if q ∈ v.settled then some v else lastSettling views q := by
  by_cases settled : q ∈ v.settled <;> simp [lastSettling, settled]

theorem lastMentioning_concat (views : List RoundView) (v : RoundView) (q : String) :
    lastMentioning (views ++ [v]) q = if v.mentions q then some v else lastMentioning views q := by
  cases mentioned : v.mentions q <;> simp [lastMentioning, mentioned]

theorem of_lastSettling {views : List RoundView} {v : RoundView} {q : String}
    (last : lastSettling views q = some v) : v ∈ views ∧ q ∈ v.settled :=
  (of_findRev?_eq_some last).imp_right decide_eq_true_iff.mp

/-- A name waits for its type to become known if the last round in which it came up deferred it. -/
def Pending (views : List RoundView) (q : String) : Prop :=
  ∃ v, lastMentioning views q = some v ∧ q ∈ v.deferredNames

theorem pending_concat_iff {views : List RoundView} {v : RoundView} {q : String} :
    Pending (views ++ [v]) q ↔ q ∈ v.deferredNames ∨ Pending views q ∧ q ∉ v.settled := by
  simp only [Pending, lastMentioning_concat]
  by_cases deferred : q ∈ v.deferredNames
  · have mentioned : v.mentions q = true := mentions_iff.mpr (.inr deferred)
    simp [mentioned, deferred]
  · by_cases settled : q ∈ v.settled
    · have mentioned : v.mentions q = true := mentions_iff.mpr (.inl settled)
      simp [mentioned, deferred, settled]
    · have unmentioned : v.mentions q = false := by
        rw [Bool.eq_false_iff, ne_eq, mentions_iff, not_or]
        exact ⟨settled, deferred⟩
      simp [unmentioned, deferred, settled]

/-- A name that comes up and does not wait in the end has been settled. -/
theorem lastSettling_of_not_pending {views : List RoundView} {v : RoundView} {q : String}
    (mem : v ∈ views) (mentioned : v.mentions q = true) (notPending : ¬Pending views q) :
    ∃ w, lastSettling views q = some w := by
  have comesUp : (lastMentioning views q).isSome := by
    simpa [lastMentioning] using ⟨v, mem, mentioned⟩
  obtain ⟨last, found⟩ := Option.isSome_iff_exists.mp comesUp
  obtain ⟨hm, hq⟩ := of_findRev?_eq_some found
  have settled : q ∈ last.settled :=
    (mentions_iff.mp hq).resolve_right fun deferred => notPending ⟨last, found, deferred⟩
  have : (lastSettling views q).isSome := by
    simpa [lastSettling] using ⟨last, hm, settled⟩
  exact Option.isSome_iff_exists.mp this

end RoundView

namespace Resolution

open RoundView

variable {ρ : Type}

theorem find?_entries_absorb (r : Resolution ρ) (v : RoundView) (q : String) :
    (r.absorb v).entries.find? q = if q ∈ v.settled then v.latest? q else r.entries.find? q := by
  simp only [absorb, Roster.find?_foldl_insert, Roster.find?_foldl_erase]
  change (v.latest? q).or _ = _
  cases found : v.latest? q with
  | some e =>
    have resolved := latest?_isSome_iff.mp (Option.isSome_of_eq_some found)
    have settled : q ∈ v.settled := mem_settled.mpr (.inr resolved)
    simp [settled]
  | none =>
    have unresolved : ¬∃ e ∈ v.resolved, e.className = q := by
      rw [← latest?_isSome_iff, found]
      simp
    have settled : q ∈ v.settled ↔ q ∈ v.rejections.map Rejection.symbol := by
      simp only [mem_settled, unresolved, or_false, List.mem_map]
    simp [settled]

theorem mem_waiting_absorb {r : Resolution ρ} {v : RoundView} {q : String} :
    q ∈ (r.absorb v).waiting.toList ↔
      q ∈ v.deferredNames ∨ q ∈ r.waiting.toList ∧ q ∉ v.settled := by
  simp [absorb, NameSet.mem_foldl_insert, deferredNames]

def afterRounds (config : ScanConfig) (views : List RoundView) : Resolution ρ :=
  views.foldl absorb (start config)

variable (config : ScanConfig) (views : List RoundView)

theorem afterRounds_concat (v : RoundView) :
    (afterRounds config (views ++ [v]) : Resolution ρ) = (afterRounds config views).absorb v := by
  simp [afterRounds]

theorem config_afterRounds : (afterRounds config views : Resolution ρ).config = config := by
  induction views using List.reverseRecOn with
  | nil => rfl
  | append_singleton views v ih => rw [afterRounds_concat]; exact ih

theorem passes_afterRounds : (afterRounds config views : Resolution ρ).passes = views.length := by
  induction views using List.reverseRecOn with
  | nil => rfl
  | append_singleton views v ih => simp [afterRounds_concat, absorb, ih]

/-- The last round that settles a name decides whether it has an entry, and which. -/
theorem find?_entries_afterRounds (q : String) :
    (afterRounds config views : Resolution ρ).entries.find? q =
      (lastSettling views q).bind (·.latest? q) := by
  induction views using List.reverseRecOn with
  | nil => rfl
  | append_singleton views v ih =>
    rw [afterRounds_concat, find?_entries_absorb, lastSettling_concat, ih]
    by_cases settled : q ∈ v.settled <;> simp [settled]

theorem mem_waiting_afterRounds {q : String} :
    q ∈ (afterRounds config views : Resolution ρ).waiting.toList ↔ Pending views q := by
  induction views using List.reverseRecOn with
  | nil => simp [afterRounds, start, Pending, lastMentioning]
  | append_singleton views v ih =>
    rw [afterRounds_concat, mem_waiting_absorb, pending_concat_iff, ih]

theorem rejections_afterRounds :
    (afterRounds config views : Resolution ρ).rejections =
      firstOfEach Rejection.report (views.flatMap RoundView.rejections) := by
  induction views using List.reverseRecOn with
  | nil => rfl
  | append_singleton views v ih =>
    rw [afterRounds_concat]
    simp only [absorb, ih, firstOfEach_append_firstOfEach, List.flatMap_append,
      List.flatMap_cons, List.flatMap_nil, List.append_nil]

theorem mem_entries_afterRounds {e : Entry} :
    e ∈ (afterRounds config views : Resolution ρ).entries.toList ↔
      ∃ v, lastSettling views e.className = some v ∧ v.latest? e.className = some e := by
  have found : e ∈ (afterRounds config views : Resolution ρ).entries.toList ↔
      (afterRounds config views : Resolution ρ).entries.find? e.className = some e := by
    simp [Roster.find?_eq_some_iff]
  rw [found, find?_entries_afterRounds, Option.bind_eq_some_iff]

theorem accounted_of_lastSettling {v : RoundView} {q : String}
    (last : lastSettling views q = some v) :
    (∃ e ∈ (afterRounds config views : Resolution ρ).entries.toList, e.className = q) ∨
      ∃ r ∈ (afterRounds config views : Resolution ρ).rejections, r.symbol = q := by
  obtain ⟨mem, settled⟩ := of_lastSettling last
  rcases mem_settled.mp settled with ⟨r, hr, same⟩ | resolved
  -- What was dropped has said the same as what is kept, and so under the same name.
  · have reported : r.report ∈ ((afterRounds config views : Resolution ρ).rejections).map
        Rejection.report := by
      rw [rejections_afterRounds, mem_map_firstOfEach]
      exact List.mem_map_of_mem (List.mem_flatMap.mpr ⟨v, mem, hr⟩)
    obtain ⟨r', hr', eq⟩ := List.mem_map.mp reported
    exact .inr ⟨r', hr', (congrArg Report.symbol eq).trans same⟩
  · obtain ⟨e, found⟩ := Option.isSome_iff_exists.mp (latest?_isSome_iff.mpr resolved)
    have name : e.className = q := by
      simpa using (of_findRev?_eq_some found).2
    subst name
    exact .inl ⟨e, (mem_entries_afterRounds config views).mpr ⟨v, last, found⟩, rfl⟩

end Resolution

end WrapperGen
