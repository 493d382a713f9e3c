import Mathlib.Data.List.Pairwise
import Mathlib.Tactic

namespace Syslib.Ledgers

variable {Entry Region : Type*} {apart : Entry → Entry → Prop} {within : Region → Entry → Bool}
  {regions : Region → Prop} {live : List Entry} {entry : Entry} {region : Region}

/-- Entries are apart when those of one region are apart and those of two regions are as well. -/
theorem pairwise_of_regions (covered : ∀ entry ∈ live, ∃ region, regions region ∧ within region entry = true)
    (inside : ∀ region, regions region → (live.filter (within region)).Pairwise apart)
    (outside : ∀ first ∈ live, ∀ second ∈ live, ∀ region, regions region → within region first = true →
      within region second = false → apart first second) : live.Pairwise apart := by
  induction live with
  | nil => exact List.Pairwise.nil
  | cons first rest ih =>
      refine List.pairwise_cons.mpr ⟨fun second later => ?_, ih ?_ ?_ ?_⟩
      · obtain ⟨region, known, here⟩ := covered first List.mem_cons_self
        cases there : within region second with
        | false =>
            exact outside first List.mem_cons_self second (List.mem_cons_of_mem _ later) region known here there
        | true =>
            have both := inside region known
            rw [List.filter_cons_of_pos here] at both
            exact (List.pairwise_cons.mp both).1 second (List.mem_filter.mpr ⟨later, there⟩)
      · exact fun entry later => covered entry (List.mem_cons_of_mem _ later)
      · intro region known
        exact (inside region known).sublist ((List.sublist_cons_self first rest).filter _)
      · intro one inOne other inOther
        exact outside one (List.mem_cons_of_mem _ inOne) other (List.mem_cons_of_mem _ inOther)

/-- The entries of a region lose what the whole ledger loses. -/
theorem filter_region (keep : Entry → Bool) :
    (live.filter keep).filter (within region) = (live.filter (within region)).filter keep := by
  rw [List.filter_filter, List.filter_filter]
  exact List.filter_congr fun entry _ => Bool.and_comm _ _

/-- A region without the lost entries keeps all of its own. -/
theorem filter_elsewhere {keep : Entry → Bool}
    (outside : ∀ entry ∈ live, within region entry = true → keep entry = true) :
    (live.filter keep).filter (within region) = live.filter (within region) := by
  rw [List.filter_filter]
  refine List.filter_congr fun entry member => ?_
  cases here : within region entry with
  | false => rfl
  | true => simp [outside entry member here]

end Syslib.Ledgers
