import Syslib.Dlist.Model

namespace Syslib.Dlist

open TwoSpeed

instance : Finite Ptr := Finite.of_injective BitVec.toFin fun _ _ => BitVec.eq_of_toFin_eq

theorem getNext_eq {heap : DlHeap} {node : Ptr} (real : node ≠ 0) :
    heap.getNext node = some (heap node).next := if_neg real

theorem getPrev_eq {heap : DlHeap} {node : Ptr} (real : node ≠ 0) :
    heap.getPrev node = some (heap node).prev := if_neg real

/-- A walk that meets no null pointer can read the link of each node that it visits. -/
theorem chase_readable {link : Ptr → Option Ptr} {next : Ptr → Ptr} {stop start : Ptr}
    (reads : ∀ {node}, node ≠ 0 → link node = some (next node)) (sound : ¬ Visits next stop start 0) :
    ∃ met enough, (∀ fuel, enough ≤ fuel → chase link stop fuel start start = some met) ∧
      (met = true ↔ ¬ Reaches next stop start) := by
  apply chase_ends
  intro node visited
  apply reads
  rintro rfl
  exact sound visited

/-- Neither chain runs into a null pointer on its way to the opposite sentinel. -/
structure Followable (heap : DlHeap) (lst : Ptr) : Prop where
  head : lstHead lst ≠ 0
  tail : lstTail lst ≠ 0
  forward : ¬ Visits (fun node => (heap node).next) (lstTail lst) (heap (lstHead lst)).next 0
  backward : ¬ Visits (fun node => (heap node).prev) (lstHead lst) (heap (lstTail lst)).prev 0

/-- One of the chains never comes to the opposite sentinel. -/
def Endless (heap : DlHeap) (lst : Ptr) : Prop :=
  ¬ Reaches (fun node => (heap node).next) (lstTail lst) (heap (lstHead lst)).next ∨
    ¬ Reaches (fun node => (heap node).prev) (lstHead lst) (heap (lstTail lst)).prev

/-- One of the chains runs into a cycle. -/
def Cyclic (heap : DlHeap) (lst : Ptr) : Prop :=
  Loops (fun node => (heap node).next) (lstTail lst) (heap (lstHead lst)).next ∨
    Loops (fun node => (heap node).prev) (lstHead lst) (heap (lstTail lst)).prev

theorem endless_iff {heap : DlHeap} {lst : Ptr} : Endless heap lst ↔ Cyclic heap lst := by
  rw [Endless, Cyclic, loops_iff, loops_iff]

/-- The second chase starts only when the first one came to the tail. -/
theorem lstCheck_ends {heap : DlHeap} {lst : Ptr} (sound : Followable heap lst) :
    ∃ rslt enough, (∀ fuel, enough ≤ fuel → lstCheck heap lst fuel = some rslt) ∧
      (rslt = -1 ∧ Endless heap lst ∨ rslt = 0 ∧ ¬ Endless heap lst) := by
  obtain ⟨ahead, first, ahead_ends, ahead_met⟩ := chase_readable getNext_eq sound.forward
  obtain ⟨back, last, back_ends, back_met⟩ := chase_readable getPrev_eq sound.backward
  have ends : ∀ fuel, max first last ≤ fuel →
      lstCheck heap lst fuel = some (if ahead = true ∨ back = true then -1 else 0) := by
    intro fuel enough
    rw [lstCheck, lstCheckLoop, getNext_eq sound.head, getPrev_eq sound.tail]
    simp only [Option.bind_eq_bind, Option.bind_some, ahead_ends fuel (le_of_max_le_left enough),
      back_ends fuel (le_of_max_le_right enough)]
    cases ahead <;> cases back <;> rfl
  refine ⟨_, _, ends, ?_⟩
  rw [Endless, ← ahead_met, ← back_met]
  split_ifs with met
  · exact Or.inl ⟨rfl, met⟩
  · exact Or.inr ⟨rfl, met⟩

/-- The check ends, and it reports exactly the lists with a chain that runs into a cycle. -/
theorem lstCheck_loops (heap : DlHeap) (lst : Ptr) (sound : Followable heap lst) :
    ∃ rslt enough, (∀ fuel, enough ≤ fuel → lstCheck heap lst fuel = some rslt) ∧
      (rslt = -1 ∨ rslt = 0) ∧ (rslt = -1 ↔ Endless heap lst) ∧ (rslt = -1 ↔ Cyclic heap lst) := by
  obtain ⟨rslt, enough, ends, ⟨rfl, endless⟩ | ⟨rfl, ended⟩⟩ := lstCheck_ends sound
  · exact ⟨-1, enough, ends, Or.inl rfl, by simp [endless], by simp [← endless_iff, endless]⟩
  · exact ⟨0, enough, ends, Or.inr rfl, by simp [ended], by simp [← endless_iff, ended]⟩

/-- The only node of this list is its own successor. -/
def loopHeap : DlHeap := .ofNodes [(32, ⟨0, 64⟩), (64, ⟨32, 64⟩), (48, ⟨64, 0⟩)]

theorem lstCheck_loops_own :
    ∃ enough, ∀ fuel, enough ≤ fuel → lstCheck loopHeap 32 fuel = some (-1) := by
  have stays (count : Nat) : (fun node => (loopHeap node).next)^[count] 64 = 64 :=
    Function.iterate_fixed rfl count
  have sound : Followable loopHeap 32 := by
    refine ⟨by decide, by decide, ?_, ?_⟩
    · rintro ⟨count, null, -⟩
      exact absurd ((stays count).symm.trans null) (by decide)
    · rintro ⟨count, null, before⟩
      cases count with
      | zero => exact absurd null (by decide)
      | succ count => exact before 1 (by omega) rfl
  obtain ⟨rslt, enough, ends, -, -, reported⟩ := lstCheck_loops loopHeap 32 sound
  have cyclic : Cyclic loopHeap 32 :=
    Or.inl ⟨0, 1, by decide, rfl, fun before _ stop => absurd ((stays before).symm.trans stop) (by decide)⟩
  obtain rfl := reported.mpr cyclic
  exact ⟨enough, ends⟩

/-- The page pool checks its free lists one after the other. -/
def pgpCheck (heap : DlHeap) (fuel : Nat) : List Ptr → Option Int
  | [] => some 0
  | lst :: rest => do
      let rslt ← lstCheck heap lst fuel
      if rslt < 0 then some (-1) else pgpCheck heap fuel rest

theorem pgpCheck_loops {heap : DlHeap} {freeLists : List Ptr}
    (sound : ∀ lst ∈ freeLists, Followable heap lst) :
    ∃ rslt enough, (∀ fuel, enough ≤ fuel → pgpCheck heap fuel freeLists = some rslt) ∧
      (rslt = -1 ∧ (∃ lst ∈ freeLists, Endless heap lst) ∨
        rslt = 0 ∧ ∀ lst ∈ freeLists, ¬ Endless heap lst) := by
  induction freeLists with
  | nil => exact ⟨0, 0, fun _ _ => rfl, Or.inr ⟨rfl, by simp⟩⟩
  | cons lst rest ih =>
      obtain ⟨one, first, first_ends, found⟩ := lstCheck_ends (sound lst List.mem_cons_self)
      obtain ⟨rslt, last, last_ends, later⟩ :=
        ih fun other inside => sound other (List.mem_cons_of_mem lst inside)
      rcases found with ⟨rfl, endless⟩ | ⟨rfl, ended⟩
      · refine ⟨-1, first, fun fuel enough => ?_, Or.inl ⟨rfl, lst, List.mem_cons_self, endless⟩⟩
        rw [pgpCheck, first_ends fuel enough]
        rfl
      · refine ⟨rslt, max first last, fun fuel enough => ?_, ?_⟩
        · rw [pgpCheck, first_ends fuel (le_of_max_le_left enough)]
          exact last_ends fuel (le_of_max_le_right enough)
        · simpa [ended] using later

end Syslib.Dlist
