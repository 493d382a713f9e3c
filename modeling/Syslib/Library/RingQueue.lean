import Mathlib.Data.List.Basic
import Mathlib.Tactic

namespace Syslib.RingQueue

variable {α : Type*}

/-- The segment reads `count` cells from `start` upwards. -/
def segment (cells : Nat → α) (start count : Nat) : List α :=
  (List.range count).map fun index => cells (start + index)

/-- A store overwrites the cells from `start` with the data and keeps the others. -/
def store (cells : Nat → α) (start : Nat) (data : List α) : Nat → α := fun index =>
  if start ≤ index then (data[index - start]?).getD (cells index) else cells index

/-- The offsets encode one unwrapped or one wrapped queue. -/
def held (cells : Nat → α) (size read write : Nat) : List α :=
  if read ≤ write then segment cells read (write - read)
  else segment cells read (size - read) ++ segment cells 0 write

@[simp] theorem segment_zero (cells : Nat → α) (start : Nat) :
    segment cells start 0 = [] := rfl

@[simp] theorem segment_length (cells : Nat → α) (start count : Nat) :
    (segment cells start count).length = count := by
  simp [segment]

theorem segment_eq (cells : Nat → α) (start count : Nat) :
    segment cells start count = (List.range' start count).map cells := by
  rw [segment, List.range'_eq_map_range, List.map_map]
  rfl

theorem segment_append (cells : Nat → α) (start first second : Nat) :
    segment cells start (first + second) =
      segment cells start first ++ segment cells (start + first) second := by
  simp [segment, List.range_add, Function.comp_def, Nat.add_assoc]

@[simp] theorem store_nil (cells : Nat → α) (start : Nat) : store cells start [] = cells := by
  funext index
  simp [store]

theorem store_inside (cells : Nat → α) (start index : Nat) (data : List α)
    (inside : index < data.length) : store cells start data (start + index) = data[index] := by
  simp [store, inside]

theorem store_outside (cells : Nat → α) (start index : Nat) (data : List α)
    (outside : index < start ∨ start + data.length ≤ index) :
    store cells start data index = cells index := by
  unfold store
  split
  · have past : data.length ≤ index - start := by omega
    simp [List.getElem?_eq_none past]
  · rfl

/-- A store is read back by the segment that it covers. -/
theorem segment_store (cells : Nat → α) (start : Nat) (data : List α) :
    segment (store cells start data) start data.length = data := by
  apply List.ext_getElem
  · simp
  · intro index _ inside
    simp only [segment, List.getElem_map, List.getElem_range]
    exact store_inside cells start index data inside

/-- A store leaves each disjoint segment unchanged. -/
theorem segment_store_disjoint (cells : Nat → α) (start count from_ : Nat) (data : List α)
    (apart : start + count ≤ from_ ∨ from_ + data.length ≤ start) :
    segment (store cells from_ data) start count = segment cells start count := by
  apply List.map_congr_left
  intro index inside
  have bound := List.mem_range.mp inside
  exact store_outside cells from_ (start + index) data (by omega)

@[simp] theorem held_empty (cells : Nat → α) (size offset : Nat) :
    held cells size offset offset = [] := by
  simp [held]

theorem held_unwrapped (cells : Nat → α) {size read write : Nat} (order : read ≤ write) :
    held cells size read write = segment cells read (write - read) := if_pos order

theorem held_wrapped (cells : Nat → α) {size read write : Nat} (order : write < read) :
    held cells size read write = segment cells read (size - read) ++ segment cells 0 write :=
  if_neg (Nat.not_le.mpr order)

theorem held_length (cells : Nat → α) (size read write : Nat) : (held cells size read write).length =
    if read ≤ write then write - read else size - read + write := by
  unfold held
  split <;> simp

/-- An unwrapped store below the end appends its data to the queue. -/
theorem held_store_unwrapped (cells : Nat → α) {size read write : Nat} (data : List α)
    (order : read ≤ write) :
    held (store cells write data) size read (write + data.length) =
      held cells size read write ++ data := by
  have grown : write + data.length - read = (write - read) + data.length := by omega
  rw [held_unwrapped _ (by omega), held_unwrapped _ order, grown, segment_append,
    segment_store_disjoint _ _ _ _ _ (by omega), show read + (write - read) = write by omega,
    segment_store]

/-- A store in the gap of a wrapped queue appends its data while the gap stays open. -/
theorem held_store_wrapped (cells : Nat → α) {size read write : Nat} (data : List α)
    (gap : write + data.length < read) :
    held (store cells write data) size read (write + data.length) =
      held cells size read write ++ data := by
  have prefix_ := segment_append (store cells write data) 0 write data.length
  rw [held_wrapped _ gap, held_wrapped _ (by omega), segment_store_disjoint _ read _ _ _ (by omega),
    prefix_, segment_store_disjoint _ 0 _ _ _ (by omega), Nat.zero_add, segment_store,
    List.append_assoc]

/-- A store that runs over the end continues at the start and stays below the read offset. -/
theorem held_store_split (cells : Nat → α) {size read write : Nat} (first second : List α)
    (order : read ≤ write) (full : write + first.length = size) (room : second.length < read) :
    held (store (store cells write first) 0 second) size read second.length =
      held cells size read write ++ (first ++ second) := by
  have tail : segment (store cells write first) read (size - read) =
      segment cells read (write - read) ++ first := by
    rw [show size - read = (write - read) + first.length by omega, segment_append,
      segment_store_disjoint _ _ _ _ _ (by omega), show read + (write - read) = write by omega,
      segment_store]
  rw [held_wrapped _ room, held_unwrapped _ order, segment_store_disjoint _ read _ _ _ (by omega),
    tail, segment_store, List.append_assoc]

/-- A read inside one stretch removes the front of the queue. -/
theorem held_take_unwrapped (cells : Nat → α) (size : Nat) {read write : Nat} (count : Nat)
    (enough : read + count ≤ write) :
    held cells size read write = segment cells read count ++ held cells size (read + count) write := by
  rw [held_unwrapped _ (by omega), held_unwrapped _ enough, ← segment_append]
  congr 1
  omega

/-- A read up to the end of a wrapped queue keeps the wrapped form. -/
theorem held_take_wrapped (cells : Nat → α) {size read write : Nat} (count : Nat)
    (order : write < read) (enough : read + count ≤ size) :
    held cells size read write = segment cells read count ++ held cells size (read + count) write := by
  rw [held_wrapped _ order, held_wrapped _ (by omega), ← List.append_assoc, ← segment_append]
  congr 2
  omega

/-- A read over the end continues at the start and ends unwrapped. -/
theorem held_take_split (cells : Nat → α) {size read write : Nat} (count : Nat)
    (order : write < read) (enough : count ≤ write) :
    held cells size read write =
      (segment cells read (size - read) ++ segment cells 0 count) ++ held cells size count write := by
  have front : segment cells 0 write = segment cells 0 count ++ segment cells count (write - count) := by
    rw [show write = count + (write - count) by omega, segment_append]
    simp
  rw [held_wrapped _ order, held_unwrapped _ enough, front, List.append_assoc]

end Syslib.RingQueue
