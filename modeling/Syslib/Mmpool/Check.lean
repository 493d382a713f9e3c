import Mathlib.Algebra.BigOperators.Group.List.Basic
import Syslib.Mmpool.Complete

namespace Syslib.Mmpool

open IntrusiveLists Tiling Buddies Runs

namespace MmpoolImpl

/-- The first loop adds the sizes of the blocks with neither of the two bits. -/
def checkBlocks (mmpi : MmpoolImpl) : Nat → Nat → Nat → Option Nat
  | 0, _, _ => none
  | fuel + 1, h, sum =>
      if h < mmpi.limit then
        mmpi.checkBlocks fuel (mmpi.nextBlock h)
          (if (mmpi.head h).flag &&& blockBitUsed = 0 ∧ (mmpi.head h).flag &&& blockBitUnm = 0
            then sum + (mmpi.head h).blockSize else sum)
      else some sum

/-- A descriptor of a block with a flag or of another size ends the check. -/
def checkList (mmpi : MmpoolImpl) (size : Nat) : List Nat → Nat → Option Nat
  | [], sum => some sum
  | fln :: rest, sum =>
      let hd := mmpi.head (mmpi.block fln)
      if hd.flag ≠ 0 ∨ hd.blockSize ≠ size then none else mmpi.checkList size rest (sum + hd.blockSize)

def blockSizeByIdx (mmpi : MmpoolImpl) (idx : Nat) : Nat := blockSize mmpi.minBlockOrder * blockSize idx

def checkLists (mmpi : MmpoolImpl) : Nat → Nat → Nat → Option Nat
  | 0, _, sum => some sum
  | left + 1, idx, sum => do
      let sum ← mmpi.checkList (mmpi.blockSizeByIdx idx) (mmpi.lists (.flh idx)) sum
      mmpi.checkLists left (idx + 1) sum

end MmpoolImpl

/-- The result has the return value and the two printed sums; the results of `lst_check` are not used. -/
def mmpCheck (mmpi : MmpoolImpl) (fuel : Nat) : Option (Int × Option (Nat × Nat)) := do
  let sumFreeSize ← mmpi.checkBlocks fuel mmpi.chunkAddr 0
  match mmpi.checkLists mmpi.freeListCount 0 0 with
  | none => some (-1, none)
  | some freeListFreeSize => some (0, some (sumFreeSize, freeListFreeSize))

variable {a c idx k left o sum : Nat} {mmpi : MmpoolImpl} {blocks : List Nat} {heap : Heap}

theorem checkBlocks_eq {fuel : Nat} (tiled : Tiles id mmpi.size blocks a mmpi.limit) (enough : blocks.length < fuel)
    (flags : ∀ c ∈ blocks, (mmpi.head c).flag = 0 ∨ (mmpi.head c).flag = blockBitUsed) :
    mmpi.checkBlocks fuel a sum = some (sum + ((blocks.filter fun c => (mmpi.head c).flag = 0).map mmpi.size).sum) := by
  induction blocks generalizing fuel a sum with
  | nil =>
      obtain ⟨fuel, rfl⟩ : ∃ less, fuel = less + 1 := ⟨fuel - 1, by rw [List.length_nil] at enough; omega⟩
      have done : a = mmpi.limit := tiled
      rw [MmpoolImpl.checkBlocks, if_neg (by omega)]
      rfl
  | cons first rest ih =>
      obtain ⟨fuel, rfl⟩ : ∃ less, fuel = less + 1 := ⟨fuel - 1, by omega⟩
      obtain ⟨here, positive, behind⟩ := tiled
      have stop := behind.le
      rw [id_eq] at here
      subst here
      have after : mmpi.nextBlock first = first + mmpi.size first := rfl
      have later := fun {sum} => @ih _ sum fuel behind (by simpa using enough)
        fun c inside => flags c (List.mem_cons_of_mem _ inside)
      rw [MmpoolImpl.checkBlocks, if_pos (by omega), after, later]
      rcases flags first List.mem_cons_self with free | used
      · rw [List.filter_cons_of_pos (by simpa using free), List.map_cons, List.sum_cons, if_pos (by simp [free])]
        rw [Nat.add_assoc]
        rfl
      · rw [List.filter_cons_of_neg (by simp [used, blockBitUsed]), if_neg (by simp [used, blockBitUsed])]

theorem checkList_eq {list : List Nat} (sound : ∀ i ∈ list, (mmpi.head (mmpi.block i)).flag = 0 ∧
    mmpi.size (mmpi.block i) = k) :
    mmpi.checkList k list sum = some (sum + ((list.map mmpi.block).map mmpi.size).sum) := by
  induction list generalizing sum with
  | nil => rfl
  | cons first rest ih =>
      obtain ⟨flag, size⟩ := sound first List.mem_cons_self
      have size' : (mmpi.head (mmpi.block first)).blockSize = k := size
      rw [MmpoolImpl.checkList, if_neg (by simp [flag, size']), ih fun i inside => sound i (List.mem_cons_of_mem _ inside)]
      simp only [List.map_cons, List.sum_cons, size, size', Nat.add_assoc]

namespace MmpoolImpl

/-- The free blocks in the order in which the second loop meets them. -/
def listed (mmpi : MmpoolImpl) (idx left : Nat) : List Nat :=
  (List.range' idx left).flatMap fun i => mmpi.freeBlocks (mmpi.minBlockOrder + i)

end MmpoolImpl

namespace Sound

variable (sound : Sound mmpi blocks)

include sound

theorem checkLists_eq (inside : idx + left ≤ mmpi.freeListCount) :
    mmpi.checkLists left idx sum = some (sum + ((mmpi.listed idx left).map mmpi.size).sum) := by
  induction left generalizing idx sum with
  | zero => rfl
  | succ left ih =>
      have count := sound.configured.listCount
      have larger := sound.configured.larger
      have largest := sound.configured.largest
      have size : mmpi.blockSizeByIdx idx = 2 ^ (mmpi.minBlockOrder + idx) := by
        rw [MmpoolImpl.blockSizeByIdx, blockSize_eq (by omega), blockSize_eq (by omega), Nat.pow_add]
      have row : (mmpi.lists (.flh idx)).map mmpi.block = mmpi.freeBlocks (mmpi.minBlockOrder + idx) := by
        rw [MmpoolImpl.freeBlocks, Nat.add_sub_cancel_left]
      have same := @checkList_eq (2 ^ (mmpi.minBlockOrder + idx)) sum mmpi (mmpi.lists (.flh idx)) (by
        intro i linked
        have listed : mmpi.block i ∈ mmpi.freeBlocks (mmpi.minBlockOrder + idx) := row ▸ List.mem_map_of_mem linked
        exact ((sound.holds.mem_freeBlocks sound.configured (Nat.le_add_right _ _)).mp listed).2)
      rw [MmpoolImpl.checkLists, size, same, Option.bind_eq_bind, Option.bind_some, ih (by omega), row,
        MmpoolImpl.listed, MmpoolImpl.listed, List.range'_succ, List.flatMap_cons, List.map_append, List.sum_append,
        Nat.add_assoc]

/-- The second loop meets each free block once. -/
theorem listed_perm :
    (mmpi.listed 0 mmpi.freeListCount).Perm (blocks.filter fun c => (mmpi.head c).flag = 0) := by
  have count := sound.configured.listCount
  have larger := sound.configured.larger
  have mem {i c : Nat} : c ∈ mmpi.freeBlocks (mmpi.minBlockOrder + i) ↔
      c ∈ blocks ∧ (mmpi.head c).flag = 0 ∧ mmpi.size c = 2 ^ (mmpi.minBlockOrder + i) :=
    sound.holds.mem_freeBlocks sound.configured (Nat.le_add_right _ _)
  have once : (mmpi.listed 0 mmpi.freeListCount).Nodup := by
    refine List.nodup_flatMap.mpr ⟨fun i _ => sound.freeBlocks_nodup _, ?_⟩
    refine List.Pairwise.imp (fun {i j} other c inFirst inSecond => other ?_) List.nodup_range'
    have same := (mem.mp inFirst).2.2.symm.trans (mem.mp inSecond).2.2
    have orders := Nat.pow_right_injective le_rfl same
    omega
  refine (List.perm_ext_iff_of_nodup once (sound.tiled.nodup.filter _)).mpr fun c => ?_
  rw [MmpoolImpl.listed, List.mem_flatMap, List.mem_filter]
  constructor
  · rintro ⟨i, -, inside⟩
    have free := mem.mp inside
    exact ⟨free.1, by simpa using free.2.1⟩
  · rintro ⟨inside, unused⟩
    obtain ⟨j, least, most, size, -⟩ := sound.ordered inside
    refine ⟨j - mmpi.minBlockOrder, List.mem_range'_1.mpr (by omega), mem.mpr ⟨inside, by simpa using unused, ?_⟩⟩
    rw [size, Nat.add_sub_cancel' least]

end Sound

/-- In every state that a run reaches the check passes, and both of its sums are what the held blocks leave
of the chunk. -/
theorem mmpCheck_agrees (outside : Nat → Word) (addr : Nat) (cfg : MmpConfig) (mmpi : MmpoolImpl)
    (ordered : Ordered cfg) (top : addr + cfg.totalSize.toNat + 4096 ≤ 2 ^ 64)
    (made : mmpCreate outside 0 addr cfg = some (some mmpi)) (supplied : mmpi.Supplied) (first rest : List MmpCall)
    (untrapped : Meets mmpStep Untrapped (first ++ rest) ⟨mmpi, []⟩) :
    ∃ heap, exec mmpStep first ⟨mmpi, []⟩ = some heap ∧
      ∃ free, (∃ enough, ∀ fuel, enough ≤ fuel → mmpCheck heap.mmpi fuel = some (0, some (free, free))) ∧
        free + (heap.live.map fun entry => heap.mmpi.size (entry.1 - headSize)).sum = heap.mmpi.chunkSize := by
  obtain ⟨heap, run, -, blocks, sound, owned⟩ :=
    run_steady ordered top made supplied first (meets_append.mp untrapped).1
  refine ⟨heap, run, ((blocks.filter fun c => (heap.mmpi.head c).flag = 0).map heap.mmpi.size).sum,
    ⟨blocks.length + 1, fun fuel enough => ?_⟩, ?_⟩
  · have blocks_eq := @checkBlocks_eq heap.mmpi.chunkAddr 0 heap.mmpi blocks fuel sound.tiled (by omega)
      fun c inside => sound.holds.flags c inside (sound.holds.real sound.configured inside)
    have lists_eq := @Sound.checkLists_eq 0 heap.mmpi.freeListCount 0 heap.mmpi blocks sound (by omega)
    rw [mmpCheck, blocks_eq, lists_eq]
    simp only [Option.bind_eq_bind, Option.bind_some, Nat.zero_add]
    rw [(sound.listed_perm.map heap.mmpi.size).sum_eq]
  · have held : (blocks.filter fun c => ¬ (heap.mmpi.head c).flag = 0).Perm
        (heap.live.map fun entry => entry.1 - headSize) := by
      have once : (heap.live.map fun entry => entry.1 - headSize).Nodup := by
        refine List.pairwise_map.mpr (owned.once.imp_of_mem fun {x y} inX inY other same => other ?_)
        obtain ⟨a, placeA, -⟩ := owned.large x inX
        obtain ⟨b, placeB, -⟩ := owned.large y inY
        rw [placeA, placeB, payloadAddr, payloadAddr] at same ⊢
        omega
      refine (List.perm_ext_iff_of_nodup (sound.tiled.nodup.filter _) once).mpr fun c => ?_
      have used := owned.used c
      rw [List.mem_map] at used
      rw [List.mem_filter, List.mem_map]
      constructor
      · rintro ⟨inside, flag⟩
        obtain ⟨entry, live, place⟩ := used.mp ⟨inside, by simpa using flag⟩
        exact ⟨entry, live, by rw [place, payloadAddr, Nat.add_sub_cancel]⟩
      · rintro ⟨entry, live, rfl⟩
        obtain ⟨a, place, -⟩ := owned.large entry live
        have again := used.mpr ⟨entry, live, by rw [place, payloadAddr, payloadAddr, Nat.add_sub_cancel]⟩
        exact ⟨again.1, by simpa using again.2⟩
    have all := sound.tiled.sum_size
    have parts := (List.filter_append_perm (fun c => decide ((heap.mmpi.head c).flag = 0)) blocks).map heap.mmpi.size
    have sums := parts.sum_eq
    have heldSum := (held.map heap.mmpi.size).sum_eq
    rw [List.map_map] at heldSum
    rw [List.map_append, List.sum_append] at sums
    rw [MmpoolImpl.limit, ← sums] at all
    simp only [decide_not] at heldSum
    simp only [Function.comp_def] at heldSum
    omega

theorem mmpCheck_agrees_held : ∃ mmpi ∈ (mmpCreate (fun _ => ⟨0, 0⟩) 0 4096 ⟨512, 5, 7⟩).join,
    ∃ heap, exec mmpStep [.alloc 1, .alloc 1, .free 4520] ⟨mmpi, []⟩ = some heap ∧
      ∃ free enough, ∀ fuel, enough ≤ fuel → mmpCheck heap.mmpi fuel = some (0, some (free, free)) := by
  obtain ⟨mmpi, made, supplied, untrapped⟩ : ∃ mmpi ∈ (mmpCreate (fun _ => ⟨0, 0⟩) 0 4096 ⟨512, 5, 7⟩).join,
      mmpi.Supplied ∧ Meets mmpStep Untrapped ([.alloc 1, .alloc 1, .free 4520] ++ [.free 4488]) ⟨mmpi, []⟩ := by
    decide +kernel
  obtain ⟨heap, run, free, check, -⟩ := mmpCheck_agrees (fun _ => ⟨0, 0⟩) 4096 ⟨512, 5, 7⟩ mmpi
    ⟨by decide, by decide, by decide⟩ (by decide) (Option.join_eq_some_iff.mp made) supplied _ [.free 4488] untrapped
  exact ⟨mmpi, made, heap, run, free, check⟩

end Syslib.Mmpool
