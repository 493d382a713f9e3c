import Syslib.Mmpool.Create
import Mathlib.Data.Nat.Log

namespace Syslib.Mmpool

open IntrusiveLists Tiling

variable {tailed : Prop} {a i k o : Nat} {mmpi next : MmpoolImpl} {blocks front back rest : List Nat}

/-- The upper parts of the block have taken descriptors, and they are in the lists of their orders. -/
structure Split (mmpi : MmpoolImpl) (a k count : Nat) (rest : List Nat) (next : MmpoolImpl) : Prop where
  kept : mmpi.Kept next
  within : mmpi.Within next a (a + 2 ^ (k + count))
  spare : next.lists .freeFln = rest
  free : ∀ o, mmpi.minBlockOrder ≤ o → next.freeBlocks o =
    (if k ≤ o ∧ o < k + count then [a + 2 ^ o] else []) ++ mmpi.freeBlocks o
  linked : ∀ n, next.Linked n ↔ mmpi.Linked n

/-- One round of the loop cuts the block in halves. -/
theorem halve_eq (configured : Configured mmpi) (real : a ≠ 0) (least : mmpi.minBlockOrder ≤ k)
    (most : k ≤ mmpi.maxBlockOrder) (spare : mmpi.lists .freeFln = i :: rest) (count : Nat) :
    mmpi.splitBlock (count + 1) a (2 ^ (k + 1)) = (mmpi.remade (a + 2 ^ k) i k).splitBlock count a (2 ^ k) := by
  have half : 2 ^ (k + 1) / 2 = 2 ^ k := by omega
  have small : k < 32 := by
    have bound := configured.largest
    omega
  have upper : a + 2 ^ k ≠ 0 := (Nat.add_pos_left (Nat.pos_of_ne_zero real) _).ne'
  have entered := remake_eq configured upper least most spare
  rw [MmpoolImpl.splitBlock]
  simp only [half]
  rw [makeBlock_eq (configured.smallest.trans least) small]
  simp only [entered, Option.bind_eq_bind, Option.bind_some]

theorem halved_within (least : headTailSize ≤ 2 ^ k) :
    mmpi.Within (mmpi.remade (a + 2 ^ k) i k) a (a + 2 ^ (k + 1)) := by
  intro x outside
  have double : 2 ^ (k + 1) = 2 ^ k + 2 ^ k := by omega
  simp only [headTailSize] at least
  refine remade_word (by omega) ?_
  simp only [headSize]
  omega

/-- The split uses one descriptor for each level. -/
theorem splitBlock_holds (count : Nat) {used : List Nat} (length : used.length = count)
    (holds : Holds tailed a (2 ^ (k + count)) mmpi (front ++ [a] ++ back)) (configured : Configured mmpi)
    (least : mmpi.minBlockOrder ≤ k) (most : k + count ≤ mmpi.maxBlockOrder)
    (spare : mmpi.lists .freeFln = used ++ rest) :
    ∃ next pieces, mmpi.splitBlock count a (2 ^ (k + count)) = some (next, 2 ^ k) ∧
      Holds tailed a (2 ^ k) next (front ++ [a] ++ (pieces ++ back)) ∧
      (∀ c, c ∈ pieces ↔ ∃ o, k ≤ o ∧ o < k + count ∧ c = a + 2 ^ o) ∧ Split mmpi a k count rest next := by
  induction count generalizing mmpi back used with
  | zero =>
      obtain rfl := List.length_eq_zero_iff.mp length
      refine ⟨mmpi, [], rfl, holds, ?_, rfl, fun _ _ => rfl, spare, ?_, fun _ => Iff.rfl⟩
      · intro c
        constructor
        · exact fun inside => absurd inside List.not_mem_nil
        · rintro ⟨o, low, high, -⟩
          omega
      · intro o _
        rw [if_neg (by omega), List.nil_append]
  | succ count ih =>
      obtain ⟨i, later, rfl⟩ := List.exists_cons_of_length_eq_add_one length
      have member : a ∈ front ++ [a] ++ back := by simp
      have real := holds.real configured member
      have lower : mmpi.minBlockOrder ≤ k + count := by omega
      have inside : i ∈ mmpi.lists .freeFln := by simp [spare]
      have halved : Holds tailed a (2 ^ (k + count)) (mmpi.remade (a + 2 ^ (k + count)) i (k + count))
          (front ++ [a, a + 2 ^ (k + count)] ++ back) := halve_holds holds configured lower inside
      rw [show front ++ [a, a + 2 ^ (k + count)] ++ back =
        front ++ [a] ++ ([a + 2 ^ (k + count)] ++ back) by simp] at halved
      have newSpare : (mmpi.remade (a + 2 ^ (k + count)) i (k + count)).lists .freeFln = later ++ rest := remade_spare spare
      have first := @remade_kept mmpi (a + 2 ^ (k + count)) i (k + count)
      obtain ⟨next, pieces, run, held, members, split⟩ := ih (by simpa using length) halved
        (configured.kept first) (by rw [first.minBlockOrder]; exact least)
        (by rw [first.maxBlockOrder]; omega) newSpare
      refine ⟨next, pieces ++ [a + 2 ^ (k + count)], ?_, by simpa using held, ?_, ?_, ?_, split.spare, ?_, ?_⟩
      · rw [← Nat.add_assoc, halve_eq configured real lower (by omega) spare]
        exact run
      · intro c
        rw [List.mem_append, members, List.mem_singleton]
        constructor
        · rintro (⟨o, low, high, here⟩ | here)
          · exact ⟨o, low, by omega, here⟩
          · exact ⟨k + count, by omega, by omega, here⟩
        · rintro ⟨o, low, high, here⟩
          by_cases top : o = k + count
          · exact Or.inr (top ▸ here)
          · exact Or.inl ⟨o, low, by omega, here⟩
      · exact first.trans split.kept
      · intro x outside
        have wider : 2 ^ (k + (count + 1)) = 2 ^ (k + count) + 2 ^ (k + count) := by
          rw [← Nat.add_assoc]
          omega
        rw [split.within x (by omega)]
        refine halved_within (configured.large lower) x ?_
        rw [Nat.add_assoc]
        exact outside
      · intro o order
        have parts := split.free o (by rw [first.minBlockOrder]; exact order)
        rw [parts, remade_freeBlocks holds.listed.apart inside lower order]
        by_cases top : o = k + count
        · subst top
          rw [if_pos rfl, if_neg (by omega), if_pos (by omega)]
          rfl
        · rw [if_neg top]
          by_cases within : k ≤ o ∧ o < k + count
          · rw [if_pos within, if_pos (by omega)]
          · rw [if_neg within, if_neg (by omega)]
      · intro n
        exact (split.linked n).trans (remade_linked inside)

/-- The search stops at the first list with a block. -/
theorem firstFilled_cases (mmpi : MmpoolImpl) (left idx : Nat) :
    mmpi.firstFilled left idx = none ∧ (∀ p, idx ≤ p → p < idx + left → mmpi.lists (.flh p) = []) ∨
      ∃ p, mmpi.firstFilled left idx = some p ∧ idx ≤ p ∧ p < idx + left ∧
        mmpi.lists (.flh p) ≠ [] ∧ ∀ q, idx ≤ q → q < p → mmpi.lists (.flh q) = [] := by
  induction left generalizing idx with
  | zero => exact Or.inl ⟨rfl, fun p low high => by omega⟩
  | succ left ih =>
      rw [MmpoolImpl.firstFilled]
      split_ifs with empty
      · rcases ih (idx + 1) with ⟨none_, all⟩ | ⟨p, found, low, high, filled, before⟩
        · refine Or.inl ⟨none_, ?_⟩
          intro p low high
          by_cases same : p = idx
          · exact same ▸ empty
          · exact all p (by omega) (by omega)
        · refine Or.inr ⟨p, found, by omega, by omega, filled, ?_⟩
          intro q low high
          by_cases same : q = idx
          · exact same ▸ empty
          · exact before q (by omega) high
      · exact Or.inr ⟨idx, rfl, le_rfl, by omega, empty, fun q low high => by omega⟩

theorem firstFilled_eq {left idx p : Nat} (low : idx ≤ p) (high : p < idx + left)
    (filled : mmpi.lists (.flh p) ≠ []) (before : ∀ q, idx ≤ q → q < p → mmpi.lists (.flh q) = []) :
    mmpi.firstFilled left idx = some p := by
  rcases firstFilled_cases mmpi left idx with ⟨-, all⟩ | ⟨q, found, lowQ, -, filledQ, beforeQ⟩
  · exact absurd (all p low high) filled
  · have notLess : ¬ q < p := fun less => filledQ (before q lowQ less)
    have notMore : ¬ p < q := fun less => filled (beforeQ p low less)
    rw [found, show q = p by omega]

/-- The block whose descriptor is first in a list is a free block of that order. -/
theorem Holds.first (holds : Holds tailed 0 0 mmpi blocks) {p : Nat}
    (first : mmpi.lists (.flh p) = i :: rest) : mmpi.block i ∈ blocks ∧
      (mmpi.head (mmpi.block i)).flag = 0 ∧ (mmpi.head (mmpi.block i)).flnIdx = i ∧
      mmpi.size (mmpi.block i) = 2 ^ (mmpi.minBlockOrder + p) ∧
      mmpi.minBlockOrder + p ≤ mmpi.maxBlockOrder := by
  obtain ⟨⟨inside, real⟩, unused, back, order⟩ :=
    holds.listed.free.mp (first ▸ List.mem_cons_self : i ∈ mmpi.lists (.flh p))
  obtain ⟨k, least, most, size, -⟩ := holds.shaped _ inside
  rw [Holds.size_in real] at size
  rw [size, Nat.log2_two_pow] at order
  exact ⟨inside, unused, back, order ▸ size, order ▸ most⟩

/-- A block of the order that is asked for leaves its list. -/
theorem takeFreeNode_exact (holds : Holds tailed 0 0 mmpi blocks) {p : Nat}
    (low : p < mmpi.freeListCount) (first : mmpi.lists (.flh p) = i :: rest) :
    mmpi.takeFreeNode p = some (mmpi.unlinked (mmpi.block i), 0, mmpi.block i) := by
  obtain ⟨inside, unused, back, size, most⟩ := holds.first first
  have found : mmpi.firstFilled (mmpi.freeListCount - p) p = some p := by
    obtain ⟨left, equal⟩ : ∃ left, mmpi.freeListCount - p = left + 1 := ⟨mmpi.freeListCount - p - 1, by omega⟩
    rw [equal, MmpoolImpl.firstFilled, if_neg (by simp [first])]
  rw [MmpoolImpl.takeFreeNode, found]
  simp only [first]
  rw [if_neg (Nat.lt_irrefl p), MmpoolImpl.unlinked, back]
  rfl

/-- The block stands in front of the list of its new order, and its upper parts are in theirs. -/
structure Parted (mmpi : MmpoolImpl) (a k j : Nat) (rest : List Nat) (next : MmpoolImpl) : Prop where
  kept : mmpi.Kept next
  within : mmpi.Within next a (a + 2 ^ j)
  free : ∀ o, mmpi.minBlockOrder ≤ o → next.freeBlocks o =
    if o = j then (mmpi.freeBlocks o).tail
    else (if o = k then [a] else []) ++ (if k ≤ o ∧ o < j then [a + 2 ^ o] else []) ++ mmpi.freeBlocks o
  spare : next.lists .freeFln = rest
  linked : ∀ n, next.Linked n ↔ mmpi.Linked n

theorem popped_freeBlocks {p : Nat} (apart : Apart mmpi.lists) (first : mmpi.lists (.flh p) = i :: rest)
    (order : mmpi.minBlockOrder ≤ o) : (mmpi.popped i).freeBlocks o =
      if o = mmpi.minBlockOrder + p then (mmpi.freeBlocks o).tail else mmpi.freeBlocks o := by
  show (removeNode mmpi.lists i (.flh (o - mmpi.minBlockOrder))).map mmpi.block = _
  rw [MmpoolImpl.freeBlocks]
  split_ifs with here
  · subst here
    rw [Nat.add_sub_cancel_left, removeNode_head first, first]
    rfl
  · have elsewhere : i ∉ mmpi.lists (.flh (o - mmpi.minBlockOrder)) := by
      intro again
      have same := apart.unique again (first ▸ List.mem_cons_self : i ∈ mmpi.lists (.flh p))
      rw [FlnList.flh.injEq] at same
      omega
    rw [removeNode, List.erase_of_not_mem elsewhere]

/-- The round of a larger block is a split and an entry into the list of the new order. -/
theorem takeFreeNode_larger {cut made entered : MmpoolImpl} {p idx size part : Nat} {rslt : Int}
    (found : mmpi.firstFilled (mmpi.freeListCount - idx) idx = some p)
    (first : mmpi.lists (.flh p) = i :: rest) (low : idx < p)
    (size_eq : (mmpi.head (mmpi.block i)).blockSize = size)
    (split : (mmpi.popped i).splitBlock (p - idx) (mmpi.block i) size = some (cut, part))
    (make : cut.makeBlock (mmpi.block i) part = (made, a))
    (enter : made.returnFreeNodeToHead a = some (entered, rslt)) :
    mmpi.takeFreeNode idx = some (entered.returnFreeFln i, 0, 0) := by
  have popped : ({ mmpi with lists := removeNode mmpi.lists i } : MmpoolImpl) = mmpi.popped i := rfl
  have same : ((mmpi.popped i).head (mmpi.block i)).blockSize = size := size_eq
  have pool : (cut.makeBlock (mmpi.block i) part).1 = made := congrArg Prod.fst make
  have block : (cut.makeBlock (mmpi.block i) part).2 = a := congrArg Prod.snd make
  rw [MmpoolImpl.takeFreeNode, found]
  simp only [first, if_pos low, popped, same]
  refine Option.bind_eq_some_iff.mpr ⟨(cut, part), split, ?_⟩
  refine Option.bind_eq_some_iff.mpr ⟨(entered, rslt), ?_, rfl⟩
  rw [pool, block]
  exact enter

/-- A larger block is split, and all its parts enter the lists. -/
theorem takeFreeNode_parts (configured : Configured mmpi) (holds : Holds tailed 0 0 mmpi blocks) {p idx x : Nat}
    (low : idx < p) (high : p < mmpi.freeListCount) (first : mmpi.lists (.flh p) = i :: rest)
    (before : ∀ q, idx ≤ q → q < p → mmpi.lists (.flh q) = []) {used last : List Nat}
    (length : used.length = p - idx) (spare : mmpi.lists .freeFln = used ++ x :: last) :
    ∃ next pieces, mmpi.takeFreeNode idx = some (next, 0, 0) ∧ Holds tailed 0 0 next pieces ∧
      (∀ c, c ∈ pieces ↔ c ∈ blocks ∨
        ∃ o, mmpi.minBlockOrder + idx ≤ o ∧ o < mmpi.minBlockOrder + p ∧ c = mmpi.block i + 2 ^ o) ∧
      Parted mmpi (mmpi.block i) (mmpi.minBlockOrder + idx)
        (mmpi.minBlockOrder + p) (i :: last) next := by
  obtain ⟨inside, unused, back, size, most⟩ := holds.first first
  have small : mmpi.minBlockOrder + idx < 32 := by
    have bound := configured.largest
    omega
  have real := holds.real configured inside
  have popped := pop_holds holds configured inside unused
  rw [back, size] at popped
  have span : mmpi.minBlockOrder + p = mmpi.minBlockOrder + idx + (p - idx) := by omega
  obtain ⟨front, behind, rfl, -⟩ := holds.apart inside
  rw [span] at popped
  have popSpare : (mmpi.popped i).lists .freeFln = used ++ x :: last := by
    have elsewhere : i ∉ mmpi.lists .freeFln := by
      intro again
      cases holds.listed.apart.unique again (first ▸ List.mem_cons_self : i ∈ mmpi.lists (.flh p))
    exact (List.erase_of_not_mem elsewhere).trans spare
  obtain ⟨cut, pieces, run, held, members, split⟩ := splitBlock_holds (p - idx) length popped (configured.kept rfl)
    (Nat.le_add_right _ _) (span ▸ most) popSpare
  have popKept : mmpi.Kept (mmpi.popped i) := rfl
  have cutKept := popKept.trans split.kept
  have cutConfigured := configured.kept cutKept
  have order : cut.minBlockOrder = mmpi.minBlockOrder := by rw [cutKept]
  have least : cut.minBlockOrder ≤ mmpi.minBlockOrder + idx := by omega
  have bounded : mmpi.minBlockOrder + idx ≤ cut.maxBlockOrder := by
    rw [show cut.maxBlockOrder = mmpi.maxBlockOrder by rw [cutKept]]
    omega
  have member : mmpi.block i ∈ front ++ [mmpi.block i] ++ (pieces ++ behind) := by simp
  have spareIn : x ∈ cut.lists .freeFln := split.spare ▸ List.mem_cons_self
  have remade := remake_holds held cutConfigured member least spareIn
  have linked (n : Nat) : (cut.remade (mmpi.block i) x (mmpi.minBlockOrder + idx)).Linked n ↔
      mmpi.Linked n ∧ n ≠ i :=
    (remade_linked spareIn).trans ((split.linked n).trans (popped_linked holds.listed.apart))
  have unlinked (place : FlnList) : i ∉ (cut.remade (mmpi.block i) x (mmpi.minBlockOrder + idx)).lists place :=
    fun again => ((linked i).mp ⟨place, again⟩).2 rfl
  have remadeKept := @remade_kept cut (mmpi.block i) x (mmpi.minBlockOrder + idx)
  have counted : i < (cut.remade (mmpi.block i) x (mmpi.minBlockOrder + idx)).flnCount := by
    rw [remadeKept.flnCount, cutKept.flnCount]
    exact holds.listed.inside (first ▸ List.mem_cons_self : i ∈ mmpi.lists (.flh p))
  refine ⟨_, _, ?_, give_holds remade unlinked counted, ?_, ?_, ?_, ?_, ?_, ?_⟩
  · have run_eq := run
    rw [← span] at run_eq
    exact takeFreeNode_larger (firstFilled_eq (by omega) (by omega) (by simp [first]) before) first low size
      run_eq (makeBlock_eq (configured.smallest.trans (Nat.le_add_right _ _)) small)
      (remake_eq cutConfigured real least bounded split.spare)
  · intro c
    rw [span, ← members c]
    simp only [List.mem_append]
    tauto
  · exact (cutKept.trans remadeKept).trans rfl
  · intro y outside
    have wider : 2 ^ (mmpi.minBlockOrder + idx) ≤ 2 ^ (mmpi.minBlockOrder + p) :=
      Nat.pow_le_pow_right (by decide) (by omega)
    have large := cutConfigured.large least
    simp only [headTailSize] at large
    have notTail : y ≠ mmpi.block i + 2 ^ (mmpi.minBlockOrder + idx) - headSize := by
      simp only [headSize]
      omega
    have same : (cut.remade (mmpi.block i) x (mmpi.minBlockOrder + idx)).word y = cut.word y :=
      remade_word (by omega) notTail
    exact same.trans (split.within y (by rw [← span]; exact outside))
  · intro o low
    have cutFree := split.free o low
    rw [popped_freeBlocks holds.listed.apart first low, ← span] at cutFree
    rw [give_freeBlocks unlinked, remade_freeBlocks held.listed.apart spareIn least (order ▸ low), cutFree]
    by_cases top : o = mmpi.minBlockOrder + p
    · rw [if_pos top, if_pos top, if_neg (by omega), if_neg (by omega), List.nil_append]
    · rw [if_neg top, if_neg top]
      split_ifs <;> simp
  · rw [give_spare, remade_spare split.spare]
  · exact fun n => returned_linked ⟨_, first ▸ List.mem_cons_self⟩ linked

/-- The lowest part of the block of order `j` is used now, and its other parts are in the lists. -/
structure Taken (tailed : Prop) (mmpi : MmpoolImpl) (blocks : List Nat) (k j a : Nat) (next : MmpoolImpl) :
    Prop where
  kept : mmpi.Kept next
  within : mmpi.Within next a (a + 2 ^ j)
  head : next.head a = ⟨blockBitUsed, 0, 2 ^ k⟩
  free : ∀ o, mmpi.minBlockOrder ≤ o → next.freeBlocks o =
    if o = j then (mmpi.freeBlocks o).tail else if k ≤ o ∧ o < j then [a + 2 ^ o] else mmpi.freeBlocks o
  linked : ∀ n, next.Linked n ↔ mmpi.Linked n
  holds : ∃ pieces, Holds tailed 0 0 next pieces ∧
    ∀ c, c ∈ pieces ↔ c ∈ blocks ∨ ∃ o, k ≤ o ∧ o < j ∧ c = a + 2 ^ o

theorem allocLoop_exact (configured : Configured mmpi) (holds : Holds tailed 0 0 mmpi blocks) {p rounds : Nat}
    (low : p < mmpi.freeListCount) (first : mmpi.lists (.flh p) = i :: rest) :
    ∃ next, mmpi.allocLoop (rounds + 1) p = some (next, payloadAddr (mmpi.block i)) ∧
      Taken tailed mmpi blocks (mmpi.minBlockOrder + p) (mmpi.minBlockOrder + p) (mmpi.block i) next := by
  obtain ⟨inside, unused, back, size, most⟩ := holds.first first
  have real := holds.real configured inside
  have least : mmpi.minBlockOrder ≤ mmpi.minBlockOrder + p := Nat.le_add_right _ _
  have head := @unlinked_head (mmpi.block i) mmpi
  have flag : ((mmpi.unlinked (mmpi.block i)).head (mmpi.block i)).flag = 0 := by
    rw [head]
    exact unused
  have unlinked := unlink_holds holds configured inside unused
  rw [size] at unlinked
  have kept := @unlinked_kept mmpi (mmpi.block i)
  have newSize : (mmpi.unlinked (mmpi.block i)).size (mmpi.block i) = 2 ^ (mmpi.minBlockOrder + p) :=
    (congrArg BlockHead.blockSize head).trans size
  have apart : mmpi.block i + 2 ^ (mmpi.minBlockOrder + p) - headSize ≠ mmpi.block i := by
    have large := configured.large least
    simp only [headTailSize, headSize] at large ⊢
    omega
  have tail (matching : tailed) : (mmpi.unlinked (mmpi.block i)).word
      (mmpi.block i + 2 ^ (mmpi.minBlockOrder + p) - headSize) = ⟨tailLabel, 2 ^ (mmpi.minBlockOrder + p)⟩ := by
    rw [unlinked_word apart, ← size]
    exact holds.tails matching _ inside real
  refine ⟨(mmpi.unlinked (mmpi.block i)).flagged (mmpi.block i) blockBitUsed, ?_, ?_, ?_, ?_, ?_, ?_,
    blocks, use_holds unlinked (configured.kept kept) inside newSize tail least, ?_⟩
  · rw [MmpoolImpl.allocLoop, takeFreeNode_exact holds low first]
    simp only [Option.bind_eq_bind, Option.bind_some]
    rw [if_neg (by decide), if_neg real, if_neg (by simp [flag]), flag]
    rfl
  · exact kept.trans rfl
  · intro y outside
    have other : y ≠ mmpi.block i := by
      have positive := Nat.two_pow_pos (mmpi.minBlockOrder + p)
      omega
    exact (writeHead_word other).trans (unlinked_word other)
  · rw [flagged_head (by decide), head]
    exact congrArg (BlockHead.mk blockBitUsed 0) size
  · intro o order
    have listed := @unlinked_freeBlocks (mmpi.block i) mmpi o holds.listed.apart
    have popped := popped_freeBlocks holds.listed.apart first order
    rw [back] at listed
    show (mmpi.unlinked (mmpi.block i)).freeBlocks o = _
    rw [listed, show ((mmpi.lists (.flh (o - mmpi.minBlockOrder))).erase i).map mmpi.block =
      (mmpi.popped i).freeBlocks o from rfl, popped]
    split_ifs
    · rfl
    · omega
    · rfl
  · exact fun n => unlinked_linked holds.listed ⟨inside, real⟩ unused
  · intro c
    constructor
    · exact Or.inl
    · rintro (old | ⟨o, low, high, -⟩)
      · exact old
      · omega

/-- The second round takes the lowest part of the block that the first one has split. -/
theorem allocLoop_parts (configured : Configured mmpi) (holds : Holds tailed 0 0 mmpi blocks) {p idx rounds : Nat}
    (low : idx < p) (high : p < mmpi.freeListCount) (first : mmpi.lists (.flh p) = i :: rest)
    (before : ∀ q, idx ≤ q → q < p → mmpi.lists (.flh q) = [])
    (supply : p - idx < (mmpi.lists .freeFln).length) :
    ∃ next, mmpi.allocLoop (rounds + 2) idx = some (next, payloadAddr (mmpi.block i)) ∧
      Taken tailed mmpi blocks (mmpi.minBlockOrder + idx) (mmpi.minBlockOrder + p) (mmpi.block i) next := by
  obtain ⟨x, last, split⟩ : ∃ x last, (mmpi.lists .freeFln).drop (p - idx) = x :: last :=
    List.exists_cons_of_ne_nil (by rw [ne_eq, List.drop_eq_nil_iff]; omega)
  have spare : mmpi.lists .freeFln = (mmpi.lists .freeFln).take (p - idx) ++ x :: last := by
    rw [← split, List.take_append_drop]
  have length : ((mmpi.lists .freeFln).take (p - idx)).length = p - idx := by
    rw [List.length_take]
    omega
  obtain ⟨part, pieces, run, held, members, parted⟩ :=
    takeFreeNode_parts configured holds low high first before length spare
  have order : part.minBlockOrder = mmpi.minBlockOrder := by rw [parted.kept]
  have count : part.freeListCount = mmpi.freeListCount := by rw [parted.kept]
  have none_ (o : Nat) (above : mmpi.minBlockOrder + idx ≤ o) (below : o < mmpi.minBlockOrder + p) :
      mmpi.freeBlocks o = [] := by
    rw [MmpoolImpl.freeBlocks, before _ (by omega) (by omega), List.map_nil]
  have here := parted.free (mmpi.minBlockOrder + idx) (Nat.le_add_right _ _)
  rw [if_neg (by omega), if_pos rfl, if_pos (by omega), none_ _ le_rfl (by omega), MmpoolImpl.freeBlocks, order,
    Nat.add_sub_cancel_left] at here
  obtain ⟨n, others, linked, same, -⟩ := List.map_eq_cons_iff.mp here
  obtain ⟨next, ran, taken⟩ := @allocLoop_exact _ _ _ _ _ (configured.kept parted.kept) held idx rounds
    (by omega) linked
  rw [order, same] at taken
  refine ⟨next, ?_, parted.kept.trans taken.kept, ?_, taken.head, ?_,
    fun n => (taken.linked n).trans (parted.linked n), ?_⟩
  · rw [MmpoolImpl.allocLoop, run]
    simp only [Option.bind_eq_bind, Option.bind_some]
    rw [if_neg (by decide), if_pos trivial, ran, same]
  · intro y outside
    have wider : 2 ^ (mmpi.minBlockOrder + idx) ≤ 2 ^ (mmpi.minBlockOrder + p) :=
      Nat.pow_le_pow_right (by decide) (by omega)
    exact (taken.within y (by omega)).trans (parted.within y outside)
  · intro o least
    have after := taken.free o (order ▸ least)
    have parts := parted.free o least
    by_cases top : o = mmpi.minBlockOrder + p
    · rw [if_pos top] at parts
      rw [if_neg (by omega), if_neg (by omega), parts] at after
      rw [after, if_pos top]
    · rw [if_neg top] at parts
      rw [if_neg top, after, parts]
      by_cases inner : mmpi.minBlockOrder + idx ≤ o ∧ o < mmpi.minBlockOrder + p
      · rw [none_ o inner.1 inner.2, if_pos inner]
        by_cases lowest : o = mmpi.minBlockOrder + idx
        · rw [if_pos lowest, if_pos lowest]
          rfl
        · rw [if_neg lowest, if_neg (by omega), if_neg lowest]
          rfl
      · have notLowest : o ≠ mmpi.minBlockOrder + idx := by omega
        have notInside : ¬ (mmpi.minBlockOrder + idx ≤ o ∧ o < mmpi.minBlockOrder + idx) := by omega
        rw [if_neg notLowest, if_neg notInside, if_neg notLowest, if_neg inner, if_neg inner]
        rfl
  · obtain ⟨finer, heldLast, grown⟩ := taken.holds
    refine ⟨finer, heldLast, fun c => ?_⟩
    rw [grown, members]
    constructor
    · rintro (old | ⟨o, low, high, -⟩)
      · exact old
      · omega
    · exact Or.inl

/-- The order of the blocks that hold a payload of this size with a head and a tail. -/
def MmpoolImpl.neededOrder (mmpi : MmpoolImpl) (payloadSize : Nat) : Nat :=
  max mmpi.minBlockOrder (Nat.clog 2 (payloadSize + headTailSize))

theorem clog_succ {n : Nat} (positive : n ≠ 0) : Nat.clog 2 (n + 1) = Nat.log2 n + 1 := by
  refine eq_of_forall_ge_iff fun y => ?_
  rw [Nat.clog_le_iff_le_pow (by decide), Nat.succ_le_iff, Nat.succ_le_iff, Nat.log2_lt positive]

variable {n : Nat}

theorem flhIdx_eq (configured : Configured mmpi) (fits : n ≤ mmpi.maxPayloadSize) :
    mmpi.flhIdx n = some (mmpi.neededOrder n - mmpi.minBlockOrder) ∧
      mmpi.neededOrder n ≤ mmpi.maxBlockOrder := by
  have bound := configured.largest
  have less := configured.larger
  have large := configured.large less.le
  have room : n + headTailSize ≤ 2 ^ mmpi.maxBlockOrder := by
    rw [configured.payload] at fits
    omega
  have order : Nat.clog 2 (n + headTailSize) ≤ mmpi.maxBlockOrder := Nat.clog_le_of_le_pow room
  have rounded : Nat.log2 (n + headTailSize - 1) + 1 = Nat.clog 2 (n + headTailSize) :=
    (@clog_succ (n + 15) (by omega)).symm
  have most : mmpi.neededOrder n ≤ mmpi.maxBlockOrder := max_le less.le order
  refine ⟨?_, most⟩
  have small : Nat.clog 2 (n + headTailSize) < 32 := by omega
  have mono : Monotone fun k : Nat => 2 ^ k := fun _ _ less => Nat.pow_le_pow_right (by decide) less
  have larger : max (2 ^ Nat.clog 2 (n + headTailSize)) (2 ^ mmpi.minBlockOrder) = 2 ^ mmpi.neededOrder n := by
    rw [max_comm]
    exact (mono.map_max).symm
  rw [MmpoolImpl.flhIdx, rounded, configured.max_eq, configured.min_eq, blockSize_eq small,
    if_neg (Nat.not_lt.mpr (Nat.pow_le_pow_right (by decide) order)), larger, Nat.log2_two_pow]

/-- The lists of the orders hold the free blocks of these sizes. -/
theorem Holds.mem_freeBlocks (holds : Holds tailed 0 0 mmpi blocks) (configured : Configured mmpi)
    (least : mmpi.minBlockOrder ≤ o) :
    a ∈ mmpi.freeBlocks o ↔ a ∈ blocks ∧ (mmpi.head a).flag = 0 ∧ mmpi.size a = 2 ^ o := by
  rw [MmpoolImpl.freeBlocks, List.mem_map]
  constructor
  · rintro ⟨i, inside, rfl⟩
    obtain ⟨⟨member, real⟩, unused, -, order⟩ := holds.listed.free.mp inside
    obtain ⟨k, -, -, size, -⟩ := holds.shaped _ member
    rw [Holds.size_in real] at size
    rw [size, Nat.log2_two_pow] at order
    exact ⟨member, unused, by rw [size, ← order, Nat.add_sub_cancel' least]⟩
  · rintro ⟨member, unused, size⟩
    have real := holds.real configured member
    have linked := holds.listed.mem ⟨member, real⟩ unused
    rw [size, Nat.log2_two_pow] at linked
    exact ⟨_, linked, holds.listed.linked ⟨member, real⟩ unused⟩

/-- An allocation takes the first block of the smallest order that has one, or it changes nothing. -/
theorem mmpAlloc_cases (configured : Configured mmpi) (holds : Holds tailed 0 0 mmpi blocks)
    (supply : ∀ j, mmpi.neededOrder n < j → j ≤ mmpi.maxBlockOrder → mmpi.freeBlocks j ≠ [] →
      (∀ o, mmpi.neededOrder n ≤ o → o < j → mmpi.freeBlocks o = []) →
      j - mmpi.neededOrder n < (mmpi.lists .freeFln).length)
    (positive : 1 ≤ n) (fits : n ≤ mmpi.maxPayloadSize) :
    mmpAlloc mmpi n = some (mmpi, 0) ∧
        (∀ o, mmpi.neededOrder n ≤ o → o ≤ mmpi.maxBlockOrder → mmpi.freeBlocks o = []) ∨
      ∃ j a rest next, mmpi.neededOrder n ≤ j ∧ j ≤ mmpi.maxBlockOrder ∧
        (∀ o, mmpi.neededOrder n ≤ o → o < j → mmpi.freeBlocks o = []) ∧ mmpi.freeBlocks j = a :: rest ∧
        mmpAlloc mmpi n = some (next, payloadAddr a) ∧ Taken tailed mmpi blocks (mmpi.neededOrder n) j a next := by
  obtain ⟨index, most⟩ := flhIdx_eq configured fits
  have least : mmpi.minBlockOrder ≤ mmpi.neededOrder n := le_max_left _ _
  have count := configured.listCount
  have run : mmpAlloc mmpi n = mmpi.allocLoop (mmpi.flnCount + 2) (mmpi.neededOrder n - mmpi.minBlockOrder) := by
    rw [mmpAlloc, if_neg (by omega), index]
  have empty {o : Nat} (above : mmpi.minBlockOrder ≤ o) (none_ : mmpi.lists (.flh (o - mmpi.minBlockOrder)) = []) :
      mmpi.freeBlocks o = [] := by
    rw [MmpoolImpl.freeBlocks, none_, List.map_nil]
  rcases firstFilled_cases mmpi (mmpi.freeListCount - (mmpi.neededOrder n - mmpi.minBlockOrder))
    (mmpi.neededOrder n - mmpi.minBlockOrder) with ⟨found, all⟩ | ⟨p, found, low, high, filled, before⟩
  · left
    refine ⟨?_, fun o above below => empty (by omega) (all _ (by omega) (by omega))⟩
    rw [run, MmpoolImpl.allocLoop, MmpoolImpl.takeFreeNode, found]
    rfl
  · right
    obtain ⟨i, rest, first⟩ := List.exists_cons_of_ne_nil filled
    have order : mmpi.minBlockOrder + (mmpi.neededOrder n - mmpi.minBlockOrder) = mmpi.neededOrder n := by omega
    have none_ (o : Nat) (above : mmpi.neededOrder n ≤ o) (below : o < mmpi.minBlockOrder + p) :
        mmpi.freeBlocks o = [] := empty (by omega) (before _ (by omega) (by omega))
    have blocks_eq : mmpi.freeBlocks (mmpi.minBlockOrder + p) = mmpi.block i :: rest.map mmpi.block := by
      rw [MmpoolImpl.freeBlocks, Nat.add_sub_cancel_left, first, List.map_cons]
    by_cases exact_ : p = mmpi.neededOrder n - mmpi.minBlockOrder
    · obtain ⟨next, ran, taken⟩ := @allocLoop_exact _ _ _ _ _ configured holds p (mmpi.flnCount + 1) (by omega) first
      refine ⟨mmpi.minBlockOrder + p, mmpi.block i, _, next, by omega, by omega, none_, blocks_eq, ?_, ?_⟩
      · rw [run, ← exact_]
        exact ran
      · rw [show mmpi.neededOrder n = mmpi.minBlockOrder + p by omega]
        exact taken
    · have enough := supply (mmpi.minBlockOrder + p) (by omega) (by omega) (by simp [blocks_eq]) none_
      obtain ⟨next, ran, taken⟩ := @allocLoop_parts _ _ _ _ _ configured holds p
        (mmpi.neededOrder n - mmpi.minBlockOrder) mmpi.flnCount (by omega) (by omega) first
        (fun q above below => before q above below) (by omega)
      rw [order] at taken
      exact ⟨mmpi.minBlockOrder + p, mmpi.block i, _, next, by omega, by omega, none_, blocks_eq,
        run.trans ran, taken⟩

/-- An allocation fails exactly when no free block is large enough, and else it splits the smallest one. -/
theorem mmpAlloc_smallest (mmpi : MmpoolImpl) (blocks : List Nat) (configured : Configured mmpi)
    (holds : Holds False 0 0 mmpi blocks)
    (spare : mmpi.maxBlockOrder - mmpi.minBlockOrder + 2 ≤ (mmpi.lists .freeFln).length) (n : Nat)
    (positive : 1 ≤ n) (fits : n ≤ mmpi.maxPayloadSize) :
    (mmpAlloc mmpi n = some (mmpi, 0) ↔
      ¬ ∃ a ∈ blocks, (mmpi.head a).flag = 0 ∧ 2 ^ mmpi.neededOrder n ≤ mmpi.size a) ∧
    ((∃ a ∈ blocks, (mmpi.head a).flag = 0 ∧ 2 ^ mmpi.neededOrder n ≤ mmpi.size a) →
      ∃ j a rest next, mmpi.neededOrder n ≤ j ∧ j ≤ mmpi.maxBlockOrder ∧
        (∀ o, mmpi.neededOrder n ≤ o → o < j → mmpi.freeBlocks o = []) ∧ mmpi.freeBlocks j = a :: rest ∧
        mmpAlloc mmpi n = some (next, payloadAddr a) ∧ Taken False mmpi blocks (mmpi.neededOrder n) j a next) := by
  have least : mmpi.minBlockOrder ≤ mmpi.neededOrder n := le_max_left _ _
  have enough (a : Nat) (member : a ∈ blocks) (unused : (mmpi.head a).flag = 0)
      (large : 2 ^ mmpi.neededOrder n ≤ mmpi.size a) :
      ∃ o, mmpi.neededOrder n ≤ o ∧ o ≤ mmpi.maxBlockOrder ∧ a ∈ mmpi.freeBlocks o := by
    obtain ⟨o, low, high, size, -⟩ := holds.shaped a member
    rw [Holds.size_in (holds.real configured member)] at size
    rw [size] at large
    exact ⟨o, (Nat.pow_le_pow_iff_right (by decide)).mp large, high,
      (holds.mem_freeBlocks configured low).mpr ⟨member, unused, size⟩⟩
  rcases mmpAlloc_cases configured holds (fun j _ _ _ _ => by omega) positive fits with
    ⟨ran, all⟩ | ⟨j, a, rest, next, above, below, before, first, ran, taken⟩
  · have none_ : ¬ ∃ a ∈ blocks, (mmpi.head a).flag = 0 ∧ 2 ^ mmpi.neededOrder n ≤ mmpi.size a := by
      rintro ⟨a, member, unused, large⟩
      obtain ⟨o, low, high, inside⟩ := enough a member unused large
      rw [all o low high] at inside
      exact List.not_mem_nil inside
    exact ⟨⟨fun _ => none_, fun _ => ran⟩, fun some_ => absurd some_ none_⟩
  · have here : a ∈ mmpi.freeBlocks j := first ▸ List.mem_cons_self
    obtain ⟨member, unused, size⟩ := (holds.mem_freeBlocks configured (by omega)).mp here
    have some_ : ∃ a ∈ blocks, (mmpi.head a).flag = 0 ∧ 2 ^ mmpi.neededOrder n ≤ mmpi.size a :=
      ⟨a, member, unused, size ▸ Nat.pow_le_pow_right (by decide) above⟩
    refine ⟨⟨fun null => ?_, fun none_ => absurd some_ none_⟩,
      fun _ => ⟨j, a, rest, next, above, below, before, first, ran, taken⟩⟩
    have same := congrArg (Option.map Prod.snd) (ran.symm.trans null)
    simp [payloadAddr, headSize] at same

/-- A new pool with three blocks splits one of them for a small payload. -/
theorem mmpAlloc_smallest_once : ∃ mmpi ∈ (mmpCreate (fun _ => ⟨0, 0⟩) 0 4096 ⟨640, 5, 6⟩).join, ∃ blocks,
    Holds False 0 0 mmpi blocks ∧ ∃ j a rest next, mmpi.neededOrder 1 ≤ j ∧ mmpi.freeBlocks j = a :: rest ∧
      mmpAlloc mmpi 1 = some (next, payloadAddr a) ∧ Taken False mmpi blocks (mmpi.neededOrder 1) j a next := by
  obtain ⟨mmpi, made, spare, fits, needed, filled⟩ :
      ∃ mmpi ∈ (mmpCreate (fun _ => ⟨0, 0⟩) 0 4096 ⟨640, 5, 6⟩).join,
        mmpi.maxBlockOrder - mmpi.minBlockOrder + 2 ≤ (mmpi.lists .freeFln).length ∧ 1 ≤ mmpi.maxPayloadSize ∧
          mmpi.minBlockOrder = 5 ∧ mmpi.freeBlocks 6 ≠ [] := by
    decide +kernel
  obtain ⟨configured, -, blocks, rowed⟩ := mmpCreate_rowed ⟨by decide, by decide, by decide⟩ (by decide)
    (Option.join_eq_some_iff.mp made)
  have now := configured.kept rowed.kept
  have holds : Holds False 0 0 mmpi blocks := ⟨rowed.full.tiled, rowed.full.shaped, False.elim, rowed.full.flags,
    rowed.full.listed⟩
  obtain ⟨a, inside⟩ := List.exists_mem_of_ne_nil _ filled
  obtain ⟨member, unused, size⟩ := (holds.mem_freeBlocks now (by omega)).mp inside
  have order : mmpi.neededOrder 1 = 5 := by
    rw [MmpoolImpl.neededOrder, needed]
    decide
  obtain ⟨j, first, rest, next, above, -, -, front, ran, taken⟩ :=
    (mmpAlloc_smallest mmpi blocks now holds spare 1 le_rfl fits).2 ⟨a, member, unused, by rw [order, size]; decide⟩
  exact ⟨mmpi, made, blocks, holds, j, first, rest, next, above, front, ran, taken⟩

end Syslib.Mmpool
