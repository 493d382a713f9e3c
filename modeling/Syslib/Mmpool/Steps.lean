import Syslib.Mmpool.Invariant

namespace Syslib.Mmpool

open IntrusiveLists Tiling

variable {tailed : Prop} {a h i j k out span : Nat} {mmpi next : MmpoolImpl} {live : Nat → Prop}
  {blocks front back rest : List Nat}

theorem Configured.max_eq (configured : Configured mmpi) :
    blockSize mmpi.maxBlockOrder = 2 ^ mmpi.maxBlockOrder := by
  have small := configured.largest
  exact blockSize_eq (by omega)

theorem Configured.min_eq (configured : Configured mmpi) :
    blockSize mmpi.minBlockOrder = 2 ^ mmpi.minBlockOrder := by
  have small := configured.largest
  have less := configured.larger
  exact blockSize_eq (by omega)

/-- A block size has a head and a tail in it. -/
theorem Configured.large (configured : Configured mmpi) (least : mmpi.minBlockOrder ≤ k) :
    headTailSize ≤ 2 ^ k := by
  have large : 2 ^ 4 ≤ 2 ^ k := Nat.pow_le_pow_right (by decide) (configured.smallest.trans least)
  exact large

/-- The pool after a block has taken a descriptor and a place in its list. -/
def MmpoolImpl.entered (mmpi : MmpoolImpl) (hd i k : Nat) : MmpoolImpl :=
  { mmpi.writeHead hd { mmpi.head hd with flnIdx := i } with
    lists := pushFront (removeNode mmpi.lists i) (.flh (k - mmpi.minBlockOrder)) i
    block := Function.update mmpi.block i hd }

theorem entered_kept (hd i k : Nat) : mmpi.Kept (mmpi.entered hd i k) := rfl

theorem flhOf_size (size : mmpi.size a = 2 ^ k) (least : mmpi.minBlockOrder ≤ k) :
    mmpi.flhOf (mmpi.head a).blockSize = some (k - mmpi.minBlockOrder) := by
  rw [show (mmpi.head a).blockSize = 2 ^ k from size, MmpoolImpl.flhOf, Nat.log2_two_pow, if_pos least]

theorem returnFreeNodeToHead_eq (configured : Configured mmpi) (real : a ≠ 0)
    (flag : (mmpi.head a).flag = 0) (size : mmpi.size a = 2 ^ k) (least : mmpi.minBlockOrder ≤ k)
    (most : k ≤ mmpi.maxBlockOrder) (spare : mmpi.lists .freeFln = i :: rest) :
    mmpi.returnFreeNodeToHead a = some (mmpi.entered a i k, 0) := by
  have bounded : ¬ blockSize mmpi.maxBlockOrder < (mmpi.head a).blockSize := by
    rw [configured.max_eq, show (mmpi.head a).blockSize = 2 ^ k from size, Nat.not_lt]
    exact Nat.pow_le_pow_right (by decide) most
  have unused : ¬ (mmpi.head a).flag &&& blockBitUsed ≠ 0 := by
    rw [flag]
    decide
  have inside : k - mmpi.minBlockOrder < mmpi.freeListCount := by
    rw [configured.listCount]
    omega
  rw [MmpoolImpl.returnFreeNodeToHead, if_neg real, if_neg unused, if_neg bounded,
    flhOf_size size least]
  simp only [MmpoolImpl.fetchFreeFln, spare, Option.bind_eq_bind, Option.bind_some]
  rw [if_pos (by exact inside), Function.update_idem]
  rfl

section Entered

variable {x : Nat}

theorem entered_word (other : x ≠ a) : (mmpi.entered a i k).word x = mmpi.word x :=
  writeHead_word other

/-- The blocks in the free list of an order. -/
def MmpoolImpl.freeBlocks (mmpi : MmpoolImpl) (order : Nat) : List Nat :=
  (mmpi.lists (.flh (order - mmpi.minBlockOrder))).map mmpi.block

/-- Only the list of the order grows. -/
theorem entered_freeBlocks {o : Nat} (apart : Apart mmpi.lists) (spare : i ∈ mmpi.lists .freeFln)
    (least : mmpi.minBlockOrder ≤ k) (order : mmpi.minBlockOrder ≤ o) :
    (mmpi.entered a i k).freeBlocks o = if o = k then a :: mmpi.freeBlocks o else mmpi.freeBlocks o := by
  have notListed (place : Nat) : i ∉ mmpi.lists (.flh place) := fun linked => by
    cases apart.unique spare linked
  have same (place : Nat) : (mmpi.lists (.flh place)).map (Function.update mmpi.block i a) =
      (mmpi.lists (.flh place)).map mmpi.block := by
    refine List.map_congr_left fun c inside => Function.update_of_ne ?_ _ _
    rintro rfl
    exact notListed place inside
  have kept (place : Nat) : removeNode mmpi.lists i (.flh place) = mmpi.lists (.flh place) :=
    List.erase_of_not_mem (notListed place)
  show (pushFront (removeNode mmpi.lists i) (.flh (k - mmpi.minBlockOrder)) i
    (.flh (o - mmpi.minBlockOrder))).map (Function.update mmpi.block i a) = _
  split_ifs with here
  · subst here
    rw [pushFront, Function.update_self, kept, List.map_cons, Function.update_self, same]
    rfl
  · have other : FlnList.flh (o - mmpi.minBlockOrder) ≠ .flh (k - mmpi.minBlockOrder) := by
      rw [ne_eq, FlnList.flh.injEq]
      omega
    rw [pushFront, Function.update_of_ne other, kept, same]
    rfl

theorem entered_spare (spare : mmpi.lists .freeFln = i :: rest) :
    (mmpi.entered a i k).lists .freeFln = rest := by
  show pushFront (removeNode mmpi.lists i) (.flh (k - mmpi.minBlockOrder)) i .freeFln = rest
  rw [pushFront, Function.update_of_ne (by simp), removeNode, spare, List.erase_cons_head]

/-- The descriptor is in some list. -/
def MmpoolImpl.Linked (mmpi : MmpoolImpl) (i : Nat) : Prop := ∃ place, i ∈ mmpi.lists place

/-- A descriptor only changes its list. -/
theorem entered_linked {n : Nat} (spare : i ∈ mmpi.lists .freeFln) :
    (mmpi.entered a i k).Linked n ↔ mmpi.Linked n := by
  have inserted := @inserted_pushFront _ _ _ (removeNode mmpi.lists i) (.flh (k - mmpi.minBlockOrder)) i
  constructor
  · rintro ⟨place, inside⟩
    rcases inserted.mem.mp inside with old | ⟨rfl, -⟩
    · exact ⟨place, List.mem_of_mem_erase old⟩
    · exact ⟨_, spare⟩
  · rintro ⟨place, inside⟩
    by_cases same : n = i
    · exact ⟨_, inserted.mem.mpr (Or.inr ⟨same, rfl⟩)⟩
    · exact ⟨place, inserted.mem.mpr (Or.inl ((List.mem_erase_of_ne same).mpr inside))⟩

theorem entered_head (flag : (mmpi.head a).flag = 0) (size : mmpi.size a = 2 ^ k) :
    (mmpi.entered a i k).head a = ⟨0, i, 2 ^ k⟩ := by
  have small : ({ mmpi.head a with flnIdx := i } : BlockHead).flag < 16 := by
    show (mmpi.head a).flag < 16
    rw [flag]
    decide
  have head : (mmpi.entered a i k).head a = { mmpi.head a with flnIdx := i } :=
    @writeHead_head a mmpi _ small
  rw [head, ← flag, ← size]
  rfl

end Entered

/-- A block without a list enters the list of its size. -/
theorem settle_holds (holds : Holds tailed a (2 ^ k) mmpi blocks) (configured : Configured mmpi) (member : a ∈ blocks)
    (flag : (mmpi.head a).flag = 0) (size : mmpi.size a = 2 ^ k)
    (tail : mmpi.word (a + 2 ^ k - headSize) = ⟨tailLabel, 2 ^ k⟩) (least : mmpi.minBlockOrder ≤ k)
    (spare : i ∈ mmpi.lists .freeFln) : Holds tailed 0 0 (mmpi.entered a i k) blocks := by
  have real := holds.real configured member
  have large := configured.large least
  have span : mmpi.sizeIn a (2 ^ k) a = 2 ^ k := if_pos rfl
  have head : (mmpi.entered a i k).head a = ⟨0, i, 2 ^ k⟩ := entered_head flag size
  have newSize : (mmpi.entered a i k).size a = 2 ^ k := congrArg BlockHead.blockSize head
  refine holds.retouch configured rfl member (Or.inl rfl) (Or.inr rfl) ?_ ?_ ?_ ?_ ?_
  · intro x outside
    rw [span] at outside
    have positive : 0 < 2 ^ k := Nat.two_pow_pos k
    exact entered_word (by omega)
  · rw [Holds.size_in real, newSize, span]
  · intro _ _
    have apart : a + 2 ^ k - headSize ≠ a := by
      simp only [headTailSize, headSize] at large ⊢
      omega
    rw [newSize, entered_word apart]
    exact tail
  · intro _
    rw [head]
    exact Or.inl rfl
  · refine holds.listed.link spare (h := a) (k := k) ?_ (fun again => again.2 rfl) real ?_ head least rfl
      rfl rfl rfl
    · intro c
      constructor
      · rintro ⟨inside, -⟩
        by_cases same : c = a
        · exact Or.inr same
        · exact Or.inl ⟨inside, same⟩
      · rintro (⟨inside, -⟩ | rfl)
        · exact ⟨inside, holds.real configured inside⟩
        · exact ⟨member, real⟩
    · exact fun c inLive => head_congr (entered_word inLive.2)

/-- Another block starts outside of the range of this one. -/
theorem Holds.start_outside (holds : Holds tailed out span mmpi blocks) (inA : a ∈ blocks) (inC : h ∈ blocks)
    (distinct : h ≠ a) : h < a ∨ a + mmpi.sizeIn out span a ≤ h := by
  have positive := (holds.tiled.bounds inC).2.1
  rcases holds.tiled.disjoint inA inC distinct.symm with before | after
  · exact Or.inr before
  · simp only [id_eq] at after
    exact Or.inl (by omega)

/-- Writing the header of a block without a list changes nothing that is trusted. -/
theorem made_holds (holds : Holds tailed a (2 ^ k) mmpi blocks) (configured : Configured mmpi) (member : a ∈ blocks)
    (least : mmpi.minBlockOrder ≤ k) : Holds tailed a (2 ^ k) (mmpi.made a (2 ^ k)) blocks := by
  have large := configured.large least
  have span : mmpi.sizeIn a (2 ^ k) a = 2 ^ k := if_pos rfl
  have within : mmpi.Within (mmpi.made a (2 ^ k)) a (a + mmpi.sizeIn a (2 ^ k) a) := by
    rw [span]
    exact made_within large
  refine holds.retouch configured rfl member (Or.inl rfl) (Or.inl rfl) within ((if_pos rfl).trans span.symm)
    (fun _ other => absurd rfl other) (fun other => absurd rfl other) ?_
  refine holds.listed.congr ?_ rfl rfl rfl rfl
  exact fun c inLive => holds.heads configured member within inLive.1 inLive.2 inLive.2

/-- The pool after a part of a block has got its own header and a place in the list of its order. -/
def MmpoolImpl.remade (mmpi : MmpoolImpl) (a i k : Nat) : MmpoolImpl := (mmpi.made a (2 ^ k)).entered a i k

theorem remade_kept (a i k : Nat) : mmpi.Kept (mmpi.remade a i k) :=
  (made_kept a (2 ^ k)).trans (entered_kept a i k)

section Remade

variable {o : Nat}

theorem remade_word {x : Nat} (head : x ≠ a) (tail : x ≠ a + 2 ^ k - headSize) :
    (mmpi.remade a i k).word x = mmpi.word x :=
  (entered_word head).trans (made_word head tail)

theorem made_fresh (large : headTailSize ≤ 2 ^ k) :
    ((mmpi.made a (2 ^ k)).head a).flag = 0 ∧ (mmpi.made a (2 ^ k)).size a = 2 ^ k := by
  have made := @made_head a mmpi (2 ^ k) large
  rw [MmpoolImpl.size, made]
  exact ⟨rfl, rfl⟩

theorem remade_head (large : headTailSize ≤ 2 ^ k) : (mmpi.remade a i k).head a = ⟨0, i, 2 ^ k⟩ := by
  obtain ⟨flag, size⟩ := @made_fresh a k mmpi large
  exact entered_head flag size

theorem remake_eq (configured : Configured mmpi) (real : a ≠ 0) (least : mmpi.minBlockOrder ≤ k)
    (most : k ≤ mmpi.maxBlockOrder) (spare : mmpi.lists .freeFln = i :: rest) :
    (mmpi.made a (2 ^ k)).returnFreeNodeToHead a = some (mmpi.remade a i k, 0) := by
  obtain ⟨flag, size⟩ := @made_fresh a k mmpi (configured.large least)
  have made : Configured (mmpi.made a (2 ^ k)) := configured.kept rfl
  exact returnFreeNodeToHead_eq made real flag size least most spare

theorem remade_freeBlocks (apart : Apart mmpi.lists) (spare : i ∈ mmpi.lists .freeFln)
    (least : mmpi.minBlockOrder ≤ k) (order : mmpi.minBlockOrder ≤ o) :
    (mmpi.remade a i k).freeBlocks o = if o = k then a :: mmpi.freeBlocks o else mmpi.freeBlocks o :=
  @entered_freeBlocks a i k (mmpi.made a (2 ^ k)) o apart spare least order

theorem remade_spare (spare : mmpi.lists .freeFln = i :: rest) :
    (mmpi.remade a i k).lists .freeFln = rest :=
  @entered_spare a i k (mmpi.made a (2 ^ k)) rest spare

theorem remade_linked {n : Nat} (spare : i ∈ mmpi.lists .freeFln) :
    (mmpi.remade a i k).Linked n ↔ mmpi.Linked n :=
  @entered_linked a i k (mmpi.made a (2 ^ k)) n spare

/-- A block without a list gets a new header and enters the list of its size. -/
theorem remake_holds (holds : Holds tailed a (2 ^ k) mmpi blocks) (configured : Configured mmpi) (member : a ∈ blocks)
    (least : mmpi.minBlockOrder ≤ k) (spare : i ∈ mmpi.lists .freeFln) :
    Holds tailed 0 0 (mmpi.remade a i k) blocks := by
  obtain ⟨flag, size⟩ := @made_fresh a k mmpi (configured.large least)
  have made : Configured (mmpi.made a (2 ^ k)) := configured.kept rfl
  exact settle_holds (made_holds holds configured member least) made member flag size made_tail least spare

end Remade

/-- The upper half of a block without a list enters a list. -/
theorem halve_holds (holds : Holds tailed a (2 ^ (k + 1)) mmpi (front ++ [a] ++ back)) (configured : Configured mmpi)
    (least : mmpi.minBlockOrder ≤ k) (spare : i ∈ mmpi.lists .freeFln) :
    Holds tailed a (2 ^ k) (mmpi.remade (a + 2 ^ k) i k) (front ++ [a, a + 2 ^ k] ++ back) := by
  have member : a ∈ front ++ [a] ++ back := by simp
  have real := holds.real configured member
  have large := configured.large least
  have double : 2 ^ (k + 1) = 2 ^ k + 2 ^ k := by
    rw [Nat.pow_succ]
    omega
  have positive : 0 < 2 ^ k := Nat.two_pow_pos k
  have nodup : (front ++ a :: back).Nodup := by simpa using holds.nodup
  have once := (List.nodup_middle.mp nodup).notMem
  have other {c : Nat} (place : c ∈ front ∨ c ∈ back) : c ≠ a :=
    fun same => once (same ▸ List.mem_append.mpr place)
  have upper : a + 2 ^ k ≠ a := by omega
  have freshUpper : a + 2 ^ k ∉ front ++ [a] ++ back := by
    intro inside
    have outside := holds.start_outside member inside upper
    rw [show mmpi.sizeIn a (2 ^ (k + 1)) a = 2 ^ (k + 1) from if_pos rfl] at outside
    omega
  have head := @remade_head (a + 2 ^ k) i k mmpi large
  have newSize : (mmpi.remade (a + 2 ^ k) i k).size (a + 2 ^ k) = 2 ^ k := congrArg BlockHead.blockSize head
  have lower : (mmpi.remade (a + 2 ^ k) i k).sizeIn a (2 ^ k) a = 2 ^ k := if_pos rfl
  have higher : (mmpi.remade (a + 2 ^ k) i k).sizeIn a (2 ^ k) (a + 2 ^ k) = 2 ^ k := (if_neg upper).trans newSize
  have kept := @remade_kept mmpi (a + 2 ^ k) i k
  refine holds.replace configured kept (fun c => other) (fun c => other) ?_ ?_ ?_ ?_ ?_ ?_
  · rintro lo hi ⟨here, -, there⟩ x outside
    have span : lo + 2 ^ (k + 1) = hi := by
      rw [← show mmpi.sizeIn a (2 ^ (k + 1)) a = 2 ^ (k + 1) from if_pos rfl]
      exact there
    simp only [id_eq] at here
    simp only [headTailSize] at large
    refine remade_word (by omega) ?_
    simp only [headSize]
    omega
  · rintro lo hi ⟨here, -, there⟩
    have span : lo + 2 ^ (k + 1) = hi := by
      rw [← show mmpi.sizeIn a (2 ^ (k + 1)) a = 2 ^ (k + 1) from if_pos rfl]
      exact there
    simp only [id_eq] at here
    rw [Tiles, Tiles, Tiles, lower, higher]
    refine ⟨here, positive, ?_, positive, ?_⟩
    · rw [here]
      rfl
    · omega
  · intro c inRow
    obtain ⟨order, -, high, spanOrder, aligned⟩ := holds.shaped a member
    rw [show mmpi.sizeIn a (2 ^ (k + 1)) a = 2 ^ (k + 1) from if_pos rfl] at spanOrder
    obtain rfl := Nat.pow_right_injective (le_refl 2) spanOrder
    have start := (holds.bounds configured member).1
    have whole : 2 ^ k ∣ a - mmpi.chunkAddr :=
      (Nat.pow_dvd_pow 2 (Nat.le_succ k)).trans (Nat.dvd_of_mod_eq_zero aligned)
    simp only [List.mem_cons, List.not_mem_nil, or_false] at inRow
    rcases inRow with rfl | rfl
    · exact ⟨k, least, by omega, lower, Nat.mod_eq_zero_of_dvd whole⟩
    · refine ⟨k, least, by omega, higher, ?_⟩
      rw [Nat.sub_add_comm start]
      exact Nat.mod_eq_zero_of_dvd (Nat.dvd_add whole (Nat.dvd_refl _))
  · intro _ c inRow notA
    simp only [List.mem_cons, List.not_mem_nil, or_false] at inRow
    obtain rfl := inRow.resolve_left notA
    simp only [headTailSize] at large
    have apart : a + 2 ^ k + 2 ^ k - headSize ≠ a + 2 ^ k := by
      simp only [headSize]
      omega
    rw [newSize]
    exact (entered_word apart).trans made_tail
  · intro c inRow notA
    simp only [List.mem_cons, List.not_mem_nil, or_false] at inRow
    obtain rfl := inRow.resolve_left notA
    rw [head]
    exact Or.inl rfl
  · refine holds.listed.link spare (h := a + 2 ^ k) (k := k) ?_ (fun again => freshUpper again.1) (by omega) ?_
      head least rfl rfl kept.flnCount kept.minBlockOrder
    · intro c
      simp only [List.mem_append, List.mem_cons, List.not_mem_nil, or_false]
      by_cases same : c = a + 2 ^ k
      · simp [same]
      · tauto
    · intro c inLive
      have notUpper : c ≠ a + 2 ^ k := fun same => freshUpper (same ▸ inLive.1)
      have outside := holds.start_outside member inLive.1 inLive.2
      rw [show mmpi.sizeIn a (2 ^ (k + 1)) a = 2 ^ (k + 1) from if_pos rfl] at outside
      simp only [headTailSize] at large
      refine head_congr (remade_word notUpper ?_)
      simp only [headSize]
      omega

/-- The descriptor is in the hands of the caller. -/
def MmpoolImpl.popped (mmpi : MmpoolImpl) (i : Nat) : MmpoolImpl :=
  { mmpi with lists := removeNode mmpi.lists i }

/-- The pool after a block has left its list and has given its descriptor back. -/
def MmpoolImpl.unlinked (mmpi : MmpoolImpl) (a : Nat) : MmpoolImpl :=
  ((mmpi.popped (mmpi.head a).flnIdx).writeHead a { mmpi.head a with flnIdx := 0 }).returnFreeFln
    (mmpi.head a).flnIdx

theorem unlinked_kept (a : Nat) : mmpi.Kept (mmpi.unlinked a) := by
  have written : mmpi.Kept
      ((mmpi.popped (mmpi.head a).flnIdx).writeHead a { mmpi.head a with flnIdx := 0 }) := rfl
  exact written.trans rfl

theorem unlinked_word {x : Nat} (other : x ≠ a) : (mmpi.unlinked a).word x = mmpi.word x :=
  writeHead_word other

theorem head_flag_lt (mmpi : MmpoolImpl) (a : Nat) : (mmpi.head a).flag < 16 := Nat.mod_lt _ (by decide)

theorem unlinked_head : (mmpi.unlinked a).head a = { mmpi.head a with flnIdx := 0 } :=
  @writeHead_head a (mmpi.popped (mmpi.head a).flnIdx) { mmpi.head a with flnIdx := 0 } (head_flag_lt mmpi a)

/-- A free block leaves its list. -/
theorem Listed.unlink {fewer : Nat → Prop} (listed : Listed live mmpi) (inside : live a)
    (unused : (mmpi.head a).flag = 0) (shrinks : ∀ c, fewer c ↔ live c ∧ c ≠ a) :
    Listed fewer (mmpi.unlinked a) := by
  have popped : Listed fewer (mmpi.popped (mmpi.head a).flnIdx) := listed.pop inside unused shrinks
  have written : Listed fewer
      ((mmpi.popped (mmpi.head a).flnIdx).writeHead a { mmpi.head a with flnIdx := 0 }) :=
    popped.congr (fun c still => head_congr (writeHead_word ((shrinks c).mp still).2)) rfl rfl rfl rfl
  refine written.give ?_ (listed.inside (listed.mem inside unused))
  intro place again
  exact (listed.apart.mem_removeNode.mp again).1 rfl

theorem give_linked {n : Nat} : (mmpi.returnFreeFln i).Linked n ↔ mmpi.Linked n ∨ n = i := by
  have inserted := @inserted_pushFront _ _ _ mmpi.lists .freeFln i
  constructor
  · rintro ⟨place, inside⟩
    rcases inserted.mem.mp inside with old | ⟨same, -⟩
    · exact Or.inl ⟨place, old⟩
    · exact Or.inr same
  · rintro (⟨place, inside⟩ | same)
    · exact ⟨place, inserted.mem.mpr (Or.inl inside)⟩
    · exact ⟨_, inserted.mem.mpr (Or.inr ⟨same, rfl⟩)⟩

theorem popped_linked {n : Nat} (apart : Apart mmpi.lists) :
    (mmpi.popped i).Linked n ↔ mmpi.Linked n ∧ n ≠ i := by
  constructor
  · rintro ⟨place, inside⟩
    obtain ⟨other, old⟩ := apart.mem_removeNode.mp inside
    exact ⟨⟨place, old⟩, other⟩
  · rintro ⟨⟨place, inside⟩, other⟩
    exact ⟨place, apart.mem_removeNode.mpr ⟨other, inside⟩⟩

/-- A descriptor that comes back is in a list again. -/
theorem returned_linked {n : Nat} (inside : mmpi.Linked i) (held : ∀ n, next.Linked n ↔ mmpi.Linked n ∧ n ≠ i) :
    (next.returnFreeFln i).Linked n ↔ mmpi.Linked n := by
  rw [give_linked, held]
  by_cases same : n = i
  · subst same
    simp [inside]
  · simp [same]

theorem give_spare : (mmpi.returnFreeFln i).lists .freeFln = i :: mmpi.lists .freeFln := by
  show pushFront mmpi.lists .freeFln i .freeFln = _
  rw [pushFront, Function.update_self]

theorem unlinked_spare (listed : Listed live mmpi) (inside : live a) (unused : (mmpi.head a).flag = 0) :
    (mmpi.unlinked a).lists .freeFln = (mmpi.head a).flnIdx :: mmpi.lists .freeFln := by
  have elsewhere : (mmpi.head a).flnIdx ∉ mmpi.lists .freeFln := by
    intro spare
    cases listed.apart.unique spare (listed.mem inside unused)
  refine give_spare.trans (congrArg (List.cons _) ?_)
  exact List.erase_of_not_mem elsewhere

/-- A descriptor that is in no list matters to no list. -/
theorem give_freeBlocks {o : Nat} (unlinked : ∀ place, i ∉ mmpi.lists place) :
    (mmpi.returnFreeFln i).freeBlocks o = mmpi.freeBlocks o := by
  have lists : (mmpi.returnFreeFln i).lists (.flh (o - mmpi.minBlockOrder)) =
      mmpi.lists (.flh (o - mmpi.minBlockOrder)) := by
    show pushFront mmpi.lists .freeFln i (.flh (o - mmpi.minBlockOrder)) = _
    rw [pushFront, Function.update_of_ne (by simp)]
  show ((mmpi.returnFreeFln i).lists (.flh (o - mmpi.minBlockOrder))).map
    (Function.update mmpi.block i 0) = _
  rw [lists]
  refine List.map_congr_left fun c inside => Function.update_of_ne ?_ _ _
  rintro rfl
  exact unlinked _ inside

theorem unlinked_linked {n : Nat} (listed : Listed live mmpi) (inside : live a)
    (unused : (mmpi.head a).flag = 0) : (mmpi.unlinked a).Linked n ↔ mmpi.Linked n := by
  refine returned_linked ⟨_, listed.mem inside unused⟩ fun n => ?_
  exact popped_linked listed.apart

theorem unlinked_freeBlocks {o : Nat} (apart : Apart mmpi.lists) : (mmpi.unlinked a).freeBlocks o =
    ((mmpi.lists (.flh (o - mmpi.minBlockOrder))).erase (mmpi.head a).flnIdx).map mmpi.block := by
  have away (place : FlnList) : (mmpi.head a).flnIdx ∉ removeNode mmpi.lists (mmpi.head a).flnIdx place :=
    fun again => (apart.mem_removeNode.mp again).1 rfl
  exact @give_freeBlocks _ ((mmpi.popped (mmpi.head a).flnIdx).writeHead a _) o away

/-- A descriptor in no list becomes unused. -/
theorem give_holds (holds : Holds tailed out span mmpi blocks) (unlinked : ∀ place, i ∉ mmpi.lists place)
    (small : i < mmpi.flnCount) : Holds tailed out span (mmpi.returnFreeFln i) blocks :=
  ⟨holds.tiled, holds.shaped, holds.tails, holds.flags, holds.listed.give unlinked small⟩

/-- The blocks that stay in the lists when one leaves. -/
theorem live_shrinks (holds : Holds tailed 0 0 mmpi blocks) (configured : Configured mmpi) (c : Nat) :
    c ∈ blocks ∧ c ≠ a ↔ (c ∈ blocks ∧ c ≠ 0) ∧ c ≠ a := by
  constructor
  · exact fun still => ⟨⟨still.1, holds.real configured still.1⟩, still.2⟩
  · exact fun still => ⟨still.1.1, still.2⟩

/-- A free block is in no list while its descriptor is held. -/
theorem pop_holds (holds : Holds tailed 0 0 mmpi blocks) (configured : Configured mmpi) (member : a ∈ blocks)
    (unused : (mmpi.head a).flag = 0) :
    Holds tailed a (mmpi.size a) (mmpi.popped (mmpi.head a).flnIdx) blocks := by
  have real := holds.real configured member
  refine holds.retouch configured rfl member (Or.inr rfl) (Or.inl rfl) (fun _ _ => rfl) ?_
    (fun _ other => absurd rfl other) (fun other => absurd rfl other)
    (holds.listed.pop ⟨member, real⟩ unused (live_shrinks holds configured))
  rw [Holds.size_in real]
  exact if_pos rfl

theorem unlink_holds (holds : Holds tailed 0 0 mmpi blocks) (configured : Configured mmpi) (member : a ∈ blocks)
    (unused : (mmpi.head a).flag = 0) : Holds tailed a (mmpi.size a) (mmpi.unlinked a) blocks := by
  have real := holds.real configured member
  have positive := (holds.tiled.bounds member).2.1
  refine holds.retouch configured rfl member (Or.inr rfl) (Or.inl rfl) ?_ ?_
    (fun _ other => absurd rfl other) (fun other => absurd rfl other)
    (holds.listed.unlink ⟨member, real⟩ unused (live_shrinks holds configured))
  · intro x outside
    exact unlinked_word (by omega)
  · rw [Holds.size_in real]
    exact if_pos rfl

/-- The pool after the flag of a block has been written. -/
def MmpoolImpl.flagged (mmpi : MmpoolImpl) (a flag : Nat) : MmpoolImpl :=
  mmpi.writeHead a { mmpi.head a with flag }

theorem flagged_head {flag : Nat} (small : flag < 16) :
    (mmpi.flagged a flag).head a = { mmpi.head a with flag } :=
  @writeHead_head a mmpi { mmpi.head a with flag } small

/-- A block without a list is given to a caller. -/
theorem use_holds (holds : Holds tailed a (2 ^ k) mmpi blocks) (configured : Configured mmpi) (member : a ∈ blocks)
    (size : mmpi.size a = 2 ^ k) (tail : tailed → mmpi.word (a + 2 ^ k - headSize) = ⟨tailLabel, 2 ^ k⟩)
    (least : mmpi.minBlockOrder ≤ k) : Holds tailed 0 0 (mmpi.flagged a blockBitUsed) blocks := by
  have real := holds.real configured member
  have large := configured.large least
  have span : mmpi.sizeIn a (2 ^ k) a = 2 ^ k := if_pos rfl
  have head := @flagged_head a mmpi blockBitUsed (by decide)
  have same : (mmpi.flagged a blockBitUsed).size a = 2 ^ k :=
    (congrArg BlockHead.blockSize head).trans size
  have within : mmpi.Within (mmpi.flagged a blockBitUsed) a (a + mmpi.sizeIn a (2 ^ k) a) := by
    intro x outside
    have positive : 0 < 2 ^ k := Nat.two_pow_pos k
    exact writeHead_word (by omega)
  refine holds.retouch configured rfl member (Or.inl rfl) (Or.inr rfl) within ?_ ?_ ?_ ?_
  · rw [Holds.size_in real, same, span]
  · intro matching _
    have apart : a + 2 ^ k - headSize ≠ a := by
      simp only [headTailSize, headSize] at large ⊢
      omega
    rw [same]
    exact (writeHead_word apart).trans (tail matching)
  · intro _
    rw [head]
    exact Or.inr rfl
  · have others : Listed (fun c => c ∈ blocks ∧ c ≠ a) (mmpi.flagged a blockBitUsed) :=
      holds.listed.congr (fun c still => head_congr (writeHead_word still.2)) rfl rfl rfl rfl
    refine others.enter_used (a := a) ?_ real ?_ ?_
    · intro c
      constructor
      · rintro ⟨inside, -⟩
        by_cases equal : c = a
        · exact Or.inr equal
        · exact Or.inl ⟨inside, equal⟩
      · rintro (⟨inside, -⟩ | rfl)
        · exact ⟨inside, holds.real configured inside⟩
        · exact ⟨member, real⟩
    · rw [head]
      exact (by decide : blockBitUsed ≠ 0)
    · rw [same, Nat.log2_two_pow]
      exact least

/-- A used block comes back, and it is in no list yet. -/
theorem unuse_holds (holds : Holds tailed 0 0 mmpi blocks) (configured : Configured mmpi) (member : a ∈ blocks)
    (used : (mmpi.head a).flag ≠ 0) : Holds tailed a (mmpi.size a) (mmpi.flagged a 0) blocks := by
  have real := holds.real configured member
  have positive := (holds.tiled.bounds member).2.1
  refine holds.retouch configured rfl member (Or.inr rfl) (Or.inl rfl) ?_ ?_
    (fun _ other => absurd rfl other) (fun other => absurd rfl other) ?_
  · intro x outside
    exact writeHead_word (by omega)
  · rw [Holds.size_in real]
    exact if_pos rfl
  · have others := holds.listed.leave_used (live_shrinks holds configured) used
    exact others.congr (fun c still => head_congr (writeHead_word still.2)) rfl rfl rfl rfl

end Syslib.Mmpool
