import Syslib.Library.Tiling
import Syslib.Mmpool.Model

namespace Syslib.Mmpool

open IntrusiveLists Tiling

/-- The orders are shift counts of an `int`, and the chunk has room for whole blocks of the largest one. -/
structure Configured (mmpi : MmpoolImpl) : Prop where
  smallest : 4 ≤ mmpi.minBlockOrder
  larger : mmpi.minBlockOrder < mmpi.maxBlockOrder
  largest : mmpi.maxBlockOrder ≤ 30
  listCount : mmpi.freeListCount = mmpi.maxBlockOrder - mmpi.minBlockOrder + 1
  payload : mmpi.maxPayloadSize = 2 ^ mmpi.maxBlockOrder - headTailSize
  real : headSize ≤ mmpi.chunkAddr
  room : mmpi.chunkAddr + mmpi.chunkSize < 2 ^ 64
  whole : mmpi.chunkSize % 2 ^ mmpi.maxBlockOrder = 0

namespace MmpoolImpl

def size (mmpi : MmpoolImpl) (a : Nat) : Nat := (mmpi.head a).blockSize

def limit (mmpi : MmpoolImpl) : Nat := mmpi.chunkAddr + mmpi.chunkSize

/-- The header of the block `out` may be stale while its size changes. -/
def sizeIn (mmpi : MmpoolImpl) (out span : Nat) (a : Nat) : Nat := if a = out then span else mmpi.size a

/-- Only the words in the range may differ. -/
def Within (mmpi next : MmpoolImpl) (lo hi : Nat) : Prop :=
  ∀ x, x < lo ∨ hi ≤ x → next.word x = mmpi.word x

end MmpoolImpl

/-- The lists have the descriptors of the free blocks among the live ones. -/
structure Listed (live : Nat → Prop) (mmpi : MmpoolImpl) : Prop where
  apart : Apart mmpi.lists
  inside : ∀ {i place}, i ∈ mmpi.lists place → i < mmpi.flnCount
  real : ¬ live 0
  ordered : ∀ {a}, live a → mmpi.minBlockOrder ≤ Nat.log2 (mmpi.size a)
  free : ∀ {i idx}, i ∈ mmpi.lists (.flh idx) ↔ live (mmpi.block i) ∧
    (mmpi.head (mmpi.block i)).flag = 0 ∧ (mmpi.head (mmpi.block i)).flnIdx = i ∧
    mmpi.minBlockOrder + idx = Nat.log2 (mmpi.size (mmpi.block i))
  linked : ∀ {a}, live a → (mmpi.head a).flag = 0 → mmpi.block (mmpi.head a).flnIdx = a

/-- The block `out` is in no list, and its header is not trusted; a null `out` makes no exception. -/
structure Holds (tailed : Prop) (out span : Nat) (mmpi : MmpoolImpl) (blocks : List Nat) : Prop where
  tiled : Tiles id (mmpi.sizeIn out span) blocks mmpi.chunkAddr mmpi.limit
  shaped : ∀ a ∈ blocks, ∃ k, mmpi.minBlockOrder ≤ k ∧ k ≤ mmpi.maxBlockOrder ∧
    mmpi.sizeIn out span a = 2 ^ k ∧ (a - mmpi.chunkAddr) % 2 ^ k = 0
  tails : tailed → ∀ a ∈ blocks, a ≠ out → mmpi.word (a + mmpi.size a - headSize) = ⟨tailLabel, mmpi.size a⟩
  flags : ∀ a ∈ blocks, a ≠ out → (mmpi.head a).flag = 0 ∨ (mmpi.head a).flag = blockBitUsed
  listed : Listed (fun a => a ∈ blocks ∧ a ≠ out) mmpi

variable {tailed : Prop} {a b h i k out span : Nat} {mmpi next : MmpoolImpl} {live more fewer : Nat → Prop}
  {blocks front back : List Nat}

section Words

theorem blockSize_eq {order : Nat} (small : order < 32) : blockSize order = 2 ^ order := by
  have inside : 2 ^ order < 2 ^ 32 := Nat.pow_lt_pow_right (by decide) small
  rw [blockSize, shiftOne, Nat.mod_eq_of_lt small, BitVec.toNat_shiftLeft, BitVec.toNat_ofNat,
    Nat.shiftLeft_eq, Nat.one_mod, Nat.one_mul, Nat.mod_eq_of_lt inside]

theorem head_congr (same : next.word a = mmpi.word a) : next.head a = mmpi.head a := by
  rw [MmpoolImpl.head, MmpoolImpl.head, same]

theorem size_congr (same : next.word a = mmpi.word a) : next.size a = mmpi.size a :=
  congrArg BlockHead.blockSize (head_congr same)

theorem writeHead_head {head : BlockHead} (small : head.flag < 16) : (mmpi.writeHead a head).head a = head := by
  have word : (mmpi.writeHead a head).word a = head.word := Function.update_self ..
  rw [MmpoolImpl.head, word]
  have low : (head.flag + 16 * head.flnIdx) % 16 = head.flag := by omega
  have high : (head.flag + 16 * head.flnIdx) / 16 = head.flnIdx := by omega
  simp only [BlockHead.word, low, high]

theorem writeHead_word {head : BlockHead} {x : Nat} (other : x ≠ a) :
    (mmpi.writeHead a head).word x = mmpi.word x := Function.update_of_ne other _ _

/-- The pool after a head and a tail have been written. -/
def MmpoolImpl.made (mmpi : MmpoolImpl) (a size : Nat) : MmpoolImpl :=
  (mmpi.writeHead a { mmpi.head a with flag := 0, blockSize := size }).makeBlockTail (a + size - headSize) size

theorem makeBlock_eq (large : 4 ≤ k) (small : k < 32) :
    mmpi.makeBlock a (2 ^ k) = (mmpi.made a (2 ^ k), a) := by
  have least : 2 ^ 4 ≤ 2 ^ k := Nat.pow_le_pow_right (by decide) large
  have word : 2 ^ k < 2 ^ 64 := Nat.pow_lt_pow_right (by decide) (by omega)
  have power : isTwoPower 0 0 (2 ^ k) := by
    rw [isTwoPower_iff (by omega) word, Nat.log2_two_pow]
  rw [MmpoolImpl.makeBlock, if_pos power]
  rfl

variable {size : Nat}

theorem made_head (large : headTailSize ≤ size) :
    (mmpi.made a size).head a = ⟨0, (mmpi.head a).flnIdx, size⟩ := by
  have apart : a ≠ a + size - headSize := by
    simp only [headTailSize, headSize] at large ⊢
    omega
  have same : (mmpi.made a size).word a =
      (mmpi.writeHead a { mmpi.head a with flag := 0, blockSize := size }).word a :=
    Function.update_of_ne apart _ _
  rw [head_congr same]
  exact writeHead_head (show 0 < 16 by decide)

theorem made_tail : (mmpi.made a size).word (a + size - headSize) = ⟨tailLabel, size⟩ :=
  Function.update_self ..

theorem made_word {x : Nat} (head : x ≠ a) (tail : x ≠ a + size - headSize) :
    (mmpi.made a size).word x = mmpi.word x :=
  (Function.update_of_ne tail _ _).trans (writeHead_word head)

theorem made_within (large : headTailSize ≤ size) : mmpi.Within (mmpi.made a size) a (a + size) := by
  intro x outside
  simp only [headTailSize] at large
  refine made_word ?_ ?_
  · omega
  · simp only [headSize]
    omega

end Words

namespace Listed

theorem congr (listed : Listed live mmpi) (heads : ∀ a, live a → next.head a = mmpi.head a)
    (lists : next.lists = mmpi.lists) (block : next.block = mmpi.block)
    (count : next.flnCount = mmpi.flnCount) (order : next.minBlockOrder = mmpi.minBlockOrder) :
    Listed live next := by
  have size {a : Nat} (inside : live a) : next.size a = mmpi.size a :=
    congrArg BlockHead.blockSize (heads a inside)
  refine ⟨lists ▸ listed.apart, ?_, listed.real, ?_, ?_, ?_⟩
  · intro i place linked
    rw [count]
    rw [lists] at linked
    exact listed.inside linked
  · intro a inside
    rw [order, size inside]
    exact listed.ordered inside
  · intro i idx
    rw [lists, block, listed.free, order]
    constructor
    · rintro ⟨inside, rest⟩
      rw [heads _ inside, size inside]
      exact ⟨inside, rest⟩
    · rintro ⟨inside, rest⟩
      rw [heads _ inside, size inside] at rest
      exact ⟨inside, rest⟩
  · intro a inside unused
    rw [heads a inside] at unused ⊢
    rw [block]
    exact listed.linked inside unused

/-- The descriptor of a free block is in the list of its size. -/
theorem mem (listed : Listed live mmpi) (inside : live a) (unused : (mmpi.head a).flag = 0) :
    (mmpi.head a).flnIdx ∈ mmpi.lists (.flh (Nat.log2 (mmpi.size a) - mmpi.minBlockOrder)) := by
  have back := listed.linked inside unused
  have order := listed.ordered inside
  refine listed.free.mpr ?_
  rw [back]
  exact ⟨inside, unused, rfl, by omega⟩

/-- A block leaves its list while its descriptor is in the hands of the caller. -/
theorem pop (listed : Listed live mmpi) (inside : live a) (unused : (mmpi.head a).flag = 0)
    (shrinks : ∀ c, fewer c ↔ live c ∧ c ≠ a) :
    Listed fewer { mmpi with lists := removeNode mmpi.lists (mmpi.head a).flnIdx } := by
  have back := listed.linked inside unused
  refine ⟨listed.apart.removeNode _, ?_, ?_, ?_, ?_, ?_⟩
  · intro i place linked
    exact listed.inside (listed.apart.mem_removeNode.mp linked).2
  · exact fun zero => listed.real ((shrinks 0).mp zero).1
  · exact fun still => listed.ordered ((shrinks _).mp still).1
  · intro i idx
    show i ∈ removeNode mmpi.lists (mmpi.head a).flnIdx (.flh idx) ↔ fewer (mmpi.block i) ∧ _
    rw [listed.apart.mem_removeNode, listed.free, shrinks]
    constructor
    · rintro ⟨other, still, rest⟩
      refine ⟨⟨still, ?_⟩, rest⟩
      intro same
      rw [same] at rest
      exact other rest.2.1.symm
    · rintro ⟨⟨still, other⟩, rest⟩
      refine ⟨?_, still, rest⟩
      rintro rfl
      exact other back
  · intro c still unusedC
    exact listed.linked ((shrinks c).mp still).1 unusedC

/-- A descriptor in no list becomes unused. -/
theorem give (listed : Listed live mmpi) (apart : ∀ place, i ∉ mmpi.lists place)
    (small : i < mmpi.flnCount) : Listed live (mmpi.returnFreeFln i) := by
  have inserted := @inserted_pushFront _ _ _ mmpi.lists .freeFln i
  have elsewhere {j : Nat} (other : j ≠ i) : (mmpi.returnFreeFln i).block j = mmpi.block j :=
    Function.update_of_ne other _ _
  have here : (mmpi.returnFreeFln i).block i = 0 := Function.update_self ..
  refine ⟨inserted.apart listed.apart apart, ?_, listed.real, listed.ordered, ?_, ?_⟩
  · intro j place linked
    rcases inserted.mem.mp linked with old | ⟨rfl, -⟩
    · exact listed.inside old
    · exact small
  · intro j idx
    show j ∈ pushFront mmpi.lists .freeFln i (.flh idx) ↔ _
    rw [inserted.mem]
    by_cases same : j = i
    · subst same
      rw [here]
      constructor
      · rintro (old | ⟨-, wrong⟩)
        · exact absurd old (apart _)
        · cases wrong
      · exact fun zero => absurd zero.1 listed.real
    · rw [elsewhere same, listed.free]
      simp only [same, false_and, or_false]
      exact Iff.rfl
  · intro a inside unused
    have linked := listed.mem inside unused
    have other : (mmpi.head a).flnIdx ≠ i := fun same => apart _ (same ▸ linked)
    exact (elsewhere other).trans (listed.linked inside unused)

/-- A block that is in no list may become live while it is used. -/
theorem enter_used (listed : Listed live mmpi) (grows : ∀ c, more c ↔ live c ∨ c = a) (real : a ≠ 0)
    (used : (mmpi.head a).flag ≠ 0) (order : mmpi.minBlockOrder ≤ Nat.log2 (mmpi.size a)) :
    Listed more mmpi := by
  refine ⟨listed.apart, listed.inside, ?_, ?_, ?_, ?_⟩
  · intro zero
    rcases (grows 0).mp zero with old | same
    · exact listed.real old
    · exact real same.symm
  · intro c inside
    rcases (grows c).mp inside with old | rfl
    · exact listed.ordered old
    · exact order
  · intro i idx
    rw [listed.free, grows]
    constructor
    · exact fun found => ⟨Or.inl found.1, found.2⟩
    · rintro ⟨old | same, rest⟩
      · exact ⟨old, rest⟩
      · exact absurd (same ▸ rest.1) used
  · intro c inside unused
    rcases (grows c).mp inside with old | rfl
    · exact listed.linked old unused
    · exact absurd unused used

/-- A used block is in no list. -/
theorem leave_used (listed : Listed live mmpi) (shrinks : ∀ c, fewer c ↔ live c ∧ c ≠ a)
    (used : (mmpi.head a).flag ≠ 0) : Listed fewer mmpi := by
  refine ⟨listed.apart, listed.inside, fun zero => listed.real ((shrinks 0).mp zero).1,
    fun still => listed.ordered ((shrinks _).mp still).1, ?_,
    fun still unused => listed.linked ((shrinks _).mp still).1 unused⟩
  intro i idx
  rw [listed.free, shrinks]
  constructor
  · rintro ⟨inside, rest⟩
    exact ⟨⟨inside, fun same => used (same ▸ rest.1)⟩, rest⟩
  · exact fun found => ⟨found.1.1, found.2⟩

/-- A block takes an unused descriptor and enters the list of its size. -/
theorem link (listed : Listed live mmpi) (spare : i ∈ mmpi.lists .freeFln)
    (grows : ∀ c, more c ↔ live c ∨ c = h) (fresh : ¬ live h) (real : h ≠ 0)
    (heads : ∀ c, live c → next.head c = mmpi.head c) (head : next.head h = ⟨0, i, 2 ^ k⟩)
    (order : mmpi.minBlockOrder ≤ k)
    (lists : next.lists = pushFront (removeNode mmpi.lists i) (.flh (k - mmpi.minBlockOrder)) i)
    (block : next.block = Function.update mmpi.block i h) (count : next.flnCount = mmpi.flnCount)
    (orders : next.minBlockOrder = mmpi.minBlockOrder) : Listed more next := by
  have inserted := @inserted_pushFront _ _ _ (removeNode mmpi.lists i) (.flh (k - mmpi.minBlockOrder)) i
  have unlinked : ∀ place, i ∉ removeNode mmpi.lists i place :=
    fun place again => (listed.apart.mem_removeNode.mp again).1 rfl
  have size {c : Nat} (inside : live c) : next.size c = mmpi.size c :=
    congrArg BlockHead.blockSize (heads c inside)
  have sizeNew : Nat.log2 (next.size h) = k := by
    rw [MmpoolImpl.size, head]
    exact Nat.log2_two_pow
  have here : next.block i = h := by
    rw [block]
    exact Function.update_self ..
  have elsewhere {j : Nat} (other : j ≠ i) : next.block j = mmpi.block j := by
    rw [block]
    exact Function.update_of_ne other _ _
  have notListed (place : Nat) : i ∉ mmpi.lists (.flh place) := fun linked => by
    cases listed.apart.unique spare linked
  refine ⟨?_, ?_, ?_, ?_, ?_, ?_⟩
  · rw [lists]
    exact inserted.apart (listed.apart.removeNode i) unlinked
  · intro j place linked
    rw [count]
    rw [lists] at linked
    rcases inserted.mem.mp linked with old | ⟨rfl, -⟩
    · exact listed.inside (listed.apart.mem_removeNode.mp old).2
    · exact listed.inside spare
  · intro zero
    rcases (grows 0).mp zero with old | same
    · exact listed.real old
    · exact real same.symm
  · intro c inside
    rw [orders]
    rcases (grows c).mp inside with old | rfl
    · rw [size old]
      exact listed.ordered old
    · rw [sizeNew]
      exact order
  · intro j idx
    rw [lists, inserted.mem, listed.apart.mem_removeNode, orders, grows]
    by_cases same : j = i
    · subst same
      rw [here, head, sizeNew]
      simp only [ne_eq, not_true_eq_false, false_and, false_or, true_and, or_true, FlnList.flh.injEq]
      omega
    · rw [elsewhere same, listed.free]
      simp only [ne_eq, same, not_false_eq_true, true_and, false_and, or_false]
      constructor
      · rintro ⟨old, rest⟩
        rw [heads _ old, size old]
        exact ⟨Or.inl old, rest⟩
      · rintro ⟨old | new, rest⟩
        · rw [heads _ old, size old] at rest
          exact ⟨old, rest⟩
        · rw [new, head] at rest
          exact absurd rest.2.1.symm same
  · intro c inside unused
    rcases (grows c).mp inside with old | rfl
    · rw [heads c old] at unused ⊢
      have other : (mmpi.head c).flnIdx ≠ i := by
        rintro same
        exact notListed _ (same ▸ listed.mem old unused)
      rw [elsewhere other]
      exact listed.linked old unused
    · rw [head]
      exact here

end Listed

/-- Only the lists, the descriptors and the words may differ. -/
def MmpoolImpl.Kept (mmpi next : MmpoolImpl) : Prop :=
  next = { mmpi with lists := next.lists, block := next.block, word := next.word }

theorem MmpoolImpl.Kept.trans {last : MmpoolImpl} (first : mmpi.Kept next) (second : next.Kept last) :
    mmpi.Kept last := by
  rw [MmpoolImpl.Kept, second, first]

theorem MmpoolImpl.Kept.minBlockOrder (kept : mmpi.Kept next) : next.minBlockOrder = mmpi.minBlockOrder := by
  rw [kept]

theorem MmpoolImpl.Kept.maxBlockOrder (kept : mmpi.Kept next) : next.maxBlockOrder = mmpi.maxBlockOrder := by
  rw [kept]

theorem MmpoolImpl.Kept.flnCount (kept : mmpi.Kept next) : next.flnCount = mmpi.flnCount := by
  rw [kept]

theorem made_kept (a size : Nat) : mmpi.Kept (mmpi.made a size) := rfl

theorem Configured.kept (configured : Configured mmpi) (kept : mmpi.Kept next) : Configured next := by
  rw [kept]
  exact ⟨configured.smallest, configured.larger, configured.largest, configured.listCount,
    configured.payload, configured.real, configured.room, configured.whole⟩

namespace Holds

theorem nodup (holds : Holds tailed out span mmpi blocks) : blocks.Nodup := holds.tiled.nodup

/-- A block lies in the chunk and has its head and its tail. -/
theorem bounds (holds : Holds tailed out span mmpi blocks) (configured : Configured mmpi) (member : a ∈ blocks) :
    mmpi.chunkAddr ≤ a ∧ headTailSize ≤ mmpi.sizeIn out span a ∧
      a + mmpi.sizeIn out span a ≤ mmpi.limit := by
  have inside := holds.tiled.bounds member
  obtain ⟨k, least, -, size, -⟩ := holds.shaped a member
  have large : 2 ^ 4 ≤ 2 ^ k := Nat.pow_le_pow_right (by decide) (configured.smallest.trans least)
  refine ⟨inside.1, ?_, inside.2.2⟩
  rw [size]
  exact large

theorem real (holds : Holds tailed out span mmpi blocks) (configured : Configured mmpi) (member : a ∈ blocks) :
    a ≠ 0 := by
  have start := (holds.bounds configured member).1
  have above := configured.real
  simp only [headSize] at above
  omega

theorem size_in (other : a ≠ out) : mmpi.sizeIn out span a = mmpi.size a := if_neg other

variable {row fresh : List Nat}

/-- The blocks outside of the row keep their heads and their tails. -/
theorem frame (holds : Holds tailed out span mmpi (front ++ row ++ back)) (configured : Configured mmpi)
    (within : ∀ lo hi, Tiles id (mmpi.sizeIn out span) row lo hi → mmpi.Within next lo hi)
    {c : Nat} (place : c ∈ front ∨ c ∈ back) (other : c ≠ out) :
    next.head c = mmpi.head c ∧
      next.word (c + mmpi.size c - headSize) = mmpi.word (c + mmpi.size c - headSize) := by
  obtain ⟨hi, inner, after⟩ := tiles_append.mp holds.tiled
  obtain ⟨lo, first, middle⟩ := tiles_append.mp inner
  have same := within lo hi middle
  have member : c ∈ front ++ row ++ back := by
    simp only [List.mem_append]
    tauto
  have large := (holds.bounds configured member).2.1
  rw [size_in other] at large
  have apart : c + mmpi.size c ≤ lo ∨ hi ≤ c := by
    rcases place with inFront | inBack
    · have bounds := first.bounds inFront
      rw [size_in other] at bounds
      exact Or.inl bounds.2.2
    · exact Or.inr (after.bounds inBack).1
  simp only [headTailSize] at large
  simp only [headSize]
  exact ⟨head_congr (same c (by omega)), same _ (by omega)⟩

/-- One row of blocks is exchanged for another one over the same range. -/
theorem replace {newOut newSpan : Nat} (holds : Holds tailed out span mmpi (front ++ row ++ back))
    (configured : Configured mmpi) (kept : mmpi.Kept next) (oldOut : ∀ c, c ∈ front ∨ c ∈ back → c ≠ out)
    (apart : ∀ c, c ∈ front ∨ c ∈ back → c ≠ newOut)
    (within : ∀ lo hi, Tiles id (mmpi.sizeIn out span) row lo hi → mmpi.Within next lo hi)
    (tiles : ∀ lo hi, Tiles id (mmpi.sizeIn out span) row lo hi →
      Tiles id (next.sizeIn newOut newSpan) fresh lo hi)
    (shaped : ∀ a ∈ fresh, ∃ k, mmpi.minBlockOrder ≤ k ∧ k ≤ mmpi.maxBlockOrder ∧
      next.sizeIn newOut newSpan a = 2 ^ k ∧ (a - mmpi.chunkAddr) % 2 ^ k = 0)
    (tails : tailed → ∀ a ∈ fresh, a ≠ newOut →
      next.word (a + next.size a - headSize) = ⟨tailLabel, next.size a⟩)
    (flags : ∀ a ∈ fresh, a ≠ newOut → (next.head a).flag = 0 ∨ (next.head a).flag = blockBitUsed)
    (listed : Listed (fun a => a ∈ front ++ fresh ++ back ∧ a ≠ newOut) next) :
    Holds tailed newOut newSpan next (front ++ fresh ++ back) := by
  have start : next.chunkAddr = mmpi.chunkAddr := by rw [kept]
  have stop : next.limit = mmpi.limit := by
    rw [kept]
    rfl
  have least : next.minBlockOrder = mmpi.minBlockOrder := by rw [kept]
  have most : next.maxBlockOrder = mmpi.maxBlockOrder := by rw [kept]
  have framed {c : Nat} (place : c ∈ front ∨ c ∈ back) :=
    holds.frame configured within place (oldOut c place)
  have sizes {c : Nat} (place : c ∈ front ∨ c ∈ back) :
      next.sizeIn newOut newSpan c = mmpi.sizeIn out span c := by
    rw [size_in (apart c place), size_in (oldOut c place)]
    exact congrArg BlockHead.blockSize (framed place).1
  have old {c : Nat} (place : c ∈ front ∨ c ∈ back) : c ∈ front ++ row ++ back := by
    simp only [List.mem_append]
    tauto
  refine ⟨?_, ?_, ?_, ?_, listed⟩
  · rw [start, stop]
    exact holds.tiled.replace (fun c place => ⟨rfl, sizes place⟩) tiles
  · intro a member
    rw [start, least, most]
    rcases List.mem_append.mp member with inner | inBack
    · rcases List.mem_append.mp inner with inFront | inRow
      · rw [sizes (Or.inl inFront)]
        exact holds.shaped a (old (Or.inl inFront))
      · exact shaped a inRow
    · rw [sizes (Or.inr inBack)]
      exact holds.shaped a (old (Or.inr inBack))
  · intro matching a member other
    by_cases inRow : a ∈ fresh
    · exact tails matching a inRow other
    · have place : a ∈ front ∨ a ∈ back := by
        simp only [List.mem_append] at member
        tauto
      have size : next.size a = mmpi.size a := congrArg BlockHead.blockSize (framed place).1
      rw [size, (framed place).2]
      exact holds.tails matching a (old place) (oldOut a place)
  · intro a member other
    by_cases inRow : a ∈ fresh
    · exact flags a inRow other
    · have place : a ∈ front ∨ a ∈ back := by
        simp only [List.mem_append] at member
        tauto
      rw [(framed place).1]
      exact holds.flags a (old place) (oldOut a place)

/-- A block stands in the row between a front and a back part. -/
theorem apart (holds : Holds tailed out span mmpi blocks) (member : a ∈ blocks) :
    ∃ front back, blocks = front ++ [a] ++ back ∧ ∀ c, c ∈ front ∨ c ∈ back → c ≠ a := by
  obtain ⟨front, back, rfl⟩ := List.append_of_mem member
  refine ⟨front, back, List.append_cons .., ?_⟩
  intro c place same
  exact (List.nodup_middle.mp holds.nodup).notMem (same ▸ List.mem_append.mpr place)

theorem row_within (within : mmpi.Within next a (a + mmpi.sizeIn out span a)) (lo hi : Nat)
    (row : Tiles id (mmpi.sizeIn out span) [a] lo hi) : mmpi.Within next lo hi := by
  obtain ⟨rfl, -, rfl⟩ := row
  exact within

/-- The other blocks keep their heads while the words of one block change. -/
theorem heads (holds : Holds tailed out span mmpi blocks) (configured : Configured mmpi) (member : a ∈ blocks)
    (within : mmpi.Within next a (a + mmpi.sizeIn out span a)) {c : Nat} (inside : c ∈ blocks)
    (notOut : c ≠ out) (other : c ≠ a) : next.head c = mmpi.head c := by
  obtain ⟨front, back, rfl, -⟩ := holds.apart member
  refine (holds.frame configured (row_within within) ?_ notOut).1
  simp only [List.mem_append, List.mem_singleton] at inside
  tauto

/-- One block gets another head, tail or place in the lists, and keeps its size. -/
theorem retouch {newOut newSpan : Nat} (holds : Holds tailed out span mmpi blocks) (configured : Configured mmpi)
    (kept : mmpi.Kept next) (member : a ∈ blocks) (old : out = a ∨ out = 0) (new : newOut = a ∨ newOut = 0)
    (within : mmpi.Within next a (a + mmpi.sizeIn out span a))
    (size : next.sizeIn newOut newSpan a = mmpi.sizeIn out span a)
    (tail : tailed → a ≠ newOut → next.word (a + next.size a - headSize) = ⟨tailLabel, next.size a⟩)
    (flag : a ≠ newOut → (next.head a).flag = 0 ∨ (next.head a).flag = blockBitUsed)
    (listed : Listed (fun c => c ∈ blocks ∧ c ≠ newOut) next) : Holds tailed newOut newSpan next blocks := by
  have elsewhere {o c : Nat} (one : o = a ∨ o = 0) (inside : c ∈ blocks) (other : c ≠ a) : c ≠ o := by
    rcases one with rfl | rfl
    · exact other
    · exact holds.real configured inside
  obtain ⟨front, back, rfl, other⟩ := holds.apart member
  have inside {c : Nat} (place : c ∈ front ∨ c ∈ back) : c ∈ front ++ [a] ++ back := by
    simp only [List.mem_append]
    tauto
  refine holds.replace configured kept (fun c place => elsewhere old (inside place) (other c place))
    (fun c place => elsewhere new (inside place) (other c place)) (row_within within) ?_ ?_ ?_ ?_ listed
  · intro lo hi row
    refine row.congr fun c inRow => ⟨rfl, ?_⟩
    obtain rfl := List.mem_singleton.mp inRow
    exact size
  · intro c inRow
    obtain rfl := List.mem_singleton.mp inRow
    rw [size]
    exact holds.shaped c member
  · intro matching c inRow
    obtain rfl := List.mem_singleton.mp inRow
    exact tail matching
  · intro c inRow
    obtain rfl := List.mem_singleton.mp inRow
    exact flag

end Holds

end Syslib.Mmpool
