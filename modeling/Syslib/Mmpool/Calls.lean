import Syslib.Library.Runs
import Syslib.Mmpool.Count
import Syslib.Mmpool.Load

namespace Syslib.Mmpool

open IntrusiveLists Tiling Buddies Runs

variable {a c i j k n o p : Nat} {mmpi next origin : MmpoolImpl} {blocks pieces : List Nat}

namespace MmpoolImpl

/-- The blocks that follow each other from an address to the end of the chunk. -/
def walk (mmpi : MmpoolImpl) : Nat → Nat → List Nat
  | 0, _ => []
  | rounds + 1, a => if a < mmpi.limit then a :: mmpi.walk rounds (mmpi.nextBlock a) else []

def reached (mmpi : MmpoolImpl) : List Nat := mmpi.walk mmpi.chunkSize mmpi.chunkAddr

def IsUsed (mmpi : MmpoolImpl) (blocks : List Nat) (a : Nat) : Prop := a ∈ blocks ∧ (mmpi.head a).flag ≠ 0

theorem walk_eq {rounds : Nat} (tiled : Tiles id mmpi.size blocks a mmpi.limit) (enough : mmpi.limit ≤ a + rounds) :
    mmpi.walk rounds a = blocks := by
  induction rounds generalizing a blocks with
  | zero =>
      cases blocks with
      | nil => rfl
      | cons first rest =>
          have bounds := tiled.bounds (List.mem_cons_self : first ∈ first :: rest)
          rw [id_eq] at bounds
          omega
  | succ rounds ih =>
      cases blocks with
      | nil =>
          have done : a = mmpi.limit := tiled
          rw [walk, if_neg (by omega)]
      | cons first rest =>
          obtain ⟨here, positive, behind⟩ := tiled
          have stop := behind.le
          have after : mmpi.nextBlock first = first + mmpi.size first := rfl
          rw [id_eq] at here
          subst here
          rw [walk, if_pos (by omega)]
          exact congrArg _ (ih behind (by omega))

end MmpoolImpl

namespace Sound

variable (sound : Sound mmpi blocks)

include sound

theorem tiled : Tiles id mmpi.size blocks mmpi.chunkAddr mmpi.limit :=
  sound.holds.tiled.congr fun _ member => ⟨rfl, (Holds.size_in (sound.holds.real sound.configured member)).symm⟩

theorem reached_eq : mmpi.reached = blocks := MmpoolImpl.walk_eq sound.tiled le_rfl

/-- Used blocks differ from free ones, so a change in a free block does not reach them. -/
theorem used_outside (free : mmpi.IsFree blocks a j) (used : mmpi.IsUsed blocks c) : c < a ∨ a + 2 ^ j ≤ c := by
  have other : c ≠ a := by
    rintro rfl
    exact used.2 free.2.1
  have outside := sound.holds.start_outside free.1 used.1 other
  rwa [Holds.size_in (sound.holds.real sound.configured free.1), free.2.2] at outside

/-- A split and a merge keep the descriptors and the padding before the chunk. -/
theorem carry (kept : mmpi.Kept next) (holds : Holds True 0 0 next pieces) (unpaired : next.Unpaired pieces)
    (linked : ∀ n, next.Linked n ↔ mmpi.Linked n) {lo hi : Nat} (within : mmpi.Within next lo hi)
    (start : mmpi.chunkAddr ≤ lo) (clear : ∀ c ∈ pieces, (next.head c).flag ≠ 0 → (next.head c).flnIdx = 0) :
    Sound next pieces := by
  have real := sound.configured.real
  have chunk : next.chunkAddr = mmpi.chunkAddr := by rw [kept]
  have count : next.flnCount = mmpi.flnCount := by rw [kept]
  rw [headSize] at real
  refine ⟨sound.configured.kept kept, holds, unpaired, ?_, ?_, clear⟩
  · intro i small
    rw [count] at small
    exact (linked i).mpr (sound.linked i small)
  · rw [chunk, within _ (Or.inl (by rw [headSize]; omega))]
    exact sound.before

/-- An allocation changes nothing, or it adds a used block to the used ones. -/
theorem alloc (supplied : mmpi.Supplied) (n : Nat) :
    mmpAlloc mmpi n = some (mmpi, 0) ∨
      ∃ next a pieces, mmpAlloc mmpi n = some (next, payloadAddr a) ∧ mmpi.Kept next ∧ Sound next pieces ∧
        ¬ mmpi.IsUsed blocks a ∧ n + headTailSize ≤ next.size a ∧
        (∀ c, next.IsUsed pieces c ↔ c = a ∨ mmpi.IsUsed blocks c) ∧
        ∀ c, mmpi.IsUsed blocks c → next.word c = mmpi.word c := by
  by_cases fits : 1 ≤ n ∧ n ≤ mmpi.maxPayloadSize
  · have least : mmpi.minBlockOrder ≤ mmpi.neededOrder n := le_max_left _ _
    rcases mmpAlloc_cases sound.configured sound.holds (fun j less most filled none_ =>
      sound.supply supplied least less most filled none_) fits.1 fits.2 with
      ⟨null, -⟩ | ⟨j, a, rest, next, above, below, -, first, ran, taken⟩
    · exact Or.inl null
    · right
      obtain ⟨pieces, holds, members⟩ := taken.holds
      have now := sound.configured.kept taken.kept
      have free : mmpi.IsFree blocks a j :=
        (sound.holds.mem_freeBlocks sound.configured (least.trans above)).mp (first ▸ List.mem_cons_self)
      have start := (sound.holds.bounds sound.configured free.1).1
      have word (c : Nat) (used : mmpi.IsUsed blocks c) : next.word c = mmpi.word c :=
        taken.within c (sound.used_outside free used)
      have used (c : Nat) : next.IsUsed pieces c ↔ c = a ∨ mmpi.IsUsed blocks c := by
        constructor
        · rintro ⟨inside, flag⟩
          by_cases same : c = a
          · exact Or.inl same
          · rcases (members c).mp inside with old | ⟨o, low, high, rfl⟩
            · have outside := sound.holds.start_outside free.1 old same
              rw [Holds.size_in (sound.holds.real sound.configured free.1), free.2.2] at outside
              rw [head_congr (taken.within c outside)] at flag
              exact Or.inr ⟨old, flag⟩
            · have order : next.minBlockOrder = mmpi.minBlockOrder := by rw [taken.kept]
              have listed := taken.free o (by omega)
              rw [if_neg (by omega), if_pos ⟨low, high⟩] at listed
              have part : a + 2 ^ o ∈ next.freeBlocks o := listed ▸ List.mem_singleton_self _
              exact absurd ((holds.mem_freeBlocks now (by omega)).mp part).2.1 flag
        · rintro (rfl | old)
          · exact ⟨(members c).mpr (Or.inl free.1), by simp [taken.head, blockBitUsed]⟩
          · exact ⟨(members c).mpr (Or.inl old.1), by rw [head_congr (word c old)]; exact old.2⟩
      refine ⟨next, a, pieces, ran, taken.kept, ?_, fun used => used.2 free.2.1, ?_, used, word⟩
      · refine sound.carry taken.kept holds (taken.unpaired sound.configured sound.holds sound.unpaired holds)
          taken.linked taken.within start fun c inside flag => ?_
        rcases (used c).mp ⟨inside, flag⟩ with rfl | old
        · rw [taken.head]
        · rw [head_congr (word c old)] at flag ⊢
          exact sound.clear c old.1 flag
      · rw [MmpoolImpl.size, taken.head]
        exact (Nat.le_pow_clog (by decide) _).trans (Nat.pow_le_pow_right (by decide) (le_max_right _ _))
  · left
    rw [mmpAlloc, if_pos (by omega)]

/-- The words that a merge at the start of the chunk reads are clear, so only its list decides. -/
theorem guarded (supplied : mmpi.Supplied) (used : mmpi.IsUsed blocks a) (spared : ∀ m, k ≤ m →
      m < mmpi.maxBlockOrder → mmpi.enclosed a m = mmpi.chunkAddr →
      (∀ o, k ≤ o → o < m → mmpi.IsFree blocks (mmpi.buddy a o) o) → ¬ mmpi.IsFree blocks (mmpi.buddy a m) m →
      mmpi.freeBlocks m = []) : mmpi.Guarded blocks a k := by
  intro m low less first chain single
  have pairs := (sound.bounds supplied used.1).1
  exact ⟨sound.before, sound.clear a used.1 used.2, by omega, spared m low less first chain single⟩

/-- A release takes one block from the used ones. -/
theorem free (supplied : mmpi.Supplied) (used : mmpi.IsUsed blocks a) (size : mmpi.size a = 2 ^ k)
    (guarded : mmpi.Guarded blocks a k) :
    ∃ next pieces, mmpFree mmpi (payloadAddr a) = some (next, 0) ∧ mmpi.Kept next ∧ Sound next pieces ∧
      (∀ c, next.IsUsed pieces c ↔ mmpi.IsUsed blocks c ∧ c ≠ a) ∧
      ∀ c, mmpi.IsUsed blocks c → c ≠ a → next.word c = mmpi.word c := by
  have flag := (sound.holds.flags a used.1 (sound.holds.real sound.configured used.1)).resolve_left used.2
  obtain ⟨m, next, pieces, ran, freed⟩ := mmpFree_freed sound.configured sound.holds used.1 flag size guarded
    (sound.spare_ne supplied used.1)
  have unpaired := freed.unpaired sound.configured sound.unpaired
  have bounds := enclosing_bounds m (a - mmpi.chunkAddr)
  have start := (sound.holds.bounds sound.configured used.1).1
  have place : mmpi.enclosed a m = mmpi.chunkAddr + enclosing m (a - mmpi.chunkAddr) := rfl
  have word (c : Nat) (inside : c ∈ blocks)
      (outside : c + mmpi.size c ≤ mmpi.enclosed a m ∨ mmpi.enclosed a m + 2 ^ m ≤ c) : next.word c = mmpi.word c := by
    have positive := (sound.tiled.bounds inside).2.1
    exact freed.within c (by omega)
  have apart (c : Nat) (old : mmpi.IsUsed blocks c) (other : c ≠ a) :=
    chain_outside sound.configured sound.holds used.1 size old.1 other old.2 freed.low freed.chain
  have remains (c : Nat) : next.IsUsed pieces c ↔ mmpi.IsUsed blocks c ∧ c ≠ a := by
    constructor
    · rintro ⟨inside, flag⟩
      rcases (freed.members c).mp inside with rfl | ⟨old, outside⟩
      · exact absurd freed.free.2.1 flag
      · rw [head_congr (word c old outside)] at flag
        have positive := (sound.tiled.bounds old).2.1
        exact ⟨⟨old, flag⟩, by rintro rfl; omega⟩
    · rintro ⟨old, other⟩
      have outside := apart c old other
      refine ⟨(freed.members c).mpr (Or.inr ⟨old.1, outside⟩), ?_⟩
      rw [head_congr (word c old.1 outside)]
      exact old.2
  refine ⟨next, pieces, ran, freed.kept, ?_, remains, fun c old other => word c old.1 (apart c old other)⟩
  refine sound.carry freed.kept freed.holds unpaired freed.linked freed.within (by omega) fun c inside flag => ?_
  obtain ⟨old, other⟩ := (remains c).mp ⟨inside, flag⟩
  rw [head_congr (word c old.1 (apart c old other))]
  exact sound.clear c old.1 old.2

end Sound

/-- A new pool has clear words before its chunk and no used block. -/
theorem mmpCreate_sound {addr label : Nat} {outside : Nat → Word} {cfg : MmpConfig} (ordered : Ordered cfg)
    (top : addr + cfg.totalSize.toNat + 4096 ≤ 2 ^ 64) (made : mmpCreate outside label addr cfg = some (some mmpi)) :
    ∃ blocks, Sound mmpi blocks ∧ ∀ a ∈ blocks, (mmpi.head a).flag = 0 := by
  obtain ⟨configured, behind, blocks, rowed⟩ := mmpCreate_rowed ordered top made
  have real := configured.real
  rw [headSize] at real
  have zero : (emptyPool outside addr cfg).word ((emptyPool outside addr cfg).chunkAddr - headSize) = ⟨0, 0⟩ := by
    refine if_pos (?_ : _ < memoryEnd addr cfg)
    rw [headSize]
    omega
  have unused (a : Nat) (inside : a ∈ blocks) : (mmpi.head a).flag = 0 := (rowed.largest a inside).1
  refine ⟨blocks, ⟨configured.kept rowed.kept, rowed.full, rowed.unpaired, ?_, ?_, ?_⟩, unused⟩
  · intro i small
    rw [rowed.kept] at small
    exact (rowed.linked i).mpr ⟨.freeFln, emptyPool_spare ▸ List.mem_range.mpr small⟩
  · have chunk : mmpi.chunkAddr = (emptyPool outside addr cfg).chunkAddr := by rw [rowed.kept]
    rw [chunk, rowed.within _ (Or.inl (by rw [headSize]; omega)), zero]
  · exact fun a inside flag => absurd (unused a inside) flag

/-- A pool and the pointers that its users hold, each with the size of its request. -/
structure Heap where
  mmpi : MmpoolImpl
  live : List (Nat × Nat)

/-- A null result holds nothing. -/
def mmpStep (call : MmpCall) (heap : Heap) : Option Heap :=
  match call with
  | .alloc payloadSize => (mmpAlloc heap.mmpi payloadSize.toNat).map fun result =>
      ⟨result.1, if result.2 = 0 then heap.live else (result.2, payloadSize.toNat) :: heap.live⟩
  | .free p => (mmpFree heap.mmpi p.toNat).map fun result =>
      ⟨result.1, heap.live.filter fun entry => entry.1 ≠ p.toNat⟩

/-- If the free buddies of a block lead to the start of the chunk, then no list has another block of this order. -/
def MmpoolImpl.Spared (mmpi : MmpoolImpl) (a : Nat) : Prop :=
  ∀ m, m < mmpi.maxBlockOrder → Nat.log2 (mmpi.size a) ≤ m → mmpi.enclosed a m = mmpi.chunkAddr →
    (∀ o, o < m → Nat.log2 (mmpi.size a) ≤ o → mmpi.IsFree mmpi.reached (mmpi.buddy a o) o) →
    ¬ mmpi.IsFree mmpi.reached (mmpi.buddy a m) m → mmpi.freeBlocks m = []

instance : Decidable (mmpi.IsFree blocks a k) := inferInstanceAs (Decidable (_ ∧ _))

instance MmpoolImpl.Spared.decidable : Decidable (mmpi.Spared a) :=
  @Nat.decidableBallLT mmpi.maxBlockOrder _ fun m _ =>
    inferInstanceAs (Decidable (Nat.log2 (mmpi.size a) ≤ m → mmpi.enclosed a m = mmpi.chunkAddr →
      (∀ o, o < m → Nat.log2 (mmpi.size a) ≤ o → mmpi.IsFree mmpi.reached (mmpi.buddy a o) o) →
      ¬ mmpi.IsFree mmpi.reached (mmpi.buddy a m) m → mmpi.freeBlocks m = []))

/-- Only held pointers are released, and no release hits the list of the first block. -/
def Untrapped (call : MmpCall) (heap : Heap) : Prop :=
  match call with
  | .alloc _ => True
  | .free p => p.toNat ∈ heap.live.map Prod.fst ∧ heap.mmpi.Spared (p.toNat - headSize)

instance Untrapped.decidable : ∀ call heap, Decidable (Untrapped call heap)
  | .alloc _, _ => isTrue trivial
  | .free _, _ => inferInstanceAs (Decidable (_ ∧ _))

/-- The held pointers are the payloads of the used blocks. -/
structure Owned (heap : Heap) (blocks : List Nat) : Prop where
  used : ∀ a, heap.mmpi.IsUsed blocks a ↔ payloadAddr a ∈ heap.live.map Prod.fst
  large : ∀ entry ∈ heap.live, ∃ a, entry.1 = payloadAddr a ∧ entry.2 + headTailSize ≤ heap.mmpi.size a
  once : heap.live.Pairwise fun first second => first.1 ≠ second.1

/-- The blocks tile the chunk, the lists have the free ones, and the payloads are apart and large enough. -/
structure Consistent (heap : Heap) : Prop where
  tiled : Tiles id heap.mmpi.size heap.mmpi.reached heap.mmpi.chunkAddr heap.mmpi.limit
  shaped : ∀ a ∈ heap.mmpi.reached, ∃ k, heap.mmpi.minBlockOrder ≤ k ∧ k ≤ heap.mmpi.maxBlockOrder ∧
    heap.mmpi.size a = 2 ^ k ∧ (a - heap.mmpi.chunkAddr) % 2 ^ k = 0
  listed : ∀ o, heap.mmpi.minBlockOrder ≤ o → o ≤ heap.mmpi.maxBlockOrder → (heap.mmpi.freeBlocks o).Nodup ∧
    ∀ a, a ∈ heap.mmpi.freeBlocks o ↔ a ∈ heap.mmpi.reached ∧ (heap.mmpi.head a).flag &&& blockBitUsed = 0 ∧
      heap.mmpi.size a = 2 ^ o
  held : ∀ entry ∈ heap.live, ∃ a ∈ heap.mmpi.reached, entry.1 = payloadAddr a ∧
    (heap.mmpi.head a).flag &&& blockBitUsed ≠ 0 ∧ entry.2 ≤ heap.mmpi.size a - headTailSize
  apart : heap.live.Pairwise fun first second =>
    first.1 + (heap.mmpi.size (first.1 - headSize) - headTailSize) ≤ second.1 ∨
      second.1 + (heap.mmpi.size (second.1 - headSize) - headTailSize) ≤ first.1

theorem Sound.freeBlocks_nodup (sound : Sound mmpi blocks) (o : Nat) : (mmpi.freeBlocks o).Nodup := by
  refine List.Nodup.map_on ?_ (sound.holds.listed.apart.nodup _)
  intro i inI j inJ same
  rw [← (sound.holds.listed.free.mp inI).2.2.1, ← (sound.holds.listed.free.mp inJ).2.2.1, same]

/-- A sound pool whose used blocks are held is consistent. -/
theorem Owned.consistent {heap : Heap} (owned : Owned heap blocks) (sound : Sound heap.mmpi blocks) :
    Consistent heap := by
  have flags (a : Nat) (inside : a ∈ blocks) :
      (heap.mmpi.head a).flag &&& blockBitUsed = 0 ↔ (heap.mmpi.head a).flag = 0 := by
    rcases sound.holds.flags a inside (sound.holds.real sound.configured inside) with zero | one
    · simp [zero]
    · simp [one, blockBitUsed]
  have held (entry : Nat × Nat) (inside : entry ∈ heap.live) : ∃ a, heap.mmpi.IsUsed blocks a ∧
      entry.1 = payloadAddr a ∧ entry.2 + headTailSize ≤ heap.mmpi.size a := by
    obtain ⟨a, place, large⟩ := owned.large entry inside
    exact ⟨a, (owned.used a).mpr (place ▸ List.mem_map_of_mem inside), place, large⟩
  refine ⟨?_, ?_, ?_, ?_, ?_⟩
  · rw [sound.reached_eq]
    exact sound.tiled
  · intro a inside
    rw [sound.reached_eq] at inside
    obtain ⟨k, least, most, size, aligned⟩ := sound.holds.shaped a inside
    rw [Holds.size_in (sound.holds.real sound.configured inside)] at size
    exact ⟨k, least, most, size, aligned⟩
  · intro o least most
    refine ⟨sound.freeBlocks_nodup o, fun a => ?_⟩
    rw [sound.holds.mem_freeBlocks sound.configured least, sound.reached_eq]
    constructor
    · rintro ⟨inside, unused, size⟩
      exact ⟨inside, (flags a inside).mpr unused, size⟩
    · rintro ⟨inside, unused, size⟩
      exact ⟨inside, (flags a inside).mp unused, size⟩
  · intro entry inside
    obtain ⟨a, used, place, large⟩ := held entry inside
    refine ⟨a, sound.reached_eq ▸ used.1, place, fun zero => used.2 ((flags a used.1).mp zero), by omega⟩
  · refine owned.once.imp_of_mem fun {first second} inFirst inSecond other => ?_
    obtain ⟨a, usedA, placeA, -⟩ := held first inFirst
    obtain ⟨b, usedB, placeB, -⟩ := held second inSecond
    have apart := sound.tiled.disjoint usedA.1 usedB.1 (by rintro rfl; exact other (placeA.trans placeB.symm))
    rw [placeA, placeB, payloadAddr, payloadAddr, Nat.add_sub_cancel, Nat.add_sub_cancel]
    simp only [id_eq] at apart
    have sizeA := (sound.tiled.bounds usedA.1).2.1
    have sizeB := (sound.tiled.bounds usedB.1).2.1
    omega

/-- The run keeps a sound pool, enough descriptors and the ledger of the held pointers. -/
def Steady (heap : Heap) : Prop :=
  heap.mmpi.Supplied ∧ ∃ blocks, Sound heap.mmpi blocks ∧ Owned heap blocks

theorem MmpoolImpl.Supplied.kept (supplied : mmpi.Supplied) (kept : mmpi.Kept next) : next.Supplied := by
  rw [kept]
  exact supplied

theorem alloc_steady {heap : Heap} (steady : Steady heap) (payloadSize : BitVec 64) :
    ∃ after, mmpStep (.alloc payloadSize) heap = some after ∧ Steady after := by
  obtain ⟨supplied, blocks, sound, owned⟩ := steady
  rcases sound.alloc supplied payloadSize.toNat with null | ⟨next, a, pieces, ran, kept, held, fresh, large, used, word⟩
  · exact ⟨heap, by rw [mmpStep, null]; rfl, supplied, blocks, sound, owned⟩
  · have real : payloadAddr a ≠ 0 := by
      rw [payloadAddr, headSize]
      omega
    refine ⟨⟨next, (payloadAddr a, payloadSize.toNat) :: heap.live⟩, ?_, supplied.kept kept, pieces, held, ?_, ?_, ?_⟩
    · rw [mmpStep, ran, Option.map_some, if_neg real]
    · intro c
      rw [used, owned.used, List.map_cons, List.mem_cons, payloadAddr, payloadAddr, Nat.add_right_cancel_iff]
    · intro entry inside
      rcases List.mem_cons.mp inside with rfl | old
      · exact ⟨a, rfl, large⟩
      · obtain ⟨c, place, room⟩ := owned.large entry old
        refine ⟨c, place, ?_⟩
        rw [size_congr (word c ((owned.used c).mpr (place ▸ List.mem_map_of_mem old)))]
        exact room
    · refine List.pairwise_cons.mpr ⟨?_, owned.once⟩
      intro entry old same
      have again : payloadAddr a = entry.1 := same
      exact fresh ((owned.used a).mpr (again ▸ List.mem_map_of_mem old))

theorem free_steady {heap : Heap} (steady : Steady heap) (p : BitVec 64) (untrapped : Untrapped (.free p) heap) :
    ∃ after, mmpStep (.free p) heap = some after ∧ Steady after := by
  obtain ⟨supplied, blocks, sound, owned⟩ := steady
  obtain ⟨held, spared⟩ := untrapped
  obtain ⟨entry, inside, same⟩ := List.mem_map.mp held
  obtain ⟨a, place, -⟩ := owned.large entry inside
  have pointer : p.toNat = payloadAddr a := same.symm.trans place
  have used := (owned.used a).mpr (pointer ▸ held)
  obtain ⟨k, -, -, size, -⟩ := sound.holds.shaped a used.1
  rw [Holds.size_in (sound.holds.real sound.configured used.1)] at size
  rw [pointer, payloadAddr, Nat.add_sub_cancel, MmpoolImpl.Spared, sound.reached_eq, size, Nat.log2_two_pow] at spared
  obtain ⟨next, pieces, ran, kept, heldNext, remains, word⟩ := sound.free supplied used size
    (sound.guarded supplied used fun m low less first chain single =>
      spared m less low first (fun o below above => chain o above below) single)
  refine ⟨⟨next, heap.live.filter fun entry => entry.1 ≠ p.toNat⟩, ?_, supplied.kept kept, pieces, heldNext, ?_, ?_, ?_⟩
  · rw [mmpStep, pointer, ran]
    rfl
  · intro c
    rw [remains, owned.used, List.mem_map, List.mem_map]
    constructor
    · rintro ⟨⟨entry, old, here⟩, other⟩
      refine ⟨entry, List.mem_filter.mpr ⟨old, ?_⟩, here⟩
      rw [here, pointer, payloadAddr, payloadAddr]
      simpa using other
    · rintro ⟨entry, kept, here⟩
      obtain ⟨old, other⟩ := List.mem_filter.mp kept
      refine ⟨⟨entry, old, here⟩, ?_⟩
      rintro rfl
      rw [here, pointer] at other
      simp at other
  · intro entry kept
    obtain ⟨old, other⟩ := List.mem_filter.mp kept
    obtain ⟨c, here, room⟩ := owned.large entry old
    have apart : c ≠ a := by
      rintro rfl
      rw [here, pointer] at other
      simp at other
    refine ⟨c, here, ?_⟩
    rw [size_congr (word c ((owned.used c).mpr (here ▸ List.mem_map_of_mem old)) apart)]
    exact room
  · exact owned.once.filter _

/-- A new pool with enough descriptors goes through every run without a trapped release. -/
theorem run_steady {addr : Nat} {outside : Nat → Word} {cfg : MmpConfig} (ordered : Ordered cfg)
    (top : addr + cfg.totalSize.toNat + 4096 ≤ 2 ^ 64) (made : mmpCreate outside 0 addr cfg = some (some mmpi))
    (supplied : mmpi.Supplied) (calls : List MmpCall) (untrapped : Meets mmpStep Untrapped calls ⟨mmpi, []⟩) :
    ∃ final, exec mmpStep calls ⟨mmpi, []⟩ = some final ∧ Steady final := by
  obtain ⟨blocks, sound, unused⟩ := mmpCreate_sound ordered top made
  have start : Steady ⟨mmpi, []⟩ := by
    refine ⟨supplied, blocks, sound, ?_, fun entry inside => absurd inside List.not_mem_nil, List.Pairwise.nil⟩
    intro a
    exact ⟨fun used => absurd (unused a used.1) used.2, fun inside => absurd inside List.not_mem_nil⟩
  refine exec_invariant (fun call heap steady untrapped => ?_) calls _ start untrapped
  cases call with
  | alloc payloadSize => exact alloc_steady steady payloadSize
  | free p => exact free_steady steady p untrapped

/-- Without a trapped release, no call of a run takes a descriptor from the empty list: such a call faults. -/
theorem mmpRun_supplied (outside : Nat → Word) (addr : Nat) (cfg : MmpConfig) (mmpi : MmpoolImpl)
    (ordered : Ordered cfg) (top : addr + cfg.totalSize.toNat + 4096 ≤ 2 ^ 64)
    (made : mmpCreate outside 0 addr cfg = some (some mmpi)) (supplied : mmpi.Supplied) (calls : List MmpCall)
    (untrapped : Meets mmpStep Untrapped calls ⟨mmpi, []⟩) : ∃ final, exec mmpStep calls ⟨mmpi, []⟩ = some final := by
  obtain ⟨final, run, -⟩ := run_steady ordered top made supplied calls untrapped
  exact ⟨final, run⟩

theorem mmpRun_supplied_once : ∃ mmpi ∈ (mmpCreate (fun _ => ⟨0, 0⟩) 0 4096 ⟨512, 5, 7⟩).join,
    ∃ final, exec mmpStep [.alloc 1, .alloc 1, .free 4520, .free 4488] ⟨mmpi, []⟩ = some final := by
  obtain ⟨mmpi, made, supplied, untrapped⟩ : ∃ mmpi ∈ (mmpCreate (fun _ => ⟨0, 0⟩) 0 4096 ⟨512, 5, 7⟩).join,
      mmpi.Supplied ∧ Meets mmpStep Untrapped [.alloc 1, .alloc 1, .free 4520, .free 4488] ⟨mmpi, []⟩ := by
    decide +kernel
  exact ⟨mmpi, made, mmpRun_supplied (fun _ => ⟨0, 0⟩) 4096 ⟨512, 5, 7⟩ mmpi ⟨by decide, by decide, by decide⟩ (by decide)
    (Option.join_eq_some_iff.mp made) supplied _ untrapped⟩

/-- The upper half of the only block takes the last descriptor while the block still has its own. -/
theorem mmpAlloc_starved : ∃ mmpi ∈ (mmpCreate (fun _ => ⟨0, 0⟩) 0 4096 ⟨384, 5, 6⟩).join,
    (∃ cut ∈ { mmpi with lists := removeNode mmpi.lists 0 }.splitBlock 1 4416 64, cut.1.fetchFreeFln.isNone) ∧
      (exec mmpStep [.alloc 1] ⟨mmpi, []⟩).isNone := by
  decide +kernel

/-- After every call of a run without a trapped release the pool is consistent. -/
theorem mmpRun_consistent (outside : Nat → Word) (addr : Nat) (cfg : MmpConfig) (mmpi : MmpoolImpl)
    (ordered : Ordered cfg) (top : addr + cfg.totalSize.toNat + 4096 ≤ 2 ^ 64)
    (made : mmpCreate outside 0 addr cfg = some (some mmpi)) (supplied : mmpi.Supplied) (first rest : List MmpCall)
    (untrapped : Meets mmpStep Untrapped (first ++ rest) ⟨mmpi, []⟩) :
    ∃ heap, exec mmpStep first ⟨mmpi, []⟩ = some heap ∧ Consistent heap := by
  obtain ⟨heap, run, -, blocks, sound, owned⟩ :=
    run_steady ordered top made supplied first (meets_append.mp untrapped).1
  exact ⟨heap, run, owned.consistent sound⟩

theorem mmpRun_consistent_once : ∃ mmpi ∈ (mmpCreate (fun _ => ⟨0, 0⟩) 0 4096 ⟨512, 5, 7⟩).join,
    ∃ heap, exec mmpStep [.alloc 1, .alloc 1, .free 4520] ⟨mmpi, []⟩ = some heap ∧ Consistent heap := by
  obtain ⟨mmpi, made, supplied, untrapped⟩ : ∃ mmpi ∈ (mmpCreate (fun _ => ⟨0, 0⟩) 0 4096 ⟨512, 5, 7⟩).join,
      mmpi.Supplied ∧ Meets mmpStep Untrapped ([.alloc 1, .alloc 1, .free 4520] ++ [.free 4488]) ⟨mmpi, []⟩ := by
    decide +kernel
  exact ⟨mmpi, made, mmpRun_consistent (fun _ => ⟨0, 0⟩) 4096 ⟨512, 5, 7⟩ mmpi ⟨by decide, by decide, by decide⟩
    (by decide) (Option.join_eq_some_iff.mp made) supplied _ [.free 4488] untrapped⟩

/-- The first block of the chunk takes itself for its left buddy and grows over the used block behind it. -/
theorem mmpFree_trapped : ∃ mmpi ∈ (mmpCreate (fun _ => ⟨0, 0⟩) 0 4096 ⟨512, 5, 7⟩).join,
    ∃ heap ∈ exec mmpStep [.alloc 1, .alloc 1, .alloc 1, .free 4488, .alloc 40] ⟨mmpi, []⟩, ¬ Consistent heap := by
  obtain ⟨mmpi, made, heap, run, overlap⟩ : ∃ mmpi ∈ (mmpCreate (fun _ => ⟨0, 0⟩) 0 4096 ⟨512, 5, 7⟩).join,
      ∃ heap ∈ exec mmpStep [.alloc 1, .alloc 1, .alloc 1, .free 4488, .alloc 40] ⟨mmpi, []⟩,
        ¬ heap.live.Pairwise fun first second =>
          first.1 + (heap.mmpi.size (first.1 - headSize) - headTailSize) ≤ second.1 ∨
            second.1 + (heap.mmpi.size (second.1 - headSize) - headTailSize) ≤ first.1 := by
    decide +kernel
  exact ⟨mmpi, made, heap, run, fun consistent => overlap consistent.apart⟩

end Syslib.Mmpool
