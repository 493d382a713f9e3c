import Syslib.Mmspace.Cache

namespace Syslib.Mmspace

open BitSlots IntrusiveLists Runs

/-- The page area checks that its page size is a power of two. -/
def PagesFit (cfg : MmConfig) : Prop := ∃ k < 32, cfg.pageSize = 2 ^ k

/-- A slab of the cache is a row of whole pages, and the search can cross it. -/
structure ZoneFits (cfg : MmConfig) (zone : Mmcache) : Prop where
  pages : zone.cacheSize % cfg.pageSize = 0
  head : slabHeadSize ≤ zone.cacheSize
  word : zone.cacheSize < 2 ^ 32
  reach : zone.cacheSize < cfg.pageSize * cfg.maxpgCount

theorem ValidSize.zoneFits {cfg : MmConfig} (pages : PagesFit cfg) {objSize : Nat}
    (valid : ValidSize cfg objSize) : ZoneFits cfg ⟨roundedObjSize objSize, zoneCacheSize cfg objSize⟩ := by
  obtain ⟨k, small, size⟩ := pages
  have room : 2 ^ k ≤ 2 ^ 32 := Nat.pow_le_pow_right (by decide) small.le
  have short : roundedObjSize objSize * 32 % 2 ^ 32 < 2 ^ 32 := Nat.mod_lt _ (by decide)
  obtain ⟨above, whole, -⟩ := @roundUp_spec (roundedObjSize objSize * 32 % 2 ^ 32 + 48) k (by omega) (by omega)
  have bound : zoneCacheSize cfg objSize < cfg.pageSize * cfg.maxpgCount % 2 ^ 32 := valid
  refine ⟨?_, ?_, lt_trans bound (Nat.mod_lt _ (by decide)), lt_of_lt_of_le bound (Nat.mod_le _ _)⟩
  · simpa [zoneCacheSize, size] using whole
  · simp only [zoneCacheSize, size, slabHeadSize]
    omega

/-- The record of the cache that a slab belongs to. -/
def CacheSpace.zoneOf (mm : CacheSpace) (mc : Nat) : MmcacheImpl := mm.zones (mm.heads mc).cache

def CacheSpace.slotAddr (mm : CacheSpace) (mc idx : Nat) : Nat :=
  (mm.heads mc).objPtr + idx * (mm.zoneOf mc).objSize

/-- The list that a slab with this head belongs to; a single object leaves no slab full. -/
def slabListOf (head : MmCache) : SlabList :=
  if head.freeCount = head.objCount then .emptySlabList
  else if head.freeCount = 0 ∧ 2 ≤ head.objCount then .fullSlabList
  else .partialSlabList

/-- The set bits are the used slots of the slab, and the counter has the others. -/
structure Counted (head : MmCache) : Prop where
  used : ∀ idx ∈ slots head.allocBits, idx < head.objCount
  counted : (slots head.allocBits).card + head.freeCount = head.objCount
  small : head.objCount ≤ 64

/-- The slab has its head at the begin of its block and its objects at the end. -/
structure Slab (cfg : MmConfig) (mm : CacheSpace) (mc : Nat) : Prop where
  registered : (mm.heads mc).cache ∈ mm.zoneList
  labelled : (mm.heads mc).slabLabel = slabMark
  sized : 0 < (mm.zoneOf mc).objSize
  count : (mm.heads mc).objCount = slabObjects (mm.zoneOf mc).toMmcache
  ends : mm.slotAddr mc (mm.heads mc).objCount = mc + (mm.zoneOf mc).cacheSize
  bits : Counted (mm.heads mc)
  aligned : mc % cfg.pageSize = 0
  room : mc + (mm.zoneOf mc).cacheSize ≤ 2 ^ 64

/-- A slab depends on its head and on the sizes of its cache. -/
theorem Slab.congr {cfg : MmConfig} {mm next : CacheSpace} {mc : Nat} (slab : Slab cfg mm mc)
    (heads : next.heads mc = mm.heads mc) (zoneOf : next.zoneOf mc = mm.zoneOf mc)
    (registered : (mm.heads mc).cache ∈ next.zoneList) : Slab cfg next mc where
  registered := by rw [heads]; exact registered
  labelled := by rw [heads]; exact slab.labelled
  sized := by rw [zoneOf]; exact slab.sized
  count := by rw [heads, zoneOf]; exact slab.count
  ends := by
    rw [CacheSpace.slotAddr, heads, zoneOf]
    exact slab.ends
  bits := by rw [heads]; exact slab.bits
  aligned := slab.aligned
  room := by rw [zoneOf]; exact slab.room

/-- The blocks are the slabs of the space, and each is on the one list that its head asks for. -/
structure SlabsSound (cfg : MmConfig) (mm : CacheSpace) : Prop where
  nodup : ∀ place, (mm.lists place).Nodup
  linked : ∀ {mzi kind mc}, mc ∈ mm.lists (mzi, kind) ↔
    mc ∈ mm.blocks ∧ (mm.heads mc).cache = mzi ∧ slabListOf (mm.heads mc) = kind
  blocks : mm.blocks.Nodup
  zones : ∀ mzi ∈ mm.zoneList, ZoneFits cfg (mm.zones mzi).toMmcache
  slabs : ∀ mc ∈ mm.blocks, Slab cfg mm mc
  spaced : ∀ mc ∈ mm.blocks, ∀ other ∈ mm.blocks, mc ≠ other →
    mc + (mm.zoneOf mc).cacheSize ≤ other ∨ other + (mm.zoneOf other).cacheSize ≤ mc

/-- A used slot of a slab of the cache begins at this address. -/
def CacheSpace.Holds (mm : CacheSpace) (mzi p : Nat) : Prop :=
  ∃ mc ∈ mm.blocks, (mm.heads mc).cache = mzi ∧ ∃ idx ∈ slots (mm.heads mc).allocBits, p = mm.slotAddr mc idx

/-- The live objects are the used slots of the slabs. -/
structure CacheTrace.Sound (cfg : MmConfig) (trace : CacheTrace) : Prop where
  slabs : SlabsSound cfg trace.mm
  objects : ∀ mzi p, (mzi, p) ∈ trace.objects ↔ trace.mm.Holds mzi p
  once : trace.objects.Nodup

theorem slabObjects_le (zone : Mmcache) : slabObjects zone ≤ 64 := Nat.min_le_right _ _

/-- The objects fit behind the head of their slab. -/
theorem slabObjects_fit {zone : Mmcache} : slabObjects zone * zone.objSize ≤ zone.cacheSize - slabHeadSize := by
  have fewer : slabObjects zone ≤ (zone.cacheSize - slabHeadSize) / zone.objSize :=
    (Nat.min_le_left _ _).trans (Nat.mod_le _ _)
  exact (Nat.mul_le_mul_right _ fewer).trans (Nat.div_mul_le_self _ _)

section Slab

variable {cfg : MmConfig} {mm : CacheSpace} {mc other idx p : Nat}

theorem Slab.behind (slab : Slab cfg mm mc) (zone : ZoneFits cfg (mm.zoneOf mc).toMmcache) :
    mc + slabHeadSize ≤ (mm.heads mc).objPtr := by
  have fit := @slabObjects_fit (mm.zoneOf mc).toMmcache
  have ends := slab.ends
  rw [CacheSpace.slotAddr, slab.count] at ends
  have head := zone.head
  omega

/-- A slot lies inside the block of its slab. -/
theorem Slab.slot_within (slab : Slab cfg mm mc) (zone : ZoneFits cfg (mm.zoneOf mc).toMmcache)
    (inside : idx < (mm.heads mc).objCount) :
    mc + slabHeadSize ≤ mm.slotAddr mc idx ∧
      mm.slotAddr mc idx + (mm.zoneOf mc).objSize ≤ mc + (mm.zoneOf mc).cacheSize := by
  have behind := slab.behind zone
  have next : (idx + 1) * (mm.zoneOf mc).objSize ≤ (mm.heads mc).objCount * (mm.zoneOf mc).objSize :=
    Nat.mul_le_mul_right _ inside
  have ends := slab.ends
  rw [Nat.succ_mul] at next
  unfold CacheSpace.slotAddr at ends ⊢
  omega

theorem CacheSpace.slot_apart (mm : CacheSpace) (mc : Nat) {first second : Nat}
    (different : first ≠ second) :
    mm.slotAddr mc first + (mm.zoneOf mc).objSize ≤ mm.slotAddr mc second ∨
      mm.slotAddr mc second + (mm.zoneOf mc).objSize ≤ mm.slotAddr mc first := by
  have ordered : ∀ {low high : Nat}, low < high →
      mm.slotAddr mc low + (mm.zoneOf mc).objSize ≤ mm.slotAddr mc high := by
    intro low high below
    have next : (low + 1) * (mm.zoneOf mc).objSize ≤ high * (mm.zoneOf mc).objSize :=
      Nat.mul_le_mul_right _ below
    rw [Nat.succ_mul] at next
    unfold CacheSpace.slotAddr
    omega
  rcases Nat.lt_or_gt_of_ne different with below | above
  · exact Or.inl (ordered below)
  · exact Or.inr (ordered above)

end Slab

namespace SlabsSound

variable {cfg : MmConfig} {mm : CacheSpace} {mc other idx p : Nat}

theorem zone (sound : SlabsSound cfg mm) (held : mc ∈ mm.blocks) : ZoneFits cfg (mm.zoneOf mc).toMmcache :=
  sound.zones _ (sound.slabs mc held).registered

theorem apart (sound : SlabsSound cfg mm) : Apart mm.lists := by
  refine ⟨sound.nodup, ?_⟩
  rintro ⟨firstZone, firstKind⟩ ⟨secondZone, secondKind⟩ node inFirst inSecond
  obtain ⟨-, rfl, rfl⟩ := sound.linked.mp inFirst
  obtain ⟨-, rfl, rfl⟩ := sound.linked.mp inSecond
  rfl

/-- One slot of one slab begins at the address of an object. -/
theorem slot_unique (sound : SlabsSound cfg mm) (held : mc ∈ mm.blocks) (heldOther : other ∈ mm.blocks)
    {first second : Nat} (inside : first < (mm.heads mc).objCount)
    (insideOther : second < (mm.heads other).objCount)
    (same : mm.slotAddr mc first = mm.slotAddr other second) : mc = other ∧ first = second := by
  have slab := sound.slabs mc held
  have within := slab.slot_within (sound.zone held) inside
  have withinOther := (sound.slabs other heldOther).slot_within (sound.zone heldOther) insideOther
  have sized := slab.sized
  have sizedOther := (sound.slabs other heldOther).sized
  by_cases equal : mc = other
  · subst equal
    refine ⟨rfl, ?_⟩
    by_contra different
    rcases mm.slot_apart mc different with before | before <;> omega
  · rcases sound.spaced mc held other heldOther equal with before | before <;> omega

end SlabsSound

def MmCache.refill (head : MmCache) (bits : BitVec 64) (freeCount : Nat) : MmCache :=
  { head with allocBits := bits, freeCount }

/-- One slab has other bits, another counter and maybe another list. -/
def CacheSpace.refill (mm : CacheSpace) (mc : Nat) (bits : BitVec 64) (freeCount : Nat)
    (lists : Nat × SlabList → List Nat) : CacheSpace :=
  { mm with heads := Function.update mm.heads mc ((mm.heads mc).refill bits freeCount), lists }

section Refill

variable {cfg : MmConfig} {mm : CacheSpace} {mc other idx p freeCount : Nat} {bits : BitVec 64}
  {lists : Nat × SlabList → List Nat}

theorem CacheSpace.refill_heads : (mm.refill mc bits freeCount lists).heads other =
    if other = mc then (mm.heads mc).refill bits freeCount else mm.heads other :=
  Function.update_apply _ _ _ _

@[simp] theorem CacheSpace.refill_cache :
    ((mm.refill mc bits freeCount lists).heads other).cache = (mm.heads other).cache := by
  rw [refill_heads]
  split_ifs with same
  · rw [same]
    rfl
  · rfl

@[simp] theorem CacheSpace.refill_zoneOf : (mm.refill mc bits freeCount lists).zoneOf other = mm.zoneOf other := by
  rw [zoneOf, refill_cache]
  rfl

@[simp] theorem CacheSpace.refill_slotAddr :
    (mm.refill mc bits freeCount lists).slotAddr other idx = mm.slotAddr other idx := by
  rw [slotAddr, slotAddr, refill_zoneOf, refill_heads]
  split_ifs with same
  · rw [same]
    rfl
  · rfl

@[simp] theorem CacheSpace.refill_slabLabel :
    ((mm.refill mc bits freeCount lists).heads other).slabLabel = (mm.heads other).slabLabel := by
  rw [refill_heads]
  split_ifs with same
  · rw [same]
    rfl
  · rfl

@[simp] theorem CacheSpace.refill_objCount :
    ((mm.refill mc bits freeCount lists).heads other).objCount = (mm.heads other).objCount := by
  rw [refill_heads]
  split_ifs with same
  · rw [same]
    rfl
  · rfl

theorem Slab.refill (slab : Slab cfg mm other)
    (counted : Counted ((mm.heads mc).refill bits freeCount)) :
    Slab cfg (mm.refill mc bits freeCount lists) other where
  registered := by rw [CacheSpace.refill_cache]; exact slab.registered
  labelled := CacheSpace.refill_slabLabel.trans slab.labelled
  sized := by rw [CacheSpace.refill_zoneOf]; exact slab.sized
  count := by rw [CacheSpace.refill_zoneOf, CacheSpace.refill_objCount]; exact slab.count
  ends := by
    rw [CacheSpace.refill_zoneOf, CacheSpace.refill_objCount, CacheSpace.refill_slotAddr]
    exact slab.ends
  bits := by
    rw [CacheSpace.refill_heads]
    split_ifs
    · exact counted
    · exact slab.bits
  aligned := slab.aligned
  room := by rw [CacheSpace.refill_zoneOf]; exact slab.room

/-- New bits keep the space sound when the slab goes to the list that they ask for. -/
theorem SlabsSound.refill (sound : SlabsSound cfg mm) (held : mc ∈ mm.blocks)
    (counted : Counted ((mm.heads mc).refill bits freeCount)) (nodup : ∀ place, (lists place).Nodup)
    (moved : ∀ place other, other ∈ lists place ↔
      if other = mc then place = ((mm.heads mc).cache, slabListOf ((mm.heads mc).refill bits freeCount))
      else other ∈ mm.lists place) :
    SlabsSound cfg (mm.refill mc bits freeCount lists) := by
  refine ⟨nodup, ?_, sound.blocks, sound.zones, fun other inside => (sound.slabs other inside).refill counted, ?_⟩
  · intro mzi kind other
    change other ∈ lists (mzi, kind) ↔ other ∈ mm.blocks ∧ _
    rw [moved, CacheSpace.refill_cache, CacheSpace.refill_heads]
    by_cases same : other = mc
    · subst same
      simp only [if_true, Prod.mk.injEq, held, true_and]
      exact and_congr eq_comm eq_comm
    · simp only [if_neg same]
      exact sound.linked
  · intro first firstHeld second secondHeld
    rw [CacheSpace.refill_zoneOf, CacheSpace.refill_zoneOf]
    exact sound.spaced first firstHeld second secondHeld

/-- Only one slab has changed. -/
def Refilled (mm next : CacheSpace) : Prop :=
  ∃ mc ∈ mm.blocks, ∃ bits freeCount lists, next = mm.refill mc bits freeCount lists

theorem SlabsSound.lists_refill (sound : SlabsSound cfg mm) (held : mc ∈ mm.blocks)
    (stays : slabListOf ((mm.heads mc).refill bits freeCount) = slabListOf (mm.heads mc)) (place : Nat × SlabList)
    (other : Nat) : other ∈ mm.lists place ↔
      if other = mc then place = ((mm.heads mc).cache, slabListOf ((mm.heads mc).refill bits freeCount))
      else other ∈ mm.lists place := by
  split_ifs with same
  · subst same
    obtain ⟨mzi, kind⟩ := place
    rw [sound.linked, stays, Prod.mk.injEq]
    simp only [held, true_and]
    exact and_congr eq_comm eq_comm
  · rfl

/-- The slab leaves its list for the front of another one. -/
theorem mem_moved (apart : Apart mm.lists) {target place : Nat × SlabList} :
    other ∈ pushFront (removeNode mm.lists mc) target mc place ↔
      if other = mc then place = target else other ∈ mm.lists place := by
  rw [inserted_pushFront.mem, apart.mem_removeNode]
  by_cases same : other = mc <;> simp [same]

theorem nodup_moved (apart : Apart mm.lists) (target place : Nat × SlabList) :
    (pushFront (removeNode mm.lists mc) target mc place).Nodup := by
  have removed := apart.removeNode mc
  refine (inserted_pushFront.apart removed ?_).nodup place
  intro here inside
  exact (apart.mem_removeNode.mp inside).1 rfl

/-- New bits and the list that they ask for. -/
theorem SlabsSound.move (sound : SlabsSound cfg mm) (held : mc ∈ mm.blocks)
    (counted : Counted ((mm.heads mc).refill bits freeCount)) {target : Nat × SlabList}
    (asks : target = ((mm.heads mc).cache, slabListOf ((mm.heads mc).refill bits freeCount))) :
    SlabsSound cfg (mm.refill mc bits freeCount (pushFront (removeNode mm.lists mc) target mc)) := by
  refine sound.refill held counted (nodup_moved sound.apart target) ?_
  intro place other
  rw [mem_moved sound.apart, asks]

theorem SlabsSound.stay (sound : SlabsSound cfg mm) (held : mc ∈ mm.blocks)
    (counted : Counted ((mm.heads mc).refill bits freeCount))
    (stays : slabListOf ((mm.heads mc).refill bits freeCount) = slabListOf (mm.heads mc)) :
    SlabsSound cfg (mm.refill mc bits freeCount mm.lists) :=
  sound.refill held counted sound.nodup (sound.lists_refill held stays)

/-- The objects of the space after a change of one bit map. -/
theorem SlabsSound.holds_refill (sound : SlabsSound cfg mm) (held : mc ∈ mm.blocks) {mzi : Nat}
    (used : ∀ slot ∈ slots bits, slot < (mm.heads mc).objCount) :
    (mm.refill mc bits freeCount lists).Holds mzi p ↔
      (mm.heads mc).cache = mzi ∧ (∃ slot ∈ slots bits, p = mm.slotAddr mc slot) ∨
        mm.Holds mzi p ∧ ¬ ∃ slot ∈ slots (mm.heads mc).allocBits, p = mm.slotAddr mc slot := by
  constructor
  · rintro ⟨other, otherHeld, owner, slot, inside, rfl⟩
    rw [CacheSpace.refill_cache] at owner
    rw [CacheSpace.refill_heads] at inside
    rw [CacheSpace.refill_slotAddr]
    split_ifs at inside with same
    · subst same
      exact Or.inl ⟨owner, slot, inside, rfl⟩
    · refine Or.inr ⟨⟨other, otherHeld, owner, slot, inside, rfl⟩, ?_⟩
      rintro ⟨own, ownInside, equal⟩
      exact same (sound.slot_unique otherHeld held ((sound.slabs other otherHeld).bits.used slot inside)
        ((sound.slabs mc held).bits.used own ownInside) equal).1
  · rintro (⟨owner, slot, inside, rfl⟩ | ⟨⟨other, otherHeld, owner, slot, inside, rfl⟩, outside⟩)
    · refine ⟨mc, held, by simpa using owner, slot, ?_, by simp⟩
      rw [CacheSpace.refill_heads, if_pos rfl]
      exact inside
    · have different : other ≠ mc := by
        rintro rfl
        exact outside ⟨slot, inside, rfl⟩
      refine ⟨other, otherHeld, by simpa using owner, slot, ?_, by simp⟩
      rw [CacheSpace.refill_heads, if_neg different]
      exact inside

end Refill

end Syslib.Mmspace
