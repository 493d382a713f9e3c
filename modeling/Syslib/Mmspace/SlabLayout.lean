import Syslib.Mmspace.Cache
import Syslib.Pgpool.Model

namespace Syslib.Mmspace

open Hash Pgpool

/-- The size that `_mm_zalloc_pg` asks for; the product is an `unsigned int`. -/
def slabRequest (zone : Mmcache) : Nat := zone.objSize * 32 % 2 ^ 32 + slabHeadSize

/-- The head and then the objects lie one behind the other inside the granted bytes. -/
structure SlabInside (zone : Mmcache) (head : MmCache) (mc granted : Nat) : Prop where
  atLeast : 32 ≤ head.objCount
  atMost : head.objCount ≤ 64
  behindHead : mc + slabHeadSize ≤ head.objPtr
  apart : ∀ i j, i < j → j < head.objCount →
    head.objPtr + i * zone.objSize + zone.objSize ≤ head.objPtr + j * zone.objSize
  inside : ∀ i < head.objCount, head.objPtr + i * zone.objSize + zone.objSize ≤ mc + granted

/-- The cache stores a multiple of 8, and each of its later slabs divides by it and fits its pages. -/
structure SlabLaw (cfg : MmConfig) (objSize : Nat) (zone : Mmcache) : Prop where
  multiple : zone.objSize % 8 = 0
  enough : objSize ≤ zone.objSize
  slabs : ∀ (mm : CacheSpace) (mzi : Nat) (first again : Option Nat) (granted : CacheSpace) (mc : Nat)
    (pool : PgpoolImpl), (granted.zones mzi).toMmcache = zone → pool.pgSize = cfg.pageSize →
    mmZallocPg first again mm = some (granted, some mc) →
      zone.objSize ≠ 0 ∧ ∃ next, mmZcacheNew mzi first again mm = some (next, some mc) ∧
        SlabInside zone (next.heads mc) mc (pool.pagesOf (slabRequest zone) * pool.pgSize)

/-- The page size is a power of two from 4096 on, and both words of the configuration are `unsigned int`. -/
structure PagedConfig (cfg : MmConfig) : Prop where
  power : ∃ k, 12 ≤ k ∧ k < 32 ∧ cfg.pageSize = 2 ^ k
  count : cfg.maxpgCount < 2 ^ 32

section Sizes

variable {cfg : MmConfig} {objSize k : Nat}

/-- A size that is not near `2 ^ 32` is rounded to the next multiple of 8. -/
theorem roundedObjSize_eq (small : objSize ≤ 2 ^ 32 - 8) :
    roundedObjSize objSize = 8 * ((objSize + 7) / 8) := by
  have shape := @roundUp_eq objSize 3 (by omega) (by decide)
  rw [roundedObjSize, show (8 : Nat) = 2 ^ 3 from rfl, shape]
  omega

/-- The last seven sizes are rounded to `2 ^ 32`, which an `unsigned int` does not hold. -/
theorem roundedObjSize_wraps (inside : objSize < 2 ^ 32) (large : 2 ^ 32 - 8 < objSize) :
    roundedObjSize objSize = 0 := by
  have shape := @roundUp_eq objSize 3 (by omega) (by decide)
  rw [roundedObjSize, show (8 : Nat) = 2 ^ 3 from rfl, shape]
  omega

/-- The size of a slab is the request in whole pages, and these are the pages of the pool. -/
theorem zoneCacheSize_eq (page : cfg.pageSize = 2 ^ k) (small : k < 32) :
    zoneCacheSize cfg objSize =
      2 ^ k * ((roundedObjSize objSize * 32 % 2 ^ 32 + 48 + 2 ^ k - 1) / 2 ^ k) := by
  have power : 2 ^ k ≤ 2 ^ 31 := Nat.pow_le_pow_right (by decide) (by omega)
  rw [zoneCacheSize, page, roundUp_eq (by omega) (by omega)]

theorem zoneCacheSize_pages (page : cfg.pageSize = 2 ^ k) (small : k < 32) {pool : PgpoolImpl}
    (same : pool.pgSize = cfg.pageSize) :
    zoneCacheSize cfg objSize =
      pool.pagesOf (slabRequest ⟨roundedObjSize objSize, zoneCacheSize cfg objSize⟩) * pool.pgSize := by
  have power : 2 ^ k ≤ 2 ^ 31 := Nat.pow_le_pow_right (by decide) (by omega)
  rw [PgpoolImpl.pagesOf, slabRequest, slabHeadSize, same, page, roundUp_eq (by omega) (by omega),
    Nat.mul_div_cancel_left _ (Nat.two_pow_pos k), zoneCacheSize_eq page small, Nat.mul_comm]

theorem zoneCacheSize_bounds (page : cfg.pageSize = 2 ^ k) (small : k < 32) :
    roundedObjSize objSize * 32 % 2 ^ 32 + 48 ≤ zoneCacheSize cfg objSize ∧
      zoneCacheSize cfg objSize < roundedObjSize objSize * 32 % 2 ^ 32 + 48 + 2 ^ k := by
  have positive := Nat.two_pow_pos k
  have parts := Nat.div_add_mod (roundedObjSize objSize * 32 % 2 ^ 32 + 48 + 2 ^ k - 1) (2 ^ k)
  have rest := Nat.mod_lt (roundedObjSize objSize * 32 % 2 ^ 32 + 48 + 2 ^ k - 1) positive
  rw [zoneCacheSize_eq page small]
  omega

/-- An accepted slab is smaller than `2 ^ 32`, and its page size is at most `2 ^ 30`. -/
theorem ValidSize.bounds (valid : ValidSize cfg objSize) (page : cfg.pageSize = 2 ^ k)
    (small : k < 32) : zoneCacheSize cfg objSize < 2 ^ 32 ∧ k ≤ 30 := by
  have accepted : zoneCacheSize cfg objSize < 2 ^ k * cfg.maxpgCount % 2 ^ 32 := page ▸ valid
  have limit := Nat.mod_lt (2 ^ k * cfg.maxpgCount) (show 0 < 2 ^ 32 by decide)
  refine ⟨by omega, ?_⟩
  by_contra large
  obtain rfl : k = 31 := by omega
  have atLeast : 2 ^ 31 ≤ zoneCacheSize cfg objSize := by
    have shape := @zoneCacheSize_eq cfg objSize 31 page small
    rw [shape]
    exact Nat.le_mul_of_pos_right _ (Nat.div_pos (by omega) (by decide))
  omega

/-- A power of two holds no number of equal objects whose low half-word is below 32. -/
theorem lowCount_ge {e m : Nat} (large : 16 ≤ e) (small : e ≤ 27) (many : 2 ^ 16 ≤ (2 ^ e - 6) / m) :
    32 ≤ (2 ^ e - 6) / m % 2 ^ 16 := by
  by_contra low
  have positive : 0 < m := by
    refine Nat.pos_of_ne_zero ?_
    rintro rfl
    simp at many
  generalize quotient : (2 ^ e - 6) / m = count at many low
  obtain ⟨size, power, atMost⟩ : ∃ size, 2 ^ e = 2 ^ 16 * size ∧ size ≤ 2 ^ 11 := by
    refine ⟨2 ^ (e - 16), ?_, Nat.pow_le_pow_right (by decide) (by omega)⟩
    rw [← Nat.pow_add, Nat.add_sub_cancel' large]
  have parts := Nat.div_add_mod (2 ^ e - 6) m
  have rest := Nat.mod_lt (2 ^ e - 6) positive
  rw [quotient] at parts
  -- the objects of the whole multiples of `2 ^ 16`, and the few that are left
  have split : m * count = 2 ^ 16 * (m * (count / 2 ^ 16)) + m * (count % 2 ^ 16) := by
    rw [Nat.mul_left_comm, ← Nat.mul_add, Nat.div_add_mod]
  have few : m * (count % 2 ^ 16) ≤ m * 31 := Nat.mul_le_mul_left m (by omega)
  have some_multiple : m * 1 ≤ m * (count / 2 ^ 16) := Nat.mul_le_mul_left m (by omega)
  omega

/-- A slab has room for 32 objects at least, also after the count went through an `unsigned short`. -/
theorem slabObjects_bounds (valid : ValidSize cfg objSize) (page : cfg.pageSize = 2 ^ k)
    (large : 12 ≤ k) (small : k < 32) (positive : 0 < objSize) (bound : objSize ≤ 2 ^ 27 - 8) :
    32 ≤ slabObjects ⟨roundedObjSize objSize, zoneCacheSize cfg objSize⟩ ∧
      slabObjects ⟨roundedObjSize objSize, zoneCacheSize cfg objSize⟩ * roundedObjSize objSize ≤
        zoneCacheSize cfg objSize - slabHeadSize := by
  obtain ⟨lower, upper⟩ := @zoneCacheSize_bounds cfg objSize k page small
  obtain ⟨-, order⟩ := valid.bounds page small
  have shape := @zoneCacheSize_eq cfg objSize k page small
  rw [@roundedObjSize_eq objSize (by omega)] at lower upper shape ⊢
  generalize blocks : (objSize + 7) / 8 = m at lower upper shape ⊢
  have product : 8 * m * 32 % 2 ^ 32 = 256 * m := by omega
  rw [product] at lower upper shape
  have fits : 32 ≤ (zoneCacheSize cfg objSize - slabHeadSize) / (8 * m) := by
    rw [Nat.le_div_iff_mul_le (by omega), slabHeadSize]
    omega
  have kept : 32 ≤ (zoneCacheSize cfg objSize - slabHeadSize) / (8 * m) % 2 ^ 16 := by
    by_cases many : 2 ^ 16 ≤ (zoneCacheSize cfg objSize - slabHeadSize) / (8 * m)
    · have wide := (Nat.le_div_iff_mul_le (by omega)).mp many
      rw [slabHeadSize] at wide
      -- so many objects are only there when one page is far larger than the request
      have one : (256 * m + 48 + 2 ^ k - 1) / 2 ^ k = 1 := by
        rw [Nat.div_eq_iff (Nat.two_pow_pos k)]
        omega
      rw [one, Nat.mul_one] at shape
      have exponent : 16 ≤ k - 3 := by
        by_contra less
        have power : 2 ^ k ≤ 2 ^ 18 := Nat.pow_le_pow_right (by decide) (by omega)
        omega
      have eighth : (2 ^ k - slabHeadSize) / 8 = 2 ^ (k - 3) - 6 := by
        have power : 2 ^ k = 8 * 2 ^ (k - 3) := by
          rw [show 8 = 2 ^ 3 from rfl, ← Nat.pow_add, Nat.add_sub_cancel' (by omega)]
        rw [power, slabHeadSize]
        omega
      rw [shape, ← Nat.div_div_eq_div_mul, eighth] at many ⊢
      exact lowCount_ge exponent (by omega) many
    · rwa [Nat.mod_eq_of_lt (by omega)]
  constructor
  · exact le_min kept (by decide)
  · refine (Nat.mul_le_mul_right _ ?_).trans (Nat.div_mul_le_self _ (8 * m))
    exact (min_le_left _ _).trans (Nat.mod_le _ _)

/-- An object of `2 ^ 27` bytes or more has fewer than 32 places in any slab. -/
theorem slabObjects_few (valid : ValidSize cfg objSize) (page : cfg.pageSize = 2 ^ k) (small : k < 32)
    (huge : 2 ^ 27 ≤ roundedObjSize objSize) :
    slabObjects ⟨roundedObjSize objSize, zoneCacheSize cfg objSize⟩ < 32 := by
  obtain ⟨bound, -⟩ := valid.bounds page small
  have few : (zoneCacheSize cfg objSize - slabHeadSize) / roundedObjSize objSize < 32 := by
    rw [Nat.div_lt_iff_lt_mul (by omega)]
    omega
  have kept := Nat.mod_le ((zoneCacheSize cfg objSize - slabHeadSize) / roundedObjSize objSize) (2 ^ 16)
  exact (min_le_left _ _).trans_lt (by simp only; omega)

end Sizes

section Slabs

variable {cfg : MmConfig} {mm granted : CacheSpace} {mzi mc objSize k : Nat} {first again : Option Nat}

/-- The head of a new slab follows from the record of its cache. -/
theorem mmZcacheNew_head (answered : mmZallocPg first again mm = some (granted, some mc)) :
    mmZcacheNew mzi first again mm =
      if (granted.zones mzi).objSize = 0 then none
      else some ({ granted.write mc
          { cache := mzi, slabLabel := slabMark,
            freeCount := slabObjects (granted.zones mzi).toMmcache,
            objCount := slabObjects (granted.zones mzi).toMmcache, allocBits := 0#64,
            objPtr := mc + (granted.zones mzi).cacheSize -
              slabObjects (granted.zones mzi).toMmcache * (granted.zones mzi).objSize % 2 ^ 32 } with
          lists := IntrusiveLists.pushFront granted.lists (mzi, .emptySlabList) mc }, some mc) := by
  simp only [mmZcacheNew, answered, Option.bind_eq_bind, Option.bind_some, mmZmoveCache,
    CacheSpace.write]

/-- The objects end at the end of the slab. -/
theorem slabInside {zone : Mmcache} (some_size : zone.objSize ≠ 0) (whole : zone.cacheSize < 2 ^ 32)
    (atLeast : 32 ≤ slabObjects zone)
    (room : slabObjects zone * zone.objSize ≤ zone.cacheSize - slabHeadSize) {head : MmCache}
    (count : head.objCount = slabObjects zone)
    (place : head.objPtr = mc + zone.cacheSize - slabObjects zone * zone.objSize % 2 ^ 32) :
    SlabInside zone head mc zone.cacheSize := by
  have some_object : 1 * 1 ≤ slabObjects zone * zone.objSize := Nat.mul_le_mul (by omega) (by omega)
  rw [Nat.mod_eq_of_lt (by omega)] at place
  refine ⟨count ▸ atLeast, ?_, ?_, ?_, ?_⟩
  · rw [count]
    exact min_le_right _ _
  · omega
  · intro i j before last
    have next : (i + 1) * zone.objSize ≤ j * zone.objSize := Nat.mul_le_mul_right _ before
    rw [Nat.add_mul, Nat.one_mul] at next
    omega
  · intro i last
    have next : (i + 1) * zone.objSize ≤ slabObjects zone * zone.objSize :=
      Nat.mul_le_mul_right _ (by omega)
    rw [Nat.add_mul, Nat.one_mul] at next
    omega

/-- Objects of 1 to `2 ^ 27 - 8` bytes have a sound slab. -/
theorem slabLaw_of_size (valid : ValidSize cfg objSize) (page : cfg.pageSize = 2 ^ k) (large : 12 ≤ k)
    (small : k < 32) (positive : 0 < objSize) (bound : objSize ≤ 2 ^ 27 - 8) :
    SlabLaw cfg objSize ⟨roundedObjSize objSize, zoneCacheSize cfg objSize⟩ := by
  obtain ⟨atLeast, room⟩ := slabObjects_bounds valid page large small positive bound
  obtain ⟨whole, -⟩ := valid.bounds page small
  have rounded := @roundedObjSize_eq objSize (by omega)
  have some_size : roundedObjSize objSize ≠ 0 := by omega
  refine ⟨by simp only; omega, by simp only; omega, ?_⟩
  intro mm mzi first again granted mc pool record same answered
  have objects := congrArg Mmcache.objSize record
  refine ⟨some_size, _, (mmZcacheNew_head answered).trans (if_neg (objects ▸ some_size)), ?_⟩
  rw [← zoneCacheSize_pages page small same]
  apply slabInside some_size whole atLeast room
  · simp [CacheSpace.write, record]
  · simp only [CacheSpace.write, Function.update_self, record]

/-- A configuration has a page pool of its page size. -/
theorem exists_pool (cfg : MmConfig) : ∃ pool : PgpoolImpl, pool.pgSize = cfg.pageSize :=
  ⟨⟨0, 0, 0, 0, 0, cfg.pageSize, 0, 0, Rbtree.rbInit (fun _ => ⟨0, 0, 0, 0⟩) none, fun _ => ⟨0, 0⟩,
    fun _ => [], 0, 0⟩, rfl⟩

/-- The sizes near `2 ^ 32` are stored as zero, and from `2 ^ 27 - 7` on the product wraps around. -/
theorem size_of_slabLaw (valid : ValidSize cfg objSize) (page : cfg.pageSize = 2 ^ k) (small : k < 32)
    (word : objSize < 2 ^ 32)
    (law : SlabLaw cfg objSize ⟨roundedObjSize objSize, zoneCacheSize cfg objSize⟩) :
    0 < objSize ∧ objSize ≤ 2 ^ 27 - 8 := by
  obtain ⟨pool, same⟩ := exists_pool cfg
  obtain ⟨some_size, next, run, inside⟩ := law.slabs
    ⟨fun _ => ⟨⟨roundedObjSize objSize, zoneCacheSize cfg objSize⟩, 0⟩, [], fun _ => [],
      fun _ => ⟨0, 0, 0, 0, 0, 0⟩, []⟩ 0 (some 0) none _ 0 pool rfl same rfl
  have kept : objSize ≤ roundedObjSize objSize := law.enough
  have below : objSize ≤ 2 ^ 32 - 8 := by
    by_contra large
    exact some_size (roundedObjSize_wraps word (by omega))
  have rounded := roundedObjSize_eq below
  simp only [ne_eq] at some_size
  refine ⟨by omega, ?_⟩
  by_contra large
  have few := slabObjects_few valid page small (by omega)
  have atLeast := inside.atLeast
  rw [mmZcacheNew_head rfl, if_neg some_size] at run
  obtain ⟨rfl, -⟩ := Prod.mk.inj (Option.some.inj run)
  simp only [CacheSpace.write, Function.update_self] at atLeast
  omega

end Slabs

section Creation

variable {cfg : MmConfig} {mm space : ZoneSpace} {name : CString} {objSize stale mzi : Nat}
  {mem : Option Nat}

/-- A creation that answers a cache has accepted its size and stored the two sizes. -/
theorem mmCacheCreate_made (made : mmCacheCreate cfg mm name objSize mem stale = some (space, mzi))
    (real : mzi ≠ 0) : ValidSize cfg objSize ∧
      space.zones mzi = ⟨roundedObjSize objSize, zoneCacheSize cfg objSize⟩ := by
  unfold mmCacheCreate at made
  obtain ⟨hn, -, made⟩ := Option.bind_eq_some_iff.mp made
  split_ifs at made with present valid
  · exact absurd (Prod.mk.inj (Option.some.inj made)).2.symm real
  · cases mem with
    | none => exact absurd (Prod.mk.inj (Option.some.inj made)).2.symm real
    | some p =>
        obtain ⟨⟨zoneHash, rslt⟩, -, made⟩ := Option.bind_eq_some_iff.mp made
        dsimp only at made
        split_ifs at made with refused
        · exact absurd (Prod.mk.inj (Option.some.inj made)).2.symm real
        · obtain ⟨rfl, rfl⟩ := Prod.mk.inj (Option.some.inj made)
          exact ⟨valid, Function.update_self ..⟩
  · exact absurd (Prod.mk.inj (Option.some.inj made)).2.symm real

/-- The slabs of a created cache are sound exactly for objects of 1 to `2 ^ 27 - 8` bytes. -/
theorem mmCacheCreate_slabLaw (config : PagedConfig cfg) (word : objSize < 2 ^ 32)
    (made : mmCacheCreate cfg mm name objSize mem stale = some (space, mzi)) (real : mzi ≠ 0) :
    SlabLaw cfg objSize (space.zones mzi) ↔ 0 < objSize ∧ objSize ≤ 2 ^ 27 - 8 := by
  obtain ⟨k, large, small, page⟩ := config.power
  obtain ⟨valid, record⟩ := mmCacheCreate_made made real
  rw [record]
  constructor
  · exact size_of_slabLaw valid page small word
  · rintro ⟨positive, bound⟩
    exact slabLaw_of_size valid page large small positive bound

/-- A cache for objects of 24 bytes in an area of 1024 pages. -/
theorem mmCacheCreate_slabLaw_small :
    SlabLaw ⟨2 ^ 23, 4096, 1024⟩ 24 ⟨24, 4096⟩ ↔ 0 < 24 ∧ 24 ≤ 2 ^ 27 - 8 := by
  have config : PagedConfig ⟨2 ^ 23, 4096, 1024⟩ := ⟨⟨12, by decide, by decide, rfl⟩, by decide⟩
  have made : ∃ created ∈ mmCacheCreate ⟨2 ^ 23, 4096, 1024⟩ emptyZones ⟨[97], by decide⟩ 24 (some 8) 0,
      created.2 = 8 ∧ created.1.zones 8 = ⟨24, 4096⟩ := by decide +kernel
  obtain ⟨⟨space, mzi⟩, created, rfl, record⟩ := made
  have law := mmCacheCreate_slabLaw config (by decide) created (by decide)
  rwa [record] at law

/-- A cache for objects of `2 ^ 27` bytes is created, and its slabs are one page without an object. -/
theorem mmCacheCreate_noRoom :
    ∃ created ∈ mmCacheCreate ⟨2 ^ 23, 4096, 1024⟩ emptyZones ⟨[97], by decide⟩ (2 ^ 27) (some 8) 0,
      created.2 = 8 ∧ slabObjects (created.1.zones 8) = 0 ∧
        ¬ SlabLaw ⟨2 ^ 23, 4096, 1024⟩ (2 ^ 27) (created.1.zones 8) := by
  have made : ∃ created ∈ mmCacheCreate ⟨2 ^ 23, 4096, 1024⟩ emptyZones ⟨[97], by decide⟩ (2 ^ 27)
      (some 8) 0, created.2 = 8 ∧ slabObjects (created.1.zones 8) = 0 ∧
        created.1.zones 8 =
          ⟨roundedObjSize (2 ^ 27), zoneCacheSize ⟨2 ^ 23, 4096, 1024⟩ (2 ^ 27)⟩ := by decide +kernel
  obtain ⟨created, run, real, none_fits, record⟩ := made
  refine ⟨created, run, real, none_fits, ?_⟩
  rw [record]
  intro law
  have size := @size_of_slabLaw ⟨2 ^ 23, 4096, 1024⟩ (2 ^ 27) 12 (by decide +kernel) rfl (by decide)
    (by decide) law
  exact absurd size.2 (by decide)

end Creation

end Syslib.Mmspace
