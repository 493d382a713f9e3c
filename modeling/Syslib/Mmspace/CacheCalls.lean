import Syslib.Mmspace.CacheLookup
import Syslib.Mmspace.CacheSteps

namespace Syslib.Mmspace

open BitSlots IntrusiveLists Runs

/-- One object of the cache is free again. -/
structure Given (cfg : MmConfig) (mm : CacheSpace) (mmz p : Nat) (next : CacheSpace) : Prop where
  sound : SlabsSound cfg next
  holds : ∀ mzi q, next.Holds mzi q ↔ mm.Holds mzi q ∧ ¬ (mzi = mmz ∧ q = p)
  refilled : Refilled mm next

section Free

variable {cfg : MmConfig} {mm : CacheSpace} {mc idx p : Nat}

theorem SlabsSound.given (sound : SlabsSound cfg mm) (held : mc ∈ mm.blocks) (used : idx ∈ slots (mm.heads mc).allocBits)
    {freeCount : Nat} {lists : Nat × SlabList → List Nat} (next : SlabsSound cfg
      (mm.refill mc (clearBit (mm.heads mc).allocBits idx) freeCount lists)) :
    Given cfg mm (mm.heads mc).cache (mm.slotAddr mc idx)
      (mm.refill mc (clearBit (mm.heads mc).allocBits idx) freeCount lists) := by
  have slab := sound.slabs mc held
  have word : idx < 64 := lt_of_lt_of_le (slab.bits.used idx used) slab.bits.small
  have fewer : slots (clearBit (mm.heads mc).allocBits idx) = (slots (mm.heads mc).allocBits).erase idx :=
    slots_clearBit word
  have bound : ∀ slot ∈ slots (clearBit (mm.heads mc).allocBits idx), slot < (mm.heads mc).objCount :=
    fun slot member => slab.bits.used slot (Finset.mem_of_mem_erase (fewer ▸ member))
  refine ⟨next, ?_, mc, held, _, _, _, rfl⟩
  intro mzi q
  rw [sound.holds_refill held bound, fewer]
  constructor
  · rintro (⟨owner, slot, member, rfl⟩ | ⟨old, outside⟩)
    · obtain ⟨different, member⟩ := Finset.mem_erase.mp member
      refine ⟨⟨mc, held, owner, slot, member, rfl⟩, ?_⟩
      rintro ⟨-, same⟩
      exact different (sound.slot_unique held held (slab.bits.used slot member) (slab.bits.used idx used) same).2
    · refine ⟨old, ?_⟩
      rintro ⟨-, same⟩
      exact outside ⟨idx, used, same⟩
  · rintro ⟨old, other⟩
    by_cases here : ∃ slot ∈ slots (mm.heads mc).allocBits, q = mm.slotAddr mc slot
    · obtain ⟨slot, member, rfl⟩ := here
      obtain ⟨holder, holderHeld, owner, second, inSecond, same⟩ := old
      obtain ⟨rfl, -⟩ := sound.slot_unique held holderHeld (slab.bits.used slot member)
        ((sound.slabs holder holderHeld).bits.used second inSecond) same
      refine Or.inl ⟨owner, slot, Finset.mem_erase.mpr ⟨?_, member⟩, rfl⟩
      rintro rfl
      exact other ⟨owner.symm, rfl⟩
    · exact Or.inr ⟨old, here⟩

/-- The slot index comes back from the address of the slot. -/
theorem mmZreturnObj_slot (slab : Slab cfg mm mc) (used : idx ∈ slots (mm.heads mc).allocBits) :
    mmZreturnObj mm mc (mm.slotAddr mc idx) =
      some (mm.refill mc (clearBit (mm.heads mc).allocBits idx) ((mm.heads mc).freeCount + 1) mm.lists, 0) := by
  have sized := slab.sized
  have inside := slab.bits.used idx used
  have small := slab.bits.small
  have total := slab.bits.counted
  have offset : mm.slotAddr mc idx - (mm.heads mc).objPtr = idx * (mm.zones (mm.heads mc).cache).objSize :=
    Nat.add_sub_cancel_left _ _
  have index : (mm.slotAddr mc idx - (mm.heads mc).objPtr) / (mm.zones (mm.heads mc).cache).objSize = idx := by
    rw [offset]
    exact Nat.mul_div_cancel _ sized
  have behind : ¬ mm.slotAddr mc idx < (mm.heads mc).objPtr := Nat.not_lt.mpr (Nat.le_add_right _ _)
  have word : idx % 64 = idx := Nat.mod_eq_of_lt (by omega)
  have set : (mm.heads mc).allocBits.getLsbD idx = true := mem_slots.mp used
  have counter : ((mm.heads mc).freeCount + 1) % 2 ^ 16 = (mm.heads mc).freeCount + 1 := by
    have busy := (slab.bits.give used).1
    omega
  have nonzero : (mm.zones (mm.heads mc).cache).objSize ≠ 0 := Nat.ne_of_gt sized
  simp only [mmZreturnObj, if_neg behind, if_neg nonzero, index, if_neg (Nat.not_le.mpr inside), word, set,
    Bool.true_eq_false, if_false, counter]
  rfl

/-- A cache of one object a slab has no full slab. -/
theorem SlabsSound.no_full (sound : SlabsSound cfg mm) (held : mc ∈ mm.blocks)
    (single : (mm.heads mc).objCount < 2) : mm.lists ((mm.heads mc).cache, .fullSlabList) = [] := by
  rw [List.eq_nil_iff_forall_not_mem]
  intro other inside
  obtain ⟨otherHeld, owner, kind⟩ := sound.linked.mp inside
  have same : (mm.heads other).objCount = (mm.heads mc).objCount := by
    rw [(sound.slabs other otherHeld).count, (sound.slabs mc held).count, CacheSpace.zoneOf,
      CacheSpace.zoneOf, owner]
  unfold slabListOf at kind
  split_ifs at kind with whole full
  omega

/-- A live object goes back to its slab, and the slab goes to the list that it then belongs to. -/
theorem SlabsSound.mmCacheFree (sound : SlabsSound cfg mm) (held : mc ∈ mm.blocks)
    (used : idx ∈ slots (mm.heads mc).allocBits)
    (search : cacheOfObj cfg mm (mm.slotAddr mc idx) = some mc) :
    ∃ next, mmCacheFree cfg (mm.heads mc).cache (mm.slotAddr mc idx) mm =
        some (next, 0, decide ((mm.zones (mm.heads mc).cache).objDtor ≠ 0)) ∧
      Given cfg mm (mm.heads mc).cache (mm.slotAddr mc idx) next := by
  have slab := sound.slabs mc held
  obtain ⟨busy, counted⟩ := slab.bits.give used
  have within := slab.slot_within (sound.zone held) (slab.bits.used idx used)
  have real : mm.slotAddr mc idx ≠ 0 := by
    unfold slabHeadSize at within
    omega
  have occupied : ¬ mmZcacheEmpty (mm.heads mc) := Nat.not_le.mpr busy
  have back := mmZreturnObj_slot slab used
  have here := sound.linked.mpr ⟨held, rfl, rfl⟩
  have after : (mm.refill mc (clearBit (mm.heads mc).allocBits idx)
      ((mm.heads mc).freeCount + 1) mm.lists).heads mc =
        (mm.heads mc).refill (clearBit (mm.heads mc).allocBits idx) ((mm.heads mc).freeCount + 1) := by
    rw [CacheSpace.refill_heads, if_pos rfl]
  have relinked : ∀ {place : Nat × SlabList}, mm.lists place ≠ [] → ∀ target,
      mmZmoveCache (mm.refill mc (clearBit (mm.heads mc).allocBits idx) ((mm.heads mc).freeCount + 1) mm.lists)
        mc (some place) target = some (mm.refill mc (clearBit (mm.heads mc).allocBits idx)
          ((mm.heads mc).freeCount + 1) (pushFront (removeNode mm.lists mc) target mc)) :=
    fun filled => sound.relinked held filled
  have answer : ((0 : Int) < 0) = False := by simp
  by_cases last : (mm.heads mc).freeCount + 1 = (mm.heads mc).objCount
  · -- the slab was on the partial list, also when it holds only one object
    have kind : slabListOf (mm.heads mc) = .partialSlabList := by
      have some_ : ¬ (mm.heads mc).freeCount = (mm.heads mc).objCount := by omega
      have single : ¬ ((mm.heads mc).freeCount = 0 ∧ 2 ≤ (mm.heads mc).objCount) := by omega
      simp only [slabListOf, if_neg some_, if_neg single]
    have asks : slabListOf ((mm.heads mc).refill (clearBit (mm.heads mc).allocBits idx)
        ((mm.heads mc).freeCount + 1)) = .emptySlabList := if_pos last
    have filled : mm.lists ((mm.heads mc).cache, .partialSlabList) ≠ [] := List.ne_nil_of_mem (kind ▸ here)
    have emptied : mmZcacheEmpty ((mm.refill mc (clearBit (mm.heads mc).allocBits idx)
        ((mm.heads mc).freeCount + 1) mm.lists).heads mc) := by
      rw [after]
      exact Nat.le_of_eq last.symm
    have moved := sound.move held counted (by rw [asks])
    refine ⟨_, ?_, sound.given held used moved⟩
    have first := relinked filled ((mm.heads mc).cache, .emptySlabList)
    by_cases full : mmZcacheFull (mm.heads mc)
    · have single : (mm.heads mc).objCount < 2 := by
        have none_ : (mm.heads mc).freeCount = 0 := Nat.le_zero.mp full
        omega
      have nothing := moved.no_full held (by rw [CacheSpace.refill_objCount]; exact single)
      rw [CacheSpace.refill_cache] at nothing
      have linked := moved.isLinked held
      have second : ∀ target, mmZmoveCache (mm.refill mc (clearBit (mm.heads mc).allocBits idx)
          ((mm.heads mc).freeCount + 1) (pushFront (removeNode mm.lists mc)
            ((mm.heads mc).cache, .emptySlabList) mc)) mc (some ((mm.heads mc).cache, .fullSlabList)) target =
          some (mm.refill mc (clearBit (mm.heads mc).allocBits idx) ((mm.heads mc).freeCount + 1)
            (pushFront (removeNode mm.lists mc) ((mm.heads mc).cache, .emptySlabList) mc)) := by
        intro target
        rw [mmZmoveCache]
        simp only [linked, not_true_eq_false, if_false, nothing, if_true]
      simp only [Mmspace.mmCacheFree, mmZsettle, if_neg real, search, if_neg occupied, Option.bind_eq_bind, back,
        Option.bind_some, answer, emptied, if_true, if_false, first, full, second,
        Option.map_some]
    · simp only [Mmspace.mmCacheFree, mmZsettle, if_neg real, search, if_neg occupied, Option.bind_eq_bind, back,
        Option.bind_some, answer, emptied, if_true, if_false, first, if_neg full, Option.map_some]
  · have more : ¬ mmZcacheEmpty ((mm.refill mc (clearBit (mm.heads mc).allocBits idx)
        ((mm.heads mc).freeCount + 1) mm.lists).heads mc) := by
      rw [after]
      change ¬ (mm.heads mc).objCount ≤ (mm.heads mc).freeCount + 1
      omega
    have asks : slabListOf ((mm.heads mc).refill (clearBit (mm.heads mc).allocBits idx)
        ((mm.heads mc).freeCount + 1)) = .partialSlabList := by
      have some_ : ¬ ((mm.heads mc).freeCount + 1 = 0 ∧ 2 ≤ (mm.heads mc).objCount) := by omega
      rw [slabListOf]
      exact (if_neg last).trans (if_neg some_)
    by_cases full : mmZcacheFull (mm.heads mc)
    · have none_ : (mm.heads mc).freeCount = 0 := Nat.le_zero.mp full
      have kind : slabListOf (mm.heads mc) = .fullSlabList := by
        have some_ : ¬ (mm.heads mc).freeCount = (mm.heads mc).objCount := by omega
        have both : (mm.heads mc).freeCount = 0 ∧ 2 ≤ (mm.heads mc).objCount := by omega
        simp only [slabListOf, if_neg some_, if_pos both]
      have filled : mm.lists ((mm.heads mc).cache, .fullSlabList) ≠ [] := List.ne_nil_of_mem (kind ▸ here)
      have moved := sound.move held counted (by rw [asks])
      refine ⟨_, ?_, sound.given held used moved⟩
      simp only [Mmspace.mmCacheFree, mmZsettle, if_neg real, search, if_neg occupied, Option.bind_eq_bind, back,
        Option.bind_some, answer, more, if_true, if_false, full,
        relinked filled ((mm.heads mc).cache, .partialSlabList), Option.map_some]
    · have kind : slabListOf (mm.heads mc) = .partialSlabList := by
        have some_ : ¬ (mm.heads mc).freeCount = (mm.heads mc).objCount := by omega
        have rest : ¬ ((mm.heads mc).freeCount = 0 ∧ 2 ≤ (mm.heads mc).objCount) :=
          fun both => full (Nat.le_of_eq both.1)
        simp only [slabListOf, if_neg some_, if_neg rest]
      have stayed := sound.stay held counted (asks.trans kind.symm)
      refine ⟨_, ?_, sound.given held used stayed⟩
      simp only [Mmspace.mmCacheFree, mmZsettle, if_neg real, search, if_neg occupied, Option.bind_eq_bind, back,
        Option.bind_some, answer, more, if_false, if_neg full, Option.map_some]

end Free

/-- The answers of the page area are rooms for slabs; a free names a live object that the search traces back. -/
def CacheCall.Fits (cfg : MmConfig) (call : CacheCall) (trace : CacheTrace) : Prop :=
  match call with
  | .create mzi _ _ => mzi ∉ trace.mm.zoneList
  | .alloc mmz first again => mmz ∈ trace.mm.zoneList ∧ PagesAnswer cfg trace.mm mmz first again ∧
      -- a slab of objects without a size divides by zero
      (first = none ∧ again = none ∨ 0 < (trace.mm.zones mmz).objSize)
  | .free mmz p => (mmz, p) ∈ trace.objects ∧
      ∃ mc ∈ trace.mm.blocks, trace.mm.Within mc p ∧ cacheOfObj cfg trace.mm p = some mc
  | .write page _ => page ∉ trace.mm.blocks

instance CacheCall.Fits.decidable (cfg : MmConfig) (call : CacheCall) (trace : CacheTrace) :
    Decidable (call.Fits cfg trace) := by
  cases call <;> unfold CacheCall.Fits <;> infer_instance

namespace SlabsSound

variable {cfg : MmConfig} {mm : CacheSpace}

/-- What is written outside the heads of the slabs changes nothing for them. -/
theorem write (sound : SlabsSound cfg mm) {page : Nat} (outside : page ∉ mm.blocks) (bytes : MmCache) :
    SlabsSound cfg (mm.write page bytes) ∧ ∀ mzi q, (mm.write page bytes).Holds mzi q ↔ mm.Holds mzi q := by
  have heads : ∀ {mc}, mc ∈ mm.blocks → (mm.write page bytes).heads mc = mm.heads mc := by
    intro mc held
    apply Function.update_of_ne
    rintro rfl
    exact outside held
  have zoneOf : ∀ {mc}, mc ∈ mm.blocks → (mm.write page bytes).zoneOf mc = mm.zoneOf mc := by
    intro mc held
    rw [CacheSpace.zoneOf, heads held]
    rfl
  have addr : ∀ {mc}, mc ∈ mm.blocks → ∀ idx, (mm.write page bytes).slotAddr mc idx = mm.slotAddr mc idx := by
    intro mc held idx
    rw [CacheSpace.slotAddr, heads held, zoneOf held]
    rfl
  refine ⟨⟨sound.nodup, ?_, sound.blocks, sound.zones, ?_, ?_⟩, ?_⟩
  · intro mzi kind mc
    refine sound.linked.trans (and_congr_right fun held => ?_)
    rw [heads held]
  · intro mc held
    have slab := sound.slabs mc held
    exact slab.congr (heads held) (zoneOf held) slab.registered
  · intro first firstHeld second secondHeld different
    rw [zoneOf firstHeld, zoneOf secondHeld]
    exact sound.spaced first firstHeld second secondHeld different
  · intro mzi q
    refine exists_congr fun mc => and_congr_right fun held => ?_
    rw [heads held]
    simp only [addr held]

/-- A new cache has no slabs. -/
theorem setup (pages : PagesFit cfg) (sound : SlabsSound cfg mm) {mzi : Nat} (fresh : mzi ∉ mm.zoneList)
    {objSize : Nat} (valid : ValidSize cfg objSize) (objDtor : Nat) :
    SlabsSound cfg (mmCacheSetup cfg mm mzi objSize objDtor) ∧
      ∀ zone q, (mmCacheSetup cfg mm mzi objSize objDtor).Holds zone q ↔ mm.Holds zone q := by
  have other : ∀ {zone}, zone ∈ mm.zoneList → zone ≠ mzi := by
    rintro zone inside rfl
    exact fresh inside
  have zoneOf : ∀ {mc}, mc ∈ mm.blocks →
      (mmCacheSetup cfg mm mzi objSize objDtor).zoneOf mc = mm.zoneOf mc :=
    fun held => Function.update_of_ne (other (sound.slabs _ held).registered) _ _
  have addr : ∀ {mc}, mc ∈ mm.blocks → ∀ idx,
      (mmCacheSetup cfg mm mzi objSize objDtor).slotAddr mc idx = mm.slotAddr mc idx := by
    intro mc held idx
    rw [CacheSpace.slotAddr, zoneOf held]
    rfl
  have lists : (mmCacheSetup cfg mm mzi objSize objDtor).lists = mm.lists := by
    funext place
    change (if place.1 = mzi then [] else mm.lists place) = mm.lists place
    split_ifs with same
    · symm
      rw [List.eq_nil_iff_forall_not_mem]
      rintro mc inside
      obtain ⟨held, owner, -⟩ := sound.linked.mp inside
      exact other (sound.slabs mc held).registered (owner.trans same)
    · rfl
  refine ⟨⟨by rw [lists]; exact sound.nodup, ?_, sound.blocks, ?_, ?_, ?_⟩, ?_⟩
  · rw [lists]
    exact sound.linked
  · intro zone inside
    by_cases same : zone = mzi
    · have own : (mmCacheSetup cfg mm mzi objSize objDtor).zones zone =
          ⟨⟨roundedObjSize objSize, zoneCacheSize cfg objSize⟩, objDtor⟩ := by
        rw [same]
        exact Function.update_self _ _ _
      rw [own]
      exact valid.zoneFits pages
    · have kept : (mmCacheSetup cfg mm mzi objSize objDtor).zones zone = mm.zones zone :=
        Function.update_of_ne same _ _
      rw [kept]
      exact sound.zones zone ((List.mem_append.mp inside).resolve_right (by simpa using same))
  · intro mc held
    have slab := sound.slabs mc held
    exact slab.congr rfl (zoneOf held) (List.mem_append_left _ slab.registered)
  · intro first firstHeld second secondHeld different
    rw [zoneOf firstHeld, zoneOf secondHeld]
    exact sound.spaced first firstHeld second secondHeld different
  · intro zone q
    refine exists_congr fun mc => and_congr_right fun held => ?_
    simp only [addr held]
    rfl

end SlabsSound

/-- The slab that holds the address of a live object is the slab of the object. -/
theorem SlabsSound.owner {cfg : MmConfig} {mm : CacheSpace} {mc owner idx : Nat} (sound : SlabsSound cfg mm)
    (held : mc ∈ mm.blocks) (ownerHeld : owner ∈ mm.blocks) (used : idx ∈ slots (mm.heads owner).allocBits)
    (within : mm.Within mc (mm.slotAddr owner idx)) : owner = mc := by
  have slab := sound.slabs owner ownerHeld
  have place := slab.slot_within (sound.zone ownerHeld) (slab.bits.used idx used)
  have sized := slab.sized
  obtain ⟨above, below⟩ := within
  by_contra different
  rcases sound.spaced owner ownerHeld mc held different with before | before <;> omega

/-- A live object that the search traces back becomes free. -/
theorem CacheTrace.Sound.free {cfg : MmConfig} {trace : CacheTrace} (sound : trace.Sound cfg) {mmz p mc : Nat}
    (live : (mmz, p) ∈ trace.objects) (held : mc ∈ trace.mm.blocks) (within : trace.mm.Within mc p)
    (search : cacheOfObj cfg trace.mm p = some mc) :
    ∃ next, mmCacheFree cfg mmz p trace.mm = some (next, 0, decide ((trace.mm.zones mmz).objDtor ≠ 0)) ∧
      Given cfg trace.mm mmz p next := by
  obtain ⟨owner, ownerHeld, rfl, idx, used, rfl⟩ := (sound.objects mmz p).mp live
  obtain rfl := sound.slabs.owner held ownerHeld used within
  exact sound.slabs.mmCacheFree ownerHeld used search

/-- A call that keeps to the interface has a result and keeps the space sound. -/
theorem cacheStep_sound {cfg : MmConfig} (pages : PagesFit cfg) (call : CacheCall) (trace : CacheTrace)
    (sound : trace.Sound cfg) (fits : call.Fits cfg trace) :
    ∃ next, cacheStep cfg call trace = some next ∧ next.Sound cfg := by
  obtain ⟨slabs, objects, once⟩ := sound
  cases call with
  | create mzi objSize objDtor =>
      by_cases valid : ValidSize cfg objSize
      · obtain ⟨kept, same⟩ := slabs.setup pages fits valid objDtor
        refine ⟨⟨mmCacheSetup cfg trace.mm mzi objSize objDtor, trace.objects⟩, if_pos valid, kept, ?_, once⟩
        intro zone p
        rw [objects, same]
      · exact ⟨trace, if_neg valid, slabs, objects, once⟩
  | alloc mmz first again =>
      obtain ⟨registered, answer, sized⟩ := fits
      obtain ⟨next, p, ran, allocated⟩ := slabs.mmCacheAlloc registered answer sized
      refine ⟨⟨next, if p = 0 then trace.objects else (mmz, p) :: trace.objects⟩, ?_, allocated.sound, ?_, ?_⟩
      · rw [cacheStep, ran]
        rfl
      · intro zone q
        change (zone, q) ∈ (if p = 0 then trace.objects else (mmz, p) :: trace.objects) ↔ next.Holds zone q
        rw [allocated.holds, ← objects]
        split_ifs with none_
        · simp [none_]
        · simp [none_, or_comm]
      · change (if p = 0 then trace.objects else (mmz, p) :: trace.objects).Nodup
        split_ifs with none_
        · exact once
        · exact List.nodup_cons.mpr ⟨fun old => allocated.fresh none_ ((objects mmz p).mp old), once⟩
  | free mmz p =>
      obtain ⟨live, mc, held, within, search⟩ := fits
      obtain ⟨next, ran, given⟩ := CacheTrace.Sound.free ⟨slabs, objects, once⟩ live held within search
      refine ⟨⟨next, trace.objects.erase (mmz, p)⟩, ?_, given.sound, ?_, once.erase _⟩
      · rw [cacheStep, ran]
        rfl
      · intro zone q
        change (zone, q) ∈ trace.objects.erase _ ↔ next.Holds zone q
        rw [given.holds, ← objects, once.mem_erase_iff, and_comm]
        simp only [ne_eq, Prod.mk.injEq]
  | write page bytes =>
      obtain ⟨kept, same⟩ := slabs.write fits bytes
      refine ⟨⟨trace.mm.write page bytes, trace.objects⟩, rfl, kept, ?_, once⟩
      intro zone p
      rw [objects, same]

theorem emptyCaches_sound (cfg : MmConfig) : emptyCaches.Sound cfg := by
  refine ⟨⟨fun _ => List.nodup_nil, ?_, List.nodup_nil, ?_, ?_, ?_⟩, ?_, List.nodup_nil⟩
  · intro mzi kind mc
    exact iff_of_false List.not_mem_nil fun inside => List.not_mem_nil inside.1
  · exact fun _ inside => absurd inside List.not_mem_nil
  · exact fun _ inside => absurd inside List.not_mem_nil
  · exact fun _ inside => absurd inside List.not_mem_nil
  · intro mzi p
    refine iff_of_false List.not_mem_nil ?_
    rintro ⟨mc, inside, -⟩
    exact List.not_mem_nil inside

/-- Every run of fitting calls ends in a sound space. -/
theorem cacheCalls_sound {cfg : MmConfig} (pages : PagesFit cfg) (calls : List CacheCall)
    (meets : Meets (cacheStep cfg) (CacheCall.Fits cfg) calls emptyCaches) :
    ∃ trace, exec (cacheStep cfg) calls emptyCaches = some trace ∧ trace.Sound cfg :=
  exec_invariant (cacheStep_sound pages) calls emptyCaches (emptyCaches_sound cfg) meets

/-- The slab is on the list of its counter alone, and the counter has the clear bits. -/
structure SlabInvariant (mm : CacheSpace) (mc : Nat) : Prop where
  alone : ∃! place, mc ∈ mm.lists place
  empty : mc ∈ mm.lists ((mm.heads mc).cache, .emptySlabList) ↔ (mm.heads mc).freeCount = (mm.heads mc).objCount
  full : mc ∈ mm.lists ((mm.heads mc).cache, .fullSlabList) ↔ (mm.heads mc).freeCount = 0
  rest : mc ∈ mm.lists ((mm.heads mc).cache, .partialSlabList) ↔
    (mm.heads mc).freeCount ≠ (mm.heads mc).objCount ∧ (mm.heads mc).freeCount ≠ 0
  below : ∀ idx, (mm.heads mc).allocBits.getLsbD idx = true → idx < (mm.heads mc).objCount
  counted : (slots (mm.heads mc).allocBits).card = (mm.heads mc).objCount - (mm.heads mc).freeCount

/-- The live objects are the used slots, apart from each other and from the heads of the slabs. -/
structure ObjectInvariant (trace : CacheTrace) (mmz p : Nat) : Prop where
  used : trace.mm.Holds mmz p
  apart : ∀ mzi q, (mzi, q) ∈ trace.objects → (mzi, q) ≠ (mmz, p) →
    p + (trace.mm.zones mmz).objSize ≤ q ∨ q + (trace.mm.zones mzi).objSize ≤ p
  outside : ∀ mc ∈ trace.mm.blocks, mc + slabHeadSize ≤ p ∨ p + (trace.mm.zones mmz).objSize ≤ mc

section Invariant

variable {cfg : MmConfig} {mm : CacheSpace} {mc : Nat}

theorem SlabsSound.invariant (sound : SlabsSound cfg mm) (held : mc ∈ mm.blocks)
    (many : 2 ≤ slabObjects (mm.zoneOf mc).toMmcache) : SlabInvariant mm mc := by
  have slab := sound.slabs mc held
  have count := slab.count
  have total := slab.bits.counted
  have here : ∀ kind, mc ∈ mm.lists ((mm.heads mc).cache, kind) ↔ slabListOf (mm.heads mc) = kind := by
    intro kind
    rw [sound.linked]
    simp [held]
  refine ⟨⟨((mm.heads mc).cache, slabListOf (mm.heads mc)), (here _).mpr rfl, ?_⟩, ?_, ?_, ?_, ?_, by omega⟩
  · exact fun place inside => sound.apart.unique inside ((here _).mpr rfl)
  · rw [here, slabListOf]
    split_ifs with whole none_ <;> simp [whole]
  · rw [here, slabListOf]
    split_ifs with whole none_
    · simp only [false_iff]
      omega
    · simp [none_.1]
    · simp only [false_iff]
      omega
  · rw [here, slabListOf]
    split_ifs with whole none_
    · simp [whole]
    · simp [none_.1]
    · simp only [true_iff]
      omega
  · intro idx set
    exact slab.bits.used idx (mem_slots.mpr set)

theorem CacheTrace.Sound.object {trace : CacheTrace} (sound : trace.Sound cfg) {mmz p : Nat}
    (live : (mmz, p) ∈ trace.objects) : ObjectInvariant trace mmz p := by
  obtain ⟨slabs, objects, -⟩ := sound
  have holds := (objects mmz p).mp live
  obtain ⟨mc, held, rfl, idx, used, rfl⟩ := holds
  have inside := (slabs.slabs mc held).bits.used idx used
  have place := (slabs.slabs mc held).slot_within (slabs.zone held) inside
  have size : (trace.mm.zones (trace.mm.heads mc).cache).objSize = (trace.mm.zoneOf mc).objSize := rfl
  refine ⟨(objects _ _).mp live, ?_, ?_⟩
  · intro mzi q liveOther different
    obtain ⟨other, otherHeld, rfl, second, usedOther, rfl⟩ := (objects mzi q).mp liveOther
    have insideOther := (slabs.slabs other otherHeld).bits.used second usedOther
    have placeOther := (slabs.slabs other otherHeld).slot_within (slabs.zone otherHeld) insideOther
    have sizeOther : (trace.mm.zones (trace.mm.heads other).cache).objSize = (trace.mm.zoneOf other).objSize := rfl
    by_cases same : mc = other
    · subst same
      have slots : idx ≠ second := by
        rintro rfl
        exact different rfl
      exact trace.mm.slot_apart mc slots
    · rcases slabs.spaced mc held other otherHeld same with before | before <;> omega
  · intro other otherHeld
    by_cases same : mc = other
    · subst same
      exact Or.inl place.1
    · have head := (slabs.zone otherHeld).head
      rcases slabs.spaced mc held other otherHeld same with before | before <;> omega

end Invariant

/-- After every run the slabs, their lists and the live objects of the caches agree, also through a recall. -/
theorem cacheCalls_slabs (cfg : MmConfig) (pages : PagesFit cfg) (calls : List CacheCall)
    (meets : Meets (cacheStep cfg) (CacheCall.Fits cfg) calls emptyCaches) :
    ∃ trace, exec (cacheStep cfg) calls emptyCaches = some trace ∧ trace.mm.blocks.Nodup ∧
      (∀ mc place, mc ∈ trace.mm.lists place → mc ∈ trace.mm.blocks) ∧
      (∀ mmz p, (mmz, p) ∈ trace.objects ↔ trace.mm.Holds mmz p) ∧ trace.objects.Nodup ∧
      (∀ mmz p, (mmz, p) ∈ trace.objects → ObjectInvariant trace mmz p) ∧
      (∀ mc ∈ trace.mm.blocks, 32 ≤ slabObjects (trace.mm.zoneOf mc).toMmcache → SlabInvariant trace.mm mc) ∧
      ∃ recalled, mmZtryRecall trace.mm = some recalled ∧ recalled.blocks.Nodup ∧
        ∀ mc ∈ trace.mm.blocks, mc ∉ recalled.blocks →
          slabListOf (trace.mm.heads mc) = .emptySlabList ∧ ∀ place, mc ∉ recalled.lists place := by
  obtain ⟨trace, run, sound⟩ := cacheCalls_sound pages calls meets
  obtain ⟨recalled, ran, kept⟩ := sound.slabs.recall
  refine ⟨trace, run, sound.slabs.blocks, fun mc place inside => (sound.slabs.linked.mp inside).1,
    sound.objects, sound.once, fun mmz p => sound.object, ?_, recalled, ran, kept.sound.blocks, ?_⟩
  · intro mc held many
    exact sound.slabs.invariant held (by omega)
  · intro mc held away
    exact ⟨kept.given mc held away, fun place inside => away (kept.sound.linked.mp inside).1⟩

/-- The pages of the cache area have 4096 bytes, and a block has up to 64 of them. -/
def cachePages : MmConfig := ⟨1048576, 4096, 64⟩

theorem cachePages_fit : PagesFit cachePages := ⟨12, by decide, rfl⟩

/-- The first slab becomes empty again, and a second cache gets its pages by the recall. -/
def recallCalls : List CacheCall :=
  [.create 512 40 0, .alloc 512 (some 65536) none, .alloc 512 none none, .free 512 67072, .free 512 67112,
    .create 1024 80 0, .alloc 1024 none (some 65536)]

theorem cacheCalls_slabs_recall :
    ∃ trace, exec (cacheStep cachePages) recallCalls emptyCaches = some trace ∧
      trace.mm.blocks = [65536] ∧ (trace.mm.heads 65536).cache = 1024 ∧ SlabInvariant trace.mm 65536 := by
  have shape : ∃ trace ∈ exec (cacheStep cachePages) recallCalls emptyCaches, trace.mm.blocks = [65536] ∧
      (trace.mm.heads 65536).cache = 1024 ∧ 32 ≤ slabObjects (trace.mm.zoneOf 65536).toMmcache := by
    decide +kernel
  obtain ⟨trace, run, blocks, owner, many⟩ := shape
  obtain ⟨same, run', -, -, -, -, -, slabs, -⟩ :=
    cacheCalls_slabs cachePages cachePages_fit recallCalls (by decide +kernel)
  obtain rfl := Option.some.inj (run.symm.trans run')
  exact ⟨trace, run, blocks, owner, slabs 65536 (by simp [blocks]) many⟩

end Syslib.Mmspace
