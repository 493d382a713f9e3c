import Syslib.Mmspace.CacheSound

namespace Syslib.Mmspace

open BitSlots IntrusiveLists Runs

section Slot

variable {cfg : MmConfig} {mm : CacheSpace} {mc idx p : Nat}

/-- A free slot becomes used. -/
theorem Counted.take {head : MmCache} (counted : Counted head) (inside : idx < head.objCount)
    (free : idx ∉ slots head.allocBits) :
    0 < head.freeCount ∧ Counted (head.refill (setBit head.allocBits idx) (head.freeCount - 1)) := by
  have word : idx < 64 := lt_of_lt_of_le inside counted.small
  have bits : slots (setBit head.allocBits idx) = insert idx (slots head.allocBits) := slots_setBit word
  have card : (slots (setBit head.allocBits idx)).card = (slots head.allocBits).card + 1 := by
    rw [bits, Finset.card_insert_of_notMem free]
  have used : ∀ slot ∈ slots (setBit head.allocBits idx), slot < head.objCount := by
    intro slot member
    rcases Finset.mem_insert.mp (bits ▸ member) with rfl | old
    · exact inside
    · exact counted.used slot old
  have bound : (slots (setBit head.allocBits idx)).card ≤ head.objCount := by
    have range : slots (setBit head.allocBits idx) ⊆ Finset.range head.objCount :=
      fun slot member => Finset.mem_range.mpr (used slot member)
    simpa using Finset.card_le_card range
  have total := counted.counted
  refine ⟨by omega, used, ?_, counted.small⟩
  simp only [MmCache.refill, card]
  omega

/-- A used slot becomes free. -/
theorem Counted.give {head : MmCache} (counted : Counted head) (used : idx ∈ slots head.allocBits) :
    head.freeCount < head.objCount ∧
      Counted (head.refill (clearBit head.allocBits idx) (head.freeCount + 1)) := by
  have word : idx < 64 := lt_of_lt_of_le (counted.used idx used) counted.small
  have bits : slots (clearBit head.allocBits idx) = (slots head.allocBits).erase idx := slots_clearBit word
  have card : (slots (clearBit head.allocBits idx)).card + 1 = (slots head.allocBits).card := by
    rw [bits, Finset.card_erase_add_one used]
  have total := counted.counted
  refine ⟨by omega, ?_, ?_, counted.small⟩
  · intro slot member
    exact counted.used slot (Finset.mem_of_mem_erase (bits ▸ member))
  · simp only [MmCache.refill]
    omega

theorem mmcNextFreeObj_free {head : MmCache} (found : mmcNextFreeObj head = some idx) :
    idx < head.objCount ∧ idx ∉ slots head.allocBits := by
  obtain ⟨slot, least, chosen⟩ := Option.bind_eq_some_iff.mp found
  split_ifs at chosen with outside
  obtain rfl := Option.some.inj chosen
  obtain ⟨-, clear⟩ := lowest_set least
  rw [BitVec.getLsbD_not] at clear
  refine ⟨Nat.lt_of_not_le outside, ?_⟩
  simpa using (Bool.and_eq_true_iff.mp clear).2

/-- The slab hands out a free slot. -/
theorem mmZfetchObj_spec (slab : Slab cfg mm mc) (zone : ZoneFits cfg (mm.zoneOf mc).toMmcache) {next : CacheSpace}
    (fetched : mmZfetchObj mm mc = some (next, p)) :
    ∃ idx, idx < (mm.heads mc).objCount ∧ idx ∉ slots (mm.heads mc).allocBits ∧ p = mm.slotAddr mc idx ∧
      next = mm.refill mc (setBit (mm.heads mc).allocBits idx) ((mm.heads mc).freeCount - 1) mm.lists := by
  obtain ⟨idx, found, equal⟩ := Option.bind_eq_some_iff.mp fetched
  obtain ⟨inside, free⟩ := mmcNextFreeObj_free found
  obtain ⟨positive, -⟩ := slab.bits.take inside free
  have small := slab.bits.small
  have total := slab.bits.counted
  have within := slab.slot_within zone inside
  have behind := slab.behind zone
  have word := zone.word
  have offset : idx * (mm.zoneOf mc).objSize % 2 ^ 32 = idx * (mm.zoneOf mc).objSize := by
    apply Nat.mod_eq_of_lt
    unfold CacheSpace.slotAddr at within
    omega
  have counter : ((mm.heads mc).freeCount + (2 ^ 16 - 1)) % 2 ^ 16 = (mm.heads mc).freeCount - 1 := by
    omega
  rw [CacheSpace.zoneOf] at offset
  rw [offset, counter] at equal
  obtain ⟨rfl, rfl⟩ := Prod.mk.inj (Option.some.inj equal)
  exact ⟨idx, inside, free, rfl, rfl⟩

end Slot

section Objects

variable {cfg : MmConfig} {mm : CacheSpace} {mc idx p mmz freeCount : Nat} {bits : BitVec 64}

theorem SlabsSound.isLinked (sound : SlabsSound cfg mm) (held : mc ∈ mm.blocks) : mm.Linked mc := by
  refine ⟨(mm.heads mc).cache, (sound.slabs mc held).registered, ?_⟩
  have here := sound.linked.mpr ⟨held, rfl, rfl⟩
  cases kind : slabListOf (mm.heads mc) with
  | fullSlabList => exact Or.inl (kind ▸ here)
  | emptySlabList => exact Or.inr (Or.inl (kind ▸ here))
  | partialSlabList => exact Or.inr (Or.inr (kind ▸ here))

/-- The slab leaves its list when the named list is not empty. -/
theorem SlabsSound.relinked (sound : SlabsSound cfg mm) (held : mc ∈ mm.blocks)
    {place : Nat × SlabList} (filled : mm.lists place ≠ []) (target : Nat × SlabList) :
    mmZmoveCache (mm.refill mc bits freeCount mm.lists) mc (some place) target =
      some (mm.refill mc bits freeCount (pushFront (removeNode mm.lists mc) target mc)) := by
  have linked : (mm.refill mc bits freeCount mm.lists).Linked mc := sound.isLinked held
  have filled' : (mm.refill mc bits freeCount mm.lists).lists place ≠ [] := filled
  rw [mmZmoveCache]
  simp only [linked, not_true_eq_false, if_false, if_neg filled']
  rfl

/-- One more object of the cache is live. -/
structure Taken (cfg : MmConfig) (mm : CacheSpace) (mmz p : Nat) (next : CacheSpace) : Prop where
  sound : SlabsSound cfg next
  fresh : ¬ mm.Holds mmz p
  holds : ∀ mzi q, next.Holds mzi q ↔ mm.Holds mzi q ∨ mzi = mmz ∧ q = p
  real : p ≠ 0
  refilled : Refilled mm next

theorem SlabsSound.taken (sound : SlabsSound cfg mm) (held : mc ∈ mm.blocks)
    (inside : idx < (mm.heads mc).objCount) (free : idx ∉ slots (mm.heads mc).allocBits)
    {lists : Nat × SlabList → List Nat} (next : SlabsSound cfg
      (mm.refill mc (setBit (mm.heads mc).allocBits idx) freeCount lists)) :
    Taken cfg mm (mm.heads mc).cache (mm.slotAddr mc idx)
      (mm.refill mc (setBit (mm.heads mc).allocBits idx) freeCount lists) := by
  have slab := sound.slabs mc held
  have word : idx < 64 := lt_of_lt_of_le inside slab.bits.small
  have grown : slots (setBit (mm.heads mc).allocBits idx) = insert idx (slots (mm.heads mc).allocBits) :=
    slots_setBit word
  have used : ∀ slot ∈ slots (setBit (mm.heads mc).allocBits idx), slot < (mm.heads mc).objCount := by
    intro slot member
    rcases Finset.mem_insert.mp (grown ▸ member) with rfl | old
    · exact inside
    · exact slab.bits.used slot old
  refine ⟨next, ?_, ?_, ?_, mc, held, _, _, _, rfl⟩
  · rintro ⟨other, otherHeld, -, slot, member, same⟩
    obtain ⟨rfl, rfl⟩ := sound.slot_unique held otherHeld inside
      ((sound.slabs other otherHeld).bits.used slot member) same
    exact free member
  · intro mzi q
    rw [sound.holds_refill held used, grown]
    constructor
    · rintro (⟨owner, slot, member, rfl⟩ | ⟨old, -⟩)
      · rcases Finset.mem_insert.mp member with rfl | old
        · exact Or.inr ⟨owner.symm, rfl⟩
        · exact Or.inl ⟨mc, held, owner, slot, old, rfl⟩
      · exact Or.inl old
    · rintro (old | ⟨rfl, rfl⟩)
      · by_cases here : ∃ slot ∈ slots (mm.heads mc).allocBits, q = mm.slotAddr mc slot
        · obtain ⟨slot, member, rfl⟩ := here
          obtain ⟨other, otherHeld, owner, second, inSecond, same⟩ := old
          obtain ⟨rfl, -⟩ := sound.slot_unique held otherHeld (slab.bits.used slot member)
            ((sound.slabs other otherHeld).bits.used second inSecond) same
          exact Or.inl ⟨owner, slot, Finset.mem_insert_of_mem member, rfl⟩
        · exact Or.inr ⟨old, here⟩
      · exact Or.inl ⟨rfl, idx, Finset.mem_insert_self _ _, rfl⟩
  · have within := (slab.slot_within (sound.zone held) inside).1
    unfold slabHeadSize at within
    omega

/-- The first slab of the list with free objects gives one, and a slab without more goes to the other list. -/
theorem SlabsSound.alloc_partial (sound : SlabsSound cfg mm) {rest : List Nat}
    (here : mm.lists (mmz, .partialSlabList) = mc :: rest) (first again : Option Nat) :
    ∃ next p, mmCacheAlloc mmz first again mm = some (next, p) ∧
      (p = 0 ∧ next = mm ∨ Taken cfg mm mmz p next) := by
  have member : mc ∈ mm.lists (mmz, .partialSlabList) := here ▸ List.mem_cons_self
  obtain ⟨held, rfl, kind⟩ := sound.linked.mp member
  have slab := sound.slabs mc held
  simp only [mmCacheAlloc, here]
  cases fetched : mmZfetchObj mm mc with
  | none => exact ⟨mm, 0, rfl, Or.inl ⟨rfl, rfl⟩⟩
  | some result =>
      obtain ⟨after, p⟩ := result
      obtain ⟨idx, inside, free, rfl, rfl⟩ := mmZfetchObj_spec slab (sound.zone held) fetched
      obtain ⟨positive, counted⟩ := slab.bits.take inside free
      have total := slab.bits.counted
      have busy : (mm.heads mc).freeCount ≠ (mm.heads mc).objCount := by
        intro whole
        simp [slabListOf, whole] at kind
      have filled : mm.lists ((mm.heads mc).cache, .partialSlabList) ≠ [] := List.ne_nil_of_mem member
      by_cases last : (mm.heads mc).freeCount - 1 = 0
      · have asks : slabListOf ((mm.heads mc).refill (setBit (mm.heads mc).allocBits idx)
            ((mm.heads mc).freeCount - 1)) = .fullSlabList := by
          have more : 2 ≤ (mm.heads mc).objCount := by omega
          have some_ : ¬ 0 = (mm.heads mc).objCount := by omega
          simp [slabListOf, MmCache.refill, last, more, some_]
        have full : mmZcacheFull ((mm.refill mc (setBit (mm.heads mc).allocBits idx)
            ((mm.heads mc).freeCount - 1) mm.lists).heads mc) := by
          rw [CacheSpace.refill_heads, if_pos rfl]
          exact Nat.le_of_eq last
        have moved := sound.move held counted (by rw [asks])
        exact ⟨_, _, by simp only [full, if_true, sound.relinked held filled]; rfl,
          Or.inr (sound.taken held inside free moved)⟩
      · have asks : slabListOf ((mm.heads mc).refill (setBit (mm.heads mc).allocBits idx)
            ((mm.heads mc).freeCount - 1)) = .partialSlabList := by
          have less : ¬ (mm.heads mc).freeCount - 1 = (mm.heads mc).objCount := by omega
          simp [slabListOf, MmCache.refill, last, less]
        have open_ : ¬ mmZcacheFull ((mm.refill mc (setBit (mm.heads mc).allocBits idx)
            ((mm.heads mc).freeCount - 1) mm.lists).heads mc) := by
          rw [CacheSpace.refill_heads, if_pos rfl]
          exact fun none_ => last (Nat.le_zero.mp none_)
        have stayed := sound.stay held counted (asks.trans kind.symm)
        exact ⟨_, _, by simp only [open_, if_false], Or.inr (sound.taken held inside free stayed)⟩

/-- The first empty slab gives its first object. -/
theorem SlabsSound.alloc_empty (sound : SlabsSound cfg mm) (held : mc ∈ mm.blocks)
    (whole : (mm.heads mc).freeCount = (mm.heads mc).objCount) {next : CacheSpace}
    (fetched : mmZfetchObj mm mc = some (next, p)) :
    ∃ after, mmZmoveCache next mc (some ((mm.heads mc).cache, .emptySlabList))
        ((mm.heads mc).cache, .partialSlabList) = some after ∧ Taken cfg mm (mm.heads mc).cache p after := by
  have slab := sound.slabs mc held
  obtain ⟨idx, inside, free, rfl, rfl⟩ := mmZfetchObj_spec slab (sound.zone held) fetched
  obtain ⟨positive, counted⟩ := slab.bits.take inside free
  have asks : slabListOf ((mm.heads mc).refill (setBit (mm.heads mc).allocBits idx)
      ((mm.heads mc).freeCount - 1)) = .partialSlabList := by
    have less : ¬ (mm.heads mc).objCount - 1 = (mm.heads mc).objCount := by omega
    have other : ¬ ((mm.heads mc).objCount - 1 = 0 ∧ 2 ≤ (mm.heads mc).objCount) := by omega
    simp only [slabListOf, MmCache.refill, whole, if_neg less, if_neg other]
  have filled : mm.lists ((mm.heads mc).cache, .emptySlabList) ≠ [] := by
    apply List.ne_nil_of_mem (a := mc)
    rw [sound.linked]
    exact ⟨held, rfl, by simp [slabListOf, whole]⟩
  have moved := sound.move held counted (by rw [asks])
  exact ⟨_, sound.relinked held filled _, sound.taken held inside free moved⟩

end Objects

section Recall

variable {cfg : MmConfig} {mm : CacheSpace} {mzi : Nat}

theorem foldlM_mmFree {slabs : List Nat} (nodup : slabs.Nodup) (held : ∀ mc ∈ slabs, mc ∈ mm.blocks)
    (blocks : mm.blocks.Nodup) :
    slabs.foldlM CacheSpace.mmFree mm = some { mm with blocks := mm.blocks.diff slabs } := by
  induction slabs generalizing mm with
  | nil => rfl
  | cons mc rest ih =>
      obtain ⟨fresh, nodup⟩ := List.nodup_cons.mp nodup
      have freed : mm.mmFree mc = some { mm with blocks := mm.blocks.erase mc } :=
        if_pos (held mc List.mem_cons_self)
      have left : ∀ other ∈ rest, other ∈ mm.blocks.erase mc := by
        intro other inside
        refine blocks.mem_erase_iff.mpr ⟨?_, held other (List.mem_cons_of_mem mc inside)⟩
        rintro rfl
        exact fresh inside
      have later := @ih { mm with blocks := mm.blocks.erase mc } nodup left (blocks.erase mc)
      rw [List.foldlM_cons, freed]
      exact later.trans (by rw [List.diff_cons])

/-- A recall gives back empty slabs, and all the other slabs and objects stay. -/
structure Recalled (cfg : MmConfig) (mm next : CacheSpace) : Prop where
  sound : SlabsSound cfg next
  zones : next.zones = mm.zones
  zoneList : next.zoneList = mm.zoneList
  heads : next.heads = mm.heads
  held : ∀ mc ∈ next.blocks, mc ∈ mm.blocks
  given : ∀ mc ∈ mm.blocks, mc ∉ next.blocks → slabListOf (mm.heads mc) = .emptySlabList

theorem Recalled.refl (sound : SlabsSound cfg mm) : Recalled cfg mm mm :=
  ⟨sound, rfl, rfl, rfl, fun _ held => held, fun _ held away => absurd held away⟩

theorem Recalled.trans {middle next : CacheSpace} (recalled : Recalled cfg mm middle)
    (later : Recalled cfg middle next) : Recalled cfg mm next := by
  refine ⟨later.sound, later.zones.trans recalled.zones, later.zoneList.trans recalled.zoneList,
    later.heads.trans recalled.heads, fun mc held => recalled.held mc (later.held mc held), ?_⟩
  intro mc held away
  by_cases between : mc ∈ middle.blocks
  · rw [← recalled.heads]
    exact later.given mc between away
  · exact recalled.given mc held between

theorem Recalled.zoneOf {next : CacheSpace} (recalled : Recalled cfg mm next) (mc : Nat) :
    next.zoneOf mc = mm.zoneOf mc := by
  rw [CacheSpace.zoneOf, CacheSpace.zoneOf, recalled.zones, recalled.heads]

/-- An empty slab has no object, so the recall keeps the objects. -/
theorem Recalled.holds {next : CacheSpace} (recalled : Recalled cfg mm next) (sound : SlabsSound cfg mm)
    (p : Nat) : next.Holds mzi p ↔ mm.Holds mzi p := by
  have addr : ∀ mc idx, next.slotAddr mc idx = mm.slotAddr mc idx := by
    intro mc idx
    rw [CacheSpace.slotAddr, CacheSpace.slotAddr, recalled.zoneOf, recalled.heads]
  unfold CacheSpace.Holds
  simp only [recalled.heads, addr]
  constructor
  · rintro ⟨mc, held, rest⟩
    exact ⟨mc, recalled.held mc held, rest⟩
  · rintro ⟨mc, held, owner, idx, used, rfl⟩
    refine ⟨mc, ?_, owner, idx, used, rfl⟩
    by_contra away
    have bits := (sound.slabs mc held).bits
    have busy := (bits.give used).1
    have kind := recalled.given mc held away
    unfold slabListOf at kind
    split_ifs at kind with whole
    omega

theorem SlabsSound.recallEmpty (sound : SlabsSound cfg mm) (mzi : Nat) :
    ∃ next, mmZtryRecallEmptyCache mm mzi = some next ∧ Recalled cfg mm next := by
  have held : ∀ mc ∈ mm.lists (mzi, .emptySlabList), mc ∈ mm.blocks := fun mc inside => (sound.linked.mp inside).1
  have freed := foldlM_mmFree (sound.nodup (mzi, .emptySlabList)) held sound.blocks
  have left : ∀ mc, mc ∈ mm.blocks.diff (mm.lists (mzi, .emptySlabList)) ↔
      mc ∈ mm.blocks ∧ mc ∉ mm.lists (mzi, .emptySlabList) := fun mc => sound.blocks.mem_sdiff_iff
  let next : CacheSpace := { mm with
    blocks := mm.blocks.diff (mm.lists (mzi, .emptySlabList))
    lists := Function.update mm.lists (mzi, .emptySlabList) [] }
  refine ⟨next, by rw [mmZtryRecallEmptyCache, freed]; rfl,
    ⟨?_, ?_, sound.blocks.diff, sound.zones, ?_, ?_⟩, rfl, rfl, rfl, fun mc inside => ((left mc).mp inside).1, ?_⟩
  · intro place
    by_cases same : place = (mzi, .emptySlabList)
    · simp [next, same]
    · simpa [next, same] using sound.nodup place
  · intro zone kind mc
    change mc ∈ Function.update mm.lists (mzi, .emptySlabList) [] (zone, kind) ↔
      mc ∈ mm.blocks.diff (mm.lists (mzi, .emptySlabList)) ∧ _
    rw [left]
    by_cases same : (zone, kind) = (mzi, SlabList.emptySlabList)
    · obtain ⟨rfl, rfl⟩ := Prod.mk.inj same
      rw [Function.update_self, sound.linked]
      refine iff_of_false List.not_mem_nil ?_
      rintro ⟨⟨inside, outside⟩, owner, kind⟩
      exact outside ⟨inside, owner, kind⟩
    · rw [Function.update_of_ne same, sound.linked, sound.linked]
      constructor
      · rintro ⟨inside, rfl, rfl⟩
        refine ⟨⟨inside, ?_⟩, rfl, rfl⟩
        rintro ⟨-, owner, kind⟩
        exact same (by rw [owner, kind])
      · rintro ⟨⟨inside, -⟩, owner, kind⟩
        exact ⟨inside, owner, kind⟩
  · intro mc inside
    have slab := sound.slabs mc ((left mc).mp inside).1
    exact slab.congr rfl rfl slab.registered
  · intro first firstHeld second secondHeld
    exact sound.spaced first ((left first).mp firstHeld).1 second ((left second).mp secondHeld).1
  · intro mc inside away
    rw [left, not_and, not_not] at away
    exact (sound.linked.mp (away inside)).2.2

/-- The recall goes through all caches of the space. -/
theorem SlabsSound.recall (sound : SlabsSound cfg mm) :
    ∃ next, mmZtryRecall mm = some next ∧ Recalled cfg mm next := by
  have every : ∀ (zones : List Nat) (start : CacheSpace), SlabsSound cfg start →
      ∃ next, zones.foldlM mmZtryRecallEmptyCache start = some next ∧ Recalled cfg start next := by
    intro zones
    induction zones with
    | nil => exact fun start kept => ⟨start, rfl, Recalled.refl kept⟩
    | cons zone rest ih =>
        intro start kept
        obtain ⟨middle, first, recalled⟩ := kept.recallEmpty zone
        obtain ⟨next, later, more⟩ := ih middle recalled.sound
        exact ⟨next, by rw [List.foldlM_cons, first]; exact later, recalled.trans more⟩
  exact every mm.zoneList mm sound

end Recall

section Grow

variable {cfg : MmConfig} {mm : CacheSpace} {mmz mc p : Nat}

/-- The block for a new slab of the cache is a row of pages outside the other slabs. -/
structure CacheSpace.Room (cfg : MmConfig) (mm : CacheSpace) (mmz mc : Nat) : Prop where
  aligned : mc % cfg.pageSize = 0
  word : mc + (mm.zones mmz).cacheSize ≤ 2 ^ 64
  apart : ∀ other ∈ mm.blocks, mc + (mm.zones mmz).cacheSize ≤ other ∨
    other + (mm.zoneOf other).cacheSize ≤ mc

instance CacheSpace.Room.decidable (cfg : MmConfig) (mm : CacheSpace) (mmz mc : Nat) :
    Decidable (mm.Room cfg mmz mc) :=
  decidable_of_iff (mc % cfg.pageSize = 0 ∧ mc + (mm.zones mmz).cacheSize ≤ 2 ^ 64 ∧
      ∀ other ∈ mm.blocks, mc + (mm.zones mmz).cacheSize ≤ other ∨
        other + (mm.zoneOf other).cacheSize ≤ mc)
    ⟨fun parts => ⟨parts.1, parts.2.1, parts.2.2⟩, fun room => ⟨room.aligned, room.word, room.apart⟩⟩

def CacheSpace.newHead (mm : CacheSpace) (mmz mc : Nat) : MmCache where
  cache := mmz
  slabLabel := slabMark
  freeCount := slabObjects (mm.zones mmz).toMmcache
  objCount := slabObjects (mm.zones mmz).toMmcache
  allocBits := 0#64
  objPtr := mc + (mm.zones mmz).cacheSize -
    slabObjects (mm.zones mmz).toMmcache * (mm.zones mmz).objSize % 2 ^ 32

/-- The space with a new slab, which is on the list of the empty ones. -/
def CacheSpace.opened (mm : CacheSpace) (mmz mc : Nat) : CacheSpace :=
  { mm with
    blocks := mc :: mm.blocks
    heads := Function.update mm.heads mc (mm.newHead mmz mc)
    lists := pushFront mm.lists (mmz, .emptySlabList) mc }

theorem CacheSpace.opened_heads {other : Nat} : (mm.opened mmz mc).heads other =
    if other = mc then mm.newHead mmz mc else mm.heads other :=
  Function.update_apply _ _ _ _

/-- A new slab adds no object. -/
theorem SlabsSound.opened (sound : SlabsSound cfg mm) (registered : mmz ∈ mm.zoneList)
    (sized : 0 < (mm.zones mmz).objSize) (room : mm.Room cfg mmz mc) :
    SlabsSound cfg (mm.opened mmz mc) ∧ ∀ mzi q, (mm.opened mmz mc).Holds mzi q ↔ mm.Holds mzi q := by
  have zone := sound.zones mmz registered
  have fit := @slabObjects_fit (mm.zones mmz).toMmcache
  have head := zone.head
  have word := zone.word
  have fresh : mc ∉ mm.blocks := by
    intro held
    have other := (sound.zone held).head
    unfold slabHeadSize at other head
    rcases room.apart mc held with before | before <;> omega
  have heads : ∀ {other}, other ∈ mm.blocks → (mm.opened mmz mc).heads other = mm.heads other := by
    intro other held
    have different : other ≠ mc := by
      rintro rfl
      exact fresh held
    rw [CacheSpace.opened_heads, if_neg different]
  have zoneOf : ∀ {other}, other ∈ mm.blocks → (mm.opened mmz mc).zoneOf other = mm.zoneOf other := by
    intro other held
    rw [CacheSpace.zoneOf, heads held]
    rfl
  have addr : ∀ {other}, other ∈ mm.blocks → ∀ idx,
      (mm.opened mmz mc).slotAddr other idx = mm.slotAddr other idx := by
    intro other held idx
    rw [CacheSpace.slotAddr, heads held, zoneOf held]
    rfl
  have own : (mm.opened mmz mc).heads mc = mm.newHead mmz mc := by
    rw [CacheSpace.opened_heads, if_pos rfl]
  have ownZone : (mm.opened mmz mc).zoneOf mc = mm.zones mmz := by
    rw [CacheSpace.zoneOf, own]
    rfl
  have inserted : Inserted mm.lists (mm.opened mmz mc).lists (mmz, SlabList.emptySlabList) mc :=
    inserted_pushFront
  have unlinked : ∀ place, mc ∉ mm.lists place := fun place inside => fresh (sound.linked.mp inside).1
  refine ⟨⟨(inserted.apart sound.apart unlinked).nodup, ?_, List.nodup_cons.mpr ⟨fresh, sound.blocks⟩,
    sound.zones, ?_, ?_⟩, ?_⟩
  · intro mzi kind other
    rw [inserted.mem]
    change _ ↔ other ∈ mc :: mm.blocks ∧ _
    by_cases same : other = mc
    · subst same
      rw [own]
      have empty : slabListOf (mm.newHead mmz other) = .emptySlabList := if_pos rfl
      simp only [unlinked, false_or, true_and, List.mem_cons_self, empty, Prod.mk.injEq]
      exact and_congr eq_comm eq_comm
    · rw [List.mem_cons, sound.linked]
      simp only [same, false_and, or_false, false_or]
      exact and_congr_right fun held => by rw [heads held]
  · intro other inside
    rcases List.mem_cons.mp inside with rfl | held
    · refine ⟨by rw [own]; exact registered, by rw [own]; rfl, by rw [ownZone]; exact sized,
        by rw [own, ownZone]; rfl, ?_, ?_, room.aligned, by rw [ownZone]; exact room.word⟩
      · rw [CacheSpace.slotAddr, own, ownZone]
        simp only [CacheSpace.newHead]
        rw [Nat.mod_eq_of_lt (by omega)]
        omega
      · rw [own]
        exact ⟨by simp [CacheSpace.newHead], by simp [CacheSpace.newHead], slabObjects_le _⟩
    · have slab := sound.slabs other held
      exact slab.congr (heads held) (zoneOf held) slab.registered
  · intro first firstInside second secondInside different
    rcases List.mem_cons.mp firstInside with rfl | firstHeld
    · rcases List.mem_cons.mp secondInside with rfl | secondHeld
      · exact absurd rfl different
      · rw [ownZone, zoneOf secondHeld]
        exact room.apart second secondHeld
    · rw [zoneOf firstHeld]
      rcases List.mem_cons.mp secondInside with rfl | secondHeld
      · rw [ownZone]
        exact (room.apart first firstHeld).symm
      · rw [zoneOf secondHeld]
        exact sound.spaced first firstHeld second secondHeld different
  · intro mzi q
    constructor
    · rintro ⟨other, inside, owner, idx, used, rfl⟩
      rcases List.mem_cons.mp inside with rfl | held
      · rw [own] at used
        simp [CacheSpace.newHead] at used
      · rw [heads held] at owner used
        exact ⟨other, held, owner, idx, used, addr held idx⟩
    · rintro ⟨other, held, owner, idx, used, rfl⟩
      exact ⟨other, List.mem_cons_of_mem mc held, by rw [heads held]; exact owner, idx,
        by rw [heads held]; exact used, (addr held idx).symm⟩

/-- The block for a new slab, when the cache has no slab with a free object. -/
def CacheSpace.freshSlab (mm : CacheSpace) (mmz : Nat) (first again : Option Nat) : Option Nat :=
  if mm.lists (mmz, .partialSlabList) = [] ∧ mm.lists (mmz, .emptySlabList) = [] then first <|> again
  else none

/-- The memory outside the slabs stays as it is, and at most one slab is new. -/
structure Framed (mm : CacheSpace) (mmz : Nat) (fresh : Option Nat) (next : CacheSpace) : Prop where
  heads : ∀ page, page ∉ next.blocks → next.heads page = mm.heads page
  blocks : ∀ mc ∈ next.blocks, mc ∈ mm.blocks ∧ next.zoneOf mc = mm.zoneOf mc ∨
    mc ∈ fresh ∧ next.zoneOf mc = mm.zones mmz

theorem Recalled.framed {next : CacheSpace} (recalled : Recalled cfg mm next) (fresh : Option Nat) :
    Framed mm mmz fresh next :=
  ⟨fun _ _ => by rw [recalled.heads], fun mc held => Or.inl ⟨recalled.held mc held, recalled.zoneOf mc⟩⟩

theorem Recalled.framed_opened {middle : CacheSpace} (recalled : Recalled cfg mm middle) :
    Framed mm mmz (some mc) (middle.opened mmz mc) := by
  constructor
  · intro page outside
    have different : page ≠ mc := by
      rintro rfl
      exact outside List.mem_cons_self
    rw [CacheSpace.opened_heads, if_neg different, recalled.heads]
  · intro other inside
    by_cases same : other = mc
    · refine Or.inr ⟨congrArg some same.symm, ?_⟩
      rw [CacheSpace.zoneOf, CacheSpace.opened_heads, if_pos same]
      exact congrFun recalled.zones mmz
    · have held := recalled.held other ((List.mem_cons.mp inside).resolve_left same)
      refine Or.inl ⟨held, ?_⟩
      rw [← recalled.zoneOf, CacheSpace.zoneOf, CacheSpace.opened_heads, if_neg same]
      rfl

theorem Framed.refilled {middle next : CacheSpace} {fresh : Option Nat} (framed : Framed mm mmz fresh middle)
    (refilled : Refilled middle next) : Framed mm mmz fresh next := by
  obtain ⟨mc, held, bits, freeCount, lists, rfl⟩ := refilled
  constructor
  · intro page outside
    have different : page ≠ mc := by
      rintro rfl
      exact outside held
    rw [CacheSpace.refill_heads, if_neg different]
    exact framed.heads page outside
  · intro other inside
    rw [CacheSpace.refill_zoneOf]
    exact framed.blocks other inside

/-- The page area answers with room for a slab, also after the recall. -/
structure PagesAnswer (cfg : MmConfig) (mm : CacheSpace) (mmz : Nat) (first again : Option Nat) : Prop where
  first : ∀ mc ∈ first, mm.Room cfg mmz mc
  again : ∀ recalled ∈ mmZtryRecall mm, ∀ mc ∈ again, recalled.Room cfg mmz mc

instance PagesAnswer.decidable (cfg : MmConfig) (mm : CacheSpace) (mmz : Nat) (first again : Option Nat) :
    Decidable (PagesAnswer cfg mm mmz first again) :=
  decidable_of_iff ((∀ mc ∈ first, mm.Room cfg mmz mc) ∧
      ∀ recalled ∈ mmZtryRecall mm, ∀ mc ∈ again, recalled.Room cfg mmz mc)
    ⟨fun parts => ⟨parts.1, parts.2⟩, fun answer => ⟨answer.first, answer.again⟩⟩

/-- The cache gets a new slab, or there are no pages for one. -/
theorem SlabsSound.mmZcacheNew (sound : SlabsSound cfg mm)
    {first again : Option Nat} (answer : PagesAnswer cfg mm mmz first again)
    (sized : first = none ∧ again = none ∨ 0 < (mm.zones mmz).objSize) :
    ∃ recalled, Recalled cfg mm recalled ∧
      (mmZcacheNew mmz first again mm = some (recalled, none) ∨
        ∃ mc, (first <|> again) = some mc ∧ 0 < (mm.zones mmz).objSize ∧ recalled.Room cfg mmz mc ∧
          mmZcacheNew mmz first again mm = some (recalled.opened mmz mc, some mc)) := by
  cases first with
  | some mc =>
      have positive : 0 < (mm.zones mmz).objSize := by simpa using sized
      refine ⟨mm, Recalled.refl sound, Or.inr ⟨mc, rfl, positive, answer.first mc rfl, ?_⟩⟩
      simp only [Mmspace.mmZcacheNew, mmZallocPg, Option.bind_eq_bind, Option.bind_some,
        if_neg positive.ne', mmZmoveCache]
      rfl
  | none =>
      obtain ⟨recalled, ran, kept⟩ := sound.recall
      refine ⟨recalled, kept, ?_⟩
      cases again with
      | none =>
          refine Or.inl ?_
          simp only [Mmspace.mmZcacheNew, mmZallocPg, Option.bind_eq_bind, Option.bind_some, ran]
      | some mc =>
          have positive : 0 < (mm.zones mmz).objSize := by simpa using sized
          have same : 0 < (recalled.zones mmz).objSize := by rw [kept.zones]; exact positive
          refine Or.inr ⟨mc, rfl, positive, answer.again recalled ran mc rfl, ?_⟩
          simp only [Mmspace.mmZcacheNew, mmZallocPg, Option.bind_eq_bind, Option.bind_some, ran,
            if_neg same.ne', mmZmoveCache]
          rfl

/-- An allocation gives a new object, or it leaves the objects as they are. -/
structure Allocated (cfg : MmConfig) (mm : CacheSpace) (mmz p : Nat) (newSlab : Option Nat)
    (next : CacheSpace) : Prop where
  sound : SlabsSound cfg next
  fresh : p ≠ 0 → ¬ mm.Holds mmz p
  holds : ∀ mzi q, next.Holds mzi q ↔ mm.Holds mzi q ∨ p ≠ 0 ∧ mzi = mmz ∧ q = p
  framed : Framed mm mmz newSlab next

theorem Taken.allocated {middle next : CacheSpace} {fresh : Option Nat} (taken : Taken cfg middle mmz p next)
    (same : ∀ mzi q, middle.Holds mzi q ↔ mm.Holds mzi q) (framed : Framed mm mmz fresh middle) :
    Allocated cfg mm mmz p fresh next := by
  refine ⟨taken.sound, fun _ held => taken.fresh ((same mmz p).mpr held), ?_, framed.refilled taken.refilled⟩
  intro mzi q
  rw [taken.holds, same, and_iff_right taken.real]

theorem Framed.refused {next : CacheSpace} {fresh : Option Nat} (framed : Framed mm mmz fresh next)
    (sound : SlabsSound cfg next) (same : ∀ mzi q, next.Holds mzi q ↔ mm.Holds mzi q) :
    Allocated cfg mm mmz 0 fresh next := by
  refine ⟨sound, fun real => absurd rfl real, ?_, framed⟩
  intro mzi q
  rw [same, or_iff_left fun given => given.1 rfl]

/-- Every allocation of a registered cache keeps the space sound. -/
theorem SlabsSound.mmCacheAlloc (sound : SlabsSound cfg mm) (registered : mmz ∈ mm.zoneList)
    {first again : Option Nat} (answer : PagesAnswer cfg mm mmz first again)
    (sized : first = none ∧ again = none ∨ 0 < (mm.zones mmz).objSize) :
    ∃ next p, mmCacheAlloc mmz first again mm = some (next, p) ∧
      Allocated cfg mm mmz p (mm.freshSlab mmz first again) next := by
  have still : Framed mm mmz (mm.freshSlab mmz first again) mm := (Recalled.refl sound).framed _
  cases filled : mm.lists (mmz, .partialSlabList) with
  | cons mc rest =>
      obtain ⟨next, p, ran, ⟨rfl, rfl⟩ | taken⟩ := sound.alloc_partial filled first again
      · exact ⟨next, 0, ran, still.refused sound fun _ _ => Iff.rfl⟩
      · exact ⟨next, p, ran, taken.allocated (fun _ _ => Iff.rfl) still⟩
  | nil =>
      cases empties : mm.lists (mmz, .emptySlabList) with
      | cons mc rest =>
          have member : mc ∈ mm.lists (mmz, .emptySlabList) := empties ▸ List.mem_cons_self
          obtain ⟨held, rfl, kind⟩ := sound.linked.mp member
          have whole : (mm.heads mc).freeCount = (mm.heads mc).objCount := by
            unfold slabListOf at kind
            split_ifs at kind with whole
            exact whole
          cases fetched : mmZfetchObj mm mc with
          | none =>
              refine ⟨mm, 0, ?_, still.refused sound fun _ _ => Iff.rfl⟩
              simp only [Mmspace.mmCacheAlloc, filled, empties, Option.bind_eq_bind, Option.bind_some, fetched]
          | some result =>
              obtain ⟨after, p⟩ := result
              obtain ⟨next, moved, taken⟩ := sound.alloc_empty held whole fetched
              refine ⟨next, p, ?_, taken.allocated (fun _ _ => Iff.rfl) still⟩
              simp only [Mmspace.mmCacheAlloc, filled, empties, Option.bind_eq_bind, Option.bind_some, fetched,
                moved]
      | nil =>
          obtain ⟨recalled, kept, none_ | ⟨mc, chosen, positive, room, made⟩⟩ := sound.mmZcacheNew answer sized
          · refine ⟨recalled, 0, ?_, (kept.framed _).refused kept.sound fun _ q => kept.holds sound q⟩
            simp only [Mmspace.mmCacheAlloc, filled, empties, Option.bind_eq_bind, Option.bind_some, none_]
          · have fresh : mm.freshSlab mmz first again = some mc := by
              rw [CacheSpace.freshSlab, if_pos ⟨filled, empties⟩, chosen]
            have framed : Framed mm mmz (mm.freshSlab mmz first again) (recalled.opened mmz mc) :=
              fresh ▸ kept.framed_opened
            have registered' : mmz ∈ recalled.zoneList := by rw [kept.zoneList]; exact registered
            have positive' : 0 < (recalled.zones mmz).objSize := by rw [kept.zones]; exact positive
            obtain ⟨openedSound, same⟩ := kept.sound.opened registered' positive' room
            have holds : ∀ mzi q, (recalled.opened mmz mc).Holds mzi q ↔ mm.Holds mzi q :=
              fun mzi q => (same mzi q).trans (kept.holds sound q)
            have held : mc ∈ (recalled.opened mmz mc).blocks := List.mem_cons_self
            have own : (recalled.opened mmz mc).heads mc = recalled.newHead mmz mc := by
              rw [CacheSpace.opened_heads, if_pos rfl]
            cases fetched : mmZfetchObj (recalled.opened mmz mc) mc with
            | none =>
                refine ⟨recalled.opened mmz mc, 0, ?_, framed.refused openedSound holds⟩
                simp only [Mmspace.mmCacheAlloc, filled, empties, Option.bind_eq_bind, Option.bind_some, made,
                  fetched]
            | some result =>
                obtain ⟨after, p⟩ := result
                obtain ⟨next, moved, taken⟩ := openedSound.alloc_empty held (by rw [own]; rfl) fetched
                rw [own] at moved taken
                refine ⟨next, p, ?_, taken.allocated holds framed⟩
                simp only [Mmspace.mmCacheAlloc, filled, empties, Option.bind_eq_bind, Option.bind_some, made,
                  fetched]
                have moves : mmZmoveCache after mc (some (mmz, .emptySlabList)) (mmz, .partialSlabList) =
                    some next := moved
                rw [moves]
                rfl

end Grow

end Syslib.Mmspace
