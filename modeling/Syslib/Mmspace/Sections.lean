import Syslib.Mmspace.Space

namespace Syslib.Mmspace

open Runs

variable {Allocator : Type}

/-- Every section that was created for an area is on the section list of this area. -/
def MmSpaceImpl.Listed (mm : MmSpaceImpl Allocator) : Prop :=
  ∀ save ∈ mm.shmmSaveList, ∃ sec ∈ mm.attached save.baseAddr,
    save.baseAddr ∈ (mm.areaList sec.areaType).sectionList

instance (mm : MmSpaceImpl Allocator) : Decidable mm.Listed :=
  inferInstanceAs (Decidable (∀ save ∈ _, _))

/-- Every section of the area refused the request, and the attempt to create one more failed. -/
def Allocation.Exhausts (allocation : Allocation Allocator) (arType : Nat) : Prop :=
  (∀ save ∈ allocation.space.shmmSaveList, ∀ sec ∈ allocation.space.attached save.baseAddr,
      sec.areaType = arType → save.baseAddr ∈ allocation.refused) ∧
    ∃ rslt ∈ allocation.rslt, rslt < 0

instance (allocation : Allocation Allocator) (arType : Nat) :
    Decidable (allocation.Exhausts arType) :=
  inferInstanceAs (Decidable (_ ∧ _))

/-- The last request of an area got an address, or nothing could serve it. -/
def Trace.Answered (trace : Trace Allocator) : Prop :=
  ∀ last ∈ trace.allocation, last.1 < mmAreaCount → last.2.p = none → last.2.Exhausts last.1

instance (trace : Trace Allocator) : Decidable trace.Answered :=
  inferInstanceAs (Decidable (∀ last ∈ _, _))

/-- A section on the list of the area serves the request. -/
def Served (ops : Nat → MmOps Allocator) (mm : MmSpaceImpl Allocator) (size arType : Nat) : Prop :=
  ∃ round ∈ askArea ops mm arType size [], round.p.isSome

instance (ops : Nat → MmOps Allocator) (mm : MmSpaceImpl Allocator) (size arType : Nat) :
    Decidable (Served ops mm size arType) :=
  inferInstanceAs (Decidable (∃ round ∈ _, _))

/-- The space may have no more blocks, or the kernel does not give one. -/
def NoRoom (mm : MmSpaceImpl Allocator) (arType : Nat) (answer : Option ShmmBlk) : Prop :=
  (mm.totalShmmCount : Int) ≥ mm.cfg.maxShmmCount ∨
    shmmCreate (mmCreateShmKey mm.cfg.sysShmmKey arType (mm.nextShmmKey + 1))
      (mm.cfg.mmCfg arType).totalSize answer = none

instance (mm : MmSpaceImpl Allocator) (arType : Nat) (answer : Option ShmmBlk) :
    Decidable (NoRoom mm arType answer) :=
  inferInstanceAs (Decidable (_ ∨ _))

/-- No request leads to a second section of an area, and a load succeeds. -/
def Call.Allowed (ops : Nat → MmOps Allocator) (call : Call) (trace : Trace Allocator) : Prop :=
  match call with
  | .load opened => (mmLoadArea ops trace.space opened).isSome
  | .areaAlloc size arType answers =>
      arType < mmAreaCount → Served ops trace.space size arType ∨
        NoRoom trace.space arType (answers.headD none)
  | .free _ => True

instance (ops : Nat → MmOps Allocator) (call : Call) (trace : Trace Allocator) :
    Decidable (call.Allowed ops trace) := by
  cases call <;> unfold Call.Allowed <;> infer_instance

/-- Each of the areas has one section, which is attached and is its free section. -/
structure MmSpaceImpl.Settled (types : List Nat) (mm : MmSpaceImpl Allocator) : Prop where
  areas : ∀ arType ∈ types, ∃ shm sec, mm.areaList arType = ⟨[shm], some shm⟩ ∧
    mm.attached shm = some sec ∧ sec.areaType = arType
  saved : ∀ save ∈ mm.shmmSaveList, ∃ arType ∈ types,
    (mm.areaList arType).sectionList = [save.baseAddr]
  tree : ∀ blk ∈ mm.allSectionTree, (mm.attached blk.shm).isSome

theorem MmSpaceImpl.Settled.listed {types : List Nat} {mm : MmSpaceImpl Allocator}
    (settled : mm.Settled types) : mm.Listed := by
  intro save inside
  obtain ⟨arType, known, list⟩ := settled.saved save inside
  obtain ⟨shm, sec, area, attached, rfl⟩ := settled.areas arType known
  rw [area] at list
  obtain rfl : shm = save.baseAddr := by simpa using list
  exact ⟨sec, attached, by rw [area]; exact List.mem_singleton_self _⟩

/-- An allocator may change under its section head. -/
theorem MmSpaceImpl.Settled.setSection {types : List Nat} {mm : MmSpaceImpl Allocator}
    (settled : mm.Settled types) {shm : Nat} {sec next : MmSectionImpl Allocator}
    (attached : mm.attached shm = some sec) (same : next.areaType = sec.areaType) :
    (mm.setSection shm (some next)).Settled types := by
  constructor
  · intro arType known
    obtain ⟨place, old, area, held, kind⟩ := settled.areas arType known
    by_cases here : place = shm
    · subst here
      obtain rfl : sec = old := Option.some.inj (attached.symm.trans held)
      exact ⟨place, next, area, Function.update_self _ _ _, same.trans kind⟩
    · exact ⟨place, old, area, (Function.update_of_ne here _ _).trans held, kind⟩
  · exact settled.saved
  · intro blk inside
    by_cases here : blk.shm = shm
    · simp [MmSpaceImpl.setSection, here]
    · simpa [MmSpaceImpl.setSection, here] using settled.tree blk inside

theorem MmSpaceImpl.setArea_eq_self {mm : MmSpaceImpl Allocator} {arType : Nat} {area : MmAreaImpl}
    (same : mm.areaList arType = area) : mm.setArea arType area = mm := by
  rw [MmSpaceImpl.setArea, ← same, Function.update_eq_self]

/-- Requests change the allocators of attached sections, and nothing else. -/
structure Asked (types : List Nat) (mm next : MmSpaceImpl Allocator) : Prop where
  settled : next.Settled types
  count : next.totalShmmCount = mm.totalShmmCount
  key : next.nextShmmKey = mm.nextShmmKey
  cfg : next.cfg = mm.cfg
  areas : next.areaList = mm.areaList

theorem Asked.trans {types : List Nat} {mm first second : MmSpaceImpl Allocator}
    (later : Asked types first second) (kept : Asked types mm first) : Asked types mm second :=
  ⟨later.settled, later.count.trans kept.count, later.key.trans kept.key, later.cfg.trans kept.cfg,
    later.areas.trans kept.areas⟩

theorem allocAt_asked (ops : MmOps Allocator) {types : List Nat} {mm : MmSpaceImpl Allocator}
    (settled : mm.Settled types) {shm : Nat} {sec : MmSectionImpl Allocator} (size : Nat)
    (attached : mm.attached shm = some sec) :
    ∃ next p, allocAt ops mm size shm = some (next, p) ∧ Asked types mm next := by
  let after := { sec with allocator := (ops.allocFunc sec.allocator size).1 }
  refine ⟨mm.setSection shm (some after), (ops.allocFunc sec.allocator size).2, ?_,
    settled.setSection attached rfl, rfl, rfl, rfl, rfl⟩
  simp [allocAt, attached, after]

/-- A round asks the only section of the area, and it records the refusal. -/
theorem askArea_asked (ops : Nat → MmOps Allocator) {types : List Nat}
    {mm : MmSpaceImpl Allocator} (settled : mm.Settled types) {arType shm : Nat} (size : Nat)
    (known : arType ∈ types) (area : mm.areaList arType = ⟨[shm], some shm⟩) :
    ∃ round, askArea ops mm arType size [] = some round ∧ Asked types mm round.space ∧
      (round.p = none → shm ∈ round.refused) := by
  obtain ⟨_, sec, same, attached, _⟩ := settled.areas arType known
  obtain rfl : shm = _ := by simpa using congrArg MmAreaImpl.freeSection (area.symm.trans same)
  obtain ⟨first, p, asked, kept⟩ := allocAt_asked (ops arType) settled size attached
  cases p with
  | some p => exact ⟨⟨first, some p, [], none⟩, by simp [askArea, area, asked], kept, by simp⟩
  | none =>
      obtain ⟨_, sec, same, attached, _⟩ := kept.settled.areas arType known
      rw [kept.areas, area] at same
      obtain rfl : shm = _ := by simpa using congrArg MmAreaImpl.freeSection same
      have unchanged := @MmSpaceImpl.setArea_eq_self _ first arType ⟨[shm], some shm⟩
        (by rw [kept.areas, area])
      obtain ⟨second, p, again, later⟩ := allocAt_asked (ops arType) kept.settled size attached
      have whole : Asked types mm second := later.trans kept
      cases p with
      | some p =>
          refine ⟨⟨second, some p, [shm], none⟩, ?_, whole, by simp⟩
          simp [askArea, asked, kept.areas, area, askList, unchanged, again]
      | none =>
          refine ⟨⟨second, none, [shm, shm], none⟩, ?_, whole, by simp⟩
          simp [askArea, asked, kept.areas, area, askList, unchanged, again]

/-- A creation without room changes the key counter at most. -/
theorem mmCreateSection_noRoom (ops : Nat → MmOps Allocator) {mm : MmSpaceImpl Allocator}
    {arType : Nat} {answer : Option ShmmBlk} (full : NoRoom mm arType answer) :
    ∃ key, mmCreateSection ops mm arType answer = ({ mm with nextShmmKey := key }, -1) := by
  unfold mmCreateSection
  split_ifs with most
  · exact ⟨mm.nextShmmKey, rfl⟩
  · have refused := full.resolve_left most
    simp only [refused]
    exact ⟨mm.nextShmmKey + 1, rfl⟩

theorem MmSpaceImpl.Settled.setKey {types : List Nat} {mm : MmSpaceImpl Allocator}
    (settled : mm.Settled types) (key : Nat) :
    MmSpaceImpl.Settled types { mm with nextShmmKey := key } :=
  ⟨settled.areas, settled.saved, settled.tree⟩

theorem Asked.noRoom {types : List Nat} {mm next : MmSpaceImpl Allocator} {arType : Nat}
    {answer : Option ShmmBlk} (asked : Asked types mm next) (full : NoRoom mm arType answer) :
    NoRoom next arType answer := by
  unfold NoRoom
  rw [asked.count, asked.key, asked.cfg]
  exact full

/-- Only sections on the one-element list of the area belong to the area. -/
theorem MmSpaceImpl.Settled.only {types : List Nat} {mm : MmSpaceImpl Allocator}
    (settled : mm.Settled types) {arType shm : Nat} (area : mm.areaList arType = ⟨[shm], some shm⟩)
    {save : MmShmmSave} (inside : save ∈ mm.shmmSaveList) {sec : MmSectionImpl Allocator}
    (attached : mm.attached save.baseAddr = some sec) (same : sec.areaType = arType) :
    save.baseAddr = shm := by
  obtain ⟨other, held, listed⟩ := settled.listed save inside
  obtain rfl : sec = other := Option.some.inj (attached.symm.trans held)
  rw [same, area] at listed
  exact List.mem_singleton.mp listed

theorem retryAlloc_settled (ops : Nat → MmOps Allocator) {mm : MmSpaceImpl Allocator}
    {types : List Nat} (settled : mm.Settled types) {arType : Nat} (size : Nat)
    (answers : List (Option ShmmBlk)) (known : arType ∈ types)
    (allowed : Served ops mm size arType ∨ NoRoom mm arType (answers.headD none)) :
    ∃ allocation, retryAlloc ops arType size answers mm [] = some allocation ∧
      allocation.space.Settled types ∧ (allocation.p = none → allocation.Exhausts arType) := by
  obtain ⟨shm, sec, area, attached, kind⟩ := settled.areas arType known
  obtain ⟨round, ran, asked, refused⟩ := askArea_asked ops settled size known area
  by_cases served : round.p.isSome
  · refine ⟨round, ?_, asked.settled, fun none_ => by simp [none_] at served⟩
    cases answers <;> simp [retryAlloc, ran, served]
  · have full : NoRoom mm arType (answers.headD none) := by
      refine allowed.resolve_left ?_
      rintro ⟨found, again, taken⟩
      obtain rfl : round = found := Option.some.inj (ran.symm.trans again)
      exact served taken
    obtain ⟨key, failed⟩ := mmCreateSection_noRoom ops (asked.noRoom full)
    refine ⟨⟨{ round.space with nextShmmKey := key }, round.p, round.refused, some (-1)⟩, ?_,
      asked.settled.setKey key, fun none_ => ⟨?_, -1, rfl, by decide⟩⟩
    · cases answers with
      | nil =>
          rw [List.headD_nil] at failed
          simp [retryAlloc, ran, served, failed]
      | cons answer rest =>
          rw [List.headD_cons] at failed
          simp [retryAlloc, ran, served, failed]
    · intro save inside sec held same
      rw [asked.settled.only (asked.areas ▸ area) inside held same]
      exact refused none_

theorem mmFree_settled (ops : Nat → MmOps Allocator) {types : List Nat}
    {mm : MmSpaceImpl Allocator} (settled : mm.Settled types) (p : Nat) :
    ∃ next rslt, mmFree ops mm p = some (next, rslt) ∧ next.Settled types := by
  cases found : mm.rbSearch p with
  | none => exact ⟨mm, -1, by simp [mmFree, found], settled⟩
  | some blk =>
      obtain ⟨sec, attached⟩ := Option.isSome_iff_exists.mp
        (settled.tree blk (List.mem_of_find?_eq_some found))
      let after := { sec with allocator := ((ops sec.areaType).freeFunc sec.allocator p).1 }
      let rslt := ((ops sec.areaType).freeFunc sec.allocator p).2
      refine ⟨mm.setSection blk.shm (some after), if rslt < 0 then -1 else rslt, ?_,
        settled.setSection attached rfl⟩
      simp only [mmFree, found, Option.bind_eq_bind, attached, Option.bind_some]
      rfl

theorem loadSections_settled (ops : MmOps Allocator) {types : List Nat} (list : List Nat)
    {mm next : MmSpaceImpl Allocator} (settled : mm.Settled types)
    (loaded : loadSections ops list mm = some next) : next.Settled types := by
  induction list generalizing mm with
  | nil => exact Option.some.inj loaded ▸ settled
  | cons shm rest ih =>
      simp only [loadSections, Option.bind_eq_bind, Option.bind_eq_some_iff] at loaded
      obtain ⟨sec, attached, allocator, _, remaining⟩ := loaded
      exact ih (@MmSpaceImpl.Settled.setSection _ _ _ settled _ _ { sec with allocator } attached rfl)
        remaining

theorem loadAreas_settled (ops : Nat → MmOps Allocator) {types : List Nat} (list : List Nat)
    {mm next : MmSpaceImpl Allocator} (settled : mm.Settled types)
    (loaded : loadAreas ops list mm = some next) : next.Settled types := by
  induction list generalizing mm with
  | nil => exact Option.some.inj loaded ▸ settled
  | cons arType rest ih =>
      simp only [loadAreas, Option.bind_eq_bind, Option.bind_eq_some_iff] at loaded
      obtain ⟨middle, first, remaining⟩ := loaded
      exact ih (loadSections_settled _ _ settled first) remaining

/-- The invariant of a run keeps the record of the last allocation besides the sections. -/
structure Trace.Sound (trace : Trace Allocator) : Prop where
  settled : trace.space.Settled (List.range mmAreaCount)
  answered : trace.Answered

theorem callStep_sound (ops : Nat → MmOps Allocator) (call : Call) (trace : Trace Allocator)
    (sound : trace.Sound) (allowed : call.Allowed ops trace) :
    ∃ next, callStep ops call trace = some next ∧ next.Sound := by
  have settled := sound.settled
  cases call with
  | load opened =>
      obtain ⟨next, loaded⟩ := Option.isSome_iff_exists.mp allowed
      have kept : next.Settled (List.range mmAreaCount) := by
        unfold mmLoadArea at loaded
        split_ifs at loaded
        exact loadAreas_settled ops _ settled loaded
      exact ⟨⟨next, none⟩, by simp [callStep, loaded], kept, by simp [Trace.Answered]⟩
  | areaAlloc size arType answers =>
      by_cases known : arType < mmAreaCount
      · obtain ⟨shm, sec, area, _⟩ := settled.areas arType (List.mem_range.mpr known)
        obtain ⟨allocation, ran, kept, exhausts⟩ := retryAlloc_settled ops settled size answers
          (List.mem_range.mpr known) (allowed known)
        refine ⟨⟨allocation.space, some (arType, allocation)⟩, ?_, kept, ?_⟩
        · simp [callStep, mmAreaAlloc, Nat.not_le.mpr known, area, ran]
        · rintro last ⟨⟩ _
          exact exhausts
      · refine ⟨⟨trace.space, some (arType, ⟨trace.space, none, [], none⟩)⟩, ?_, settled, ?_⟩
        · simp [callStep, mmAreaAlloc, Nat.not_lt.mp known]
        · rintro last ⟨⟩ below
          exact absurd below known
  | free p =>
      obtain ⟨next, rslt, freed, kept⟩ := mmFree_settled ops settled p
      exact ⟨⟨next, none⟩, by simp [callStep, freed], kept, by simp [Trace.Answered]⟩

/-- The kernel never attaches two blocks at one address. -/
def Distinct (mm : MmSpaceImpl Allocator) (answers : List (Option ShmmBlk)) : Prop :=
  ((answers.filterMap id).map ShmmBlk.shm).Nodup ∧
    ∀ blk, some blk ∈ answers → mm.attached blk.shm = none

/-- A creation that succeeds leaves the new section alone on the list of its area. -/
theorem linkSection_created (ops : Nat → MmOps Allocator) {mm next : MmSpaceImpl Allocator}
    {arType : Nat} {key rslt : Int} {blk : ShmmBlk} (succeeds : ¬ rslt < 0)
    (created : linkSection ops mm arType key blk = (next, rslt)) :
    ∃ allocator, (ops arType).createFunc (blk.beginAddr + 16) (mm.cfg.mmCfg arType) = some allocator ∧
      next = { mm with
      areaList := Function.update mm.areaList arType ⟨[blk.shm], some blk.shm⟩
      allSectionTree := blk :: mm.allSectionTree
      attached := Function.update mm.attached blk.shm (some ⟨arType, allocator⟩)
      shmmSaveList := mm.shmmSaveList ++ [⟨blk.shm, key, (mm.cfg.mmCfg arType).totalSize⟩]
      totalShmmCount := mm.totalShmmCount + 1 } := by
  simp only [linkSection, MmSpaceImpl.setArea, MmSpaceImpl.setSection, Function.update_self,
    Function.update_idem, List.nil_append] at created
  have refused : ∀ {space : MmSpaceImpl Allocator}, (space, (-1 : Int)) ≠ (next, rslt) := by
    intro space same
    have := congrArg Prod.snd same
    simp only at this
    omega
  split_ifs at created
  · exact absurd created refused
  · exact absurd created refused
  · cases allocated : (ops arType).createFunc (blk.beginAddr + 16) (mm.cfg.mmCfg arType) with
    | none =>
        rw [allocated] at created
        exact absurd created refused
    | some allocator =>
        rw [allocated] at created
        exact ⟨allocator, rfl, (congrArg Prod.fst created).symm⟩

/-- A creation that the limit or the kernel does not refuse links the block of the answer. -/
theorem mmCreateSection_links (ops : Nat → MmOps Allocator) {mm : MmSpaceImpl Allocator}
    {arType : Nat} {answer : Option ShmmBlk} (room : ¬ NoRoom mm arType answer) :
    ∃ key blk, answer = some blk ∧ mmCreateSection ops mm arType answer =
      linkSection ops { mm with nextShmmKey := mm.nextShmmKey + 1 } arType key blk := by
  have below : ¬ (mm.totalShmmCount : Int) ≥ mm.cfg.maxShmmCount := fun most => room (Or.inl most)
  cases created : shmmCreate (mmCreateShmKey mm.cfg.sysShmmKey arType (mm.nextShmmKey + 1))
      (mm.cfg.mmCfg arType).totalSize answer with
  | none => exact absurd (Or.inr created) room
  | some blk =>
      obtain rfl : answer = some blk := by
        unfold shmmCreate at created
        split_ifs at created
        exact created
      refine ⟨mmCreateShmKey mm.cfg.sysShmmKey arType (mm.nextShmmKey + 1), blk, rfl, ?_⟩
      simp only [mmCreateSection, if_neg below, created]

/-- A creation that succeeds adds a section, and this is the only one on the list of its area. -/
structure Added (ops : Nat → MmOps Allocator) (mm : MmSpaceImpl Allocator) (arType : Nat)
    (answer : Option ShmmBlk) (next : MmSpaceImpl Allocator) : Prop where
  room : (mm.totalShmmCount : Int) < mm.cfg.maxShmmCount
  section_ : ∃ blk key addr allocator, answer = some blk ∧
    (ops arType).createFunc addr (mm.cfg.mmCfg arType) = some allocator ∧
    next = { mm with
      nextShmmKey := mm.nextShmmKey + 1
      areaList := Function.update mm.areaList arType ⟨[blk.shm], some blk.shm⟩
      allSectionTree := blk :: mm.allSectionTree
      attached := Function.update mm.attached blk.shm (some ⟨arType, allocator⟩)
      shmmSaveList := mm.shmmSaveList ++ [⟨blk.shm, key, (mm.cfg.mmCfg arType).totalSize⟩]
      totalShmmCount := mm.totalShmmCount + 1 }

section Added

variable {ops : Nat → MmOps Allocator} {mm next : MmSpaceImpl Allocator} {arType : Nat}
  {answer : Option ShmmBlk}

theorem mmCreateSection_added {rslt : Int} (succeeds : ¬ rslt < 0)
    (created : mmCreateSection ops mm arType answer = (next, rslt)) :
    Added ops mm arType answer next := by
  have room : ¬ NoRoom mm arType answer := by
    intro full
    obtain ⟨key, refused⟩ := mmCreateSection_noRoom ops full
    rw [refused] at created
    have := congrArg Prod.snd created
    simp only at this
    omega
  obtain ⟨key, blk, rfl, linked⟩ := mmCreateSection_links ops room
  obtain ⟨allocator, made, rfl⟩ := linkSection_created ops succeeds (linked.symm.trans created)
  exact ⟨Int.not_le.mp fun most => room (Or.inl most),
    blk, key, blk.beginAddr + 16, allocator, rfl, made, rfl⟩

theorem Added.count (added : Added ops mm arType answer next) :
    next.totalShmmCount = mm.totalShmmCount + 1 := by
  obtain ⟨_, _, _, _, _, _, rfl⟩ := added.section_
  rfl

theorem Added.cfg (added : Added ops mm arType answer next) : next.cfg = mm.cfg := by
  obtain ⟨_, _, _, _, _, _, rfl⟩ := added.section_
  rfl

/-- The block of the new section is not given again. -/
theorem Added.distinct {answers : List (Option ShmmBlk)} (added : Added ops mm arType answer next)
    (distinct : Distinct mm (answer :: answers)) : Distinct next answers := by
  obtain ⟨blk, _, _, _, rfl, _, rfl⟩ := added.section_
  obtain ⟨once, unused⟩ := distinct
  rw [List.filterMap_cons_some (by rfl), List.map_cons, List.nodup_cons] at once
  refine ⟨once.2, fun later inside => ?_⟩
  have different : later.shm ≠ blk.shm := by
    intro same
    refine once.1 (same ▸ List.mem_map_of_mem ?_)
    exact List.mem_filterMap.mpr ⟨some later, inside, rfl⟩
  exact (Function.update_of_ne different _ _).trans (unused later (List.mem_cons_of_mem _ inside))

/-- The first section of an area settles this area. -/
theorem Added.settled {types : List Nat} (added : Added ops mm arType answer next)
    (settled : mm.Settled types) (fresh : ∀ blk ∈ answer, mm.attached blk.shm = none)
    (new : arType ∉ types) : next.Settled (arType :: types) := by
  obtain ⟨blk, key, addr, allocator, rfl, _, rfl⟩ := added.section_
  have elsewhere : ∀ {other}, other ∈ types → other ≠ arType := by
    rintro other inside rfl
    exact new inside
  refine ⟨?_, ?_, ?_⟩
  · intro other inside
    rcases List.mem_cons.mp inside with rfl | known
    · exact ⟨blk.shm, ⟨other, allocator⟩, Function.update_self _ _ _,
        Function.update_self _ _ _, rfl⟩
    · obtain ⟨shm, sec, area, attached, kind⟩ := settled.areas other known
      have different : shm ≠ blk.shm := by
        rintro rfl
        simp [fresh blk rfl] at attached
      exact ⟨shm, sec, (Function.update_of_ne (elsewhere known) _ _).trans area,
        (Function.update_of_ne different _ _).trans attached, kind⟩
  · intro save inside
    rcases List.mem_append.mp inside with old | here
    · obtain ⟨other, known, list⟩ := settled.saved save old
      refine ⟨other, List.mem_cons_of_mem _ known, ?_⟩
      simpa [Function.update_of_ne (elsewhere known)] using list
    · obtain rfl := List.mem_singleton.mp here
      exact ⟨arType, List.mem_cons_self, by simp⟩
  · intro other inside
    rcases List.mem_cons.mp inside with rfl | old
    · simp
    · by_cases same : other.shm = blk.shm
      · simp [same]
      · simpa [same] using settled.tree other old

/-- What each successful creation keeps holds when all areas have their first sections. -/
theorem createSections_keeps {invariant : List (Option ShmmBlk) → List Nat → MmSpaceImpl Allocator → Prop}
    (added : ∀ {answer answers types mm arType next}, invariant (answer :: answers) types mm →
      arType ∉ types → Added ops mm arType answer next → invariant answers (arType :: types) next)
    (rest : List Nat) {types : List Nat} {answers : List (Option ShmmBlk)}
    {final : MmSpaceImpl Allocator} (once : (rest ++ types).Nodup) (start : invariant answers types mm)
    (created : createSections ops rest answers mm = some final) :
    ∃ left, invariant left (rest.reverse ++ types) final := by
  induction rest generalizing answers types mm with
  | nil => exact ⟨answers, Option.some.inj created ▸ start⟩
  | cons arType rest ih =>
      rw [createSections] at created
      cases section_ : mmCreateSection ops mm arType (answers.headD none) with
      | mk next rslt =>
          simp only [section_] at created
          split_ifs at created with failed
          have grown := mmCreateSection_added failed section_
          obtain ⟨blk, _, _, _, answered, _⟩ := grown.section_
          obtain ⟨answers, rfl⟩ : ∃ others, answers = some blk :: others := by
            cases answers with
            | nil => simp at answered
            | cons answer others => exact ⟨others, by rw [← answered, List.headD_cons]⟩
          have new : arType ∉ types := by
            intro inside
            exact (List.nodup_cons.mp once).1 (List.mem_append_right rest inside)
          have shuffled : (rest ++ arType :: types).Nodup :=
            (List.perm_middle.nodup_iff).mpr once
          obtain ⟨left, result⟩ := ih shuffled (added start new grown) created
          exact ⟨left, by simpa using result⟩

end Added

theorem mmInitialize_settled (ops : Nat → MmOps Allocator) {cfg : MmSpaceConfig}
    {answers : List (Option ShmmBlk)} {mm : MmSpaceImpl Allocator}
    (distinct : ((answers.filterMap id).map ShmmBlk.shm).Nodup)
    (initialized : mmInitialize ops cfg answers = some mm) :
    mm.Settled (List.range mmAreaCount) := by
  unfold mmInitialize at initialized
  split_ifs at initialized
  obtain ⟨_, settled, _⟩ := @createSections_keeps _ ops _
    (fun left types space => space.Settled types ∧ Distinct space left) (by
      rintro answer answers types space arType next ⟨earlier, apart⟩ new added
      refine ⟨added.settled earlier ?_ new, added.distinct apart⟩
      rintro blk rfl
      exact apart.2 blk List.mem_cons_self) _ [] _ _ (by decide)
    ⟨⟨by simp, by simp, by simp⟩, distinct, by simp⟩ initialized
  refine ⟨?_, ?_, settled.tree⟩
  · intro arType known
    exact settled.areas arType (by simpa using known)
  · intro save inside
    obtain ⟨arType, known, list⟩ := settled.saved save inside
    exact ⟨arType, by simpa using known, list⟩

/-- While no area grows past its first section, no section is lost, and a refusal is final. -/
theorem areaCalls_sections (ops : Nat → MmOps Allocator) (cfg : MmSpaceConfig)
    (answers : List (Option ShmmBlk)) (mm : MmSpaceImpl Allocator)
    (distinct : ((answers.filterMap id).map ShmmBlk.shm).Nodup)
    (initialized : mmInitialize ops cfg answers = some mm) (calls : List Call)
    (meets : Meets (callStep ops) (Call.Allowed ops) calls ⟨mm, none⟩) :
    ∃ trace, exec (callStep ops) calls ⟨mm, none⟩ = some trace ∧ trace.space.Listed ∧
      trace.Answered := by
  have start : Trace.Sound ⟨mm, none⟩ :=
    ⟨mmInitialize_settled ops distinct initialized, by simp [Trace.Answered]⟩
  obtain ⟨trace, ran, sound⟩ := exec_invariant (callStep_sound ops) calls _ start meets
  exact ⟨trace, ran, sound.settled.listed, sound.answered⟩

/-- An allocator for one object of at most eight bytes. -/
def oneObject : MmOps (Nat × Bool) where
  createFunc := fun addr _ => some (addr, false)
  loadFunc := some
  allocFunc := fun pool size =>
    if pool.2 ∨ size > 8 then (pool, none) else ((pool.1, true), some pool.1)
  freeFunc := fun pool p => if pool.2 ∧ p = pool.1 then ((pool.1, false), 0) else (pool, -1)

def smallSpace : MmSpaceConfig := ⟨1, 6, fun _ => ⟨4096, 0, 0⟩⟩

def blockAt (index : Nat) : Option ShmmBlk :=
  some ⟨index * 65536, index * 65536 + 4096, index * 65536 + 8192⟩

theorem smallSpace_initialized :
    (mmInitialize (fun _ => oneObject) smallSpace ([1, 2, 3, 4, 5].map blockAt)).isSome := by
  decide +kernel

/-- The first request is served, and the second one is refused because the kernel gives no block. -/
theorem areaCalls_sections_single :
    ∃ mm, mmInitialize (fun _ => oneObject) smallSpace ([1, 2, 3, 4, 5].map blockAt) = some mm ∧
      ∃ trace, exec (callStep fun _ => oneObject) [.areaAlloc 8 0 [], .areaAlloc 8 0 []] ⟨mm, none⟩ =
        some trace ∧ trace.space.Listed ∧ trace.Answered :=
  ⟨_, (Option.some_get smallSpace_initialized).symm,
    areaCalls_sections (fun _ => oneObject) smallSpace ([1, 2, 3, 4, 5].map blockAt) _
      (by decide +kernel) (Option.some_get smallSpace_initialized).symm _ (by decide +kernel)⟩

/-- The nubble area grows to a second section, and then the object of the first one is freed. -/
def growth : List Call :=
  [.areaAlloc 8 0 [], .areaAlloc 8 0 [blockAt 6], .free (65536 + 4096 + 16), .areaAlloc 8 0 []]

/-- The first section is lost, and a request fails that its allocator could serve. -/
theorem areaCalls_section_lost :
    ∃ trace ∈ (mmInitialize (fun _ => oneObject) smallSpace ([1, 2, 3, 4, 5].map blockAt)).bind
        fun mm => exec (callStep fun _ => oneObject) growth ⟨mm, none⟩,
      ¬ trace.space.Listed ∧ ¬ trace.Answered := by
  decide +kernel

end Syslib.Mmspace
