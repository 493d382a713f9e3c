import Syslib.Mmspace.Ledger

namespace Syslib.Mmspace

open Runs Ledgers

variable {Allocator : Type} {ops : Nat → MmOps Allocator} {cfg : MmSpaceConfig}

/-- The blocks that the kernel gives lie apart from each other and from the sections. -/
def Placed (blks : List ShmmBlk) (answers : List (Option ShmmBlk)) : Prop :=
  (answers.filterMap id ++ blks).Pairwise ShmmBlk.Spaced

instance (blks : List ShmmBlk) (answers : List (Option ShmmBlk)) : Decidable (Placed blks answers) :=
  inferInstanceAs (Decidable (List.Pairwise _ _))

/-- The kernel's answers to the creations of a request. -/
structure Granted (rules : AreaRules ops cfg) (arType : Nat) (blks : List ShmmBlk)
    (answers : List (Option ShmmBlk)) : Prop where
  ready : ∀ blk, some blk ∈ answers → blk.Ready (cfg.mmCfg arType).totalSize ((rules arType).mayCreate)
  placed : Placed blks answers

/-- The kernel's answers to the first creations; the areas follow each other. -/
structure Started (rules : AreaRules ops cfg) (areas : List Nat) (blks : List ShmmBlk)
    (answers : List (Option ShmmBlk)) : Prop where
  ready : ∀ call ∈ areas.zip answers, ∀ blk ∈ call.2,
    blk.Ready (cfg.mmCfg call.1).totalSize ((rules call.1).mayCreate)
  placed : Placed blks answers

/-- A request has a size that its area may be asked for, and a free gives back a block of the ledger. -/
def SpaceCall.Allowed (rules : AreaRules ops cfg) (call : SpaceCall) (heap : SpaceHeap Allocator) : Prop :=
  match call with
  | .alloc size answers =>
      size ≠ 0 → (rules (allocArea heap.space size)).mayAlloc size ∧
        Granted rules (allocArea heap.space size) heap.space.allSectionTree answers
  | .areaAlloc size arType answers =>
      arType < mmAreaCount → (rules arType).mayAlloc size ∧
        Granted rules arType heap.space.allSectionTree answers
  | .free p =>
      p ∈ heap.live.map Prod.fst ∧ ∀ blk ∈ heap.space.rbSearch p, ∀ sec ∈ heap.space.attached blk.shm,
        (rules sec.areaType).mayFree sec.allocator p

variable {rules : AreaRules ops cfg} {types more : List Nat} {mm next : MmSpaceImpl Allocator}
  {heap : SpaceHeap Allocator} {live : List (Nat × Nat)} {shm arType size p : Nat}
  {sec : MmSectionImpl Allocator} {blk : ShmmBlk} {answers : List (Option ShmmBlk)}

theorem Placed.tail {answer : Option ShmmBlk} {blks : List ShmmBlk} (placed : Placed blks (answer :: answers)) :
    Placed blks answers := by
  refine List.Pairwise.sublist (List.Sublist.append_right ?_ blks) placed
  exact (List.sublist_cons_self answer answers).filterMap _

/-- The block of the first answer becomes one of the sections. -/
theorem Placed.enter {blks : List ShmmBlk} (placed : Placed blks (some blk :: answers)) :
    Placed (blk :: blks) answers := by
  rw [Placed, List.filterMap_cons_some (by rfl)] at placed
  exact List.perm_middle.symm.pairwise placed fun apart => apart.symm

theorem Placed.head {blks : List ShmmBlk} (placed : Placed blks (some blk :: answers)) :
    ∀ other ∈ blks, blk.Spaced other := by
  intro other member
  rw [Placed, List.filterMap_cons_some (by rfl)] at placed
  exact (List.pairwise_cons.mp placed).1 other (List.mem_append_right _ member)

namespace Tracked

theorem mono (tracked : Tracked rules types heap) (part : ∀ arType ∈ more, arType ∈ types) :
    Tracked rules more heap :=
  ⟨tracked.config, tracked.spaced, tracked.shaped, tracked.attached, tracked.covered,
    fun arType known => tracked.free arType (part arType known),
    fun arType known => tracked.listed arType (part arType known)⟩

theorem setKey (tracked : Tracked rules types ⟨mm, live⟩) (key : Nat) :
    Tracked rules types ⟨{ mm with nextShmmKey := key }, live⟩ :=
  ⟨tracked.config, tracked.spaced, tracked.shaped, tracked.attached, tracked.covered, tracked.free, tracked.listed⟩

section NewBlock

variable (tracked : Tracked rules types ⟨mm, live⟩)
  (ready : blk.Ready (cfg.mmCfg arType).totalSize ((rules arType).mayCreate))
  (apart : ∀ other ∈ mm.allSectionTree, blk.Spaced other)

include tracked ready apart

/-- No section contains the begin address of a new block. -/
theorem missing : mm.rbSearch blk.beginAddr = none := by
  refine List.find?_eq_none.mpr fun other member => ?_
  have large := ready.large
  have spaced := apart other member
  have shape := tracked.shaped other member
  rw [ShmmBlk.Spaced] at spaced
  simp only [decide_eq_true_eq]
  omega

/-- The head of a new block is the head of no section. -/
theorem elsewhere {there : Nat} (was : (mm.attached there).isSome) : there ≠ blk.shm := by
  rintro rfl
  obtain ⟨found, held⟩ := Option.isSome_iff_exists.mp was
  obtain ⟨other, member, place, -⟩ := tracked.attached held
  have begins := ready.begins
  have large := ready.large
  have spaced := apart other member
  have shape := tracked.shaped other member
  rw [ShmmBlk.Spaced] at spaced
  omega

/-- The creation of the pool does not fail, so the section is made. -/
theorem linkSection_zero (key : Int) : (Mmspace.linkSection ops mm arType key blk).2 = 0 := by
  obtain ⟨pool, made, -⟩ := (rules arType).created ready.may
  have mapped : blk.beginAddr ≠ 0 := by
    rw [ready.begins]
    omega
  have missing := missing tracked ready apart
  have searched {area : MmAreaImpl} : (mm.setArea arType area).rbSearch blk.beginAddr = none := missing
  have config : mm.cfg = cfg := tracked.config
  simp only [Mmspace.linkSection, if_neg mapped, searched, Option.isSome_none, Bool.false_eq_true, if_false]
  simp only [MmSpaceImpl.setArea, config, made]

/-- The new section is the free one of its area, and it has no block yet. -/
theorem linkSection (key : Int) :
    ∃ next, Mmspace.linkSection ops mm arType key blk = (next, 0) ∧
      next.allSectionTree = blk :: mm.allSectionTree ∧ Tracked rules (arType :: types) ⟨next, live⟩ := by
  have begins := ready.begins
  have large := ready.large
  obtain ⟨pool, made, empty⟩ := (rules arType).created ready.may
  have config : mm.cfg = cfg := tracked.config
  have elsewhere {there : Nat} (was : (mm.attached there).isSome) : there ≠ blk.shm :=
    elsewhere tracked ready apart was
  have zero := linkSection_zero tracked ready apart key
  have linked : Mmspace.linkSection ops mm arType key blk =
      ((Mmspace.linkSection ops mm arType key blk).1, 0) := Prod.ext rfl zero
  obtain ⟨allocator, same, after⟩ := linkSection_created ops (by decide) linked
  rw [linked, after]
  rw [config, made, Option.some.injEq] at same
  subst same
  refine ⟨_, rfl, rfl, tracked.config, List.pairwise_cons.mpr ⟨apart, tracked.spaced⟩, ?_, ?_, ?_, ?_, ?_⟩
  · intro other member
    rcases List.mem_cons.mp member with rfl | old
    · exact ⟨begins, ready.paged.2, by omega⟩
    · exact tracked.shaped other old
  · intro there found was
    by_cases here : there = blk.shm
    · subst here
      obtain rfl : ⟨arType, pool⟩ = found := by simpa using was
      refine ⟨blk, List.mem_cons_self, rfl, large, ?_⟩
      rw [List.filter_eq_nil_iff.mpr]
      · exact empty
      · intro entry inside
        obtain ⟨other, member, around, -⟩ := tracked.covered entry inside
        simp [(apart other member).symm.outside around]
    · have old : mm.attached there = some found := by simpa [here] using was
      obtain ⟨other, member, rest⟩ := tracked.attached old
      exact ⟨other, List.mem_cons_of_mem _ member, rest⟩
  · intro entry inside
    obtain ⟨other, member, around, was⟩ := tracked.covered entry inside
    refine ⟨other, List.mem_cons_of_mem _ member, around, ?_⟩
    simpa [elsewhere was] using was
  · intro other known
    by_cases here : other = arType
    · subst here
      exact ⟨blk.shm, ⟨other, pool⟩, by simp, by simp, rfl⟩
    · obtain ⟨there, found, free, held, kind⟩ :=
        tracked.free other ((List.mem_cons.mp known).resolve_left here)
      have place : there ≠ blk.shm := elsewhere (by simp only at held; simp [held])
      exact ⟨there, found, by simpa [here] using free, by simpa [place] using held, kind⟩
  · intro other known
    by_cases here : other = arType
    · subst here
      simp [Whole]
    · have whole := tracked.listed other ((List.mem_cons.mp known).resolve_left here)
      simpa [Whole, here] using whole

end NewBlock

/-- A creation adds the section of the answer, or it changes the key counter at most. -/
theorem create (tracked : Tracked rules types ⟨mm, live⟩) {answer : Option ShmmBlk}
    (ready : ∀ blk ∈ answer, blk.Ready (cfg.mmCfg arType).totalSize ((rules arType).mayCreate))
    (placed : Placed mm.allSectionTree (answer :: answers)) :
    ∃ next rslt, mmCreateSection ops mm arType answer = (next, rslt) ∧ Placed next.allSectionTree answers ∧
      (rslt = -1 ∧ Tracked rules types ⟨next, live⟩ ∨ rslt = 0 ∧ Tracked rules (arType :: types) ⟨next, live⟩) := by
  by_cases full : NoRoom mm arType answer
  · obtain ⟨key, refused⟩ := mmCreateSection_noRoom ops full
    exact ⟨_, -1, refused, placed.tail, Or.inl ⟨rfl, tracked.setKey key⟩⟩
  · obtain ⟨key, blk, rfl, linked⟩ := mmCreateSection_links ops full
    obtain ⟨next, created, tree, grown⟩ :=
      (tracked.setKey (mm.nextShmmKey + 1)).linkSection (ready blk rfl) placed.head key
    refine ⟨next, 0, linked.trans created, ?_, Or.inr ⟨rfl, grown⟩⟩
    rw [tree]
    exact placed.enter

/-- The walk visits the free section again and again. -/
theorem askList (tracked : Tracked rules types ⟨mm, live⟩) (free : (mm.areaList arType).freeSection = some shm)
    (held : mm.attached shm = some sec) (kind : sec.areaType = arType) (may : (rules arType).mayAlloc size)
    {list : List Nat} (same : ∀ other ∈ list, other = shm) (refused : List Nat) :
    ∃ round, Mmspace.askList ops arType size list mm refused = some round ∧
      round.space.allSectionTree = mm.allSectionTree ∧
      Tracked rules types ⟨round.space, grown live round.p ((rules arType).bytes size)⟩ := by
  induction list generalizing mm refused sec with
  | nil => exact ⟨_, rfl, rfl, tracked⟩
  | cons first rest ih =>
      obtain rfl := same first List.mem_cons_self
      have still : mm.setArea arType { mm.areaList arType with freeSection := some first } = mm := by
        refine MmSpaceImpl.setArea_eq_self ?_
        rw [← free]
      obtain ⟨next, p, asked, after, pool, rfl⟩ := tracked.allocAt held (kind.symm ▸ may)
      rw [kind] at asked after
      simp only [Mmspace.askList, still, asked, Option.bind_eq_bind, Option.bind_some]
      cases p with
      | some p => exact ⟨_, rfl, rfl, after⟩
      | none =>
          have left : ∀ other ∈ rest, other = first := fun other later => same other (List.mem_cons_of_mem _ later)
          exact ih after free (by simp [MmSpaceImpl.setSection]; rfl) rfl left _

theorem askArea (tracked : Tracked rules types ⟨mm, live⟩) (known : arType ∈ types) (may : (rules arType).mayAlloc size)
    (refused : List Nat) : ∃ round, Mmspace.askArea ops mm arType size refused = some round ∧
      round.space.allSectionTree = mm.allSectionTree ∧
      Tracked rules types ⟨round.space, grown live round.p ((rules arType).bytes size)⟩ := by
  obtain ⟨shm, sec, free, held, kind⟩ := tracked.free arType known
  have whole : Whole mm arType := tracked.listed arType known
  simp only at free held
  obtain ⟨next, p, asked, after, pool, rfl⟩ := tracked.allocAt held (kind.symm ▸ may)
  rw [kind] at asked after
  simp only [Mmspace.askArea, free, asked, Option.bind_eq_bind, Option.bind_some]
  cases p with
  | some p => exact ⟨_, rfl, rfl, after⟩
  | none =>
      have same : ∀ other ∈ (mm.areaList arType).sectionList, other = shm := fun other listed =>
        Option.some.inj ((whole other listed).symm.trans free)
      exact after.askList free (by simp [MmSpaceImpl.setSection]; rfl) rfl may same _

/-- A request ends with a block, or the last creation fails and the ledger is as before. -/
theorem retryAlloc (tracked : Tracked rules types ⟨mm, live⟩) (known : arType ∈ types)
    (may : (rules arType).mayAlloc size) (granted : Granted rules arType mm.allSectionTree answers)
    (refused : List Nat) : ∃ allocation, Mmspace.retryAlloc ops arType size answers mm refused = some allocation ∧
      Tracked rules types ⟨allocation.space, grown live allocation.p ((rules arType).bytes size)⟩ := by
  induction answers generalizing mm refused with
  | nil =>
      obtain ⟨round, asked, -, after⟩ := tracked.askArea known may refused
      simp only [Mmspace.retryAlloc, asked, Option.bind_eq_bind, Option.bind_some]
      obtain ⟨key, failed⟩ : ∃ key, mmCreateSection ops round.space arType none =
          ({ round.space with nextShmmKey := key }, -1) :=
        mmCreateSection_noRoom ops (Or.inr (by simp [shmmCreate]))
      rw [failed]
      split_ifs
      · exact ⟨round, rfl, after⟩
      · exact ⟨_, rfl, after.setKey key⟩
  | cons answer rest ih =>
      obtain ⟨round, asked, tree, after⟩ := tracked.askArea known may refused
      simp only [Mmspace.retryAlloc, asked, Option.bind_eq_bind, Option.bind_some]
      cases served : round.p with
      | some p => exact ⟨round, rfl, served ▸ after⟩
      | none =>
          rw [served] at after
          obtain ⟨next, rslt, created, left, failed | added⟩ :=
            after.create (fun blk given => granted.ready blk (given ▸ List.mem_cons_self)) (tree ▸ granted.placed)
          · obtain ⟨rfl, kept⟩ := failed
            rw [created]
            exact ⟨_, rfl, by simpa [served] using kept⟩
          · obtain ⟨rfl, kept⟩ := added
            rw [created]
            exact ih (kept.mono fun other inside => List.mem_cons_of_mem _ inside)
              ⟨fun blk given => granted.ready blk (List.mem_cons_of_mem _ given), left⟩ round.refused

theorem mmAreaAlloc (tracked : Tracked rules (List.range mmAreaCount) ⟨mm, live⟩)
    (allowed : arType < mmAreaCount → (rules arType).mayAlloc size ∧ Granted rules arType mm.allSectionTree answers) :
    ∃ allocation, Mmspace.mmAreaAlloc ops mm size arType answers = some allocation ∧
      Tracked rules (List.range mmAreaCount)
        ⟨allocation.space, grown live allocation.p ((rules arType).bytes size)⟩ := by
  unfold Mmspace.mmAreaAlloc
  by_cases known : arType < mmAreaCount
  · obtain ⟨may, granted⟩ := allowed known
    obtain ⟨shm, sec, free, -⟩ := tracked.free arType (List.mem_range.mpr known)
    simp only at free
    rw [if_neg (not_le.mpr known), free]
    exact tracked.retryAlloc (List.mem_range.mpr known) may granted []
  · rw [if_pos (not_lt.mp known)]
    exact ⟨_, rfl, tracked⟩

/-- A block of the ledger goes back to the pool of its section. -/
theorem mmFree (tracked : Tracked rules types ⟨mm, live⟩) (member : p ∈ live.map Prod.fst)
    (may : ∀ blk ∈ mm.rbSearch p, ∀ sec ∈ mm.attached blk.shm, (rules sec.areaType).mayFree sec.allocator p) :
    ∃ next, Mmspace.mmFree ops mm p = some (next, 0) ∧
      Tracked rules types ⟨next, live.filter fun entry => entry.1 ≠ p⟩ := by
  obtain ⟨entry, inside, rfl⟩ := List.mem_map.mp member
  obtain ⟨blk, section_, here, attached⟩ := tracked.covered entry inside
  obtain ⟨sec, held⟩ := Option.isSome_iff_exists.mp attached
  have found := tracked.search section_ here
  obtain ⟨other, inOther, place, large, holds⟩ := tracked.attached held
  obtain rfl := tracked.same_blk inOther section_ place
  have mine : entry.1 ∈ (live.filter other.has).map Prod.fst :=
    List.mem_map_of_mem (List.mem_filter.mpr ⟨inside, here⟩)
  obtain ⟨pool, freed, now⟩ := (rules sec.areaType).freed holds mine (may other found sec held)
  refine ⟨mm.setSection other.shm (some { sec with allocator := pool }), ?_, ?_⟩
  · simp only at held
    simp [Mmspace.mmFree, found, held, freed]
  · refine tracked.setSection held section_ rfl large ?_ ?_ ?_
    · rw [filter_region]
      exact now
    · intro third inThird distinct
      refine filter_elsewhere fun one _ around => ?_
      have apart := tracked.spaced.forall inThird section_ distinct
      have outside := apart.outside around
      simp only [decide_eq_true_eq, ne_eq]
      rintro same
      rw [ShmmBlk.has, same, ← ShmmBlk.has, here] at outside
      cases outside
    · exact fun one later => Or.inl (List.mem_of_mem_filter later)

/-- Each area of the list gets its section. -/
theorem createSections (tracked : Tracked rules types ⟨mm, live⟩) {areas : List Nat} {final : MmSpaceImpl Allocator}
    (started : Started rules areas mm.allSectionTree answers)
    (created : Mmspace.createSections ops areas answers mm = some final) :
    ∃ more, Tracked rules more ⟨final, live⟩ ∧ ∀ arType, arType ∈ areas ∨ arType ∈ types → arType ∈ more := by
  induction areas generalizing mm answers types with
  | nil =>
      obtain rfl := Option.some.inj created
      exact ⟨types, tracked, by simp⟩
  | cons arType rest ih =>
      obtain ⟨answer, left, same, first, later, placed⟩ : ∃ answer left, answers.headD none = answer ∧
          (∀ blk ∈ answer, blk.Ready (cfg.mmCfg arType).totalSize ((rules arType).mayCreate)) ∧
          (∀ call ∈ rest.zip answers.tail, ∀ blk ∈ call.2,
            blk.Ready (cfg.mmCfg call.1).totalSize ((rules call.1).mayCreate)) ∧
          answers.tail = left ∧ Placed mm.allSectionTree (answer :: left) := by
        have ready := started.ready
        cases answers with
        | nil => exact ⟨none, [], rfl, by simp, by simp, rfl, started.placed⟩
        | cons answer left =>
            refine ⟨answer, left, rfl, ready (arType, answer) List.mem_cons_self, fun call inside => ?_, rfl,
              started.placed⟩
            exact ready call (List.mem_cons_of_mem _ inside)
      obtain ⟨rfl, placed⟩ := placed
      obtain ⟨next, rslt, run, after, failed | added⟩ := tracked.create first placed
      · obtain ⟨rfl, -⟩ := failed
        simp only [Mmspace.createSections, same, run] at created
        cases created
      · obtain ⟨rfl, kept⟩ := added
        simp only [Mmspace.createSections, same, run] at created
        obtain ⟨more, result, all⟩ := ih kept ⟨later, after⟩ created
        refine ⟨more, result, fun other known => all other ?_⟩
        simp only [List.mem_cons] at known ⊢
        tauto

end Tracked

/-- A block of the ledger is the pool's that lies in the section around it. -/
theorem Tracked.owner (tracked : Tracked rules types heap) {entry : Nat × Nat} (inside : entry ∈ heap.live) :
    ∃ blk sec, heap.space.rbSearch entry.1 = some blk ∧ heap.space.attached blk.shm = some sec ∧
      blk ∈ heap.space.allSectionTree ∧ blk.has entry = true ∧
      blk.beginAddr + (cfg.mmCfg sec.areaType).totalSize ≤ blk.endAddr ∧
      (rules sec.areaType).holds (blk.beginAddr + 16) sec.allocator (heap.live.filter blk.has) := by
  obtain ⟨blk, member, here, held⟩ := tracked.covered entry inside
  obtain ⟨sec, held⟩ := Option.isSome_iff_exists.mp held
  obtain ⟨other, inOther, place, large, holds⟩ := tracked.attached held
  obtain rfl : other = blk := Tracked.same_blk tracked inOther member place
  exact ⟨other, sec, Tracked.search tracked member here, held, member, here, large, holds⟩

/-- The bytes of a block lie behind the head of its section and end with the segment, although the pool takes its
memory to be as large as the whole section. -/
theorem Tracked.bounds (tracked : Tracked rules types heap) {entry : Nat × Nat} (inside : entry ∈ heap.live) :
    ∃ blk ∈ heap.space.allSectionTree, heap.space.rbSearch entry.1 = some blk ∧
      (heap.space.attached blk.shm).isSome ∧ blk.has entry = true ∧ blk.beginAddr + 16 ≤ entry.1 ∧
      entry.1 + entry.2 + 8 ≤ blk.endAddr := by
  obtain ⟨blk, sec, found, held, member, here, large, holds⟩ := tracked.owner inside
  have bounds := (rules sec.areaType).inside holds entry (List.mem_filter.mpr ⟨inside, here⟩)
  have shape := tracked.shaped blk member
  exact ⟨blk, member, found, by rw [held]; rfl, here, bounds.1, by omega⟩

theorem Tracked.apart (tracked : Tracked rules types heap) : heap.live.Pairwise Clear := by
  refine @pairwise_of_regions _ _ Clear ShmmBlk.has
    (fun blk => blk ∈ heap.space.allSectionTree ∧ (heap.space.attached blk.shm).isSome) _ ?_ ?_ ?_
  · intro entry inside
    obtain ⟨blk, member, here, held⟩ := tracked.covered entry inside
    exact ⟨blk, ⟨member, held⟩, here⟩
  · rintro blk ⟨member, held⟩
    obtain ⟨sec, held⟩ := Option.isSome_iff_exists.mp held
    obtain ⟨other, inOther, place, -, holds⟩ := tracked.attached held
    obtain rfl : other = blk := Tracked.same_blk tracked inOther member place
    exact (rules sec.areaType).apart holds
  · rintro first inFirst second inSecond region ⟨known, -⟩ here outside
    obtain ⟨blk, member, -, -, around, low, high⟩ := tracked.bounds inFirst
    obtain ⟨other, inOther, -, -, there, bottom, top⟩ := tracked.bounds inSecond
    have same : region = blk := by
      by_contra different
      have missed := (tracked.spaced.forall known member different).outside here
      rw [around] at missed
      cases missed
    have distinct : blk ≠ other := by
      rintro rfl
      rw [same, there] at outside
      cases outside
    have spaced := tracked.spaced.forall member inOther distinct
    rw [ShmmBlk.Spaced] at spaced
    rw [Clear]
    omega

end Syslib.Mmspace
