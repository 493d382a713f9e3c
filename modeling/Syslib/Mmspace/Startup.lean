import Syslib.Mmspace.Sections

namespace Syslib.Mmspace

variable {Allocator : Type}

/-- What comes of one `shmm_create`: `shmget` makes no segment, or one that `shmat` attaches or not.
    An odd address is refused before `shmget` is asked. -/
inductive SegmentAnswer where
  | refused
  | unattached (fd : Nat)
  | attached (fd : Nat) (blk : ShmmBlk)
  deriving DecidableEq, Repr

/-- A block needs both calls. -/
def SegmentAnswer.blk : SegmentAnswer → Option ShmmBlk
  | .attached _ blk => some blk
  | _ => none

def SegmentAnswer.segments : SegmentAnswer → List Nat
  | .refused => []
  | .unattached fd => [fd]
  | .attached fd _ => [fd]

/-- The segments that one `shmm_create` makes; its error path detaches memory and removes no segment. -/
def shmmCreateSegments (key : Int) (size : Nat) (answer : SegmentAnswer) : List Nat :=
  if key ≤ 0 ∨ size = 0 then [] else answer.segments

/-- The segments that one `_mm_create_section` leaves; `shmm_destroy` removes only one with a block. -/
def mmCreateSectionSegments (mm : MmSpaceImpl Allocator) (arType : Nat) (answer : SegmentAnswer)
    (rslt : Int) : List Nat :=
  if (mm.totalShmmCount : Int) ≥ mm.cfg.maxShmmCount then []
  else if rslt < 0 ∧ answer.blk.isSome then []
  else
    shmmCreateSegments (mmCreateShmKey mm.cfg.sysShmmKey arType (mm.nextShmmKey + 1))
      (mm.cfg.mmCfg arType).totalSize answer

/-- The state after a start: the global pointer, the segments that exist, and the return value. -/
structure Startup (Allocator : Type) where
  theMmspace : Option (MmSpaceImpl Allocator)
  segments : List Nat
  rslt : Int

/-- The head, the save list and the zone buckets lie in one segment. -/
def spaceSize (cfg : MmSpaceConfig) : Nat := 416 + 16 * cfg.maxShmmCount.toNat + 32 * 64

/-- The saved segments and the segment of the space go only through the global pointer.
    The head of each block keeps the id of its segment. -/
def mmUninitialize (fd : Nat → Nat) (theMmspace : Option (MmSpaceImpl Allocator)) (thisShm : Nat)
    (segments : List Nat) : List Nat :=
  match theMmspace with
  | none => segments
  | some mm => segments.filter fun segment =>
      segment ∉ (mm.shmmSaveList.map MmShmmSave.baseAddr ++ [thisShm]).map fd

/-- A start that fails has not set the global pointer, so `mm_uninitialize` returns at once. -/
def startFailed (segments : List Nat) : Startup Allocator :=
  ⟨none, mmUninitialize (fun _ => 0) (none : Option (MmSpaceImpl Allocator)) 0 segments, -1⟩

/-- The sections of a new space are built one after another, until one fails. -/
def buildSections (ops : Nat → MmOps Allocator) :
    List Nat → List SegmentAnswer → MmSpaceImpl Allocator → List Nat →
      Option (MmSpaceImpl Allocator) × List Nat
  | [], _, mm, segments => (some mm, segments)
  | arType :: rest, answers, mm, segments =>
      let answer := answers.headD .refused
      let (next, rslt) := mmCreateSection ops mm arType answer.blk
      let segments := segments ++ mmCreateSectionSegments mm arType answer rslt
      if rslt < 0 then (none, segments) else buildSections ops rest answers.tail next segments

/-- This is `mm_initialize` where no space can be opened; the global pointer is still null. -/
def mmStart (ops : Nat → MmOps Allocator) (cfg : MmSpaceConfig) (space : SegmentAnswer)
    (answers : List SegmentAnswer) : Startup Allocator :=
  if cfg.maxShmmCount ≤ 0 then startFailed []
  else
    let segments := shmmCreateSegments cfg.sysShmmKey (spaceSize cfg) space
    match shmmCreate cfg.sysShmmKey (spaceSize cfg) space.blk with
    | none => startFailed segments
    | some blk =>
        if blk.beginAddr = 0 then startFailed segments
        else
          match buildSections ops (List.range mmAreaCount) answers
              { nextShmmKey := 0, totalShmmCount := 0, cfg, areaList := fun _ => ⟨[], none⟩,
                allSectionTree := [], shmmSaveList := [], attached := fun _ => none } segments with
          | (some mm, segments) => ⟨some mm, segments, 0⟩
          | (none, segments) => startFailed segments

/-- The configuration is refused, or `shmget` makes no segment for the space itself. -/
def Unbuilt (cfg : MmSpaceConfig) (space : SegmentAnswer) : Prop :=
  cfg.maxShmmCount ≤ 0 ∨ shmmCreateSegments cfg.sysShmmKey (spaceSize cfg) space = []

/-- The lists, the pointers, the tree and the count are as before, without a link to the block. -/
structure Restored (mm next : MmSpaceImpl Allocator) (answer : Option ShmmBlk) : Prop where
  tree : next.allSectionTree = mm.allSectionTree
  areas : next.areaList = mm.areaList
  count : next.totalShmmCount = mm.totalShmmCount
  unlinked : ∀ blk ∈ answer, (∀ other ∈ next.allSectionTree, other.shm ≠ blk.shm) ∧
    ∀ arType, blk.shm ∉ (next.areaList arType).sectionList ∧
      (next.areaList arType).freeSection ≠ some blk.shm

/-- The creation ends before it clears the section list, or it clears an empty one and inserts nothing. -/
def EndsEarly (mm : MmSpaceImpl Allocator) (arType : Nat) (answer : Option ShmmBlk) : Prop :=
  NoRoom mm arType answer ∨
    ∀ blk ∈ answer, blk.beginAddr = 0 ∨
      (mm.rbSearch blk.beginAddr).isSome ∧ (mm.areaList arType).sectionList = []

instance (mm : MmSpaceImpl Allocator) (arType : Nat) (answer : Option ShmmBlk) :
    Decidable (EndsEarly mm arType answer) :=
  inferInstanceAs (Decidable (_ ∨ ∀ blk ∈ answer, _))

/-- The kernel attaches a new block where nothing of the space lies. -/
def Unlinked (mm : MmSpaceImpl Allocator) (blk : ShmmBlk) : Prop :=
  (∀ other ∈ mm.allSectionTree, other.shm ≠ blk.shm) ∧
    ∀ arType, blk.shm ∉ (mm.areaList arType).sectionList ∧
      (mm.areaList arType).freeSection ≠ some blk.shm

theorem buildSections_keeps (ops : Nat → MmOps Allocator) (rest : List Nat)
    (answers : List SegmentAnswer) (mm : MmSpaceImpl Allocator) (segments : List Nat) :
    segments <+: (buildSections ops rest answers mm segments).2 := by
  induction rest generalizing answers mm segments with
  | nil => exact List.prefix_rfl
  | cons arType rest ih =>
      rw [buildSections]
      simp only
      split_ifs
      · exact List.prefix_append _ _
      · exact (List.prefix_append _ _).trans (ih _ _ _)

/-- A block lies in a segment. -/
theorem shmmCreateSegments_ne_nil {key : Int} {size : Nat} {answer : SegmentAnswer} {blk : ShmmBlk}
    (created : shmmCreate key size answer.blk = some blk) : shmmCreateSegments key size answer ≠ [] := by
  unfold shmmCreate at created
  unfold shmmCreateSegments
  split_ifs at created ⊢ with illegal
  cases answer with
  | refused => simp [SegmentAnswer.blk] at created
  | unattached fd => simp [SegmentAnswer.segments]
  | attached fd blk => simp [SegmentAnswer.segments]

/-- A failed start leaves segments behind unless the first segment was not made. -/
theorem mmStart_leaves (ops : Nat → MmOps Allocator) (cfg : MmSpaceConfig) (space : SegmentAnswer)
    (answers : List SegmentAnswer) (failed : (mmStart ops cfg space answers).rslt < 0) :
    (mmStart ops cfg space answers).segments = [] ↔ Unbuilt cfg space := by
  unfold mmStart at *
  unfold Unbuilt
  by_cases refused : cfg.maxShmmCount ≤ 0
  · simp [refused, startFailed, mmUninitialize]
  · rw [if_neg refused] at failed ⊢
    cases created : shmmCreate cfg.sysShmmKey (spaceSize cfg) space.blk with
    | none => simp [refused, startFailed, mmUninitialize]
    | some blk =>
        have made := shmmCreateSegments_ne_nil created
        simp only [created] at failed ⊢
        by_cases unmapped : blk.beginAddr = 0
        · simp [refused, unmapped, startFailed, mmUninitialize]
        · rw [if_neg unmapped] at failed ⊢
          have kept := buildSections_keeps ops (List.range mmAreaCount) answers
            { nextShmmKey := 0, totalShmmCount := 0, cfg, areaList := fun _ => ⟨[], none⟩,
              allSectionTree := [], shmmSaveList := [], attached := fun _ => none }
            (shmmCreateSegments cfg.sysShmmKey (spaceSize cfg) space)
          cases built : buildSections ops (List.range mmAreaCount) answers
              { nextShmmKey := 0, totalShmmCount := 0, cfg, areaList := fun _ => ⟨[], none⟩,
                allSectionTree := [], shmmSaveList := [], attached := fun _ => none }
              (shmmCreateSegments cfg.sysShmmKey (spaceSize cfg) space) with
          | mk mm segments =>
              rw [built] at kept
              simp only [built] at failed ⊢
              cases mm with
              | some mm => simp at failed
              | none =>
                  have left : segments ≠ [] := by
                    rintro rfl
                    exact made (List.prefix_nil.mp kept)
                  simp [left, made, refused, startFailed, mmUninitialize]

/-- The part of `Restored` that does not look for the block of the kernel. -/
structure Unaltered (mm next : MmSpaceImpl Allocator) : Prop where
  tree : next.allSectionTree = mm.allSectionTree
  areas : next.areaList = mm.areaList
  count : next.totalShmmCount = mm.totalShmmCount

/-- A space whose other parts did not change is restored when the kernel's block is fresh. -/
theorem restored_iff {mm next : MmSpaceImpl Allocator} {answer : Option ShmmBlk}
    (fresh : ∀ blk ∈ answer, Unlinked mm blk) : Restored mm next answer ↔ Unaltered mm next := by
  constructor
  · intro restored
    exact ⟨restored.tree, restored.areas, restored.count⟩
  · intro same
    exact ⟨same.tree, same.areas, same.count, by rw [same.tree, same.areas]; exact fresh⟩

/-- After a block was created, the outcome depends on the tree and on the list of the area. -/
theorem linkSection_same (ops : Nat → MmOps Allocator) {mm : MmSpaceImpl Allocator} {arType : Nat}
    {blk : ShmmBlk} (key : Int) (failed : (linkSection ops mm arType key blk).2 < 0) :
    Unaltered mm (linkSection ops mm arType key blk).1 ↔
      blk.beginAddr = 0 ∨
        (mm.rbSearch blk.beginAddr).isSome ∧ (mm.areaList arType).sectionList = [] := by
  simp only [linkSection, MmSpaceImpl.setArea, MmSpaceImpl.setSection, Function.update_self,
    Function.update_idem, List.nil_append] at failed ⊢
  by_cases unmapped : blk.beginAddr = 0
  · simp only [unmapped, true_or, iff_true]
    exact ⟨rfl, rfl, rfl⟩
  · rw [if_neg unmapped] at failed ⊢
    have found : MmSpaceImpl.rbSearch { mm with
        areaList := Function.update mm.areaList arType
          ⟨[], (mm.areaList arType).freeSection⟩ } blk.beginAddr = mm.rbSearch blk.beginAddr := rfl
    by_cases present : (mm.rbSearch blk.beginAddr).isSome
    · rw [if_pos (found ▸ present)]
      constructor
      · intro same
        have cleared := congrArg MmAreaImpl.sectionList (congrFun same.areas arType)
        simp only [Function.update_self] at cleared
        exact Or.inr ⟨present, cleared.symm⟩
      · rintro (zero | ⟨_, empty⟩)
        · exact absurd zero unmapped
        · refine ⟨rfl, ?_, rfl⟩
          simp only
          rw [← empty]
          exact Function.update_eq_self _ _
    · rw [if_neg (found ▸ present)] at failed ⊢
      cases allocated : (ops arType).createFunc (blk.beginAddr + 16) (mm.cfg.mmCfg arType) with
      | some allocator => simp [allocated] at failed
      | none =>
          simp only
          constructor
          · intro same
            exact absurd same.tree (List.cons_ne_self _ _)
          · rintro (zero | ⟨hit, _⟩)
            · exact absurd zero unmapped
            · exact absurd hit present

/-- A failed creation leaves the space as before exactly when it ends early. -/
theorem mmCreateSection_same (ops : Nat → MmOps Allocator) {mm : MmSpaceImpl Allocator}
    {arType : Nat} {answer : Option ShmmBlk} (failed : (mmCreateSection ops mm arType answer).2 < 0) :
    Unaltered mm (mmCreateSection ops mm arType answer).1 ↔ EndsEarly mm arType answer := by
  by_cases full : NoRoom mm arType answer
  · obtain ⟨key, refused⟩ := mmCreateSection_noRoom ops full
    rw [refused]
    exact iff_of_true ⟨rfl, rfl, rfl⟩ (Or.inl full)
  · obtain ⟨key, blk, rfl, linked⟩ := mmCreateSection_links ops full
    rw [linked] at failed ⊢
    have outcome := linkSection_same ops key failed
    constructor
    · intro same
      refine Or.inr ?_
      rintro other ⟨⟩
      exact outcome.mp ⟨same.tree, same.areas, same.count⟩
    · rintro (room | early)
      · exact absurd room full
      · obtain ⟨tree, areas, count⟩ := outcome.mpr (early blk rfl)
        exact ⟨tree, areas, count⟩

/-- A failure is clean exactly when it happens before anything was built or linked. -/
theorem creation_failures (ops : Nat → MmOps Allocator) :
    (∀ cfg space answers, (mmStart ops cfg space answers).rslt < 0 →
      ((mmStart ops cfg space answers).segments = [] ↔ Unbuilt cfg space)) ∧
    ∀ mm arType answer, (∀ blk ∈ answer, Unlinked mm blk) →
      (mmCreateSection ops mm arType answer).2 < 0 →
        (Restored mm (mmCreateSection ops mm arType answer).1 answer ↔
          EndsEarly mm arType answer) :=
  ⟨fun cfg space answers failed => mmStart_leaves ops cfg space answers failed,
    fun _ _ _ fresh failed => (restored_iff fresh).trans (mmCreateSection_same ops failed)⟩

/-- An allocator that accepts no memory. -/
def noObject : MmOps (Nat × Bool) := { oneObject with createFunc := fun _ _ => none }

/-- The allocator of the second area refuses its memory. -/
def halfBuilt : Nat → MmOps (Nat × Bool) := fun arType => if arType = 1 then noObject else oneObject

/-- A space with one section, which lies in the first block. -/
def oneSection : MmSpaceImpl (Nat × Bool) where
  nextShmmKey := 1
  totalShmmCount := 1
  cfg := smallSpace
  areaList := fun _ => ⟨[65536], some 65536⟩
  allSectionTree := [⟨65536, 69632, 73728⟩]
  shmmSaveList := [⟨65536, 65537, 4096⟩]
  attached := fun _ => none

/-- The segment with this id is attached at the block with this number. -/
def segmentAt (index : Nat) : SegmentAnswer :=
  .attached index ⟨index * 65536, index * 65536 + 4096, index * 65536 + 8192⟩

theorem creation_failures_halfBuilt :
    ((mmStart halfBuilt smallSpace (segmentAt 9) ([1, 2, 3, 4, 5].map segmentAt)).segments = [] ↔
        Unbuilt smallSpace (segmentAt 9)) ∧
      (Restored oneSection (mmCreateSection halfBuilt oneSection 1 (blockAt 2)).1 (blockAt 2) ↔
        EndsEarly oneSection 1 (blockAt 2)) :=
  ⟨(creation_failures halfBuilt).1 _ _ _ (by decide +kernel),
    (creation_failures halfBuilt).2 _ _ _
      (by
        rintro blk ⟨⟩
        exact ⟨by decide, fun arType => by simp [oneSection]⟩)
      (by decide +kernel)⟩

/-- The segments of the space and of the first area stay, and so does one that could not be attached.
    A link to the removed block stays as well. -/
theorem creation_failures_leftover :
    (mmStart halfBuilt smallSpace (segmentAt 9) ([1, 2, 3, 4, 5].map segmentAt)).rslt < 0 ∧
      (mmStart halfBuilt smallSpace (segmentAt 9) ([1, 2, 3, 4, 5].map segmentAt)).segments = [9, 1] ∧
      (mmStart halfBuilt smallSpace (.unattached 9) []).rslt < 0 ∧
      (mmStart halfBuilt smallSpace (.unattached 9) []).segments = [9] ∧
      (mmCreateSection halfBuilt oneSection 1 (blockAt 2)).2 < 0 ∧
      ((mmCreateSection halfBuilt oneSection 1 (blockAt 2)).1.areaList 1).sectionList =
        [2 * 65536] := by
  decide +kernel

end Syslib.Mmspace
