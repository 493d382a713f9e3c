import Syslib.Library.Runs
import Syslib.Mmspace.Space
import Syslib.Rbtree.Insert

namespace Syslib.Mmspace

open Runs Rbtree ColoredTree

variable {Allocator : Type}

/-- The head of a block follows the tag of its segment; both offsets count from the segment's start. -/
def shmmBlkAt (retAddr size : Nat) : ShmmBlk where
  shm := retAddr + 8
  beginAddr := retAddr + 8 + 4096
  endAddr := retAddr + 8 + ((size + 4095) / 4096 * 4096 + 4096)

def rbNodeOfShm (shm : Nat) : Nat := shm + 16

/-- This is `_conv_shmm_from_rbn`. -/
def convShmmFromRbn (rbn : Nat) : Nat := rbn - 16

/-- The comparison reads both addresses from the head of the block around the node. -/
def shmmCompFunc (heads : Nat → ShmmBlk) : CompareFunction := fun key rbn _ =>
  let shm := heads (convShmmFromRbn rbn)
  if key < shm.beginAddr then -1 else if key ≥ shm.endAddr then 1 else 0

/-- The section tree of this space is the tree in the heads of the blocks, and not the list of blocks. -/
structure TreeSpace (Allocator : Type) where
  space : MmSpaceImpl Allocator
  heads : Nat → ShmmBlk
  tree : RbTree

/-- The compare function reads the memory of the moment. -/
def TreeSpace.allSectionTree (mm : TreeSpace Allocator) : RbTree :=
  { mm.tree with cfunc := some (shmmCompFunc mm.heads) }

/-- This is `linkSection` over the tree in memory. -/
def linkSectionTree (fuel : Nat) (ops : Nat → MmOps Allocator) (mm : TreeSpace Allocator) (arType : Nat)
    (key : Int) (blk : ShmmBlk) : Option (TreeSpace Allocator × Int) :=
  let mm := { mm with heads := Function.update mm.heads blk.shm blk }
  if blk.beginAddr = 0 then some (mm, -1)
  else do
    let space := mm.space.setArea arType { mm.space.areaList arType with sectionList := [] }
    let filled := mm.allSectionTree.write (rbNodeOfShm blk.shm) ⟨blk.beginAddr, 0, 0, 0⟩
    let (tree, rslt) ← rbInsert fuel filled (rbNodeOfShm blk.shm)
    if rslt < 0 then some ({ mm with space, tree }, -1)
    else
      let space := space.setArea arType
        { space.areaList arType with sectionList := (space.areaList arType).sectionList ++ [blk.shm] }
      match (ops arType).createFunc (blk.beginAddr + 16) (space.cfg.mmCfg arType) with
      | none => some ({ mm with space, tree }, -1)
      | some allocator =>
          let space := space.setSection blk.shm (some ⟨arType, allocator⟩)
          let space := space.setArea arType
            { space.areaList arType with freeSection := some blk.shm }
          let space := { space with
            shmmSaveList := space.shmmSaveList ++
              [⟨blk.shm, key, (space.cfg.mmCfg arType).totalSize⟩]
            totalShmmCount := space.totalShmmCount + 1 }
          some ({ mm with space, tree }, 0)

/-- This is `mmCreateSection` over the tree in memory; the kernel answers with a page. -/
def mmCreateSectionTree (fuel : Nat) (ops : Nat → MmOps Allocator) (mm : TreeSpace Allocator)
    (arType : Nat) (page : Option Nat) : Option (TreeSpace Allocator × Int) :=
  if (mm.space.totalShmmCount : Int) ≥ mm.space.cfg.maxShmmCount then some (mm, -1)
  else
    let space := { mm.space with nextShmmKey := mm.space.nextShmmKey + 1 }
    let key := mmCreateShmKey space.cfg.sysShmmKey arType space.nextShmmKey
    let size := (space.cfg.mmCfg arType).totalSize
    match shmmCreate key size (page.map fun page => shmmBlkAt (page * 4096) size) with
    | none => some ({ mm with space }, -1)
    | some blk => linkSectionTree fuel ops { mm with space } arType key blk

/-- The result keeps the area type, the allocator and the pointer of each free function that is called. -/
def mmFreeTree (fuel : Nat) (ops : Nat → MmOps Allocator) (mm : TreeSpace Allocator) (p : Nat) :
    Option (TreeSpace Allocator × Int × List (Nat × Allocator × Nat)) := do
  let (rbn, _) ← rbSearch fuel mm.allSectionTree p
  if rbn = 0 then some (mm, -1, [])
  else do
    let shm := convShmmFromRbn rbn
    let sec ← mm.space.attached shm
    let (allocator, rslt) := (ops sec.areaType).freeFunc sec.allocator p
    some ({ mm with space := mm.space.setSection shm (some { sec with allocator }) },
      if rslt < 0 then -1 else rslt, [(sec.areaType, sec.allocator, p)])

/-- The section tree starts without a node, whatever the memory holds. -/
def emptyTreeSpace (cfg : MmSpaceConfig) (heads : Nat → ShmmBlk) (heap : Nat → RbNode) :
    TreeSpace Allocator where
  space :=
    { nextShmmKey := 0, totalShmmCount := 0, cfg, areaList := fun _ => ⟨[], none⟩,
      allSectionTree := [], shmmSaveList := [], attached := fun _ => none }
  heads := heads
  tree := rbInit heap (some (shmmCompFunc heads))

/-- A creation names the area type and the page that the kernel attaches, if it attaches one. -/
def createStep (fuel : Nat) (ops : Nat → MmOps Allocator) (call : Nat × Option Nat)
    (mm : TreeSpace Allocator) : Option (TreeSpace Allocator) := do
  let (mm, _) ← mmCreateSectionTree fuel ops mm call.1 call.2
  some mm

/-- The saved blocks are the sections of the space. -/
def TreeSpace.sections (mm : TreeSpace Allocator) : List ShmmBlk :=
  mm.space.shmmSaveList.map fun save => mm.heads save.baseAddr

/-- The block that the kernel attaches for a call. -/
def attachedBlk (cfg : MmSpaceConfig) (call : Nat × Option Nat) : Option ShmmBlk :=
  call.2.map fun page => shmmBlkAt (page * 4096) (cfg.mmCfg call.1).totalSize

def ShmmBlk.Contains (blk : ShmmBlk) (p : Nat) : Prop := blk.beginAddr ≤ p ∧ p < blk.endAddr

instance (blk : ShmmBlk) (p : Nat) : Decidable (blk.Contains p) :=
  inferInstanceAs (Decidable (_ ∧ _))

/-- No pointer lies in both ranges. -/
def ShmmBlk.Disjoint (blk other : ShmmBlk) : Prop :=
  blk.endAddr ≤ other.beginAddr ∨ other.endAddr ≤ blk.beginAddr

instance (blk other : ShmmBlk) : Decidable (blk.Disjoint other) :=
  inferInstanceAs (Decidable (_ ∨ _))

instance : Std.Symm ShmmBlk.Disjoint := ⟨fun _ _ disjoint => disjoint.symm⟩

/-- The head of the block is where `shmm_create` puts it. -/
structure ShmmBlk.Shaped (blk : ShmmBlk) : Prop where
  aligned : blk.shm % 4 = 0
  begins : blk.beginAddr = blk.shm + 4096
  filled : blk.beginAddr < blk.endAddr

theorem shmmBlkAt_shaped {page size : Nat} (real : size ≠ 0) : (shmmBlkAt (page * 4096) size).Shaped := by
  constructor
  · simp only [shmmBlkAt]
    omega
  · rfl
  · simp only [shmmBlkAt]
    omega

theorem convShmmFromRbn_rbNode (shm : Nat) : convShmmFromRbn (rbNodeOfShm shm) = shm := by
  simp [convShmmFromRbn, rbNodeOfShm]

theorem rbNodeOfShm_injective : Function.Injective rbNodeOfShm := by
  intro first second same
  simpa [rbNodeOfShm] using same

/-- The tree in memory links exactly these blocks, whose heads hold their ranges. -/
structure TreeSpace.Indexes (mm : TreeSpace Allocator) (blks : List ShmmBlk) (shape : ColorTree Nat) :
    Prop where
  wellFormed : WellFormed (· < ·) mm.allSectionTree shape
  nodes : shape.nodes.Perm (blks.map fun blk => rbNodeOfShm blk.shm)
  heads : ∀ blk ∈ blks, mm.heads blk.shm = blk
  keys : ∀ blk ∈ blks, (mm.tree.heap (rbNodeOfShm blk.shm)).key = blk.beginAddr
  shaped : ∀ blk ∈ blks, blk.Shaped
  disjoint : blks.Pairwise ShmmBlk.Disjoint

variable {mm : TreeSpace Allocator} {blks secs : List ShmmBlk} {shape : ColorTree Nat} {fuel : Nat}

theorem compareKey_rbNode {t : RbTree} {heads : Nat → ShmmBlk} {blk : ShmmBlk} (key : Nat)
    (cfunc : t.cfunc = some (shmmCompFunc heads)) (head : heads blk.shm = blk) :
    compareKey t key (rbNodeOfShm blk.shm) =
      if key < blk.beginAddr then -1 else if key ≥ blk.endAddr then 1 else 0 := by
  simp only [compareKey, cfunc, shmmCompFunc, convShmmFromRbn_rbNode, head]

/-- Each linked node lies in the head of one of the blocks. -/
theorem TreeSpace.Indexes.blkOf (indexes : mm.Indexes blks shape) {node : Nat}
    (member : node ∈ shape.nodes) : ∃ blk ∈ blks, node = rbNodeOfShm blk.shm := by
  obtain ⟨blk, inside, rfl⟩ := List.mem_map.mp (indexes.nodes.mem_iff.mp member)
  exact ⟨blk, inside, rfl⟩

theorem TreeSpace.Indexes.compare (indexes : mm.Indexes blks shape) (key : Nat) {blk : ShmmBlk}
    (member : blk ∈ blks) :
    compareKey mm.allSectionTree key (rbNodeOfShm blk.shm) =
      if key < blk.beginAddr then -1 else if key ≥ blk.endAddr then 1 else 0 :=
  compareKey_rbNode key rfl (indexes.heads blk member)

/-- Two linked blocks with increasing begin addresses do not meet. -/
theorem TreeSpace.Indexes.ordered (indexes : mm.Indexes blks shape) {blk other : ShmmBlk}
    (member : blk ∈ blks) (second : other ∈ blks) (less : blk.beginAddr < other.beginAddr) :
    blk.endAddr ≤ other.beginAddr := by
  have apart : blk ≠ other := by
    rintro rfl
    omega
  have disjoint := indexes.disjoint.forall member second apart
  have filled := (indexes.shaped other second).filled
  rcases disjoint with below | above
  · exact below
  · omega

/-- A point query turns at most once on the way through the sections. -/
theorem TreeSpace.Indexes.guided (indexes : mm.Indexes blks shape) (p : Nat) :
    Guided mm.allSectionTree p shape.nodes := by
  have sorted := indexes.wellFormed.sorted
  rw [RbTree.keys, List.pairwise_map] at sorted
  apply List.Pairwise.imp_of_mem _ sorted
  intro a b first second less notAbove
  obtain ⟨blk, member, rfl⟩ := indexes.blkOf first
  obtain ⟨other, inside, rfl⟩ := indexes.blkOf second
  rw [indexes.compare p member] at notAbove
  rw [indexes.compare p inside]
  have increasing : blk.beginAddr < other.beginAddr := by
    rw [← indexes.keys blk member, ← indexes.keys other inside]
    exact less
  have apart := indexes.ordered member inside increasing
  have below : p < other.beginAddr := by
    split_ifs at notAbove <;> omega
  simp [below]

/-- The search finds exactly the section around the pointer. -/
theorem TreeSpace.Indexes.search (indexes : mm.Indexes blks shape) (p : Nat)
    (enough : blks.length + 1 < fuel) :
    (∃ blk ∈ blks, blk.Contains p ∧ ∃ hot,
      rbSearch fuel mm.allSectionTree p = some (rbNodeOfShm blk.shm, hot)) ∨
    (∀ blk ∈ blks, ¬ blk.Contains p) ∧ ∃ hot, rbSearch fuel mm.allSectionTree p = some (0, hot) := by
  have length : shape.nodes.length = blks.length := by
    rw [indexes.nodes.length_eq, List.length_map]
  rcases rbSearch_guided indexes.wellFormed.linked (indexes.guided p)
      (by omega : shape.nodes.length + 1 < fuel) with
    ⟨node, member, same, run⟩ | ⟨hole, rfl, gap, run⟩
  · obtain ⟨blk, inside, rfl⟩ := indexes.blkOf member
    rw [indexes.compare p inside] at same
    refine Or.inl ⟨blk, inside, ?_, _, run⟩
    unfold ShmmBlk.Contains
    split_ifs at same <;> omega
  · refine Or.inr ⟨?_, _, run⟩
    intro blk inside contains
    have linked : rbNodeOfShm blk.shm ∈ (TreePath.plug hole ColorTree.leaf).nodes :=
      indexes.nodes.mem_iff.mpr (List.mem_map_of_mem inside)
    have zero := indexes.compare p inside
    rw [if_neg (by unfold ShmmBlk.Contains at contains; omega),
      if_neg (by unfold ShmmBlk.Contains at contains; omega)] at zero
    rcases TreePath.mem_plug.mp linked with inner | around
    · simp at inner
    · rcases List.mem_append.mp around with before | after
      · exact absurd zero (gap.1 _ before).ne'
      · exact absurd zero (gap.2 _ after).ne

/-- The head of a new block, with its node filled in and not yet linked. -/
def TreeSpace.filled (mm : TreeSpace Allocator) (blk : ShmmBlk) : RbTree :=
  ({ mm with heads := Function.update mm.heads blk.shm blk }).allSectionTree.write
    (rbNodeOfShm blk.shm) ⟨blk.beginAddr, 0, 0, 0⟩

theorem TreeSpace.filled_self (mm : TreeSpace Allocator) (blk : ShmmBlk) :
    ((mm.filled blk).heap (rbNodeOfShm blk.shm)).key = blk.beginAddr := by
  simp [filled, RbTree.write]

theorem TreeSpace.filled_other (mm : TreeSpace Allocator) {blk : ShmmBlk} {a : Nat}
    (other : a ≠ rbNodeOfShm blk.shm) : (mm.filled blk).heap a = mm.tree.heap a := by
  simp [filled, RbTree.write, TreeSpace.allSectionTree, other]

section NewBlock

variable {blk : ShmmBlk} (indexes : mm.Indexes blks shape) (shaped : blk.Shaped)
  (disjoint : ∀ other ∈ blks, other.Disjoint blk)
include indexes shaped disjoint

/-- Blocks that do not meet have different heads. -/
theorem TreeSpace.Indexes.distinct : ∀ other ∈ blks, other.shm ≠ blk.shm := by
  intro other member same
  have away := disjoint other member
  have otherShaped := indexes.shaped other member
  have begins := otherShaped.begins
  have filledOther := otherShaped.filled
  have begun := shaped.begins
  have full := shaped.filled
  unfold ShmmBlk.Disjoint at away
  omega

theorem TreeSpace.Indexes.fresh : rbNodeOfShm blk.shm ∉ shape.nodes := by
  intro member
  obtain ⟨other, inside, same⟩ := indexes.blkOf member
  exact indexes.distinct shaped disjoint other inside (rbNodeOfShm_injective same).symm

/-- The linked nodes are as before. -/
theorem TreeSpace.Indexes.filled_wellFormed : WellFormed (· < ·) (mm.filled blk) shape := by
  refine indexes.wellFormed.agree rfl rfl ?_
  intro a member
  exact mm.filled_other fun same => indexes.fresh shaped disjoint (same ▸ member)

theorem TreeSpace.Indexes.filled_key :
    ∀ other ∈ blks, ((mm.filled blk).heap (rbNodeOfShm other.shm)).key = other.beginAddr := by
  intro other member
  have apart := indexes.distinct shaped disjoint other member
  rw [mm.filled_other fun same => apart (rbNodeOfShm_injective same)]
  exact indexes.keys other member

/-- No linked block contains the begin address of the new one. -/
theorem TreeSpace.Indexes.filled_compare (u : RbTree) (same : Same (mm.filled blk) u) :
    ∀ other ∈ blks, compareKey u blk.beginAddr (rbNodeOfShm other.shm) =
      if blk.beginAddr < other.beginAddr then -1 else 1 := by
  intro other member
  have apart := indexes.distinct shaped disjoint other member
  have head : Function.update mm.heads blk.shm blk other.shm = other :=
    (Function.update_of_ne apart _ _).trans (indexes.heads other member)
  rw [compareKey_rbNode _ same.cfunc head]
  have away := disjoint other member
  have full := shaped.filled
  unfold ShmmBlk.Disjoint at away
  split_ifs with below inside
  · rfl
  · rfl
  · omega

/-- The begin address alone decides on which side of a linked node the new one belongs. -/
theorem TreeSpace.Indexes.separates : Separates (mm.filled blk) (· < ·) blk.beginAddr shape.nodes := by
  have compared := indexes.filled_compare shaped disjoint
  have known := indexes.filled_key shaped disjoint
  constructor
  · intro u same n member
    obtain ⟨other, inside, rfl⟩ := indexes.blkOf member
    rw [compared u same other inside, known other inside]
    split_ifs with below <;> simp [below]
  · intro u same n member
    obtain ⟨other, inside, rfl⟩ := indexes.blkOf member
    rw [compared u same other inside, known other inside]
    have distinct : blk.beginAddr ≠ other.beginAddr := by
      have away := disjoint other inside
      have full := shaped.filled
      have fullOther := (indexes.shaped other inside).filled
      unfold ShmmBlk.Disjoint at away
      omega
    split_ifs with below
    · simp [below.le]
    · simp only [Int.zero_lt_one, true_iff]
      omega

theorem TreeSpace.Indexes.absent : blk.beginAddr ∉ (mm.filled blk).keys shape.nodes := by
  have separates := indexes.separates shaped disjoint
  intro present
  obtain ⟨n, member, same⟩ := List.mem_map.mp present
  have below := separates.below _ (Same.refl _) n member
  have above := separates.above _ (Same.refl _) n member
  obtain ⟨other, inside, rfl⟩ := indexes.blkOf member
  have sign := indexes.filled_compare shaped disjoint _ (Same.refl _) other inside
  split_ifs at sign <;> omega

/-- A new section finds its place by its begin address alone. -/
theorem TreeSpace.Indexes.insert (enough : blks.length + 1 < fuel) :
    ∃ tree grown,
      rbInsert fuel (mm.filled blk) (rbNodeOfShm blk.shm) = some (tree, 0) ∧
      ∀ space : MmSpaceImpl Allocator,
        TreeSpace.Indexes ⟨space, Function.update mm.heads blk.shm blk, tree⟩ (blk :: blks) grown := by
  have apart := indexes.distinct shaped disjoint
  have here := mm.filled_self blk
  have length : shape.nodes.length = blks.length := by
    rw [indexes.nodes.length_eq, List.length_map]
  have aligned : rbNodeOfShm blk.shm ≠ 0 ∧ rbNodeOfShm blk.shm % 4 = 0 := by
    have quarter := shaped.aligned
    simp only [rbNodeOfShm]
    omega
  obtain ⟨tree, grown, before, after, run, final, split, nodes, cfunc, keys⟩ :=
    rbInsert_absent inferInstance (here.symm ▸ indexes.separates shaped disjoint)
      (indexes.filled_wellFormed shaped disjoint) aligned (indexes.fresh shaped disjoint)
      (here.symm ▸ indexes.absent shaped disjoint) (by omega : shape.nodes.length + 1 < fuel)
  refine ⟨tree, grown, run, fun space => ⟨?_, ?_, ?_, ?_, ?_, ?_⟩⟩
  · exact final.agree rfl rfl fun _ _ => rfl
  · rw [nodes, List.map_cons]
    have old := indexes.nodes
    rw [split] at old
    exact List.perm_middle.trans (old.cons _)
  · intro other member
    rcases List.mem_cons.mp member with new | old
    · rw [new]
      exact Function.update_self _ _ _
    · exact (Function.update_of_ne (apart other old) _ _).trans (indexes.heads other old)
  · intro other member
    rcases List.mem_cons.mp member with new | old
    · rw [new]
      exact (keys _).trans here
    · exact (keys _).trans (indexes.filled_key shaped disjoint other old)
  · intro other member
    rcases List.mem_cons.mp member with new | old
    · rw [new]
      exact shaped
    · exact indexes.shaped other old
  · exact List.pairwise_cons.mpr ⟨fun other member => (disjoint other member).symm, indexes.disjoint⟩

end NewBlock

/-- The space that lists the linked blocks instead of linking them in memory. -/
def TreeSpace.listed (mm : TreeSpace Allocator) (blks : List ShmmBlk) : MmSpaceImpl Allocator :=
  { mm.space with allSectionTree := blks }

/-- The tree keeps every block that was inserted, and those with an allocator are the saved sections. -/
structure TreeSpace.Built (mm : TreeSpace Allocator) (blks secs : List ShmmBlk) : Prop where
  indexes : ∃ shape, mm.Indexes blks shape
  linked : ∀ blk ∈ secs, blk ∈ blks
  saved : mm.space.shmmSaveList.map MmShmmSave.baseAddr = (secs.map ShmmBlk.shm).reverse
  attached : ∀ blk ∈ secs, (mm.space.attached blk.shm).isSome

theorem TreeSpace.Built.mem_sections (built : mm.Built blks secs) {blk : ShmmBlk} :
    blk ∈ mm.sections ↔ blk ∈ secs := by
  obtain ⟨shape, indexes⟩ := built.indexes
  have same : mm.sections = secs.reverse := by
    calc mm.sections = (mm.space.shmmSaveList.map MmShmmSave.baseAddr).map mm.heads := by
          rw [TreeSpace.sections, List.map_map]
          rfl
      _ = (secs.reverse.map ShmmBlk.shm).map mm.heads := by rw [built.saved, ← List.map_reverse]
      _ = secs.reverse := by
          rw [List.map_map]
          exact (List.map_congr_left fun blk member =>
            indexes.heads blk (built.linked blk (List.mem_reverse.mp member))).trans (List.map_id _)
  rw [same, List.mem_reverse]

theorem emptyTreeSpace_built (cfg : MmSpaceConfig) (heads : Nat → ShmmBlk) (heap : Nat → RbNode) :
    (emptyTreeSpace cfg heads heap : TreeSpace Allocator).Built [] [] := by
  refine ⟨⟨.leaf, ⟨⟨⟨rfl, trivial, List.nodup_nil, by simp⟩, ⟨0, by simp, rfl⟩, List.Pairwise.nil,
    rfl⟩, List.Perm.refl _, by simp, by simp, by simp, List.Pairwise.nil⟩⟩, by simp, rfl, by simp⟩

/-- The search in the list of blocks agrees with the search in the tree. -/
theorem TreeSpace.Indexes.search_listed (indexes : mm.Indexes blks shape) (p : Nat)
    (enough : blks.length + 1 < fuel) :
    ∃ hot, rbSearch fuel mm.allSectionTree p =
      some (((mm.listed blks).rbSearch p).elim 0 fun blk => rbNodeOfShm blk.shm, hot) := by
  rcases indexes.search p enough with ⟨blk, member, contains, hot, run⟩ | ⟨outside, hot, run⟩
  · have found : (mm.listed blks).rbSearch p = some blk := by
      cases chosen : (mm.listed blks).rbSearch p with
      | none =>
          have missed := List.find?_eq_none.mp chosen blk member
          simp only [decide_eq_true_eq] at missed
          exact absurd contains missed
      | some other =>
          have inside := List.mem_of_find?_eq_some chosen
          have around := List.find?_some chosen
          simp only [decide_eq_true_eq] at around
          by_contra differ
          have apart := indexes.disjoint.forall inside member fun same => differ (same ▸ rfl)
          unfold ShmmBlk.Disjoint at apart
          unfold ShmmBlk.Contains at contains
          omega
    exact ⟨hot, by rw [run, found]; rfl⟩
  · have missing : (mm.listed blks).rbSearch p = none := by
      apply List.find?_eq_none.mpr
      intro blk member
      simpa [ShmmBlk.Contains] using outside blk member
    exact ⟨hot, by rw [run, missing]; rfl⟩

/-- The create function of the area accepts the memory behind the section head. -/
def Accepts (ops : Nat → MmOps Allocator) (cfg : MmSpaceConfig) (call : Nat × Option Nat) : Prop :=
  ∀ blk ∈ attachedBlk cfg call,
    ((ops call.1).createFunc (blk.beginAddr + 16) (cfg.mmCfg call.1)).isSome

instance (ops : Nat → MmOps Allocator) (cfg : MmSpaceConfig) (call : Nat × Option Nat) :
    Decidable (Accepts ops cfg call) :=
  inferInstanceAs (Decidable (∀ blk ∈ _, _))

/-- A block enters the tree in memory exactly as it enters the list of blocks, also if its area gets no allocator. -/
theorem linkSectionTree_listed (ops : Nat → MmOps Allocator) (built : mm.Built blks secs) (arType : Nat)
    (key : Int) {blk : ShmmBlk} (shaped : blk.Shaped) (disjoint : ∀ other ∈ blks, other.Disjoint blk)
    (enough : blks.length + 1 < fuel) :
    ∃ next rslt after, linkSectionTree fuel ops mm arType key blk = some (next, rslt) ∧
      linkSection ops (mm.listed blks) arType key blk = (next.listed (blk :: blks), rslt) ∧
      next.Built (blk :: blks) after ∧ next.space.cfg = mm.space.cfg ∧
      (((ops arType).createFunc (blk.beginAddr + 16) (mm.space.cfg.mmCfg arType)).isSome → after = blk :: secs) := by
  obtain ⟨shape, indexes⟩ := built.indexes
  obtain ⟨tree, grown, run, linked⟩ := indexes.insert shaped disjoint enough
  rw [TreeSpace.filled] at run
  have real : blk.beginAddr ≠ 0 := by
    rw [shaped.begins]
    omega
  have outside : (mm.listed blks).rbSearch blk.beginAddr = none := by
    apply List.find?_eq_none.mpr
    intro other member
    have apart := disjoint other member
    have filled := shaped.filled
    unfold ShmmBlk.Disjoint at apart
    simp only [decide_eq_true_eq]
    omega
  have fresh : (((mm.listed blks).setArea arType
      { (mm.listed blks).areaList arType with sectionList := [] }).rbSearch blk.beginAddr) = none :=
    outside
  cases created : (ops arType).createFunc (blk.beginAddr + 16) (mm.space.cfg.mmCfg arType) with
  | none =>
      let space : MmSpaceImpl Allocator :=
        { mm.space with
          areaList := Function.update mm.space.areaList arType
            ⟨[blk.shm], (mm.space.areaList arType).freeSection⟩ }
      refine ⟨⟨space, Function.update mm.heads blk.shm blk, tree⟩, -1, secs, ?_, ?_,
        ⟨⟨grown, linked _⟩, fun other member => List.mem_cons_of_mem _ (built.linked other member), built.saved,
          built.attached⟩, rfl, fun accepted => by cases accepted⟩
      · simp [linkSectionTree, real, run, created, MmSpaceImpl.setArea, space]
      · simp only [linkSection, if_neg real, fresh, Option.isSome_none, Bool.false_eq_true, if_false]
        simp [TreeSpace.listed, created, MmSpaceImpl.setArea, space]
  | some allocator =>
      let space : MmSpaceImpl Allocator :=
        { mm.space with
          areaList := Function.update mm.space.areaList arType ⟨[blk.shm], some blk.shm⟩
          attached := Function.update mm.space.attached blk.shm (some ⟨arType, allocator⟩)
          shmmSaveList := mm.space.shmmSaveList ++
            [⟨blk.shm, key, (mm.space.cfg.mmCfg arType).totalSize⟩]
          totalShmmCount := mm.space.totalShmmCount + 1 }
      refine ⟨⟨space, Function.update mm.heads blk.shm blk, tree⟩, 0, blk :: secs, ?_, ?_,
        ⟨⟨grown, linked _⟩, fun other member => ?_, ?_, fun other member => ?_⟩, rfl, fun _ => rfl⟩
      · simp [linkSectionTree, real, run, created, MmSpaceImpl.setArea, MmSpaceImpl.setSection, space]
      · simp only [linkSection, if_neg real, fresh, Option.isSome_none, Bool.false_eq_true, if_false]
        simp [TreeSpace.listed, created, MmSpaceImpl.setArea, MmSpaceImpl.setSection, space]
      · rcases List.mem_cons.mp member with rfl | old
        · exact List.mem_cons_self
        · exact List.mem_cons_of_mem _ (built.linked other old)
      · simp [space, built.saved]
      · by_cases here : other.shm = blk.shm
        · simp [space, here]
        · rcases List.mem_cons.mp member with new | old
          · exact absurd (congrArg ShmmBlk.shm new) here
          · simpa [space, here] using built.attached other old

/-- One call of `_mm_create_section` inserts its block, or it inserts none. -/
theorem mmCreateSectionTree_listed (ops : Nat → MmOps Allocator) (built : mm.Built blks secs)
    (call : Nat × Option Nat)
    (disjoint : ∀ blk ∈ attachedBlk mm.space.cfg call, ∀ other ∈ blks, other.Disjoint blk)
    (enough : blks.length + 1 < fuel) :
    ∃ next added rslt after, mmCreateSectionTree fuel ops mm call.1 call.2 = some (next, rslt) ∧
      mmCreateSection ops (mm.listed blks) call.1 (attachedBlk mm.space.cfg call) =
        (next.listed (added ++ blks), rslt) ∧
      next.Built (added ++ blks) after ∧ next.space.cfg = mm.space.cfg ∧
      (added = [] ∨ ∃ blk ∈ attachedBlk mm.space.cfg call, added = [blk]) ∧
      (Accepts ops mm.space.cfg call → after = added ++ secs) := by
  unfold mmCreateSectionTree mmCreateSection
  by_cases most : (mm.space.totalShmmCount : Int) ≥ mm.space.cfg.maxShmmCount
  · exact ⟨mm, [], -1, secs, if_pos most, if_pos most, built, rfl, Or.inl rfl, fun _ => rfl⟩
  · rw [if_neg most, if_neg (show ¬ ((mm.listed blks).totalShmmCount : Int) ≥
      (mm.listed blks).cfg.maxShmmCount from most)]
    have kept : TreeSpace.Built { mm with space := { mm.space with
        nextShmmKey := mm.space.nextShmmKey + 1 } } blks secs := by
      obtain ⟨shape, indexes⟩ := built.indexes
      exact ⟨⟨shape, indexes.1, indexes.2, indexes.3, indexes.4, indexes.5, indexes.6⟩, built.linked, built.saved,
        built.attached⟩
    simp only [TreeSpace.listed] at *
    cases answered : shmmCreate (mmCreateShmKey mm.space.cfg.sysShmmKey call.1
        (mm.space.nextShmmKey + 1)) (mm.space.cfg.mmCfg call.1).totalSize
        (attachedBlk mm.space.cfg call) with
    | none =>
        refine ⟨_, [], -1, secs, ?_, ?_, kept, rfl, Or.inl rfl, fun _ => rfl⟩
        · unfold attachedBlk at answered
          rw [answered]
        · rfl
    | some blk =>
        have given : attachedBlk mm.space.cfg call = some blk := by
          unfold shmmCreate at answered
          split_ifs at answered
          exact answered
        have real : (mm.space.cfg.mmCfg call.1).totalSize ≠ 0 := by
          unfold shmmCreate at answered
          split_ifs at answered with refused
          exact fun zero => refused (Or.inr zero)
        have shaped : blk.Shaped := by
          obtain ⟨page, -, rfl⟩ := Option.map_eq_some_iff.mp given
          exact shmmBlkAt_shaped real
        obtain ⟨next, rslt, after, run, listed, final, cfg, taken⟩ := linkSectionTree_listed ops kept call.1
          (mmCreateShmKey mm.space.cfg.sysShmmKey call.1 (mm.space.nextShmmKey + 1)) shaped
          (disjoint blk given) enough
        refine ⟨next, [blk], rslt, after, ?_, listed, final, cfg, Or.inr ⟨blk, given, rfl⟩,
          fun accepted => taken (accepted blk given)⟩
        unfold attachedBlk at answered
        rw [answered]
        exact run

/-- Every creation of a run adds to the linked blocks or leaves them, and the sections are among them. -/
theorem createSteps_built (ops : Nat → MmOps Allocator) (calls : List (Nat × Option Nat))
    (built : mm.Built blks secs)
    (disjoint : (blks.reverse ++ calls.filterMap (attachedBlk mm.space.cfg)).Pairwise ShmmBlk.Disjoint)
    (enough : blks.length + calls.length + 1 < fuel) :
    ∃ final more after, exec (createStep fuel ops) calls mm = some final ∧ final.Built more after ∧
      more.length + 1 < fuel ∧
      ((∀ call ∈ calls, Accepts ops mm.space.cfg call) → secs = blks → after = more) := by
  induction calls generalizing mm blks secs with
  | nil => exact ⟨mm, blks, secs, rfl, built, by simpa using enough, fun _ same => same⟩
  | cons call rest ih =>
      rw [List.length_cons] at enough
      have away : ∀ blk ∈ attachedBlk mm.space.cfg call, ∀ other ∈ blks, other.Disjoint blk := by
        intro blk given other member
        apply (List.pairwise_append.mp disjoint).2.2 other (List.mem_reverse.mpr member)
        exact List.mem_filterMap.mpr ⟨call, List.mem_cons_self, given⟩
      obtain ⟨next, added, rslt, taken, run, -, kept, cfg, choice, all⟩ := mmCreateSectionTree_listed ops built call
        away (by omega : blks.length + 1 < fuel)
      have short : added.length ≤ 1 := by
        rcases choice with rfl | ⟨blk, -, rfl⟩ <;> simp
      have later : ((added ++ blks).reverse ++
          rest.filterMap (attachedBlk next.space.cfg)).Pairwise ShmmBlk.Disjoint := by
        rw [cfg]
        rcases choice with rfl | ⟨blk, given, rfl⟩
        · refine disjoint.sublist (List.Sublist.append_left ?_ _)
          exact (List.sublist_cons_self call rest).filterMap _
        · rw [List.filterMap_cons_some given] at disjoint
          simpa using disjoint
      obtain ⟨final, more, after, ran, finished, enoughLeft, whole⟩ := ih kept later
        (by rw [List.length_append]; omega)
      refine ⟨final, more, after, ?_, finished, enoughLeft, fun accepted same => whole (fun other member => ?_) ?_⟩
      · rw [exec_cons, createStep, run]
        exact ran
      · exact cfg ▸ accepted other (List.mem_cons_of_mem _ member)
      · rw [all (accepted call List.mem_cons_self), same]

/-- The search finds the block around a pointer, and it finds none without such a block. A pointer into a section goes
to the allocator of that section, and the blocks are the sections when every area accepts its memory. -/
theorem mmFreeTree_section (ops : Nat → MmOps Allocator) (cfg : MmSpaceConfig) (heads : Nat → ShmmBlk)
    (heap : Nat → RbNode) (calls : List (Nat × Option Nat))
    (disjoint : (calls.filterMap (attachedBlk cfg)).Pairwise ShmmBlk.Disjoint) {fuel : Nat}
    (enough : calls.length + 1 < fuel) (p : Nat) :
    ∃ mm blks, exec (createStep fuel ops) calls (emptyTreeSpace cfg heads heap) = some mm ∧
      (∃ shape, mm.Indexes blks shape) ∧ (∀ blk ∈ mm.sections, blk ∈ blks) ∧
      ((∀ call ∈ calls, Accepts ops cfg call) → ∀ blk ∈ blks, blk ∈ mm.sections) ∧
      (∀ blk ∈ blks, blk.Contains p →
        ∃ hot, rbSearch fuel mm.allSectionTree p = some (rbNodeOfShm blk.shm, hot)) ∧
      (∀ blk ∈ mm.sections, blk.Contains p → ∃ sec ∈ mm.space.attached blk.shm,
        (mmFreeTree fuel ops mm p).map (fun result => result.2) = some
          (if ((ops sec.areaType).freeFunc sec.allocator p).2 < 0 then -1
            else ((ops sec.areaType).freeFunc sec.allocator p).2,
          [(sec.areaType, sec.allocator, p)])) ∧
      ((∀ blk ∈ blks, ¬ blk.Contains p) →
        (∃ hot, rbSearch fuel mm.allSectionTree p = some (0, hot)) ∧
        mmFreeTree fuel ops mm p = some (mm, -1, [])) := by
  obtain ⟨mm, blks, secs, run, built, left, whole⟩ := createSteps_built ops calls
    (emptyTreeSpace_built cfg heads heap) disjoint (by simpa using enough : 0 + calls.length + 1 < fuel)
  obtain ⟨shape, indexes⟩ := built.indexes
  have found {blk : ShmmBlk} (member : blk ∈ blks) (contains : blk.Contains p) :
      ∃ hot, rbSearch fuel mm.allSectionTree p = some (rbNodeOfShm blk.shm, hot) := by
    rcases indexes.search p left with ⟨other, inside, around, hot, found⟩ | ⟨outside, -⟩
    · have same : other = blk := by
        by_contra differ
        have apart := indexes.disjoint.forall inside member differ
        unfold ShmmBlk.Disjoint at apart
        unfold ShmmBlk.Contains at contains around
        omega
      exact ⟨hot, same ▸ found⟩
    · exact absurd contains (outside blk member)
  refine ⟨mm, blks, run, built.indexes, fun blk member => built.linked blk (built.mem_sections.mp member),
    fun accepted blk member => built.mem_sections.mpr (whole accepted rfl ▸ member),
    fun blk member contains => found member contains, fun blk member contains => ?_, fun outside => ?_⟩
  · have saved := built.mem_sections.mp member
    obtain ⟨hot, ran⟩ := found (built.linked blk saved) contains
    obtain ⟨sec, held⟩ := Option.isSome_iff_exists.mp (built.attached blk saved)
    refine ⟨sec, held, ?_⟩
    have real : rbNodeOfShm blk.shm ≠ 0 := by simp [rbNodeOfShm]
    simp [mmFreeTree, ran, real, convShmmFromRbn_rbNode, held]
  · rcases indexes.search p left with ⟨blk, member, contains, -⟩ | ⟨-, hot, missed⟩
    · exact absurd contains (outside blk member)
    · exact ⟨⟨hot, missed⟩, by simp [mmFreeTree, missed]⟩

/-- An allocator that gives nothing and takes everything back. -/
def emptyPool : MmOps Nat :=
  ⟨fun addr _ => some addr, some, fun pool _ => (pool, none), fun pool _ => (pool, 0)⟩

/-- The second of the three segments lies below the first one. -/
theorem mmFreeTree_section_three :
    ∃ mm, exec (createStep 8 fun _ => emptyPool) [(0, some 9), (1, some 4), (0, some 14)]
          (emptyTreeSpace ⟨1, 6, fun _ => ⟨4096, 0, 0⟩⟩ (fun _ => ⟨0, 0, 0⟩) fun _ => ⟨0, 0, 0, 0⟩) =
        some mm ∧
      (∀ blk ∈ mm.sections, blk.Contains 21000 → ∃ sec ∈ mm.space.attached blk.shm,
        (mmFreeTree 8 (fun _ => emptyPool) mm 21000).map (fun result => result.2) =
          some (0, [(sec.areaType, sec.allocator, 21000)])) ∧
      shmmBlkAt 16384 4096 ∈ mm.sections ∧ (shmmBlkAt 16384 4096).Contains 21000 := by
  obtain ⟨mm, -, run, -, -, -, -, found, -⟩ := mmFreeTree_section (fun _ => emptyPool)
    ⟨1, 6, fun _ => ⟨4096, 0, 0⟩⟩ (fun _ => ⟨0, 0, 0⟩) (fun _ => ⟨0, 0, 0, 0⟩) [(0, some 9), (1, some 4), (0, some 14)]
    (by decide) (by decide : 3 + 1 < 8) 21000
  have linked : ∃ final ∈ exec (createStep 8 fun _ => emptyPool) [(0, some 9), (1, some 4), (0, some 14)]
      (emptyTreeSpace ⟨1, 6, fun _ => ⟨4096, 0, 0⟩⟩ (fun _ => ⟨0, 0, 0⟩) fun _ => ⟨0, 0, 0, 0⟩),
      shmmBlkAt 16384 4096 ∈ final.sections := by
    decide +kernel
  obtain ⟨final, reached, inside⟩ := linked
  obtain rfl := Option.some.inj (run.symm.trans reached)
  exact ⟨mm, run, found, inside, by decide⟩

end Syslib.Mmspace
