import Syslib.Library.Ledgers
import Syslib.Misc
import Syslib.Mmspace.Rounds
import Syslib.Mmspace.SectionTree

namespace Syslib.Mmspace

open Runs Ledgers

variable {Allocator : Type}

/-- The two areas that `mm_alloc` chooses from. -/
def mmAreaNubble : Nat := 0

def mmAreaPage : Nat := 1

def MmConfig.maxOrder (config : MmConfig) : Nat := config.second

def allocArea (mm : MmSpaceImpl Allocator) (size : Nat) : Nat :=
  let odr := log2 0 size + 1
  if odr < (mm.cfg.mmCfg mmAreaNubble).maxOrder then mmAreaNubble else mmAreaPage

/-- No byte belongs to both blocks. -/
def Clear (first second : Nat × Nat) : Prop := first.1 + first.2 ≤ second.1 ∨ second.1 + second.2 ≤ first.1

/-- What a kind of pool does for its callers: it holds a ledger of addresses, each with its bytes, and hands out
whole units of 32 bytes. -/
structure PoolRules (ops : MmOps Allocator) (config : MmConfig) where
  holds : Nat → Allocator → List (Nat × Nat) → Prop
  bytes : Nat → Nat
  mayCreate : Nat → Prop
  mayAlloc : Nat → Prop
  mayFree : Allocator → Nat → Prop
  created : ∀ {base : Nat}, mayCreate base → ∃ pool, ops.createFunc base config = some pool ∧ holds base pool []
  asked : ∀ {base size : Nat} {pool : Allocator} {live : List (Nat × Nat)}, holds base pool live → mayAlloc size →
    ∃ next p, ops.allocFunc pool size = (next, p) ∧
      holds base next ((p.toList.map fun p => (p, bytes size)) ++ live)
  freed : ∀ {base p : Nat} {pool : Allocator} {live : List (Nat × Nat)}, holds base pool live →
    p ∈ live.map Prod.fst → mayFree pool p →
      ∃ next, ops.freeFunc pool p = (next, 0) ∧ holds base next (live.filter fun entry => entry.1 ≠ p)
  inside : ∀ {base : Nat} {pool : Allocator} {live : List (Nat × Nat)}, holds base pool live → ∀ entry ∈ live,
    base ≤ entry.1 ∧ entry.1 + 16 < base + config.totalSize ∧ entry.1 + entry.2 ≤ (base + config.totalSize) / 32 * 32
  apart : ∀ {base : Nat} {pool : Allocator} {live : List (Nat × Nat)}, holds base pool live → live.Pairwise Clear

/-- Each area of the table has its kind of pool. -/
abbrev AreaRules (ops : Nat → MmOps Allocator) (cfg : MmSpaceConfig) : Type :=
  ∀ arType, PoolRules (ops arType) (cfg.mmCfg arType)

/-- A space and the blocks that its users hold, each an address with the bytes that it is good for. -/
structure SpaceHeap (Allocator : Type) where
  space : MmSpaceImpl Allocator
  live : List (Nat × Nat)

inductive SpaceCall where
  | alloc (size : Nat) (answers : List (Option ShmmBlk))
  | areaAlloc (size arType : Nat) (answers : List (Option ShmmBlk))
  | free (p : Nat)

/-- The ledger after a call that answered `p`. -/
def grown (live : List (Nat × Nat)) (p : Option Nat) (bytes : Nat) : List (Nat × Nat) :=
  (p.toList.map fun p => (p, bytes)) ++ live

/-- Between two segments lies at least the page with the head of the second one. -/
def ShmmBlk.Spaced (blk other : ShmmBlk) : Prop :=
  blk.endAddr + 32 ≤ other.beginAddr ∨ other.endAddr + 32 ≤ blk.beginAddr

instance (blk other : ShmmBlk) : Decidable (blk.Spaced other) := inferInstanceAs (Decidable (_ ∨ _))

theorem ShmmBlk.Spaced.symm {blk other : ShmmBlk} (spaced : blk.Spaced other) : other.Spaced blk := Or.symm spaced

instance : Std.Symm ShmmBlk.Spaced := ⟨fun _ _ => ShmmBlk.Spaced.symm⟩

def ShmmBlk.has (blk : ShmmBlk) (entry : Nat × Nat) : Bool := decide (blk.Contains entry.1)

/-- The block is as `shmm_create` lays it out in whole pages, 8 bytes behind the start of its segment, and the area
can put a pool there. -/
structure ShmmBlk.Ready (blk : ShmmBlk) (total : Nat) (mayCreate : Nat → Prop) : Prop where
  begins : blk.beginAddr = blk.shm + 4096
  paged : blk.shm % 4096 = 8 ∧ blk.endAddr % 4096 = 8
  large : blk.beginAddr + total ≤ blk.endAddr
  may : mayCreate (blk.beginAddr + 16)

variable {ops : Nat → MmOps Allocator} {cfg : MmSpaceConfig}

/-- The sections hold the ledger in parts, and the areas of the list have their free section. -/
structure Tracked (rules : AreaRules ops cfg) (types : List Nat) (heap : SpaceHeap Allocator) : Prop where
  config : heap.space.cfg = cfg
  spaced : heap.space.allSectionTree.Pairwise ShmmBlk.Spaced
  shaped : ∀ blk ∈ heap.space.allSectionTree,
    blk.beginAddr = blk.shm + 4096 ∧ blk.endAddr % 4096 = 8 ∧ blk.beginAddr ≤ blk.endAddr
  attached : ∀ {shm sec}, heap.space.attached shm = some sec → ∃ blk ∈ heap.space.allSectionTree, blk.shm = shm ∧
    blk.beginAddr + (cfg.mmCfg sec.areaType).totalSize ≤ blk.endAddr ∧
    (rules sec.areaType).holds (blk.beginAddr + 16) sec.allocator (heap.live.filter blk.has)
  covered : ∀ entry ∈ heap.live, ∃ blk ∈ heap.space.allSectionTree, blk.has entry = true ∧
    (heap.space.attached blk.shm).isSome
  free : ∀ arType ∈ types, ∃ shm sec, (heap.space.areaList arType).freeSection = some shm ∧
    heap.space.attached shm = some sec ∧ sec.areaType = arType
  listed : ∀ arType ∈ types, Whole heap.space arType

variable {rules : AreaRules ops cfg} {types : List Nat} {mm : MmSpaceImpl Allocator} {live : List (Nat × Nat)}
  {shm arType size : Nat} {sec : MmSectionImpl Allocator} {blk other : ShmmBlk}

theorem has_eq_true {entry : Nat × Nat} : blk.has entry = true ↔ blk.beginAddr ≤ entry.1 ∧ entry.1 < blk.endAddr := by
  rw [ShmmBlk.has, decide_eq_true_iff, ShmmBlk.Contains]

theorem ShmmBlk.Spaced.outside (spaced : blk.Spaced other) {entry : Nat × Nat} (here : blk.has entry = true) :
    other.has entry = false := by
  rw [has_eq_true] at here
  rw [ShmmBlk.Spaced] at spaced
  rw [← Bool.not_eq_true, has_eq_true]
  omega

namespace Tracked

variable (tracked : Tracked rules types ⟨mm, live⟩)

include tracked

/-- The head of a block leads to the block. -/
theorem same_blk (inside : blk ∈ mm.allSectionTree) (inOther : other ∈ mm.allSectionTree)
    (same : blk.shm = other.shm) : blk = other := by
  by_contra distinct
  have apart := tracked.spaced.forall inside inOther distinct
  have first := tracked.shaped blk inside
  have second := tracked.shaped other inOther
  rw [ShmmBlk.Spaced] at apart
  omega

/-- The search finds the block around an address. -/
theorem search (inside : blk ∈ mm.allSectionTree) {entry : Nat × Nat} (here : blk.has entry = true) :
    mm.rbSearch entry.1 = some blk := by
  have around := has_eq_true.mp here
  obtain ⟨found, search⟩ : ∃ found, mm.rbSearch entry.1 = some found := by
    refine Option.isSome_iff_exists.mp (List.find?_isSome.mpr ⟨blk, inside, ?_⟩)
    simpa using around
  have member := List.mem_of_find?_eq_some search
  have contains := List.find?_some search
  rw [search]
  by_contra distinct
  have apart := tracked.spaced.forall member inside fun same => distinct (congrArg some same)
  have outside : blk.has entry = false := apart.outside (has_eq_true.mpr (by simpa using contains))
  rw [here] at outside
  cases outside

/-- A pool may change together with the part of the ledger that lies in its section. -/
theorem setSection (held : mm.attached shm = some sec) (inside : blk ∈ mm.allSectionTree) (place : blk.shm = shm)
    (large : blk.beginAddr + (cfg.mmCfg sec.areaType).totalSize ≤ blk.endAddr) {pool : Allocator}
    {after : List (Nat × Nat)} (now : (rules sec.areaType).holds (blk.beginAddr + 16) pool (after.filter blk.has))
    (others : ∀ other ∈ mm.allSectionTree, other ≠ blk → after.filter other.has = live.filter other.has)
    (covered : ∀ entry ∈ after, entry ∈ live ∨ blk.has entry = true) :
    Tracked rules types ⟨mm.setSection shm (some { sec with allocator := pool }), after⟩ := by
  have still {there : Nat} (was : (mm.attached there).isSome) :
      ((mm.setSection shm (some { sec with allocator := pool })).attached there).isSome := by
    by_cases same : there = shm
    · simp [MmSpaceImpl.setSection, same]
    · simpa [MmSpaceImpl.setSection, same] using was
  refine ⟨tracked.config, tracked.spaced, tracked.shaped, ?_, ?_, ?_, tracked.listed⟩
  · intro there found was
    by_cases same : there = shm
    · subst same
      obtain rfl : { sec with allocator := pool } = found := by simpa [MmSpaceImpl.setSection] using was
      exact ⟨blk, inside, place, large, now⟩
    · have old : mm.attached there = some found := by simpa [MmSpaceImpl.setSection, same] using was
      obtain ⟨other, member, here, room, holds⟩ := tracked.attached old
      refine ⟨other, member, here, room, ?_⟩
      have distinct : other ≠ blk := by
        rintro rfl
        exact same (here.symm.trans place)
      have kept := others other member distinct
      simp only at holds ⊢
      rw [kept]
      exact holds
  · intro entry member
    rcases covered entry member with old | new
    · obtain ⟨other, known, here, was⟩ := tracked.covered entry old
      exact ⟨other, known, here, still was⟩
    · exact ⟨blk, inside, new, still (by rw [place, held]; rfl)⟩
  · intro area known
    obtain ⟨there, found, free, was, kind⟩ := tracked.free area known
    by_cases same : there = shm
    · subst same
      obtain rfl : sec = found := Option.some.inj (held.symm.trans was)
      exact ⟨there, { sec with allocator := pool }, free, by simp [MmSpaceImpl.setSection], kind⟩
    · exact ⟨there, found, free, by simpa [MmSpaceImpl.setSection, same] using was, kind⟩

/-- A request to one section answers with a block there, or it leaves the ledger alone. -/
theorem allocAt (held : mm.attached shm = some sec) (may : (rules sec.areaType).mayAlloc size) :
    ∃ next p, Mmspace.allocAt (ops sec.areaType) mm size shm = some (next, p) ∧
      Tracked rules types ⟨next, grown live p ((rules sec.areaType).bytes size)⟩ ∧
      ∃ pool, next = mm.setSection shm (some { sec with allocator := pool }) := by
  obtain ⟨blk, inside, place, large, holds⟩ := tracked.attached held
  obtain ⟨pool, p, answer, now⟩ := (rules sec.areaType).asked holds may
  have here : ∀ entry ∈ p.toList.map fun p => (p, (rules sec.areaType).bytes size), blk.has entry = true := by
    intro entry member
    have bounds := (rules sec.areaType).inside now entry (List.mem_append_left _ member)
    rw [has_eq_true]
    omega
  refine ⟨mm.setSection shm (some { sec with allocator := pool }), p, by simp [Mmspace.allocAt, held, answer], ?_,
    pool, rfl⟩
  refine tracked.setSection held inside place large ?_ ?_ ?_
  · rw [grown, List.filter_append, List.filter_eq_self.mpr here]
    exact now
  · intro other member distinct
    have apart := tracked.spaced.forall inside member (Ne.symm distinct)
    rw [grown, List.filter_append, List.filter_eq_nil_iff.mpr, List.nil_append]
    intro entry new
    simp [apart.outside (here entry new)]
  · intro entry member
    rcases List.mem_append.mp member with new | old
    · exact Or.inr (here entry new)
    · exact Or.inl old

end Tracked

end Syslib.Mmspace
