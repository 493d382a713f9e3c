import Syslib.Mmpool.Complete
import Syslib.Mmpool.Layout
import Syslib.Mmspace.Ledger
import Syslib.Mmspace.Unservable
import Syslib.Pgpool.Calls
import Syslib.Stkpool.Handles

namespace Syslib.Mmspace

open Mmpool Pgpool Stkpool Tiling Runs

/-- The configurations of a page pool and of a stack pool in `struct mm_config`. -/
def pgpConfig (config : MmConfig) : PgpConfig :=
  ⟨BitVec.ofNat 64 config.totalSize, BitVec.ofNat 32 config.first, BitVec.ofNat 32 config.second⟩

def stkpConfig (config : MmConfig) : StkpConfig :=
  ⟨BitVec.ofNat 64 config.totalSize, BitVec.ofNat 32 config.first⟩

/-- What the pools read that nothing has written, and what the machine answers. -/
structure Surroundings where
  outside : Nat → Word
  fresh : Nat → Junk
  stale : Nat → Nat
  junk : PgpoolImpl → Nat → Junk
  rslt : Nat → Int
  rounds : Nat
  ground : Nat → Ground

/-- The address of an allocation, where 0 means that it failed. -/
def given (p : Nat) : Option Nat := if p = 0 then none else some p

def answered {Pool : Type} (result : Pool × Nat) : Pool × Option Nat := (result.1, given result.2)

/-- After a fault there is no pool any more, and no later call brings it back. -/
def orFaulted {Pool Answer : Type} (result : Option (Pool × Answer)) (answer : Answer) : Option Pool × Answer :=
  match result with
  | none => (none, answer)
  | some (pool, answer) => (some pool, answer)

@[simp] theorem orFaulted_some {Pool Answer : Type} (pool : Pool) (answer other : Answer) :
    orFaulted (some (pool, answer)) other = (some pool, answer) := rfl

/-- This is `__pgp_ops`. -/
def pgpOps (env : Surroundings) : MmOps (Option PgpoolImpl) where
  createFunc := fun addr config =>
    match pgpCreateStale (env.stale addr) (env.fresh addr) (env.rslt addr) addr (pgpConfig config) with
    | none => some none
    | some made => made.map some
  loadFunc := some
  allocFunc := fun pool size =>
    orFaulted (pool.bind fun pgpi => (pgpAlloc (env.junk pgpi size) pgpi size).map answered) none
  freeFunc := fun pool p => orFaulted (pool.bind fun pgpi => pgpFree (env.junk pgpi p) pgpi p) (-1)

/-- This is `__stkp_ops`; a stack has its own size, whatever the request is. -/
def stkpOps (env : Surroundings) : MmOps (Option StkpImpl) where
  createFunc := fun addr config =>
    match stkpCreate env.rounds (env.ground addr) addr (stkpConfig config) with
    | none => some none
    | some made => made.map some
  loadFunc := some
  allocFunc := fun pool _ =>
    orFaulted (pool.map fun stkpi => answered (stkpAlloc stkpi)) none
  freeFunc := fun pool p => orFaulted (pool.bind fun stkpi => stkpFree stkpi p) (-1)

section Buddies

/-- A buddy pool fits into its memory and has the descriptors for all of its splits. -/
structure MmpReady (outside : Nat → Word) (config : MmConfig) (base : Nat) : Prop where
  ordered : Ordered (mmpConfig config)
  top : base + config.totalSize + 4096 ≤ 2 ^ 64
  fits : Mmpool.Fits base (mmpConfig config)
  made : ∃ mmpi ∈ (mmpCreate outside 0 base (mmpConfig config)).join, mmpi.Supplied

instance (outside : Nat → Word) (config : MmConfig) (base : Nat) : Decidable (MmpReady outside config base) :=
  decidable_of_iff ((4 ≤ (mmpConfig config).minOrder.toNat ∧
      (mmpConfig config).minOrder.toNat < (mmpConfig config).maxOrder.toNat ∧
      (mmpConfig config).maxOrder.toNat ≤ 30) ∧ base + config.totalSize + 4096 ≤ 2 ^ 64 ∧
      Mmpool.Fits base (mmpConfig config) ∧
      ∃ mmpi ∈ (mmpCreate outside 0 base (mmpConfig config)).join, mmpi.Supplied)
    ⟨fun ⟨⟨small, less, large⟩, top, fits, made⟩ => ⟨⟨small, less, large⟩, top, fits, made⟩,
      fun ready => ⟨⟨ready.ordered.smallest, ready.ordered.larger, ready.ordered.largest⟩, ready.top, ready.fits,
        ready.made⟩⟩

/-- The pool is sound, and its chunk lies in its memory. -/
structure MmpHolds (config : MmConfig) (base : Nat) (mmpi : MmpoolImpl) (live : List (Nat × Nat)) : Prop where
  steady : Steady ⟨mmpi, live⟩
  start : base ≤ mmpi.chunkAddr
  stop : mmpi.limit ≤ (base + config.totalSize) / 32 * 32
  word : base + config.totalSize < 2 ^ 64
  positive : ∀ entry ∈ live, 1 ≤ entry.2

variable {outside : Nat → Word} {config : MmConfig} {base size p : Nat} {mmpi next : MmpoolImpl}
  {live : List (Nat × Nat)}

/-- The chunk starts at a multiple of 64 bytes, and its blocks have at least 32. -/
theorem mmpCreate_units {cfg : MmpConfig} (ordered : Ordered cfg) (top : base + cfg.totalSize.toNat + 4096 ≤ 2 ^ 64)
    (made : mmpCreate outside 0 base cfg = some (some mmpi)) : mmpi.limit % 32 = 0 := by
  obtain ⟨configured, -, blocks, rowed⟩ := mmpCreate_rowed ordered top made
  have smallest := configured.smallest
  have larger := configured.larger
  have start : (Mmpool.emptyPool outside base cfg).chunkAddr % 32 = 0 := by
    rw [chunkAddr_eq]
    omega
  have units : 2 ^ 5 ∣ (Mmpool.emptyPool outside base cfg).chunkSize :=
    (Nat.pow_dvd_pow 2 (by omega)).trans (Nat.dvd_of_mod_eq_zero configured.whole)
  rw [rowed.kept, MmpoolImpl.limit]
  simp only
  omega

theorem mmpReady_made (ready : MmpReady outside config base) :
    ∃ mmpi, (mmpOps outside).createFunc base config = some (some mmpi) ∧ MmpHolds config base mmpi [] := by
  obtain ⟨mmpi, made, supplied⟩ := ready.made
  have created := Option.join_eq_some_iff.mp made
  have small := ready.top
  have total : (mmpConfig config).totalSize.toNat = config.totalSize := by
    rw [mmpConfig, BitVec.toNat_ofNat]
    exact Nat.mod_eq_of_lt (by omega)
  have checked : Checked 0 base (mmpConfig config) := by
    by_contra unchecked
    rw [mmpCreate_unchecked unchecked] at created
    cases created
  have contained : Contained outside 0 base (mmpConfig config) := ready.fits.contained checked ready.ordered
  obtain ⟨-, refused | ⟨other, same, laid⟩⟩ := contained
  · rw [created] at refused
    cases refused
  · rw [created, Option.some.injEq, Option.some.injEq] at same
    subst same
    obtain ⟨final, run, steady⟩ := run_steady ready.ordered (by omega) created supplied [] trivial
    obtain rfl := Option.some.inj run
    have ends := laid.ends
    have heads := laid.heads
    have nodes := laid.nodes
    have chunk := laid.chunk
    have units := mmpCreate_units ready.ordered (by omega) created
    rw [flhEnd] at nodes
    rw [MmpoolImpl.limit] at units
    refine ⟨mmpi, by simp [mmpOps, created], steady, by omega, ?_, by omega, by simp⟩
    rw [MmpoolImpl.limit]
    omega

/-- The bytes of a held pointer lie behind the head of its block and in front of the tail. -/
theorem MmpHolds.block (holds : MmpHolds config base mmpi live) {entry : Nat × Nat} (inside : entry ∈ live) :
    ∃ a, entry.1 = a + headSize ∧ base ≤ a ∧ a + mmpi.size a ≤ (base + config.totalSize) / 32 * 32 ∧
      32 ≤ mmpi.size a ∧ entry.2 + headTailSize ≤ mmpi.size a := by
  obtain ⟨-, blocks, sound, owned⟩ := holds.steady
  obtain ⟨a, place, large⟩ := owned.large entry inside
  have used := (owned.used a).mpr (place ▸ List.mem_map_of_mem inside)
  obtain ⟨k, -, -, size, -⟩ := sound.ordered used.1
  have bounds := sound.tiled.bounds used.1
  have start := holds.start
  have stop := holds.stop
  have some_ := holds.positive entry inside
  simp only [id_eq, headTailSize] at *
  refine ⟨a, place, by omega, by omega, ?_, large⟩
  have more : 2 ^ 4 < 2 ^ k := by omega
  have order := (Nat.pow_lt_pow_iff_right (by decide : 1 < 2)).mp more
  rw [size]
  exact Nat.pow_le_pow_right (by decide : 0 < 2) order

/-- The released block becomes free, so the call succeeds. -/
theorem mmpFree_steady {heap : Heap} (steady : Steady heap) (held : p ∈ heap.live.map Prod.fst)
    (spared : heap.mmpi.Spared (p - headSize)) : ∃ next, mmpFree heap.mmpi p = some (next, 0) := by
  obtain ⟨supplied, blocks, sound, owned⟩ := steady
  obtain ⟨entry, inside, rfl⟩ := List.mem_map.mp held
  obtain ⟨a, place, -⟩ := owned.large entry inside
  have used := (owned.used a).mpr (place ▸ held)
  obtain ⟨k, -, -, size, -⟩ := sound.ordered used.1
  rw [place, payloadAddr, Nat.add_sub_cancel, MmpoolImpl.Spared, sound.reached_eq, size, Nat.log2_two_pow] at spared
  obtain ⟨next, -, ran, -⟩ := sound.free supplied used size (sound.guarded supplied used fun m low less first chain =>
    spared m less low first fun o below above => chain o above below)
  exact ⟨next, by rw [place, ran]⟩

theorem MmpHolds.alloc (holds : MmpHolds config base mmpi live) (word : size < 2 ^ 64) :
    ∃ next p, mmpAlloc mmpi size = some (next, p) ∧
      MmpHolds config base next (((given p).toList.map fun p => (p, size)) ++ live) := by
  obtain ⟨after, step, steady⟩ := alloc_steady holds.steady (BitVec.ofNat 64 size)
  simp only [mmpStep, Option.map_eq_some_iff, BitVec.toNat_ofNat, Nat.mod_eq_of_lt word] at step
  obtain ⟨⟨next, p⟩, ran, rfl⟩ := step
  have kept := mmpAlloc_kept ran
  have chunk : next.chunkAddr = mmpi.chunkAddr := by rw [kept]
  have limit : next.limit = mmpi.limit := by rw [kept]; rfl
  have entries : ((given p).toList.map fun p => (p, size)) ++ live = if p = 0 then live else (p, size) :: live := by
    unfold given
    split_ifs <;> rfl
  refine ⟨next, p, ran, ?_⟩
  rw [entries]
  refine ⟨steady, chunk ▸ holds.start, limit ▸ holds.stop, holds.word, fun entry inside => ?_⟩
  split_ifs at inside with null
  · exact holds.positive entry inside
  · rcases List.mem_cons.mp inside with rfl | old
    · by_contra zero
      rw [mmpAlloc, if_pos (by omega)] at ran
      exact null (congrArg Prod.snd (Option.some.inj ran)).symm
    · exact holds.positive entry old

theorem MmpHolds.free (holds : MmpHolds config base mmpi live) (held : p ∈ live.map Prod.fst)
    (spared : mmpi.Spared (p - headSize)) :
    ∃ next, mmpFree mmpi p = some (next, 0) ∧ MmpHolds config base next (live.filter fun entry => entry.1 ≠ p) := by
  have small : p < 2 ^ 64 := by
    obtain ⟨entry, inside, rfl⟩ := List.mem_map.mp held
    obtain ⟨a, place, -, stop, large, -⟩ := holds.block inside
    have word := holds.word
    rw [headSize] at place
    omega
  have pointer : (BitVec.ofNat 64 p).toNat = p := by rw [BitVec.toNat_ofNat, Nat.mod_eq_of_lt small]
  obtain ⟨next, ran⟩ := mmpFree_steady holds.steady held spared
  obtain ⟨after, step, steady⟩ := free_steady holds.steady (BitVec.ofNat 64 p) (by
    rw [Untrapped, pointer]
    exact ⟨held, spared⟩)
  simp only [mmpStep, pointer, ran, Option.map_some, Option.some.injEq] at step
  subst step
  have kept := mmpFree_kept ran
  have chunk : next.chunkAddr = mmpi.chunkAddr := by rw [kept]
  have limit : next.limit = mmpi.limit := by rw [kept]; rfl
  exact ⟨next, ran, steady, chunk ▸ holds.start, limit ▸ holds.stop, holds.word,
    fun entry inside => holds.positive entry (List.mem_of_mem_filter inside)⟩

theorem MmpHolds.apart (holds : MmpHolds config base mmpi live) : live.Pairwise Clear := by
  obtain ⟨-, blocks, sound, owned⟩ := holds.steady
  refine owned.once.imp_of_mem fun {first second} inFirst inSecond distinct => ?_
  obtain ⟨a, placeA, largeA⟩ := owned.large first inFirst
  obtain ⟨b, placeB, largeB⟩ := owned.large second inSecond
  have usedA := (owned.used a).mpr (placeA ▸ List.mem_map_of_mem inFirst)
  have usedB := (owned.used b).mpr (placeB ▸ List.mem_map_of_mem inSecond)
  have apart := sound.tiled.disjoint usedA.1 usedB.1 (by rintro rfl; exact distinct (placeA.trans placeB.symm))
  simp only [id_eq, payloadAddr, headSize, headTailSize] at *
  rw [Clear]
  omega

/-- The memory of a block lies behind its head in the area. -/
theorem MmpHolds.inside (holds : MmpHolds config base mmpi live) {entry : Nat × Nat} (inside : entry ∈ live) :
    base ≤ entry.1 ∧ entry.1 + 16 < base + config.totalSize ∧
      entry.1 + entry.2 ≤ (base + config.totalSize) / 32 * 32 := by
  obtain ⟨a, place, start, stop, least, large⟩ := holds.block inside
  simp only [headSize, headTailSize] at *
  omega

theorem mmpOps_asked (outside : Nat → Word) (holds : MmpHolds config base mmpi live) (word : size < 2 ^ 64) :
    ∃ next p, (mmpOps outside).allocFunc (some mmpi) size = (next, p) ∧
      ∃ after, next = some after ∧ MmpHolds config base after ((p.toList.map fun p => (p, id size)) ++ live) := by
  obtain ⟨next, p, ran, after⟩ := holds.alloc word
  exact ⟨some next, given p, by simp [mmpOps, ran, given], next, rfl, after⟩

theorem mmpOps_freed (outside : Nat → Word) (holds : MmpHolds config base mmpi live) (held : p ∈ live.map Prod.fst)
    (spared : mmpi.Spared (p - headSize)) :
    ∃ next, (mmpOps outside).freeFunc (some mmpi) p = (next, 0) ∧
      ∃ after, next = some after ∧ MmpHolds config base after (live.filter fun entry => entry.1 ≠ p) := by
  obtain ⟨next, ran, after⟩ := holds.free held spared
  exact ⟨some next, by simp [mmpOps, ran], next, rfl, after⟩

/-- A buddy pool serves words of memory and takes back what is not trapped. -/
def mmpRules (outside : Nat → Word) (config : MmConfig) : PoolRules (mmpOps outside) config where
  holds := fun base pool live => ∃ mmpi, pool = some mmpi ∧ MmpHolds config base mmpi live
  bytes := id
  mayCreate := MmpReady outside config
  mayAlloc := fun size => size < 2 ^ 64
  mayFree := fun pool p => ∀ mmpi ∈ pool, mmpi.Spared (p - headSize)
  created := fun ready => by
    obtain ⟨mmpi, made, holds⟩ := mmpReady_made ready
    exact ⟨some mmpi, made, mmpi, rfl, holds⟩
  asked := by
    rintro base size - live ⟨mmpi, rfl, holds⟩ word
    exact mmpOps_asked outside holds word
  freed := by
    rintro base p - live ⟨mmpi, rfl, holds⟩ held spared
    exact mmpOps_freed outside holds held (spared mmpi rfl)
  inside := by
    rintro base - live ⟨mmpi, rfl, holds⟩ entry inside
    exact holds.inside inside
  apart := by
    rintro base - live ⟨mmpi, rfl, holds⟩
    exact holds.apart

end Buddies

section Pages

/-- A page pool accepts its memory, and its creation reads no negative word where a result should be. -/
structure PgpReady (env : Surroundings) (config : MmConfig) (base : Nat) : Prop where
  accepted : Accepted base (pgpConfig config)
  large : 64 ≤ (pgpConfig config).pageSize.toNat
  top : base + config.totalSize < 2 ^ 64
  aligned : base ≠ 0 ∧ base % 8 = 0
  page : (pgpConfig config).pageSize.toNat < config.totalSize
  written : 0 ≤ env.rslt base

/-- The powers of two among the words are known by their logarithm. -/
theorem exists_power {n : Nat} {good : Nat → Prop} :
    (∃ k, good k ∧ n = 2 ^ k) ↔ good (Nat.log2 n) ∧ n = 2 ^ Nat.log2 n := by
  constructor
  · rintro ⟨k, least, rfl⟩
    rw [Nat.log2_two_pow]
    exact ⟨least, rfl⟩
  · exact fun both => ⟨_, both⟩

instance (addr : Nat) (cfg : PgpConfig) : Decidable (Accepted addr cfg) :=
  decidable_of_iff ((2 ≤ Nat.log2 cfg.pageSize.toNat ∧ cfg.pageSize.toNat = 2 ^ Nat.log2 cfg.pageSize.toNat) ∧
      1 ≤ cfg.maxpgCount.toNat ∧ headsEnd addr cfg ≤ rangeEnd addr cfg ∧ rangeEnd addr cfg + 64 ≤ 2 ^ 64)
    ⟨fun ⟨order, page, room, top⟩ => ⟨exists_power.mpr order, page, room, top⟩,
      fun accepted => ⟨exists_power.mp accepted.order, accepted.onePage, accepted.room, accepted.top⟩⟩

instance (env : Surroundings) (config : MmConfig) (base : Nat) : Decidable (PgpReady env config base) :=
  decidable_of_iff (Accepted base (pgpConfig config) ∧ 64 ≤ (pgpConfig config).pageSize.toNat ∧
      base + config.totalSize < 2 ^ 64 ∧ (base ≠ 0 ∧ base % 8 = 0) ∧
      (pgpConfig config).pageSize.toNat < config.totalSize ∧ 0 ≤ env.rslt base)
    ⟨fun ⟨accepted, large, top, aligned, page, written⟩ => ⟨accepted, large, top, aligned, page, written⟩,
      fun ready => ⟨ready.accepted, ready.large, ready.top, ready.aligned, ready.page, ready.written⟩⟩

/-- The pages of the size do not wrap around, and a power of two of them has a list. -/
def PgpFits (config : MmConfig) (size : Nat) : Prop :=
  size < 2 ^ 64 ∧ size ≠ 0 ∧ size + (pgpConfig config).pageSize.toNat ≤ 2 ^ 64 ∧
    let pages := (size + (pgpConfig config).pageSize.toNat - 1) / (pgpConfig config).pageSize.toNat
    pages = 2 ^ Nat.log2 pages → Nat.log2 pages < Nat.log2 (pgpConfig config).maxpgCount.toNat + 1

instance (config : MmConfig) (size : Nat) : Decidable (PgpFits config size) :=
  inferInstanceAs (Decidable (_ ∧ _ ∧ _ ∧ (_ → _)))

/-- The pool is in step with the ledger, and its pages lie in its memory. -/
structure PgpHolds (config : MmConfig) (base : Nat) (pgpi : PgpoolImpl) (live : List (Nat × Nat)) : Prop where
  pool : ∃ created tree nodes, Pgpool.Configured created ∧ Reached created ⟨pgpi, live⟩ tree nodes
  pages : pgpi.pgSize = (pgpConfig config).pageSize.toNat ∧ pgpi.maxpgCount = (pgpConfig config).maxpgCount.toNat
  large : 64 ≤ pgpi.pgSize
  start : base ≤ pgpi.chunkAddr
  stop : pgpi.limit ≤ (base + config.totalSize) / 32 * 32
  word : base + config.totalSize < 2 ^ 64

variable {env : Surroundings} {config : MmConfig} {base size p : Nat} {pgpi next : PgpoolImpl}
  {live after : List (Nat × Nat)}

theorem pgpReady_made (ready : PgpReady env config base) :
    ∃ pgpi, (pgpOps env).createFunc base config = some (some pgpi) ∧ PgpHolds config base pgpi [] := by
  have small := ready.top
  have total : (pgpConfig config).totalSize.toNat = config.totalSize := by
    rw [pgpConfig, BitVec.toNat_ofNat]
    exact Nat.mod_eq_of_lt (by omega)
  obtain ⟨built, run, builds, pools⟩ := pgpCreate_holds ready.accepted (env.fresh base) (env.rslt base)
  obtain ⟨pgpi, rfl⟩ := Option.isSome_iff_exists.mp
    (builds ⟨ready.aligned.1, ready.aligned.2, total.symm ▸ ready.page, ready.written⟩)
  obtain ⟨kept, configured, start, stop, tree, nodes, carved⟩ := pools pgpi rfl
  have page : pgpi.pgSize = (pgpConfig config).pageSize.toNat := by
    rw [kept]
    rfl
  have ends : pgpi.addrEnd ≤ (base + config.totalSize) / 32 * 32 := by
    obtain ⟨k, -, power⟩ := ready.accepted.order
    have large := ready.large
    have units : 2 ^ 5 ∣ (pgpConfig config).pageSize.toNat := by
      rw [power] at large ⊢
      exact Nat.pow_dvd_pow 2 ((Nat.pow_le_pow_iff_right (by decide)).mp (le_trans (by decide : 2 ^ 5 ≤ 64) large))
    have whole : rangeEnd base (pgpConfig config) % 32 = 0 :=
      Nat.mod_eq_zero_of_dvd (units.trans (Nat.dvd_mul_left ..))
    have inside : rangeEnd base (pgpConfig config) ≤ base + config.totalSize := by
      rw [rangeEnd, total]
      exact (Nat.div_mul_le_self _ _).trans (Nat.mod_le _ _)
    rw [kept]
    show (Pgpool.emptyPool (env.fresh base) base (pgpConfig config)).addrEnd ≤ _
    rw [addrEnd_eq ready.accepted]
    omega
  refine ⟨pgpi, by simp [pgpOps, pgpCreateStale_made run], ⟨pgpi, tree, nodes, configured, carved.reached⟩, ⟨page, ?_⟩,
    page ▸ ready.large, start, (stop ready.large).trans ends, ready.top⟩
  rw [kept]
  rfl

/-- A pool that took a call is still the pool of its memory. -/
theorem PgpHolds.step (holds : PgpHolds config base pgpi live) (kept : pgpi.Kept next)
    (pool : ∃ created tree nodes, Pgpool.Configured created ∧ Reached created ⟨next, after⟩ tree nodes) :
    PgpHolds config base next after := by
  have start : next.chunkAddr = pgpi.chunkAddr := by rw [kept]
  have stop : next.limit = pgpi.limit := by rw [kept]; rfl
  have page : next.pgSize = pgpi.pgSize := by rw [kept]
  have most : next.maxpgCount = pgpi.maxpgCount := by rw [kept]
  exact ⟨pool, ⟨page.trans holds.pages.1, most.trans holds.pages.2⟩, page ▸ holds.large, start ▸ holds.start,
    stop ▸ holds.stop, holds.word⟩

theorem PgpHolds.block (holds : PgpHolds config base pgpi live) {entry : Nat × Nat} (inside : entry ∈ live) :
    base ≤ entry.1 ∧ entry.1 + 64 ≤ base + config.totalSize ∧
      entry.1 + entry.2 ≤ (base + config.totalSize) / 32 * 32 := by
  obtain ⟨created, tree, nodes, configured, reached⟩ := holds.pool
  obtain ⟨pgn, member, place, -, large⟩ := reached.ledger.owned entry inside
  have bounds := reached.holds.tiled.bounds member
  have page := (reached.holds.sized pgn member).1
  have start := holds.start
  have stop := holds.stop
  have least := holds.large
  have some_page : pgpi.pgSize ≤ pgpi.bytes pgn := Nat.le_mul_of_pos_left _ page
  simp only at place large bounds
  omega

theorem PgpHolds.alloc (holds : PgpHolds config base pgpi live) (fits : PgpFits config size) (junk : Junk) :
    ∃ next p, pgpAlloc junk pgpi size = some (next, p) ∧
      PgpHolds config base next (((given p).toList.map fun p => (p, size)) ++ live) := by
  obtain ⟨created, tree, nodes, configured, reached⟩ := holds.pool
  have here : Pgpool.Configured pgpi := configured.kept reached.kept
  obtain ⟨word, some_byte, inside, listed⟩ := fits
  rw [← holds.pages.1] at inside listed
  rw [← holds.pages.2] at listed
  have fit : pgpi.Fits size := ⟨some_byte, inside, fun power => here.listCount.symm ▸ listed power⟩
  rcases alloc_fits reached.holds here fit junk with none_free | ⟨a, next, grown, run, allocated⟩
  · exact ⟨pgpi, 0, none_free, holds⟩
  · obtain ⟨result, final⟩ := allocated.holds
    have real := payload_pos reached.holds here allocated.member
    refine ⟨next, pgpi.payload a, run, holds.step allocated.kept ⟨created, result, grown, configured, ?_⟩⟩
    rw [given, if_neg (Nat.ne_of_gt real)]
    exact ⟨reached.kept.trans allocated.kept, final,
      reached.ledger.alloc reached.holds (pagesOf_enough here inside) allocated⟩

theorem PgpHolds.free (holds : PgpHolds config base pgpi live) (held : p ∈ live.map Prod.fst) (few : pgpi.Few)
    (junk : Junk) : ∃ next, pgpFree junk pgpi p = some (next, 0) ∧
      PgpHolds config base next (live.filter fun entry => entry.1 ≠ p) := by
  obtain ⟨created, tree, nodes, configured, reached⟩ := holds.pool
  obtain ⟨entry, inside, rfl⟩ := List.mem_map.mp held
  obtain ⟨pgn, member, place, used, -⟩ := reached.ledger.owned entry inside
  rcases pgpFree_holds reached.holds (configured.kept reached.kept) few junk entry.1 with
    ⟨-, unused⟩ | ⟨a, next, fewer, run, released⟩
  · have straight := payload_straight reached.holds (configured.kept reached.kept) member
    rw [show pgpi.payload pgn = entry.1 from place] at straight
    exact absurd (unused straight pgn member place) used
  · obtain ⟨result, final⟩ := released.holds
    exact ⟨next, run, holds.step released.kept ⟨created, result, fewer, configured,
      reached.kept.trans released.kept, final, reached.ledger.free released.toFreed⟩⟩

theorem PgpHolds.apart (holds : PgpHolds config base pgpi live) : live.Pairwise Clear := by
  obtain ⟨created, tree, nodes, configured, reached⟩ := holds.pool
  have law := reached.law
  refine law.disjoint.imp_of_mem fun {first second} inFirst inSecond disjoint => ?_
  obtain ⟨a, memberA, placeA, -, largeA⟩ := law.owned first inFirst
  obtain ⟨b, memberB, placeB, -, largeB⟩ := law.owned second inSecond
  have apart := disjoint a memberA b memberB placeA placeB
  rw [Clear]
  omega

/-- A page pool serves the sizes that it can list. -/
def pgpRules (env : Surroundings) (config : MmConfig) : PoolRules (pgpOps env) config where
  holds := fun base pool live => ∃ pgpi, pool = some pgpi ∧ PgpHolds config base pgpi live
  bytes := id
  mayCreate := PgpReady env config
  mayAlloc := PgpFits config
  mayFree := fun pool _ => ∀ pgpi ∈ pool, pgpi.Few
  created := fun ready => by
    obtain ⟨pgpi, made, holds⟩ := pgpReady_made ready
    exact ⟨some pgpi, made, pgpi, rfl, holds⟩
  asked := by
    rintro base size - live ⟨pgpi, rfl, holds⟩ fits
    obtain ⟨next, p, ran, after⟩ := holds.alloc fits (env.junk pgpi size)
    refine ⟨some next, given p, ?_, next, rfl, after⟩
    rw [pgpOps]
    dsimp only
    rw [Option.bind_some, ran, Option.map_some, answered, orFaulted_some]
  freed := by
    rintro base p - live ⟨pgpi, rfl, holds⟩ held few
    obtain ⟨next, ran, after⟩ := holds.free held (few pgpi rfl) (env.junk pgpi p)
    refine ⟨some next, ?_, next, rfl, after⟩
    rw [pgpOps]
    dsimp only
    rw [Option.bind_some, ran, orFaulted_some]
  inside := by
    rintro base - live ⟨pgpi, rfl, holds⟩ entry inside
    have block := holds.block inside
    omega
  apart := by
    rintro base - live ⟨pgpi, rfl, holds⟩
    exact holds.apart

end Pages

section Stacks

/-- The frames of a stack pool fit into its memory, and the guard pages can be protected. -/
structure StkpReady (env : Surroundings) (config : MmConfig) (base : Nat) : Prop where
  page : PageSize (env.ground base).sysPgSize
  zero : (env.ground base).stkFrmCnt = 0
  aligned : base ≠ 0 ∧ base % 8 = 0
  top : base + config.totalSize < 2 ^ 64
  least : minStkSize ≤ (stkpConfig config).stkFrmSize.toNat
  fits : Stkpool.Fits (env.ground base).sysPgSize base config.totalSize (stkpConfig config).stkFrmSize.toNat
  long : 2 ^ 61 ≤ env.rounds
  made : (stkpCreate env.rounds (env.ground base) base (stkpConfig config)).join.isSome

instance (pgSize : Nat) : Decidable (PageSize pgSize) :=
  decidable_of_iff ((12 ≤ Nat.log2 pgSize ∧ Nat.log2 pgSize ≤ 32) ∧ pgSize = 2 ^ Nat.log2 pgSize)
    ((@exists_power pgSize fun k => 12 ≤ k ∧ k ≤ 32).symm.trans (exists_congr fun _ => and_assoc))

instance (env : Surroundings) (config : MmConfig) (base : Nat) : Decidable (StkpReady env config base) :=
  decidable_of_iff (PageSize (env.ground base).sysPgSize ∧ (env.ground base).stkFrmCnt = 0 ∧
      (base ≠ 0 ∧ base % 8 = 0) ∧ base + config.totalSize < 2 ^ 64 ∧
      minStkSize ≤ (stkpConfig config).stkFrmSize.toNat ∧
      Stkpool.Fits (env.ground base).sysPgSize base config.totalSize (stkpConfig config).stkFrmSize.toNat ∧
      2 ^ 61 ≤ env.rounds ∧ (stkpCreate env.rounds (env.ground base) base (stkpConfig config)).join.isSome)
    ⟨fun ⟨page, zero, aligned, top, least, fits, long, made⟩ => ⟨page, zero, aligned, top, least, fits, long, made⟩,
      fun ready => ⟨ready.page, ready.zero, ready.aligned, ready.top, ready.least, ready.fits, ready.long, ready.made⟩⟩

/-- Each held address is the stack of a frame in use. -/
structure StkpHolds (config : MmConfig) (base : Nat) (stkpi : StkpImpl) (live : List (Nat × Nat)) : Prop where
  pool : ∃ created, Laid created base config.totalSize (stkpConfig config).stkFrmSize.toNat ∧
    PageSize created.sysPgSize ∧ Stkpool.Sound created (stkpi, live.map Prod.fst)
  sized : ∀ entry ∈ live, entry.2 = (stkpConfig config).stkFrmSize.toNat
  word : base + config.totalSize < 2 ^ 64
  least : minStkSize ≤ (stkpConfig config).stkFrmSize.toNat

variable {env : Surroundings} {config : MmConfig} {base p : Nat} {stkpi next : StkpImpl} {live : List (Nat × Nat)}

theorem stkpCreate_page {rounds : Nat} {ground : Ground} {cfg : StkpConfig}
    (made : stkpCreate rounds ground base cfg = some (some stkpi)) : stkpi.sysPgSize = ground.sysPgSize := by
  unfold stkpCreate at made
  split_ifs at made
  · simp at made
  · simp at made
  · simp only [stkpInit, Option.bind_eq_bind, Option.bind_eq_some_iff] at made
    obtain ⟨cnt, -, made⟩ := made
    split_ifs at made
    · cases made
    · rw [fillNodes_kept made]

theorem stkpReady_made (ready : StkpReady env config base) :
    ∃ stkpi, (stkpOps env).createFunc base config = some (some stkpi) ∧ StkpHolds config base stkpi [] := by
  have small := ready.top
  have total : (stkpConfig config).totalSize.toNat = config.totalSize := by
    rw [stkpConfig, BitVec.toNat_ofNat]
    exact Nat.mod_eq_of_lt (by omega)
  obtain ⟨stkpi, made⟩ := Option.isSome_iff_exists.mp ready.made
  have created := Option.join_eq_some_iff.mp made
  obtain ⟨result, writes, run, -, -, laid⟩ := createLaw_of_fits ready.page ready.zero ready.aligned.2
    (total.symm ▸ small.le) ready.least ready.long ready.aligned.1 (total.symm ▸ ready.fits)
  obtain rfl : some stkpi = result := Option.some.inj (created.symm.trans run)
  have place := laid stkpi rfl
  rw [total] at place
  exact ⟨stkpi, by simp [stkpOps, created], ⟨stkpi, place, stkpCreate_page created ▸ ready.page, sound_start place⟩,
    by simp, ready.top, ready.least⟩

/-- The pool only depends on which addresses are held. -/
theorem stkpSound_congr {held more : List Nat} (sound : Stkpool.Sound stkpi (next, held)) (once : more.Nodup)
    (same : ∀ p, p ∈ more ↔ p ∈ held) : Stkpool.Sound stkpi (next, more) :=
  ⟨sound.kept, sound.node, sound.listed, sound.listedOnce, fun p => (same p).trans (sound.held p), once⟩

theorem StkpHolds.alloc (holds : StkpHolds config base stkpi live) :
    StkpHolds config base (stkpAlloc stkpi).1
      (((given (stkpAlloc stkpi).2).toList.map fun p => (p, (stkpConfig config).stkFrmSize.toNat)) ++ live) := by
  obtain ⟨created, laid, page, sound⟩ := holds.pool
  obtain ⟨after, step, kept⟩ := stkpAlloc_sound laid page sound
  have shape := Option.some.inj step
  refine ⟨⟨created, laid, page, ?_⟩, ?_, holds.word, holds.least⟩
  · have entries : (((given (stkpAlloc stkpi).2).toList.map fun p =>
        (p, (stkpConfig config).stkFrmSize.toNat)) ++ live).map Prod.fst =
          if (stkpAlloc stkpi).2 = 0 then live.map Prod.fst else (stkpAlloc stkpi).2 :: live.map Prod.fst := by
      unfold given
      split_ifs <;> simp
    rw [entries]
    exact shape ▸ kept
  · intro entry inside
    rcases List.mem_append.mp inside with new | old
    · obtain ⟨p, -, rfl⟩ := List.mem_map.mp new
      rfl
    · exact holds.sized entry old

/-- A held address passes the checks of `stkp_free`. -/
theorem StkpHolds.told (holds : StkpHolds config base stkpi live) (held : p ∈ live.map Prod.fst) :
    ∃ q : BitVec 64, q.toNat = p ∧ Told (.free q) (stkpi, live.map Prod.fst) := by
  obtain ⟨created, laid, page, sound⟩ := holds.pool
  obtain ⟨i, inside, rfl, -⟩ := (sound.held p).mp held
  have word := holds.word
  have below := laid.inside i inside
  have stack := laid.stack
  have small : created.payload i < 2 ^ 64 := by
    have least := holds.least
    rw [minStkSize] at least
    rw [StkpImpl.payload]
    omega
  have pointer : (BitVec.ofNat 64 (created.payload i)).toNat = created.payload i := by
    rw [BitVec.toNat_ofNat, Nat.mod_eq_of_lt small]
  refine ⟨BitVec.ofNat 64 (created.payload i), pointer, ?_⟩
  obtain ⟨-, index⟩ := sound.passes laid page holds.least word.le inside
  rw [told_free, pointer, index, sound.count, sound.payload]
  exact Or.inr ⟨inside, Or.inl rfl⟩

theorem StkpHolds.free (holds : StkpHolds config base stkpi live) (held : p ∈ live.map Prod.fst) :
    ∃ next, stkpFree stkpi p = some (next, 0) ∧ StkpHolds config base next (live.filter fun entry => entry.1 ≠ p) := by
  obtain ⟨q, rfl, told⟩ := holds.told held
  obtain ⟨created, laid, page, sound⟩ := holds.pool
  rcases stkpFree_told laid page holds.least holds.word.le sound told with ⟨outside, -⟩ | ⟨i, -, -, -, -, freed⟩
  · exact absurd held outside
  · obtain ⟨after, step, kept⟩ := stkpFree_sound laid page holds.least holds.word.le sound told
    simp only [stkpStep, freed, Option.bind_eq_bind, Option.bind_some, if_true, Option.some.injEq] at step
    subst step
    have sublist : ((live.filter fun entry => entry.1 ≠ q.toNat).map Prod.fst).Nodup :=
      sound.heldOnce.sublist (List.filter_sublist.map _)
    refine ⟨_, freed, ⟨created, laid, page, stkpSound_congr kept sublist fun r => ?_⟩, ?_, holds.word, holds.least⟩
    · have once : (live.map Prod.fst).Nodup := sound.heldOnce
      rw [once.mem_erase_iff]
      simp only [List.mem_map, List.mem_filter, decide_eq_true_eq]
      constructor
      · rintro ⟨entry, ⟨inside, other⟩, rfl⟩
        exact ⟨other, entry, inside, rfl⟩
      · rintro ⟨other, entry, inside, rfl⟩
        exact ⟨entry, ⟨inside, other⟩, rfl⟩
    · exact fun entry inside => holds.sized entry (List.mem_of_mem_filter inside)

/-- The bytes of a stack lie in its frame behind the guard page. -/
theorem StkpHolds.block (holds : StkpHolds config base stkpi live) {entry : Nat × Nat} (inside : entry ∈ live) :
    base ≤ entry.1 ∧ entry.1 + entry.2 ≤ (base + config.totalSize) / 32 * 32 ∧ minStkSize ≤ entry.2 := by
  obtain ⟨created, laid, page, sound⟩ := holds.pool
  obtain ⟨i, below, place, -⟩ := (sound.held entry.1).mp (List.mem_map_of_mem inside)
  have nodes := laid.nodes
  have stop := laid.inside i below
  have stack := laid.stack
  have first : created.frame 0 ≤ created.frame i := Nat.add_le_add_left (Nat.mul_le_mul_right _ (Nat.zero_le i)) _
  -- a frame ends where the next one would start, at a page of the system
  have next : created.frame (i + 1) = created.frame i + created.stkFrmSize := by
    rw [StkpImpl.frame, StkpImpl.frame, Nat.succ_mul, Nat.add_assoc]
  have units : 2 ^ 5 ∣ created.frame (i + 1) := by
    obtain ⟨k, least, -, power⟩ := page
    refine Nat.dvd_trans ?_ (Nat.dvd_of_mod_eq_zero (laid.aligned (i + 1)))
    rw [power]
    exact Nat.pow_dvd_pow 2 (by omega)
  rw [StkpImpl.payload] at place
  rw [holds.sized entry inside]
  exact ⟨by omega, by omega, holds.least⟩

theorem StkpHolds.apart (holds : StkpHolds config base stkpi live) : live.Pairwise Clear := by
  obtain ⟨created, laid, page, sound⟩ := holds.pool
  have separate := sound.separate laid
  have stack := laid.stack
  have kept : stkpi.stkFrmSize = created.stkFrmSize ∧ stkpi.sysPgSize = created.sysPgSize := by
    have same := sound.kept
    simp only at same
    exact ⟨by rw [same], by rw [same]⟩
  refine (List.pairwise_map.mp separate.once).imp_of_mem fun {first second} inFirst inSecond distinct => ?_
  have apart := separate.apart first.1 (List.mem_map_of_mem inFirst) second.1 (List.mem_map_of_mem inSecond) distinct
  have sizeFirst := holds.sized first inFirst
  have sizeSecond := holds.sized second inSecond
  simp only [kept.1, kept.2] at apart
  rw [Clear]
  omega

/-- A whole stack is larger than the head of a block. -/
theorem StkpHolds.inside (holds : StkpHolds config base stkpi live) {entry : Nat × Nat} (inside : entry ∈ live) :
    base ≤ entry.1 ∧ entry.1 + 16 < base + config.totalSize ∧
      entry.1 + entry.2 ≤ (base + config.totalSize) / 32 * 32 := by
  have block := holds.block inside
  rw [minStkSize] at block
  omega

theorem stkpOps_freed (env : Surroundings) (holds : StkpHolds config base stkpi live) (held : p ∈ live.map Prod.fst) :
    ∃ next, (stkpOps env).freeFunc (some stkpi) p = (next, 0) ∧
      ∃ after, next = some after ∧ StkpHolds config base after (live.filter fun entry => entry.1 ≠ p) := by
  obtain ⟨next, ran, after⟩ := holds.free held
  exact ⟨some next, by simp [stkpOps, ran], next, rfl, after⟩

/-- A stack pool gives stacks of one size and takes back each of them. -/
def stkpRules (env : Surroundings) (config : MmConfig) : PoolRules (stkpOps env) config where
  holds := fun base pool live => ∃ stkpi, pool = some stkpi ∧ StkpHolds config base stkpi live
  bytes := fun _ => (stkpConfig config).stkFrmSize.toNat
  mayCreate := StkpReady env config
  mayAlloc := fun _ => True
  mayFree := fun _ _ => True
  created := fun ready => by
    obtain ⟨stkpi, made, holds⟩ := stkpReady_made ready
    exact ⟨some stkpi, made, stkpi, rfl, holds⟩
  asked := by
    rintro base size - live ⟨stkpi, rfl, holds⟩ -
    exact ⟨some (stkpAlloc stkpi).1, given (stkpAlloc stkpi).2, rfl, _, rfl, holds.alloc⟩
  freed := by
    rintro base p - live ⟨stkpi, rfl, holds⟩ held -
    exact stkpOps_freed env holds held
  inside := by
    rintro base - live ⟨stkpi, rfl, holds⟩ entry inside
    exact holds.inside inside
  apart := by
    rintro base - live ⟨stkpi, rfl, holds⟩
    exact holds.apart

end Stacks

end Syslib.Mmspace
