import Syslib.Pgpool.Calls

namespace Syslib.Pgpool

open Rbtree ColoredTree IntrusiveLists Tiling

/-- The pages of the blocks in the free lists. -/
def PgpoolImpl.freePages (pgpi : PgpoolImpl) : Nat :=
  (((List.range pgpi.freelistCount).flatMap fun idx => pgpi.lists (.fln idx)).map fun pgn =>
    (pgpi.node pgn).pgCount).sum

/-- The block at the payload has the requested pages, and just these pages are no longer free. -/
def Exact (pgpi next : PgpoolImpl) (p n : Nat) : Prop :=
  ∃ a ∈ next.pgnFromPayload p, a ≠ 0 ∧ (next.node a).pgCount = n ∧ next.freePages + n = pgpi.freePages

instance Exact.decidable (pgpi next : PgpoolImpl) (p n : Nat) : Decidable (Exact pgpi next p n) :=
  inferInstanceAs (Decidable (∃ a ∈ _, _))

variable {a n : Nat} {pgpi next drawn : PgpoolImpl} {tree : ColorTree Nat} {nodes grown front back : List Nat}

section FreePages

/-- A block counts as free by its bits. -/
def PgpoolImpl.freeOf (pgpi : PgpoolImpl) (pgn : Nat) : Nat :=
  if (pgpi.node pgn).using = 0 then (pgpi.node pgn).pgCount else 0

/-- The free lists have the pages of the free nodes. -/
theorem freePages_eq (holds : Holds 0 pgpi tree nodes) (configured : Configured pgpi) :
    pgpi.freePages = (nodes.map pgpi.freeOf).sum := by
  have apart : ((List.range pgpi.freelistCount).flatMap fun idx => pgpi.lists (.fln idx)).Nodup := by
    refine List.nodup_flatMap.mpr ⟨fun idx _ => holds.listed.apart.nodup _, ?_⟩
    refine (@List.nodup_range pgpi.freelistCount).imp ?_
    intro first second distinct pgn inFirst inSecond
    exact distinct (PgList.fln.inj (holds.listed.apart.unique inFirst inSecond))
  have same : ∀ pgn, pgn ∈ (List.range pgpi.freelistCount).flatMap (fun idx => pgpi.lists (.fln idx)) ↔
      pgn ∈ nodes.filter fun pgn => (pgpi.node pgn).using = 0 := by
    intro pgn
    simp only [List.mem_flatMap, List.mem_range, List.mem_filter, decide_eq_true_eq]
    constructor
    · rintro ⟨idx, -, linked⟩
      obtain ⟨member, free, -⟩ := holds.listed.free.mp linked
      exact ⟨member, free⟩
    · rintro ⟨member, free⟩
      have real := (holds.listed.aligned (Or.inl member)).1
      exact ⟨_, configured.list_inside (holds.sized pgn member).2,
        holds.listed.free.mpr ⟨member, free, real, rfl⟩⟩
  have perm := (List.perm_ext_iff_of_nodup apart (holds.nodup.filter _)).mpr same
  rw [PgpoolImpl.freePages, (perm.map _).sum_eq]
  show _ = (nodes.map fun pgn => if (pgpi.node pgn).using = 0 then (pgpi.node pgn).pgCount else 0).sum
  rw [List.sum_map_ite]
  simp

theorem freeOf_congr (same : next.node a = pgpi.node a) : next.freeOf a = pgpi.freeOf a := by
  rw [PgpoolImpl.freeOf, PgpoolImpl.freeOf, same]

theorem freeOf_free (free : (pgpi.node a).using = 0) : pgpi.freeOf a = (pgpi.node a).pgCount := if_pos free

theorem freeOf_used (used : (pgpi.node a).using ≠ 0) : pgpi.freeOf a = 0 := if_neg used

/-- The pages that are no longer free are those of the block. -/
theorem freePages_allocated (holds : Holds 0 pgpi tree nodes) (configured : Configured pgpi)
    (taken : Drawn n pgpi nodes a drawn grown) (allocated : Allocated n pgpi nodes a next grown)
    (count : (next.node a).pgCount = (drawn.node a).pgCount)
    (others : ∀ c, c ≠ a → next.node c = drawn.node c) :
    next.freePages + (next.node a).pgCount = pgpi.freePages := by
  obtain ⟨result, final⟩ := allocated.holds
  have used : next.freeOf a = 0 := freeOf_used (by rw [allocated.used]; decide)
  have free := freeOf_free allocated.free
  have still {c : Nat} (inside : c ∈ nodes) (other : c ≠ a) : next.freeOf c = pgpi.freeOf c :=
    freeOf_congr (allocated.others c inside other).2
  rw [freePages_eq holds configured, freePages_eq final (configured.kept allocated.kept)]
  obtain ⟨front, back, rfl, shape⟩ := taken.rows
  have once := (List.nodup_middle.mp holds.nodup).notMem
  have inFront : front.map next.freeOf = front.map pgpi.freeOf := List.map_congr_left fun c inside =>
    still (by simp [inside]) fun same => once (same ▸ List.mem_append_left _ inside)
  have inBack : back.map next.freeOf = back.map pgpi.freeOf := List.map_congr_left fun c inside =>
    still (by simp [inside]) fun same => once (same ▸ List.mem_append_right _ inside)
  rcases shape with ⟨rfl, whole⟩ | ⟨b, rfl, fresh, unused, parts⟩
  · simp only [List.map_append, List.map_cons, List.sum_append, List.sum_cons, inFront, inBack, used, free,
      count, whole]
    omega
  · have notA : b ≠ a := fun same => fresh (by simp [same])
    have rest : next.freeOf b = (drawn.node b).pgCount := by
      rw [freeOf_congr (others b notA), freeOf_free unused]
    simp only [List.map_append, List.map_cons, List.sum_append, List.sum_cons, inFront, inBack, used, free,
      count, rest, ← parts]
    omega

end FreePages

/-- A request of so many pages gets a block that is exact unless the list of its class has a larger one first. -/
theorem pgpAlloc_exact (holds : Holds 0 pgpi tree nodes) (configured : Configured pgpi) (junk : Junk)
    {size p : Nat} (positive : 1 ≤ pgpi.pagesOf size) (large : pgpi.pagesOf size ≤ pgpi.maxpgCount)
    (run : pgpAlloc junk pgpi size = some (next, p)) (real : p ≠ 0) :
    Exact pgpi next p (pgpi.pagesOf size) ↔ ¬ pgpi.Oversized (pgpi.pagesOf size) := by
  rcases pgpAlloc_drawn holds configured junk size positive pagesOf_lt fun _ => configured.list_inside large with
    ⟨none_free, -⟩ | ⟨a, drawn, final, grown, taken, draws, allocated, count, others⟩
  · rw [none_free] at run
    cases run
    exact absurd rfl real
  · rw [taken] at run
    cases run
    obtain ⟨result, after⟩ := allocated.holds
    have drop := freePages_allocated holds configured draws allocated count others
    have found : next.pgnFromPayload (pgpi.payload a) = some a := by
      rw [← allocated.payload]
      exact pgnFromPayload_eq after allocated.still
    have block := (holds.listed.aligned (Or.inl allocated.member)).1
    rw [← draws.fits, ← count]
    constructor
    · rintro ⟨c, here, -, same, -⟩
      rw [found] at here
      obtain rfl := Option.some.inj here
      exact same
    · intro same
      refine ⟨a, found, block, same, ?_⟩
      rw [← same]
      exact drop

/-- In every pool that is reached exactly the requests without a larger first block are served exactly. -/
theorem pgpCalls_exact (junk : Junk) (rslt : Int) (addr : Nat) (cfg : PgpConfig)
    (accepted : Accepted addr cfg) :
    ∃ built, pgpCreate junk rslt addr cfg = some built ∧ ∀ pgpi ∈ built, ∀ calls,
      Runs.Meets pgpStep (fun call state => Sized call state ∧ Counted call state) calls ⟨pgpi, []⟩ →
      ∃ final, Runs.exec pgpStep calls ⟨pgpi, []⟩ = some final ∧
        ∀ (junk : Junk) (size : BitVec 64) (n : Nat) next p, final.pool.pagesOf size.toNat = n → 1 ≤ n →
          n ≤ final.pool.maxpgCount → pgpAlloc junk final.pool size.toNat = some (next, p) → p ≠ 0 →
          (Exact final.pool next p n ↔ ¬ final.pool.Oversized n) := by
  obtain ⟨built, run, pools⟩ := sized_reached junk rslt accepted
  refine ⟨built, run, fun pgpi here calls meets => ?_⟩
  obtain ⟨configured, reach⟩ := pools pgpi here
  obtain ⟨final, taken, tree, nodes, reached⟩ := reach calls meets
  refine ⟨final, taken, ?_⟩
  rintro junk size n next p rfl positive large run real
  exact pgpAlloc_exact reached.holds (configured.kept reached.kept) junk positive large run real

/-- The only block has three pages, and two requests take a page of it each. -/
theorem pgpCalls_exact_one : ∃ pgpi final,
    pgpCreate ⟨0, 0, 0, 0, 0⟩ 0 64 ⟨1152, 64, 3⟩ = some (some pgpi) ∧
    Runs.exec pgpStep [.alloc ⟨9, 0, 0, 0, 0⟩ 64] ⟨pgpi, []⟩ = some final ∧
    ∃ next p, pgpAlloc ⟨9, 0, 0, 0, 0⟩ final.pool 64 = some (next, p) ∧ p ≠ 0 ∧ Exact final.pool next p 1 := by
  obtain ⟨built, run, pools⟩ := pgpCalls_exact ⟨0, 0, 0, 0, 0⟩ 0 64 ⟨1152, 64, 3⟩
    (Accepted.of_large ⟨6, by decide, by decide⟩ (by decide) (by decide +kernel))
  have meets : ∀ found ∈ pgpCreate ⟨0, 0, 0, 0, 0⟩ 0 64 ⟨1152, 64, 3⟩, found.isSome ∧ ∀ pgpi ∈ found,
      Runs.Meets pgpStep (fun call state => Sized call state ∧ Counted call state)
        [.alloc ⟨9, 0, 0, 0, 0⟩ 64] ⟨pgpi, []⟩ ∧
      ∀ final ∈ Runs.exec pgpStep [.alloc ⟨9, 0, 0, 0, 0⟩ 64] ⟨pgpi, []⟩,
        final.pool.pagesOf 64 = 1 ∧ 1 ≤ final.pool.maxpgCount ∧ ¬ final.pool.Oversized 1 ∧
        ∃ result ∈ pgpAlloc ⟨9, 0, 0, 0, 0⟩ final.pool 64, result.2 ≠ 0 := by
    decide +kernel
  obtain ⟨created, known⟩ := meets built run
  obtain ⟨pgpi, rfl⟩ := Option.isSome_iff_exists.mp created
  obtain ⟨requested, after⟩ := known pgpi rfl
  obtain ⟨final, taken, exact⟩ := pools pgpi rfl _ requested
  obtain ⟨onePage, large, fitting, ⟨next, p⟩, served, real⟩ := after final taken
  exact ⟨pgpi, final, run, taken, next, p, served, real,
    (exact ⟨9, 0, 0, 0, 0⟩ 64 1 next p onePage (Nat.le_refl _) large served real).mpr fitting⟩

/-- A request of two pages takes the whole block of three. -/
theorem pgpAlloc_oversized : ∃ built ∈ pgpCreate ⟨0, 0, 0, 0, 0⟩ 0 64 ⟨1152, 64, 3⟩, ∃ pgpi ∈ built,
    pgpi.pagesOf 128 = 2 ∧ pgpi.maxpgCount = 3 ∧ pgpi.freePages = 3 ∧
    ∃ result ∈ pgpAlloc ⟨0, 0, 0, 0, 0⟩ pgpi 128, result.2 ≠ 0 ∧ result.1.freePages = 0 ∧
      ¬ Exact pgpi result.1 result.2 2 := by
  decide +kernel

section Complete

/-- A request of so many pages fails exactly when no free block has them, and then nothing has changed. -/
theorem pgpAlloc_complete (holds : Holds 0 pgpi tree nodes) (configured : Configured pgpi) (junk : Junk)
    {size : Nat} (positive : 1 ≤ pgpi.pagesOf size) (large : pgpi.pagesOf size ≤ pgpi.maxpgCount) :
    ∃ next p, pgpAlloc junk pgpi size = some (next, p) ∧
      (p = 0 ↔ ∀ c ∈ nodes, (pgpi.node c).using = 0 → (pgpi.node c).pgCount < pgpi.pagesOf size) ∧
      (p = 0 → next = pgpi) := by
  rcases pgpAlloc_drawn holds configured junk size positive pagesOf_lt fun _ =>
      configured.list_inside large with
    ⟨none_free, small⟩ | ⟨a, drawn, next, grown, run, -, allocated, -, -⟩
  · exact ⟨pgpi, 0, none_free, iff_of_true rfl small, fun _ => rfl⟩
  · have real := Nat.ne_of_gt (payload_pos holds configured allocated.member)
    refine ⟨next, _, run, iff_of_false real fun small => ?_, fun zero => absurd zero real⟩
    exact Nat.not_lt.mpr allocated.large (small a allocated.member allocated.free)

/-- In every pool that is reached a request fails exactly when no free block is large enough. -/
theorem pgpCalls_complete (junk : Junk) (rslt : Int) (addr : Nat) (cfg : PgpConfig)
    (accepted : Accepted addr cfg) :
    ∃ built, pgpCreate junk rslt addr cfg = some built ∧ ∀ pgpi ∈ built, ∀ calls,
      Runs.Meets pgpStep (fun call state => Sized call state ∧ Counted call state) calls ⟨pgpi, []⟩ →
      ∃ final, Runs.exec pgpStep calls ⟨pgpi, []⟩ = some final ∧
        ∃ tree nodes, PoolLaw pgpi.chunkAddr pgpi.limit final tree nodes ∧
          ∀ (junk : Junk) (size : BitVec 64) (n : Nat), final.pool.pagesOf size.toNat = n → 1 ≤ n →
            n ≤ final.pool.maxpgCount → ∃ next p, pgpAlloc junk final.pool size.toNat = some (next, p) ∧
              (p = 0 ↔ ∀ c ∈ nodes, (final.pool.node c).using = 0 → (final.pool.node c).pgCount < n) ∧
              (p = 0 → next = final.pool) := by
  obtain ⟨built, run, pools⟩ := sized_reached junk rslt accepted
  refine ⟨built, run, fun pgpi here calls meets => ?_⟩
  obtain ⟨configured, reach⟩ := pools pgpi here
  obtain ⟨final, taken, tree, nodes, reached⟩ := reach calls meets
  refine ⟨final, taken, tree, nodes, reached.law, ?_⟩
  rintro junk size n rfl positive large
  exact pgpAlloc_complete reached.holds (configured.kept reached.kept) junk positive large

/-- The only block has two pages and is in use, so no page is left. -/
theorem pgpCalls_complete_full : ∃ pgpi final,
    pgpCreate ⟨0, 0, 0, 0, 0⟩ 0 64 ⟨896, 64, 2⟩ = some (some pgpi) ∧
    Runs.exec pgpStep [.alloc ⟨0, 0, 0, 0, 0⟩ 128] ⟨pgpi, []⟩ = some final ∧
    ∃ next p, pgpAlloc ⟨0, 0, 0, 0, 0⟩ final.pool 64 = some (next, p) ∧ (p = 0 → next = final.pool) := by
  obtain ⟨built, run, pools⟩ := pgpCalls_complete ⟨0, 0, 0, 0, 0⟩ 0 64 ⟨896, 64, 2⟩
    (Accepted.of_large ⟨6, by decide, by decide⟩ (by decide) (by decide +kernel))
  have meets : ∀ found ∈ pgpCreate ⟨0, 0, 0, 0, 0⟩ 0 64 ⟨896, 64, 2⟩, found.isSome ∧ ∀ pgpi ∈ found,
      Runs.Meets pgpStep (fun call state => Sized call state ∧ Counted call state)
        [.alloc ⟨0, 0, 0, 0, 0⟩ 128] ⟨pgpi, []⟩ ∧
      ∀ final ∈ Runs.exec pgpStep [.alloc ⟨0, 0, 0, 0, 0⟩ 128] ⟨pgpi, []⟩,
        final.pool.pagesOf 64 = 1 ∧ 1 ≤ final.pool.maxpgCount := by
    decide +kernel
  obtain ⟨created, known⟩ := meets built run
  obtain ⟨pgpi, rfl⟩ := Option.isSome_iff_exists.mp created
  obtain ⟨requested, after⟩ := known pgpi rfl
  obtain ⟨final, taken, tree, nodes, -, complete⟩ := pools pgpi rfl _ requested
  obtain ⟨onePage, large⟩ := after final taken
  obtain ⟨next, p, served, -, same⟩ := complete ⟨0, 0, 0, 0, 0⟩ 64 1 onePage (Nat.le_refl _) large
  exact ⟨pgpi, final, run, taken, next, p, served, same⟩

/-- Each request of no pages takes a descriptor for the rest of the block, and a fourth split finds none:
    a request of one page faults while a block of two pages is free. -/
theorem pgpAlloc_starved : ∃ built ∈ pgpCreate ⟨0, 0, 0, 0, 0⟩ 0 64 ⟨896, 64, 2⟩, ∃ pgpi ∈ built,
    ∃ final ∈ Runs.exec pgpStep
      [.alloc ⟨0, 0, 0, 0, 0⟩ 0, .alloc ⟨0, 0, 0, 0, 0⟩ 0, .alloc ⟨0, 0, 0, 0, 0⟩ 0] ⟨pgpi, []⟩,
    final.pool.pagesOf 64 = 1 ∧ final.pool.maxpgCount = 2 ∧ 528 ∈ final.pool.lists (.fln 1) ∧
    (final.pool.node 528).using = 0 ∧ (final.pool.node 528).pgCount = 2 ∧
    pgpAlloc ⟨0, 0, 0, 0, 0⟩ final.pool 64 = none := by
  decide +kernel

end Complete

end Syslib.Pgpool
