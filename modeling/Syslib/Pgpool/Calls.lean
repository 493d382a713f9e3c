import Syslib.Library.Runs
import Syslib.Pgpool.Overflow

namespace Syslib.Pgpool

open Rbtree ColoredTree IntrusiveLists Tiling

/-- Each call reads its own values of `log_2(0)`. -/
inductive PgpCall where
  | alloc (junk : Junk) (size : BitVec 64)
  | free (junk : Junk) (payload : BitVec 64)
  deriving DecidableEq, Repr

/-- The blocks have been returned and not yet freed; each is a pointer and the size of its request. -/
structure PgpState where
  pool : PgpoolImpl
  blocks : List (Nat × Nat)

def pgpStep : PgpCall → PgpState → Option PgpState
  | .alloc junk size, state => do
      let (pool, payload) ← pgpAlloc junk state.pool size.toNat
      some ⟨pool, if payload = 0 then state.blocks else (payload, size.toNat) :: state.blocks⟩
  | .free junk payload, state => do
      let (pool, rslt) ← pgpFree junk state.pool payload.toNat
      some ⟨pool, if rslt < 0 then state.blocks
        else state.blocks.filter fun block => block.1 ≠ payload.toNat⟩

/-- The nodes tile the range, the lists have the free ones, and the blocks are disjoint nodes in use. -/
structure PoolLaw (lo hi : Nat) (state : PgpState) (tree : ColorTree Nat) (nodes : List Nat) : Prop where
  wellFormed : WellFormed (· < ·) state.pool.pgnTree tree
  linked : tree.nodes = nodes.map (· + rbNodeOffset)
  tiled : Tiles state.pool.payload state.pool.bytes nodes lo hi
  sized : ∀ pgn ∈ nodes,
    1 ≤ (state.pool.node pgn).pgCount ∧ (state.pool.node pgn).pgCount ≤ state.pool.maxpgCount
  free : ∀ pgn idx, pgn ∈ state.pool.lists (.fln idx) ↔
    pgn ∈ nodes ∧ (state.pool.node pgn).using = 0 ∧ idx = Nat.log2 (state.pool.node pgn).pgCount
  once : ∀ idx, (state.pool.lists (.fln idx)).Nodup
  owned : ∀ block ∈ state.blocks, ∃ pgn ∈ nodes, state.pool.payload pgn = block.1 ∧
    (state.pool.node pgn).using ≠ 0 ∧ block.2 ≤ state.pool.bytes pgn
  disjoint : state.blocks.Pairwise fun first second => ∀ a ∈ nodes, ∀ b ∈ nodes,
    state.pool.payload a = first.1 → state.pool.payload b = second.1 →
      first.1 + state.pool.bytes a ≤ second.1 ∨ second.1 + state.pool.bytes b ≤ first.1

/-- A request has one page at least and not more than the largest block. -/
def Requested (cfg : PgpConfig) : PgpCall → Prop
  | .alloc _ size => 1 ≤ size.toNat ∧ size.toNat ≤ cfg.maxpgCount.toNat * cfg.pageSize.toNat
  | .free _ _ => True

/-- The counter of the tree has not wrapped when blocks may be merged. -/
def Counted : PgpCall → PgpState → Prop
  | .alloc _ _, _ => True
  | .free _ _, state => state.pool.Few

/-- The pages of the size do not wrap around, and a power of two of them has a list. -/
def PgpoolImpl.Fits (pgpi : PgpoolImpl) (size : Nat) : Prop :=
  size ≠ 0 ∧ size + pgpi.pgSize ≤ 2 ^ 64 ∧
    let pages := (size + pgpi.pgSize - 1) / pgpi.pgSize
    pages = 2 ^ Nat.log2 pages → Nat.log2 pages < pgpi.freelistCount

/-- The call returns a free block with enough pages, or null and changes nothing. -/
def Safe (junk : Junk) (pgpi : PgpoolImpl) (size : Nat) : Prop :=
  ∃ next p, pgpAlloc junk pgpi size = some (next, p) ∧
    (p = 0 ∧ next = pgpi ∨
      ∃ a idx, a ∈ pgpi.lists (.fln idx) ∧ (pgpi.node a).using = 0 ∧ pgpi.payload a = p ∧
        next.payload a = p ∧ (size + pgpi.pgSize - 1) / pgpi.pgSize ≤ (next.node a).pgCount)

/-- A request for as many bytes as the pool can count and list. -/
def Sized : PgpCall → PgpState → Prop
  | .alloc _ size, state => state.pool.Fits size.toNat
  | .free _ _, _ => True

instance Sized.decidable : ∀ (call : PgpCall) (state : PgpState), Decidable (Sized call state)
  | .alloc _ _, _ => inferInstanceAs (Decidable (_ ∧ _ ∧ (_ → _)))
  | .free _ _, _ => isTrue trivial

instance Requested.decidable (cfg : PgpConfig) : ∀ call : PgpCall, Decidable (Requested cfg call)
  | .alloc _ _ => inferInstanceAs (Decidable (_ ∧ _))
  | .free _ _ => isTrue trivial

instance Counted.decidable : ∀ (call : PgpCall) (state : PgpState), Decidable (Counted call state)
  | .alloc _ _, _ => isTrue trivial
  | .free _ _, _ => inferInstanceAs (Decidable (_ ∨ _))

/-- Each block of the ledger has a node of its own. -/
structure Ledger (pgpi : PgpoolImpl) (nodes : List Nat) (blocks : List (Nat × Nat)) : Prop where
  distinct : (blocks.map Prod.fst).Nodup
  owned : ∀ block ∈ blocks, ∃ pgn ∈ nodes, pgpi.payload pgn = block.1 ∧
    (pgpi.node pgn).using ≠ 0 ∧ block.2 ≤ pgpi.bytes pgn

/-- The state of a pool that was created once. -/
structure Reached (created : PgpoolImpl) (state : PgpState) (tree : ColorTree Nat) (nodes : List Nat) :
    Prop where
  kept : created.Kept state.pool
  holds : Holds 0 state.pool tree nodes
  ledger : Ledger state.pool nodes state.blocks

variable {a p size : Nat} {created pgpi next : PgpoolImpl} {state : PgpState} {tree : ColorTree Nat}
  {nodes grown fewer : List Nat} {blocks : List (Nat × Nat)}

section Sizes

theorem pagesOf_eq (configured : Configured pgpi) (inside : size + pgpi.pgSize ≤ 2 ^ 64) :
    pgpi.pagesOf size = (size + pgpi.pgSize - 1) / pgpi.pgSize := by
  obtain ⟨k, -, small, order⟩ := configured.order
  rw [order] at inside
  rw [PgpoolImpl.pagesOf, order, roundUp_eq inside (by omega), Nat.mul_div_cancel_left _ (Nat.two_pow_pos k)]

/-- A size near the end of the address space is rounded up to zero. -/
theorem pagesOf_wraps (configured : Configured pgpi) (word : size < 2 ^ 64)
    (outside : 2 ^ 64 < size + pgpi.pgSize) : pgpi.pagesOf size = 0 := by
  obtain ⟨k, -, small, order⟩ := configured.order
  have page : 2 ^ k < 2 ^ 32 := Nat.pow_lt_pow_right (by decide) small
  rw [order] at outside
  have wrapped : (size + 2 ^ k - 1) % 2 ^ 64 = size + 2 ^ k - 1 - 2 ^ 64 := by omega
  rw [PgpoolImpl.pagesOf, order, roundUp, wrapped, and_mask (by omega) (by omega),
    Nat.div_eq_of_lt (by omega : size + 2 ^ k - 1 - 2 ^ 64 < 2 ^ k)]
  simp

theorem pagesOf_lt : pgpi.pagesOf size < 2 ^ 64 :=
  (Nat.div_le_self _ _).trans_lt (Nat.and_le_left.trans_lt (Nat.mod_lt _ (by decide)))

/-- The pages of a size are enough for it. -/
theorem pagesOf_enough (configured : Configured pgpi) (inside : size + pgpi.pgSize ≤ 2 ^ 64) :
    size ≤ pgpi.pagesOf size * pgpi.pgSize := by
  have page := configured.positive
  have parts := Nat.div_add_mod (size + pgpi.pgSize - 1) pgpi.pgSize
  have rest := Nat.mod_lt (size + pgpi.pgSize - 1) page
  rw [pagesOf_eq configured inside, Nat.mul_comm]
  omega

theorem pagesOf_positive (configured : Configured pgpi) (inside : size + pgpi.pgSize ≤ 2 ^ 64)
    (some_byte : size ≠ 0) : 1 ≤ pgpi.pagesOf size ∧ pgpi.pagesOf size < 2 ^ 64 := by
  have page := configured.positive
  have enough := pagesOf_enough configured inside
  constructor
  · refine Nat.pos_of_ne_zero fun zero => some_byte ?_
    rw [zero, Nat.zero_mul] at enough
    exact Nat.le_zero.mp enough
  · rw [pagesOf_eq configured inside]
    refine lt_of_le_of_lt (Nat.div_le_self _ _) ?_
    omega

/-- A request of at most the largest block fits. -/
theorem fits_of_le (configured : Configured pgpi) (some_byte : 1 ≤ size)
    (word : pgpi.maxpgCount < 2 ^ 32) (large : size ≤ pgpi.maxpgCount * pgpi.pgSize) : pgpi.Fits size := by
  have page := configured.positive
  obtain ⟨k, -, small, order⟩ := configured.order
  have pageWord : pgpi.pgSize < 2 ^ 32 := order ▸ Nat.pow_lt_pow_right (by decide) small
  have product : pgpi.maxpgCount * pgpi.pgSize < 2 ^ 32 * 2 ^ 32 := Nat.mul_lt_mul'' word pageWord
  have least : pgpi.maxpgCount * pgpi.pgSize + pgpi.pgSize ≤ 2 ^ 64 := by
    rw [← Nat.succ_mul]
    calc (pgpi.maxpgCount + 1) * pgpi.pgSize ≤ 2 ^ 32 * 2 ^ 32 := Nat.mul_le_mul (by omega) (by omega)
      _ = 2 ^ 64 := by decide
  refine ⟨by omega, by omega, fun _ => configured.list_inside ?_⟩
  refine Nat.le_of_lt_succ ((Nat.div_lt_iff_lt_mul page).mpr ?_)
  rw [Nat.succ_mul]
  omega

end Sizes

section Law

/-- The tree of a pool with pages has a root. -/
theorem PoolLaw.root {lo hi : Nat} (law : PoolLaw lo hi state tree nodes) (some_page : lo < hi) :
    state.pool.pgnTree.root ≠ 0 := by
  rw [law.wellFormed.linked.root]
  have inner : tree ≠ .leaf := by
    rintro rfl
    have empty : nodes = [] := List.map_eq_nil_iff.mp law.linked.symm
    have tiled := law.tiled
    rw [empty] at tiled
    exact absurd tiled (Nat.ne_of_lt some_page)
  exact (law.wellFormed.linked.aligned _ (ptr_mem inner)).1

end Law

section Step

/-- A node in use that no call has touched still backs its block. -/
theorem Ledger.keep (ledger : Ledger pgpi nodes blocks) (page : next.pgSize = pgpi.pgSize)
    {some_blocks : List (Nat × Nat)} (part : some_blocks.Sublist blocks)
    (others : ∀ pgn ∈ nodes, (∃ block ∈ some_blocks, pgpi.payload pgn = block.1) →
      (pgpi.node pgn).using ≠ 0 → pgn ∈ grown ∧ next.node pgn = pgpi.node pgn) :
    Ledger next grown some_blocks := by
  refine ⟨ledger.distinct.sublist (part.map _), ?_⟩
  intro block member
  obtain ⟨pgn, inside, payload, used, large⟩ := ledger.owned block (part.subset member)
  obtain ⟨still, same⟩ := others pgn inside ⟨block, member, payload⟩ used
  refine ⟨pgn, still, ?_, ?_, ?_⟩
  · rw [PgpoolImpl.payload, same]
    exact payload
  · rwa [same]
  · rwa [PgpoolImpl.bytes, same, page]

/-- The payload of a node is not null. -/
theorem payload_pos (holds : Holds 0 pgpi tree nodes) (configured : Configured pgpi) (member : a ∈ nodes) :
    0 < pgpi.payload a :=
  lt_of_lt_of_le configured.real (holds.tiled.bounds member).1

theorem Ledger.alloc (ledger : Ledger pgpi nodes blocks) (holds : Holds 0 pgpi tree nodes)
    (enough : size ≤ pgpi.pagesOf size * pgpi.pgSize)
    (allocated : Allocated (pgpi.pagesOf size) pgpi nodes a next grown) :
    Ledger next grown ((pgpi.payload a, size) :: blocks) := by
  have page : next.pgSize = pgpi.pgSize := by rw [allocated.kept]
  have apart : ∀ pgn ∈ nodes, (pgpi.node pgn).using ≠ 0 → pgn ≠ a := by
    rintro pgn inside used rfl
    exact used allocated.free
  have kept : Ledger next grown blocks := ledger.keep page (List.Sublist.refl _) fun pgn inside _ used =>
    allocated.others pgn inside (apart pgn inside used)
  constructor
  · refine List.nodup_cons.mpr ⟨?_, kept.distinct⟩
    intro again
    obtain ⟨block, member, same⟩ := List.mem_map.mp again
    obtain ⟨pgn, inside, payload, used, -⟩ := ledger.owned block member
    exact apart pgn inside used
      (holds.tiled.start_inj inside allocated.member (payload.trans same))
  · intro block member
    rcases List.mem_cons.mp member with rfl | old
    · refine ⟨a, allocated.still, allocated.payload, ?_, ?_⟩
      · rw [allocated.used]
        decide
      · rw [PgpoolImpl.bytes, page]
        exact Nat.le_trans enough (Nat.mul_le_mul_right _ allocated.enough)
    · exact kept.owned block old

theorem Ledger.free (ledger : Ledger pgpi nodes blocks) (freed : Freed p pgpi nodes a next fewer) :
    Ledger next fewer (blocks.filter fun block => block.1 ≠ p) := by
  have page : next.pgSize = pgpi.pgSize := by rw [freed.kept]
  refine ledger.keep page List.filter_sublist ?_
  rintro pgn inside ⟨block, member, payload⟩ used
  refine freed.others pgn inside ?_ used
  rintro rfl
  have other := (List.mem_filter.mp member).2
  simp only [ne_eq, decide_eq_true_eq] at other
  exact other (payload.symm.trans freed.payload)

theorem Reached.law (reached : Reached created state tree nodes) :
    PoolLaw created.chunkAddr created.limit state tree nodes := by
  have holds := reached.holds
  have start : state.pool.chunkAddr = created.chunkAddr := by rw [reached.kept]
  have stop : state.pool.limit = created.limit := by
    rw [reached.kept]
    rfl
  have tiled := holds.tiled
  rw [start, stop] at tiled
  refine ⟨holds.inTree.wellFormed, holds.inTree.listed, tiled, holds.sized, ?_,
    fun idx => holds.listed.apart.nodup _, reached.ledger.owned, ?_⟩
  · intro pgn idx
    have real : pgn ∈ nodes → pgn ≠ 0 := fun inside => (holds.listed.aligned (Or.inl inside)).1
    rw [holds.listed.free]
    tauto
  · refine (List.pairwise_map.mp reached.ledger.distinct).imp ?_
    intro first second distinct a inA b inB payloadA payloadB
    rw [← payloadA, ← payloadB]
    refine tiled.disjoint inA inB ?_
    rintro rfl
    exact distinct (payloadA.symm.trans payloadB)

/-- A size that fits gets a block or changes nothing. -/
theorem alloc_fits (holds : Holds 0 pgpi tree nodes) (configured : Configured pgpi)
    (fits : pgpi.Fits size) (junk : Junk) :
    pgpAlloc junk pgpi size = some (pgpi, 0) ∨
      ∃ a next grown, pgpAlloc junk pgpi size = some (next, pgpi.payload a) ∧
        Allocated (pgpi.pagesOf size) pgpi nodes a next grown := by
  obtain ⟨some_byte, inside, listed⟩ := fits
  obtain ⟨positive, word⟩ := pagesOf_positive configured inside some_byte
  refine pgpAlloc_holds holds configured junk size positive word ?_
  rw [pagesOf_eq configured inside]
  exact listed

/-- One call keeps the pool and the ledger in step. -/
theorem pgpStep_reached (configured : Configured created) (reached : Reached created state tree nodes)
    (call : PgpCall) (fits : ∀ junk size, call = .alloc junk size → state.pool.Fits size.toNat)
    (counted : Counted call state) :
    ∃ next result grown, pgpStep call state = some next ∧ Reached created next result grown := by
  have holds := reached.holds
  have here := configured.kept reached.kept
  cases call with
  | alloc junk size =>
      have fits := fits junk size rfl
      rcases alloc_fits holds here fits junk with none_free | ⟨a, next, grown, run, allocated⟩
      · exact ⟨state, tree, nodes, by simp [pgpStep, none_free], reached⟩
      · obtain ⟨result, final⟩ := allocated.holds
        have real := payload_pos holds here allocated.member
        refine ⟨⟨next, (state.pool.payload a, size.toNat) :: state.blocks⟩, result, grown, ?_,
          reached.kept.trans allocated.kept, final,
          reached.ledger.alloc holds (pagesOf_enough here fits.2.1) allocated⟩
        simp [pgpStep, run, Nat.ne_of_gt real]
  | free junk payload =>
      rcases pgpFree_holds holds here counted junk payload.toNat with
        ⟨refused, -⟩ | ⟨a, next, fewer, run, released⟩
      · exact ⟨state, tree, nodes, by simp [pgpStep, refused], reached⟩
      · have freed := released.toFreed
        obtain ⟨result, final⟩ := freed.holds
        refine ⟨⟨next, state.blocks.filter fun block => block.1 ≠ payload.toNat⟩, result, fewer, ?_,
          reached.kept.trans freed.kept, final, reached.ledger.free freed⟩
        simp [pgpStep, run]

theorem Carved.reached (carved : Carved pgpi tree nodes pgpi.limit) : Reached pgpi ⟨pgpi, []⟩ tree nodes :=
  ⟨rfl, carved.holds, ⟨List.nodup_nil, by simp⟩⟩

end Step

/-- A run of calls whose sizes fit the pool that it starts from. -/
theorem exec_reached (configured : Configured created) {allowed : PgpCall → PgpState → Prop}
    (fits : ∀ call state, created.Kept state.pool → allowed call state →
      ∀ junk size, call = .alloc junk size → state.pool.Fits size.toNat)
    (counted : ∀ call state, allowed call state → Counted call state)
    (reached : Reached created state tree nodes) (calls : List PgpCall)
    (meets : Runs.Meets pgpStep allowed calls state) :
    ∃ final, Runs.exec pgpStep calls state = some final ∧
      ∃ result grown, Reached created final result grown := by
  refine @Runs.exec_invariant _ _ pgpStep allowed
    (fun state => ∃ result grown, Reached created state result grown) ?_ calls state
    ⟨tree, nodes, reached⟩ meets
  rintro call state ⟨result, grown, here⟩ allowed
  obtain ⟨next, final, more, run, after⟩ := pgpStep_reached configured here call
    (fits call state here.kept allowed) (counted call state allowed)
  exact ⟨next, run, final, more, after⟩

/-- After every run of requests and releases the pool is a tiling and the blocks are disjoint. -/
theorem pgpCalls_lawful (junk : Junk) (rslt : Int) (addr : Nat) (cfg : PgpConfig)
    (order : ∃ k, 6 ≤ k ∧ cfg.pageSize.toNat = 2 ^ k) (onePage : 1 ≤ cfg.maxpgCount.toNat)
    (room : headsEnd addr cfg ≤ rangeEnd addr cfg) :
    ∃ built, pgpCreate junk rslt addr cfg = some built ∧ ∀ pgpi ∈ built,
      addr ≤ pgpi.chunkAddr ∧ pgpi.limit ≤ pgpi.addrEnd ∧ ∀ calls,
        Runs.Meets pgpStep (fun call state => Requested cfg call ∧ Counted call state) calls ⟨pgpi, []⟩ →
        ∃ final, Runs.exec pgpStep calls ⟨pgpi, []⟩ = some final ∧
          ∃ tree nodes, PoolLaw pgpi.chunkAddr pgpi.limit final tree nodes := by
  obtain ⟨built, run, -, pools⟩ := pgpCreate_holds (Accepted.of_large order onePage room) junk rslt
  refine ⟨built, run, fun pgpi here => ?_⟩
  obtain ⟨kept, configured, start, stop, tree, nodes, carved⟩ := pools pgpi here
  refine ⟨start, stop (cacheLine_dvd order).2, fun calls meets => ?_⟩
  obtain ⟨final, taken, result, grown, reached⟩ := exec_reached configured (by
      rintro call state same ⟨requested, -⟩ junk size rfl
      have count : state.pool.maxpgCount = cfg.maxpgCount.toNat := by
        rw [same, kept]
        rfl
      have page : state.pool.pgSize = cfg.pageSize.toNat := by
        rw [same, kept]
        rfl
      refine fits_of_le (configured.kept same) requested.1 ?_ ?_
      · rw [count]
        exact cfg.maxpgCount.isLt
      · rw [count, page]
        exact requested.2)
    (fun call state both => both.2) carved.reached calls meets
  exact ⟨final, taken, result, grown, reached.law⟩

/-- A block of one page is cut from two pages and given back, and a stray pointer is refused. -/
theorem pgpCalls_lawful_cut : ∃ pgpi final,
    pgpCreate ⟨0, 0, 0, 0, 0⟩ 0 64 ⟨1152, 64, 2⟩ = some (some pgpi) ∧
    Runs.exec pgpStep [.alloc ⟨9, 0, 0, 0, 0⟩ 64, .alloc ⟨0, 0, 0, 0, 0⟩ 100, .free ⟨0, 0, 0, 0, 0⟩ 896,
      .free ⟨0, 0, 0, 0, 0⟩ 7] ⟨pgpi, []⟩ = some final ∧
    ∃ tree nodes, PoolLaw pgpi.chunkAddr pgpi.limit final tree nodes := by
  obtain ⟨built, run, pools⟩ := pgpCalls_lawful ⟨0, 0, 0, 0, 0⟩ 0 64 ⟨1152, 64, 2⟩
    ⟨6, by decide, by decide⟩ (by decide) (by decide +kernel)
  have meets : ∀ found ∈ pgpCreate ⟨0, 0, 0, 0, 0⟩ 0 64 ⟨1152, 64, 2⟩, found.isSome ∧ ∀ pgpi ∈ found,
      Runs.Meets pgpStep (fun call state => Requested ⟨1152, 64, 2⟩ call ∧ Counted call state)
        [.alloc ⟨9, 0, 0, 0, 0⟩ 64, .alloc ⟨0, 0, 0, 0, 0⟩ 100, .free ⟨0, 0, 0, 0, 0⟩ 896,
          .free ⟨0, 0, 0, 0, 0⟩ 7] ⟨pgpi, []⟩ := by decide +kernel
  obtain ⟨created, requested⟩ := meets built run
  obtain ⟨pgpi, rfl⟩ := Option.isSome_iff_exists.mp created
  obtain ⟨-, -, calls⟩ := pools pgpi rfl
  obtain ⟨final, taken, law⟩ := calls _ (requested pgpi rfl)
  exact ⟨pgpi, final, run, taken, law⟩

/-- In a pool of `2 ^ 31` blocks of two pages the first split and merge loses the tree. -/
theorem pgpCalls_root_lost : ∃ pgpi calls,
    pgpCreate ⟨0, 0, 0, 0, 0⟩ 0 64 ⟨549755814464, 64, 2⟩ = some (some pgpi) ∧
    headsEnd 64 ⟨549755814464, 64, 2⟩ ≤ rangeEnd 64 ⟨549755814464, 64, 2⟩ ∧
    Runs.Meets pgpStep (fun call _ => Requested ⟨549755814464, 64, 2⟩ call) calls ⟨pgpi, []⟩ ∧
    ∀ final, Runs.exec pgpStep calls ⟨pgpi, []⟩ = some final →
      ¬ ∃ tree nodes, PoolLaw pgpi.chunkAddr pgpi.limit final tree nodes := by
  let cfg : PgpConfig := ⟨549755814464, 64, 2⟩
  let junk : Junk := ⟨0, 0, 0, 0, 0⟩
  have room : headsEnd 64 cfg ≤ rangeEnd 64 cfg := by decide +kernel
  have accepted : Accepted 64 cfg := Accepted.of_large ⟨6, by decide, by decide⟩ (by decide) room
  obtain ⟨built, run, builds, pools⟩ := pgpCreate_holds accepted junk 0
  obtain ⟨pgpi, rfl⟩ := Option.isSome_iff_exists.mp (builds (by decide))
  obtain ⟨kept, configured, -, ends, tree, nodes, carved⟩ := pools pgpi rfl
  have holds := carved.holds
  have page : pgpi.pgSize = 64 := by
    rw [kept]
    rfl
  have largest : pgpi.maxpgCount = 2 := by
    rw [kept]
    rfl
  have pages : pgpi.pages = 2 ^ 32 := by
    rw [kept, PgpoolImpl.pages]
    show (emptyPool junk 64 cfg).chunkPgcount - 2 = 2 ^ 32
    rw [emptyPool_count accepted]
    decide +kernel
  have double : ∀ c ∈ nodes, (pgpi.node c).pgCount = 2 := by
    rw [← largest]
    exact carved.whole (by rw [pages, largest]; decide)
  have length : nodes.length = 2 ^ 31 := by
    have total := holds.tiled.length_eq fun c inside =>
      (by rw [PgpoolImpl.bytes, double c inside, page] : pgpi.bytes c = 2 * 64)
    rw [PgpoolImpl.limit, pages, page] at total
    omega
  have onePage : pgpi.pagesOf 64 = 1 := by
    rw [pagesOf_eq configured (by rw [page]; decide), page]
  have some_node : nodes ≠ [] := by
    rintro rfl
    exact absurd length (by decide)
  obtain ⟨next, p, last, split, bound, freed, root⟩ := split_merge_wraps holds configured junk carved.unused
    double largest onePage some_node (by rw [length]; decide)
  have word : (BitVec.ofNat 64 p).toNat = p := by
    have addrEnd : pgpi.addrEnd = rangeEnd 64 cfg := by
      rw [kept]
      exact @addrEnd_eq 64 junk cfg accepted
    have stop := ends (by decide)
    have top : rangeEnd 64 cfg < 2 ^ 64 := by decide +kernel
    rw [BitVec.toNat_ofNat]
    exact Nat.mod_eq_of_lt (by omega)
  have size : (64 : BitVec 64).toNat = 64 := by decide
  have first : ∃ blocks, pgpStep (.alloc junk 64) ⟨pgpi, []⟩ = some ⟨next, blocks⟩ := by
    rw [pgpStep, size, split]
    exact ⟨_, rfl⟩
  obtain ⟨blocks, first⟩ := first
  have second : ∃ rest, pgpStep (.free junk (BitVec.ofNat 64 p)) ⟨next, blocks⟩ = some ⟨last, rest⟩ := by
    rw [pgpStep, word, freed]
    exact ⟨_, rfl⟩
  obtain ⟨rest, second⟩ := second
  refine ⟨pgpi, [.alloc junk 64, .free junk (BitVec.ofNat 64 p)], run, room,
    ⟨⟨by decide, by decide⟩, fun _ _ => ⟨trivial, fun _ _ => trivial⟩⟩, ?_⟩
  rintro final taken ⟨tree, nodes, law⟩
  have lost : (⟨last, rest⟩ : PgpState) = final := by
    rw [Runs.exec_cons, first, Option.bind_some, Runs.exec_cons, second] at taken
    exact Option.some.inj taken
  refine law.root ?_ (by rw [← lost]; exact root)
  rw [PgpoolImpl.limit, pages, page]
  omega

section Oversize

/-- A power of two without a list is looked up behind the last list head. -/
theorem takeFreeNode_outside (junk : Junk) {n : Nat} (big : 2 ≤ n) (word : n < 2 ^ 64)
    (power : n = 2 ^ Nat.log2 n) (outside : pgpi.freelistCount ≤ Nat.log2 n) :
    pgpi.takeFreeNode junk n = none := by
  have known : isTwoPower junk.roundUp junk.roundDown n := (isTwoPower_iff big word).mpr power
  rw [PgpoolImpl.takeFreeNode, if_pos known, log2_pos _ (by omega), if_neg (by omega)]

/-- The list of no pages is the one that the undefined logarithm names. -/
theorem takeFreeNode_zero : pgpi.takeFreeNode ⟨pgpi.freelistCount, 0, 0, 0, 0⟩ 0 = none := by
  have known : isTwoPower 0 0 0 := by decide +kernel
  rw [PgpoolImpl.takeFreeNode]
  simp only [known, if_true]
  exact if_neg (Nat.lt_irrefl _)

theorem not_safe {junk : Junk} (fault : pgpi.takeFreeNode junk (pgpi.pagesOf size) = none) :
    ¬ Safe junk pgpi size := by
  rintro ⟨next, p, run, -⟩
  rw [pgpAlloc, fault] at run
  cases run

/-- A call is safe for every undefined logarithm exactly when the size fits the pool. -/
theorem safe_iff (holds : Holds 0 pgpi tree nodes) (configured : Configured pgpi) (word : size < 2 ^ 64) :
    (∀ junk, Safe junk pgpi size) ↔ pgpi.Fits size := by
  constructor
  · intro safe
    have some_byte : size ≠ 0 := by
      rintro rfl
      have zero : pgpi.pagesOf 0 = 0 := by
        obtain ⟨k, -, small, order⟩ := configured.order
        have page : 2 ^ k ≤ 2 ^ 32 := Nat.pow_le_pow_right (by decide) small.le
        rw [pagesOf_eq configured (by omega), order, Nat.zero_add]
        exact Nat.div_eq_of_lt (Nat.sub_lt (Nat.two_pow_pos k) (by decide))
      exact not_safe (zero ▸ takeFreeNode_zero) (safe _)
    have inside : size + pgpi.pgSize ≤ 2 ^ 64 := by
      by_contra outside
      exact not_safe (pagesOf_wraps configured word (by omega) ▸ takeFreeNode_zero) (safe _)
    refine ⟨some_byte, inside, ?_⟩
    obtain ⟨positive, bound⟩ := pagesOf_positive configured inside some_byte
    intro pages power
    by_contra outside
    have count := pagesOf_eq configured inside
    rw [configured.listCount] at outside
    have big : 2 ≤ pgpi.pagesOf size := by
      refine Nat.lt_of_le_of_ne positive fun one => outside ?_
      have single : pages = 1 := count.symm.trans one.symm
      rw [single]
      exact Nat.succ_pos _
    refine not_safe (@takeFreeNode_outside pgpi ⟨0, 0, 0, 0, 0⟩ _ big bound ?_ ?_) (safe _)
    · rw [count]
      exact power
    · rw [count, configured.listCount]
      exact Nat.le_of_not_lt outside
  · intro fits junk
    obtain ⟨-, inside, -⟩ := id fits
    rcases alloc_fits holds configured fits junk with none_free | ⟨a, next, grown, run, allocated⟩
    · exact ⟨pgpi, 0, none_free, Or.inl ⟨rfl, rfl⟩⟩
    · have real : a ≠ 0 := (holds.listed.aligned (Or.inl allocated.member)).1
      refine ⟨next, _, run, Or.inr ⟨a, Nat.log2 (pgpi.node a).pgCount, ?_, allocated.free, rfl,
        allocated.payload, ?_⟩⟩
      · exact holds.listed.free.mpr ⟨allocated.member, allocated.free, real, rfl⟩
      · rw [← pagesOf_eq configured inside]
        exact allocated.enough

end Oversize

/-- Requests of fitting sizes and releases keep the pool that was created. -/
theorem sized_reached (junk : Junk) (rslt : Int) {addr : Nat} {cfg : PgpConfig} (accepted : Accepted addr cfg) :
    ∃ built, pgpCreate junk rslt addr cfg = some built ∧ ∀ pgpi ∈ built, Configured pgpi ∧ ∀ calls,
      Runs.Meets pgpStep (fun call state => Sized call state ∧ Counted call state) calls ⟨pgpi, []⟩ →
      ∃ final, Runs.exec pgpStep calls ⟨pgpi, []⟩ = some final ∧
        ∃ tree nodes, Reached pgpi final tree nodes := by
  obtain ⟨built, run, -, pools⟩ := pgpCreate_holds accepted junk rslt
  refine ⟨built, run, fun pgpi here => ?_⟩
  obtain ⟨kept, configured, -, -, tree, nodes, carved⟩ := pools pgpi here
  refine ⟨configured, fun calls meets => exec_reached configured ?_ (fun call state both => both.2)
    carved.reached calls meets⟩
  rintro call state same ⟨sized, -⟩ junk size rfl
  exact sized

/-- In every pool that requests of fitting sizes reach, exactly the fitting sizes are safe. -/
theorem pgpCalls_safe (junk : Junk) (rslt : Int) (addr : Nat) (cfg : PgpConfig)
    (accepted : Accepted addr cfg) :
    ∃ built, pgpCreate junk rslt addr cfg = some built ∧ ∀ pgpi ∈ built, ∀ calls,
      Runs.Meets pgpStep (fun call state => Sized call state ∧ Counted call state) calls ⟨pgpi, []⟩ →
      ∃ final, Runs.exec pgpStep calls ⟨pgpi, []⟩ = some final ∧
        ∀ size : BitVec 64, (∀ junk, Safe junk final.pool size.toNat) ↔ final.pool.Fits size.toNat := by
  obtain ⟨built, run, pools⟩ := sized_reached junk rslt accepted
  refine ⟨built, run, fun pgpi here calls meets => ?_⟩
  obtain ⟨configured, reach⟩ := pools pgpi here
  obtain ⟨final, taken, tree, nodes, reached⟩ := reach calls meets
  exact ⟨final, taken, fun size => safe_iff reached.holds (configured.kept reached.kept) size.isLt⟩

/-- Three pages are no power of two and find no block; one page and a release go before. -/
theorem pgpCalls_safe_three : ∃ pgpi final,
    pgpCreate ⟨0, 0, 0, 0, 0⟩ 0 64 ⟨1152, 64, 2⟩ = some (some pgpi) ∧
    Runs.exec pgpStep [.alloc ⟨9, 0, 0, 0, 0⟩ 64, .alloc ⟨0, 0, 0, 0, 0⟩ 129, .free ⟨0, 0, 0, 0, 0⟩ 896]
      ⟨pgpi, []⟩ = some final ∧
    ∀ size : BitVec 64, (∀ junk, Safe junk final.pool size.toNat) ↔ final.pool.Fits size.toNat := by
  obtain ⟨built, run, pools⟩ := pgpCalls_safe ⟨0, 0, 0, 0, 0⟩ 0 64 ⟨1152, 64, 2⟩
    (Accepted.of_large ⟨6, by decide, by decide⟩ (by decide) (by decide +kernel))
  have meets : ∀ found ∈ pgpCreate ⟨0, 0, 0, 0, 0⟩ 0 64 ⟨1152, 64, 2⟩, found.isSome ∧ ∀ pgpi ∈ found,
      Runs.Meets pgpStep (fun call state => Sized call state ∧ Counted call state)
        [.alloc ⟨9, 0, 0, 0, 0⟩ 64, .alloc ⟨0, 0, 0, 0, 0⟩ 129, .free ⟨0, 0, 0, 0, 0⟩ 896] ⟨pgpi, []⟩ := by
    decide +kernel
  obtain ⟨created, sized⟩ := meets built run
  obtain ⟨pgpi, rfl⟩ := Option.isSome_iff_exists.mp created
  obtain ⟨final, taken, safe⟩ := pools pgpi rfl _ (sized pgpi rfl)
  exact ⟨pgpi, final, run, taken, safe⟩

/-- In a pool with one list a request of two pages reads the second list head. -/
theorem pgpAlloc_oversize : ∃ pgpi,
    pgpCreate ⟨0, 0, 0, 0, 0⟩ 0 64 ⟨1152, 64, 1⟩ = some (some pgpi) ∧ pgpi.freelistCount = 1 ∧
    ∀ junk, ¬ Safe junk pgpi 128 := by
  have accepted : Accepted 64 ⟨1152, 64, 1⟩ :=
    Accepted.of_large ⟨6, by decide, by decide⟩ (by decide) (by decide +kernel)
  obtain ⟨built, run, builds, pools⟩ := pgpCreate_holds accepted ⟨0, 0, 0, 0, 0⟩ 0
  obtain ⟨pgpi, rfl⟩ := Option.isSome_iff_exists.mp (builds (by decide))
  obtain ⟨kept, configured, -⟩ := pools pgpi rfl
  have page : pgpi.pgSize = 64 := by
    rw [kept]
    rfl
  have lists : pgpi.freelistCount = 1 := by
    rw [configured.listCount, kept]
    rfl
  have twoPages : pgpi.pagesOf 128 = 2 := by
    rw [pagesOf_eq configured (by rw [page]; decide), page]
  refine ⟨pgpi, run, lists, fun junk => not_safe ?_⟩
  rw [twoPages]
  exact takeFreeNode_outside junk (by decide) (by decide) (by decide) (by rw [lists]; decide)

end Syslib.Pgpool
