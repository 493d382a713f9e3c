import Syslib.Pgpool.Steps

namespace Syslib.Pgpool

open Rbtree ColoredTree IntrusiveLists Tiling

/-- The structure and the heads of the free lists end here. -/
def headsEnd (addr : Nat) (cfg : PgpConfig) : Nat :=
  (addr + implSize + 63) / 64 * 64 + flhSize * (Nat.log2 cfg.maxpgCount.toNat + 1)

/-- The pool may use the addresses up to here. -/
def rangeEnd (addr : Nat) (cfg : PgpConfig) : Nat :=
  (addr + cfg.totalSize.toNat) % 2 ^ 64 / cfg.pageSize.toNat * cfg.pageSize.toNat

/-- The low bits of a page address are free, the heads have room, and rounding up stays a word. -/
structure Accepted (addr : Nat) (cfg : PgpConfig) : Prop where
  order : ∃ k, 2 ≤ k ∧ cfg.pageSize.toNat = 2 ^ k
  onePage : 1 ≤ cfg.maxpgCount.toNat
  room : headsEnd addr cfg ≤ rangeEnd addr cfg
  top : rangeEnd addr cfg + 64 ≤ 2 ^ 64

variable {b addr pg remain : Nat} {junk : Junk} {cfg : PgpConfig} {pgpi next : PgpoolImpl}
  {tree : ColorTree Nat} {nodes : List Nat}

section Geometry

theorem pageSize_order {least : Nat} (order : ∃ k, least ≤ k ∧ cfg.pageSize.toNat = 2 ^ k) :
    ∃ k, least ≤ k ∧ k < 32 ∧ cfg.pageSize.toNat = 2 ^ k := by
  obtain ⟨k, large, size⟩ := order
  have word := cfg.pageSize.isLt
  rw [size] at word
  exact ⟨k, large, (Nat.pow_lt_pow_iff_right (by decide : 1 < 2)).mp word, size⟩

/-- The last page ends before the address space does. -/
theorem rangeEnd_room (order : ∃ k, 2 ≤ k ∧ cfg.pageSize.toNat = 2 ^ k) :
    rangeEnd addr cfg % cfg.pageSize.toNat = 0 ∧
      rangeEnd addr cfg + cfg.pageSize.toNat ≤ 2 ^ 64 := by
  obtain ⟨k, -, small, size⟩ := pageSize_order order
  have whole : rangeEnd addr cfg % cfg.pageSize.toNat = 0 := Nat.mul_mod_left ..
  have inside : rangeEnd addr cfg < 2 ^ 64 :=
    lt_of_le_of_lt (Nat.div_mul_le_self _ _) (Nat.mod_lt _ (by decide))
  refine ⟨whole, ?_⟩
  rw [size] at whole ⊢
  have split : 2 ^ 64 = 2 ^ k * 2 ^ (64 - k) := by rw [← Nat.pow_add, Nat.add_sub_cancel' (by omega)]
  obtain ⟨count, same⟩ := Nat.dvd_of_mod_eq_zero whole
  rw [same, split] at inside ⊢
  rw [← Nat.mul_succ]
  exact Nat.mul_le_mul_left _ (Nat.lt_of_mul_lt_mul_left inside)

/-- A page is made of whole cache lines. -/
theorem cacheLine_dvd (order : ∃ k, 6 ≤ k ∧ cfg.pageSize.toNat = 2 ^ k) :
    2 ^ 6 ∣ cfg.pageSize.toNat ∧ 64 ≤ cfg.pageSize.toNat := by
  obtain ⟨k, large, size⟩ := order
  have divides : 2 ^ 6 ∣ cfg.pageSize.toNat := size ▸ Nat.pow_dvd_pow 2 large
  exact ⟨divides, Nat.le_of_dvd (size ▸ Nat.two_pow_pos k) divides⟩

/-- Pages of at least a cache line need no more room. -/
theorem Accepted.of_large (order : ∃ k, 6 ≤ k ∧ cfg.pageSize.toNat = 2 ^ k)
    (onePage : 1 ≤ cfg.maxpgCount.toNat) (room : headsEnd addr cfg ≤ rangeEnd addr cfg) :
    Accepted addr cfg := by
  have small : ∃ k, 2 ≤ k ∧ cfg.pageSize.toNat = 2 ^ k :=
    order.imp fun k both => ⟨by omega, both.2⟩
  have last := (@rangeEnd_room addr cfg small).2
  have least := (cacheLine_dvd order).2
  exact ⟨small, onePage, room, by omega⟩

theorem addrEnd_eq (accepted : Accepted addr cfg) :
    (emptyPool junk addr cfg).addrEnd = rangeEnd addr cfg := by
  obtain ⟨k, -, small, size⟩ := pageSize_order accepted.order
  show roundDown _ cfg.pageSize.toNat = _
  rw [rangeEnd, size, roundDown_eq (Nat.mod_lt _ (by decide)) (by omega), Nat.mul_comm]

theorem heads_eq (accepted : Accepted addr cfg) :
    roundUp (addr + implSize) 64 + flhSize * (log2 junk.index cfg.maxpgCount.toNat + 1) =
      headsEnd addr cfg := by
  have room := accepted.room
  have top := accepted.top
  have first : (addr + implSize + 63) / 64 * 64 ≤ headsEnd addr cfg := Nat.le_add_right ..
  have line : roundUp (addr + implSize) 64 = 2 ^ 6 * ((addr + implSize + 2 ^ 6 - 1) / 2 ^ 6) :=
    @roundUp_eq _ 6 (by omega) (by decide)
  rw [log2_pos _ accepted.onePage, line, headsEnd]
  omega

theorem emptyPool_lists (accepted : Accepted addr cfg) : (emptyPool junk addr cfg).lists =
    freshLists (headsEnd addr cfg) (emptyPool junk addr cfg).chunkPgcount := by
  rw [← @heads_eq addr junk cfg accepted]
  rfl

theorem emptyPool_count (accepted : Accepted addr cfg) : (emptyPool junk addr cfg).chunkPgcount =
    (rangeEnd addr cfg - headsEnd addr cfg) / (cfg.pageSize.toNat + pgNodeSize) := by
  have room := accepted.room
  have top := accepted.top
  show wordSub (emptyPool junk addr cfg).addrEnd
    (roundUp (addr + implSize) 64 + flhSize * (log2 junk.index cfg.maxpgCount.toNat + 1)) / _ = _
  rw [heads_eq accepted, addrEnd_eq accepted, wordSub]
  congr 1
  omega

/-- Each page has a descriptor, and all of them fit behind the heads. -/
theorem emptyPool_fits (accepted : Accepted addr cfg) :
    headsEnd addr cfg + pgNodeSize * (emptyPool junk addr cfg).chunkPgcount +
      (emptyPool junk addr cfg).chunkPgcount * cfg.pageSize.toNat ≤ rangeEnd addr cfg := by
  have room := accepted.room
  have fits := Nat.div_mul_le_self (rangeEnd addr cfg - headsEnd addr cfg)
    (cfg.pageSize.toNat + pgNodeSize)
  rw [← @emptyPool_count addr junk cfg accepted, Nat.mul_add, Nat.mul_comm _ pgNodeSize] at fits
  omega

/-- The pages start behind the descriptors, and pages of whole cache lines end in the range. -/
theorem emptyPool_geometry (accepted : Accepted addr cfg) :
    headsEnd addr cfg + pgNodeSize * (emptyPool junk addr cfg).chunkPgcount ≤
        (emptyPool junk addr cfg).chunkAddr ∧
      (emptyPool junk addr cfg).chunkAddr % cfg.pageSize.toNat = 0 ∧
      (64 ≤ cfg.pageSize.toNat → (emptyPool junk addr cfg).chunkAddr +
        (emptyPool junk addr cfg).chunkPgcount * cfg.pageSize.toNat ≤ rangeEnd addr cfg) := by
  have top := accepted.top
  let count := (emptyPool junk addr cfg).chunkPgcount
  have fits : headsEnd addr cfg + pgNodeSize * count + count * cfg.pageSize.toNat ≤ rangeEnd addr cfg :=
    emptyPool_fits accepted
  obtain ⟨whole, last⟩ := @rangeEnd_room addr cfg accepted.order
  obtain ⟨k, large, small, size⟩ := pageSize_order accepted.order
  let middle := roundUp (headsEnd addr cfg + pgNodeSize * count) (2 ^ 6)
  have chunk : (emptyPool junk addr cfg).chunkAddr = roundUp middle (2 ^ k) := by
    rw [← size]
    simp only [middle]
    rw [← @heads_eq addr junk cfg accepted]
    rfl
  obtain ⟨above, -, first⟩ := @roundUp_spec (headsEnd addr cfg + pgNodeSize * count) 6 (by omega)
    (by decide)
  have before : (rangeEnd addr cfg - count * cfg.pageSize.toNat) % cfg.pageSize.toNat = 0 := by
    rw [Nat.mul_comm, Nat.sub_mul_mod (by rw [Nat.mul_comm]; omega)]
    exact whole
  have lines : 64 ≤ cfg.pageSize.toNat → middle ≤ rangeEnd addr cfg - count * cfg.pageSize.toNat := by
    intro least
    rw [size, show (64 : Nat) = 2 ^ 6 by decide, Nat.pow_le_pow_iff_right (by decide)] at least
    have divides : 2 ^ 6 ∣ cfg.pageSize.toNat := size ▸ Nat.pow_dvd_pow 2 least
    exact first _ (Nat.mod_eq_zero_of_dvd (divides.trans (Nat.dvd_of_mod_eq_zero before))) (by omega)
  have inside : middle + 2 ^ k ≤ 2 ^ 64 := by
    by_cases least : 64 ≤ cfg.pageSize.toNat
    · have bound := lines least
      omega
    · have bound := first (2 ^ 64 - 64) (by decide) (by omega)
      omega
  obtain ⟨higher, aligned, second⟩ := @roundUp_spec middle k inside (by omega)
  rw [chunk]
  refine ⟨above.trans higher, size ▸ aligned, ?_⟩
  intro least
  have final := second _ (size ▸ before) (lines least)
  show _ + count * cfg.pageSize.toNat ≤ _
  omega

end Geometry

theorem emptyPool_configured (accepted : Accepted addr cfg) : Configured (emptyPool junk addr cfg) := by
  obtain ⟨behind, aligned, -⟩ := @emptyPool_geometry addr junk cfg accepted
  have some_head : 0 < headsEnd addr cfg := Nat.add_pos_right _ (Nat.mul_pos (by decide) (Nat.succ_pos _))
  refine ⟨pageSize_order accepted.order, accepted.onePage, ?_, by omega, aligned⟩
  show log2 junk.index cfg.maxpgCount.toNat + 1 = _
  rw [log2_pos _ accepted.onePage]
  rfl

section Descriptors

variable {pgnPool count idx : Nat}

theorem freshLists_succ : freshLists pgnPool (count + 1) =
    pushBack (freshLists pgnPool count) .freePgn (pgnPool + pgNodeSize * count) := by
  rw [freshLists, List.range_succ, List.foldl_append]
  rfl

theorem freshLists_fln : freshLists pgnPool count (.fln idx) = [] := by
  induction count with
  | zero => rfl
  | succ count ih =>
      rw [freshLists_succ, pushBack_elsewhere _ (by simp)]
      exact ih

theorem freshLists_free :
    freshLists pgnPool count .freePgn = (List.range count).map fun i => pgnPool + pgNodeSize * i := by
  induction count with
  | zero => rfl
  | succ count ih =>
      rw [freshLists_succ, List.range_succ, List.map_append, ← ih]
      simp [pushBack]

theorem freshLists_apart : Apart (freshLists pgnPool count) := by
  constructor
  · intro place
    cases place with
    | fln idx => simp [freshLists_fln]
    | freePgn =>
        rw [freshLists_free]
        refine List.nodup_range.map fun first second same => ?_
        simp only [pgNodeSize] at same
        omega
  · intro first second pgn inFirst inSecond
    cases first with
    | fln idx => simp [freshLists_fln] at inFirst
    | freePgn =>
        cases second with
        | fln idx => simp [freshLists_fln] at inSecond
        | freePgn => rfl

end Descriptors

/-- The nodes are free and cover the chunk up to here, and only the last one may be small. -/
structure Carved (pgpi : PgpoolImpl) (tree : ColorTree Nat) (nodes : List Nat) (pg : Nat) : Prop where
  inTree : InTree pgpi.pgnTree pgpi.payload tree nodes
  tiled : Tiles pgpi.payload pgpi.bytes nodes pgpi.chunkAddr pg
  sized : ∀ pgn ∈ nodes, 1 ≤ (pgpi.node pgn).pgCount ∧ (pgpi.node pgn).pgCount ≤ pgpi.maxpgCount
  unused : ∀ pgn ∈ nodes, (pgpi.node pgn).using = 0
  whole : pgpi.pages % pgpi.maxpgCount = 0 → ∀ pgn ∈ nodes, (pgpi.node pgn).pgCount = pgpi.maxpgCount
  listed : Listed 0 pgpi.lists pgpi.node nodes
  counted : (pgpi.lists .freePgn).length + nodes.length = pgpi.chunkPgcount

theorem emptyPool_carved (accepted : Accepted addr cfg) :
    Carved (emptyPool junk addr cfg) .leaf [] (emptyPool junk addr cfg).chunkAddr := by
  have lists := @emptyPool_lists addr junk cfg accepted
  have inTree : InTree (rbInit (fun _ => ⟨0, 0, 0, 0⟩) none) (emptyPool junk addr cfg).payload .leaf [] :=
    ⟨wellFormed_init _ _, rfl, rfl, by simp⟩
  refine ⟨inTree, rfl, by simp, by simp, by simp, ?_, ?_⟩
  · rw [lists]
    refine ⟨freshLists_apart, by simp [freshLists_fln], fun _ _ => ⟨by simp, rfl⟩, ?_⟩
    intro pgn place
    simp only [List.not_mem_nil, false_or, freshLists_free, List.mem_map, List.mem_range] at place
    obtain ⟨i, -, rfl⟩ := place
    simp only [headsEnd, flhSize, pgNodeSize]
    omega
  · rw [lists, freshLists_free]
    simp

theorem Carved.holds (carved : Carved pgpi tree nodes pgpi.limit) : Holds 0 pgpi tree nodes :=
  ⟨carved.inTree, carved.tiled, carved.sized, carved.listed, carved.counted⟩

/-- The pool after a spare descriptor has become the node behind the last one. -/
def PgpoolImpl.extend (pgpi : PgpoolImpl) (b pg count : Nat) (pgnTree : RbTree) : PgpoolImpl :=
  { pgpi with
    pgnTree
    node := Function.update pgpi.node b ⟨pg, count⟩
    lists := pushFront (removeNode pgpi.lists b) (.fln (Nat.log2 count)) b }

section Extend

variable {u : RbTree} {result : ColorTree Nat} {count : Nat}

theorem extend_last : (pgpi.extend b pg count u).node b = ⟨pg, count⟩ := Function.update_self ..

theorem extend_other {c : Nat} (other : c ≠ b) : (pgpi.extend b pg count u).node c = pgpi.node c :=
  Function.update_of_ne other _ _

theorem extend_tiled (tiled : Tiles pgpi.payload pgpi.bytes nodes pgpi.chunkAddr pg) (fresh : b ∉ nodes)
    (aligned : pg % 4 = 0) (page : 0 < pgpi.pgSize) (positive : 1 ≤ count) :
    Tiles (pgpi.extend b pg count u).payload (pgpi.extend b pg count u).bytes (nodes ++ [b])
      pgpi.chunkAddr (pg + count * pgpi.pgSize) := by
  refine tiles_append.mpr ⟨pg, tiled.congr ?_, ?_, ?_, ?_⟩
  · intro c inside
    have other : c ≠ b := fun equal => fresh (equal ▸ inside)
    rw [PgpoolImpl.payload, PgpoolImpl.bytes, extend_other other]
    exact ⟨rfl, rfl⟩
  · rw [PgpoolImpl.payload, extend_last]
    simp only [PgNode.getPayload]
    omega
  · rw [PgpoolImpl.bytes, extend_last]
    exact Nat.mul_pos positive page
  · rw [PgpoolImpl.bytes, extend_last]
    rfl

theorem extend_carved (carved : Carved pgpi tree nodes pg) (page : 0 < pgpi.pgSize)
    (spare : b ∈ pgpi.lists .freePgn) (aligned : pg % 4 = 0) (positive : 1 ≤ count)
    (large : count ≤ pgpi.maxpgCount) (whole : pgpi.pages % pgpi.maxpgCount = 0 → count = pgpi.maxpgCount)
    (inTree : InTree u (pgpi.extend b pg count u).payload result (nodes ++ [b])) :
    Carved (pgpi.extend b pg count u) result (nodes ++ [b]) (pg + count * pgpi.pgSize) := by
  obtain ⟨fresh, -⟩ := carved.listed.spare b spare
  have grows : ∀ c, c ∈ nodes ++ [b] ↔ c = b ∨ c ∈ nodes := by
    intro c
    rw [List.mem_append, List.mem_singleton, or_comm]
  have real : b ≠ 0 := (carved.listed.aligned (Or.inr spare)).1
  refine ⟨inTree, extend_tiled carved.tiled fresh aligned page positive, ?_, ?_, ?_, ?_, ?_⟩
  · intro c inside
    rcases (grows c).mp inside with rfl | old
    · rw [extend_last]
      exact ⟨positive, large⟩
    · have other : c ≠ b := fun equal => fresh (equal ▸ old)
      rw [extend_other other]
      exact carved.sized c old
  · intro c inside
    rcases (grows c).mp inside with rfl | old
    · rw [extend_last]
      exact aligned
    · have other : c ≠ b := fun equal => fresh (equal ▸ old)
      rw [extend_other other]
      exact carved.unused c old
  · intro exact_pages c inside
    rcases (grows c).mp inside with rfl | old
    · rw [extend_last]
      exact whole exact_pages
    · have other : c ≠ b := fun equal => fresh (equal ▸ old)
      rw [extend_other other]
      exact carved.whole exact_pages c old
  · exact @Listed.fetch 0 b nodes pgpi.lists pgpi.node carved.listed spare _ grows real ⟨pg, count⟩ aligned
  · have counted := carved.counted
    have some_spare := List.length_pos_of_mem spare
    have dropped : ((pgpi.extend b pg count u).lists .freePgn).length + 1 =
        (pgpi.lists .freePgn).length := by
      simp only [PgpoolImpl.extend, pushFront, removeNode, ne_eq, reduceCtorEq, not_false_eq_true,
        Function.update_of_ne, List.length_erase_of_mem spare]
      omega
    rw [List.length_append, List.length_singleton]
    exact (by omega : ((pgpi.extend b pg count u).lists .freePgn).length + (nodes.length + 1) =
      pgpi.chunkPgcount)

end Extend

/-- The descriptors do not run out, because each node has a page and one largest block is never carved. -/
theorem Carved.exists_spare (carved : Carved pgpi tree nodes pg) (configured : Configured pgpi)
    (ends : pg + remain * pgpi.pgSize = pgpi.limit) (more : remain ≠ 0) :
    ∃ b rest, pgpi.lists .freePgn = b :: rest := by
  have large : ∀ pgn ∈ nodes, pgpi.pgSize ≤ pgpi.bytes pgn :=
    fun pgn member => Nat.le_mul_of_pos_left _ (carved.sized pgn member).1
  have bound := carved.tiled.length_le large
  have few : nodes.length + remain ≤ pgpi.pages := by
    refine Nat.le_of_mul_le_mul_right (c := pgpi.pgSize) ?_ configured.positive
    rw [PgpoolImpl.limit] at ends
    rw [Nat.add_mul, Nat.mul_comm nodes.length]
    omega
  have counted := carved.counted
  refine List.exists_cons_of_length_pos (Nat.pos_of_ne_zero ?_)
  rw [PgpoolImpl.pages] at few
  omega

theorem carve_step (carved : Carved pgpi tree nodes pg) (configured : Configured pgpi)
    (ends : pg + remain * pgpi.pgSize = pgpi.limit) (more : remain ≠ 0)
    (exact_pages : pgpi.pages % pgpi.maxpgCount = 0 → remain % pgpi.maxpgCount = 0) (rounds : Nat) :
    ∃ b u result, carve junk (rounds + 1) pgpi remain pg =
        carve junk rounds (pgpi.extend b pg (min pgpi.maxpgCount remain) u)
          (remain - min pgpi.maxpgCount remain) (pg + min pgpi.maxpgCount remain * pgpi.pgSize) ∧
      Carved (pgpi.extend b pg (min pgpi.maxpgCount remain) u) result (nodes ++ [b])
        (pg + min pgpi.maxpgCount remain * pgpi.pgSize) := by
  let count := min pgpi.maxpgCount remain
  have onePage := configured.onePage
  have positive : 1 ≤ count := by omega
  have large : count ≤ pgpi.maxpgCount := Nat.min_le_left ..
  have whole : pgpi.pages % pgpi.maxpgCount = 0 → count = pgpi.maxpgCount := fun all =>
    Nat.min_eq_left (Nat.le_of_dvd (by omega) (Nat.dvd_of_mod_eq_zero (exact_pages all)))
  obtain ⟨b, rest, first⟩ := carved.exists_spare configured ends more
  have spare : b ∈ pgpi.lists .freePgn := first ▸ List.mem_cons_self
  obtain ⟨fresh, unused⟩ := carved.listed.spare b spare
  have aligned : pg % 4 = 0 := by
    obtain ⟨k, least, -, size⟩ := configured.order
    have four : 4 ∣ pgpi.pgSize := size ▸ Nat.pow_dvd_pow 2 least
    have start : 4 ∣ pgpi.chunkAddr := four.trans (Nat.dvd_of_mod_eq_zero configured.pageAligned)
    have before : 4 ∣ remain * pgpi.pgSize := four.mul_left _
    have behind : 4 ∣ pgpi.pages * pgpi.pgSize := four.mul_left _
    rw [PgpoolImpl.limit] at ends
    omega
  let drawn : PgpoolImpl :=
    { pgpi.extend b pg count pgpi.pgnTree with lists := removeNode pgpi.lists b }
  have atB : drawn.node b = ⟨pg, count⟩ := @extend_last b pg pgpi pgpi.pgnTree count
  have same : ∀ c ∈ nodes, drawn.payload c = pgpi.payload c := by
    intro c inside
    have other : c ≠ b := fun equal => fresh (equal ▸ inside)
    exact congrArg PgNode.getPayload (@extend_other b pg pgpi pgpi.pgnTree count c other)
  have tiled := @extend_tiled b pg pgpi nodes pgpi.pgnTree count carved.tiled fresh aligned
    configured.positive positive
  have perm : (nodes ++ [b]).Perm (b :: nodes) := List.perm_append_singleton b nodes
  obtain ⟨u, result, linked, inTree⟩ := @link_new b drawn tree nodes pgpi.payload carved.inTree
    (configured.kept rfl) junk same _ perm tiled.increasing
    (carved.listed.aligned (Or.inr spare)).2 (by
      have counted := carved.counted
      have length := carved.inTree.length_tree
      exact (by omega : tree.nodes.length + 1 < pgpi.chunkPgcount + 4))
    (by rw [atB]; exact positive) (by rw [atB]; exact large)
  refine ⟨b, u, result, ?_,
    extend_carved carved configured.positive spare aligned positive large whole inTree⟩
  have fewer : (if pgpi.maxpgCount ≤ remain then pgpi.maxpgCount else remain) = count := by
    split_ifs <;> omega
  have worded : { (pgpi.node b).setPayload pg with pgCount := count } = (⟨pg, count⟩ : PgNode) := by
    rw [setPayload_clear unused]
  rw [atB] at linked
  rw [carve, if_neg more]
  simp only [PgpoolImpl.fetchFreePgn, first, Option.bind_eq_bind, Option.bind_some, fewer, worded]
  rw [← Option.bind_assoc]
  exact congrArg (fun found => Option.bind found fun next =>
    carve junk rounds next (remain - count) (pg + count * next.pgSize)) linked

/-- The loop ends with nodes over all pages. -/
theorem carve_holds (carved : Carved pgpi tree nodes pg) (configured : Configured pgpi)
    (ends : pg + remain * pgpi.pgSize = pgpi.limit)
    (exact_pages : pgpi.pages % pgpi.maxpgCount = 0 → remain % pgpi.maxpgCount = 0) {rounds : Nat}
    (enough : remain ≤ rounds) :
    ∃ next result grown, carve junk rounds pgpi remain pg = some next ∧ pgpi.Kept next ∧
      Carved next result grown next.limit := by
  induction rounds generalizing pgpi tree nodes pg remain with
  | zero =>
      obtain rfl := Nat.le_zero.mp enough
      rw [Nat.zero_mul, Nat.add_zero] at ends
      exact ⟨pgpi, tree, nodes, rfl, rfl, ends ▸ carved⟩
  | succ rounds ih =>
      by_cases more : remain = 0
      · subst more
        rw [Nat.zero_mul, Nat.add_zero] at ends
        exact ⟨pgpi, tree, nodes, by simp [carve], rfl, ends ▸ carved⟩
      · obtain ⟨b, u, result, run, grown⟩ := @carve_step _ _ junk _ _ _ carved configured ends
          more exact_pages rounds
        have onePage := configured.onePage
        have kept : pgpi.Kept (pgpi.extend b pg (min pgpi.maxpgCount remain) u) := rfl
        obtain ⟨next, final, nodes, rest, more_kept, last⟩ := ih grown (configured.kept kept) (by
            have split : min pgpi.maxpgCount remain * pgpi.pgSize +
                (remain - min pgpi.maxpgCount remain) * pgpi.pgSize = remain * pgpi.pgSize := by
              rw [← Nat.add_mul, Nat.add_sub_cancel' (Nat.min_le_right ..)]
            exact (by omega : pg + min pgpi.maxpgCount remain * pgpi.pgSize +
              (remain - min pgpi.maxpgCount remain) * pgpi.pgSize = pgpi.limit))
          (fun all => by
            have multiple := Nat.dvd_of_mod_eq_zero (exact_pages all)
            have least := Nat.le_of_dvd (Nat.pos_of_ne_zero more) multiple
            show (remain - min pgpi.maxpgCount remain) % pgpi.maxpgCount = 0
            rw [Nat.min_eq_left least]
            exact Nat.mod_eq_zero_of_dvd (Nat.dvd_sub multiple (Nat.dvd_refl _)))
          (by omega)
        exact ⟨next, final, nodes, run.trans rest, kept.trans more_kept, last⟩

/-- An aligned address with room for a page is not refused, unless the loop reads its unwritten result. -/
theorem pgpCreate_holds (accepted : Accepted addr cfg) (junk : Junk) (rslt : Int) :
    ∃ built, pgpCreate junk rslt addr cfg = some built ∧
      (addr ≠ 0 ∧ addr % 8 = 0 ∧ cfg.pageSize.toNat < cfg.totalSize.toNat ∧ 0 ≤ rslt → built.isSome) ∧
      ∀ pgpi ∈ built, (emptyPool junk addr cfg).Kept pgpi ∧ Configured pgpi ∧ addr ≤ pgpi.chunkAddr ∧
        (64 ≤ cfg.pageSize.toNat → pgpi.limit ≤ pgpi.addrEnd) ∧
        ∃ tree nodes, Carved pgpi tree nodes pgpi.limit := by
  have configured := @emptyPool_configured addr junk cfg accepted
  obtain ⟨behind, -, room⟩ := @emptyPool_geometry addr junk cfg accepted
  obtain ⟨next, tree, nodes, run, kept, carved⟩ := @carve_holds _ _ junk _ _ _
    (@emptyPool_carved addr junk cfg accepted) configured rfl (fun all => all) _ (Nat.le_refl _)
  have inside : addr ≤ next.chunkAddr := by
    rw [kept]
    have start : addr ≤ headsEnd addr cfg := by
      simp only [headsEnd, implSize]
      omega
    exact Nat.le_trans start (Nat.le_trans (Nat.le_add_right _ _) behind)
  have ends : 64 ≤ cfg.pageSize.toNat → next.limit ≤ next.addrEnd := by
    intro least
    rw [kept, PgpoolImpl.limit]
    show _ ≤ (emptyPool junk addr cfg).addrEnd
    rw [addrEnd_eq accepted]
    exact Nat.le_trans (Nat.add_le_add_left (Nat.mul_le_mul_right _ (Nat.sub_le _ _)) _) (room least)
  by_cases refused : addr = 0 ∨ addr % 8 ≠ 0 ∨ cfg.totalSize.toNat ≤ cfg.pageSize.toNat
  · refine ⟨none, if_pos refused, ?_, by simp⟩
    rintro ⟨real, aligned, less, -⟩
    omega
  have power : isTwoPower junk.roundUp junk.roundDown cfg.pageSize.toNat := by
    obtain ⟨k, least, small, size⟩ := pageSize_order accepted.order
    have word : 2 ^ k < 2 ^ 64 := Nat.pow_lt_pow_right (by decide) (by omega)
    have large : 2 ^ 2 ≤ 2 ^ k := Nat.pow_le_pow_right (by decide) least
    rw [size, isTwoPower_iff (by omega) word, Nat.log2_two_pow]
  refine ⟨if rslt < 0 ∧ (emptyPool junk addr cfg).pages ≠ 0 then none else some next, ?_, ?_, ?_⟩
  · rw [pgpCreate, if_neg refused, if_neg (not_not.mpr power)]
    exact congrArg (fun found => Option.bind found fun carved =>
      some (if rslt < 0 ∧ (emptyPool junk addr cfg).pages ≠ 0 then none else some carved)) run
  · rintro ⟨-, -, -, written⟩
    rw [if_neg (by omega)]
    rfl
  · intro pgpi built
    split_ifs at built with failed
    · simp at built
    · obtain rfl : next = pgpi := by simpa using built
      exact ⟨kept, configured.kept kept, inside, ends, tree, nodes, carved⟩

end Syslib.Pgpool
