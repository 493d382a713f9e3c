import Syslib.Pgpool.Calls

namespace Syslib.Pgpool

open Rbtree ColoredTree IntrusiveLists Tiling

/-- Exactly one block has left the blocks in use. -/
structure Gone (pgpi : PgpoolImpl) (nodes : List Nat) (a : Nat) (next : PgpoolImpl) (fewer : List Nat) :
    Prop where
  free : a ∈ fewer ∧ (next.node a).using = 0 ∧ next.payload a = pgpi.payload a
  used : ∀ c, c ∈ fewer ∧ (next.node c).using ≠ 0 ↔ (c ∈ nodes ∧ (pgpi.node c).using ≠ 0) ∧ c ≠ a
  same : ∀ c ∈ nodes, (pgpi.node c).using ≠ 0 → c ≠ a → next.node c = pgpi.node c

/-- No free block stands right behind the block that would fit together with it. -/
def Joined (pgpi : PgpoolImpl) (nodes : List Nat) (a : Nat) : Prop :=
  ∀ b ∈ nodes, (pgpi.node b).using = 0 → pgpi.payload b = pgpi.payload a + pgpi.bytes a →
    pgpi.maxpgCount < (pgpi.node a).pgCount + (pgpi.node b).pgCount

variable {a p : Nat} {pgpi next created : PgpoolImpl} {state : PgpState} {tree : ColorTree Nat}
  {nodes fewer : List Nat}

theorem Released.gone (released : Released p pgpi nodes a next fewer) : Gone pgpi nodes a next fewer := by
  refine ⟨⟨released.still, released.unused, released.samePayload⟩, fun c => ?_, fun c inside used other =>
    (released.others c inside other used).2⟩
  constructor
  · rintro ⟨inside, used⟩
    refine ⟨released.origin c inside used, ?_⟩
    rintro rfl
    exact used released.unused
  · rintro ⟨⟨inside, used⟩, other⟩
    obtain ⟨still, same⟩ := released.others c inside other used
    refine ⟨still, ?_⟩
    rw [same]
    exact used

/-- The next block is the one that the merge loop met last. -/
theorem Released.joined (released : Released p pgpi nodes a next fewer) : Joined next fewer a := by
  obtain ⟨result, holds⟩ := released.holds
  obtain ⟨front, back, rfl, stop⟩ := released.stops
  intro b member free behind
  obtain ⟨middle, -, first⟩ := tiles_append.mp holds.tiled
  obtain ⟨start, positive, later⟩ := first
  have after : next.payload b = middle + next.bytes a := by
    rw [behind, start]
  cases back with
  | nil =>
      have bounds := holds.tiled.bounds member
      have ends : middle + next.bytes a = next.limit := later
      omega
  | cons c back =>
      obtain ⟨here, -, -⟩ := later
      have same : b = c := holds.tiled.start_inj member (by simp) (after.trans here.symm)
      subst same
      rcases stop b rfl with used | large
      · exact absurd free used
      · exact large

/-- A pointer is accepted exactly when a block in use starts there. -/
theorem pgpFree_iff (configured : Configured created) (reached : Reached created state tree nodes)
    (few : state.pool.Few) (junk : Junk) (p : Nat) :
    ((∃ c ∈ nodes, state.pool.payload c = p ∧ (state.pool.node c).using ≠ 0) ∧
        ∃ a next blocks result fewer, pgpFree junk state.pool p = some (next, 0) ∧
          Reached created ⟨next, blocks⟩ result fewer ∧ a ∈ nodes ∧ state.pool.payload a = p ∧
          (state.pool.node a).using ≠ 0 ∧ Released p state.pool nodes a next fewer) ∨
      (∀ c ∈ nodes, state.pool.payload c = p → (state.pool.node c).using = 0) ∧
        pgpFree junk state.pool p = some (state.pool, -1) := by
  have here := configured.kept reached.kept
  rcases pgpFree_holds reached.holds here few junk p with
    ⟨refused, unused⟩ | ⟨a, next, fewer, run, released⟩
  · refine Or.inr ⟨fun c inside same => ?_, refused⟩
    exact unused (same ▸ payload_straight reached.holds here inside) c inside same
  · obtain ⟨result, final⟩ := released.holds
    exact Or.inl ⟨⟨a, released.member, released.payload, released.used⟩, a, next, _, result, fewer, run,
      ⟨reached.kept.trans released.kept, final, reached.ledger.free released.toFreed⟩, released.member,
      released.payload, released.used, released⟩

/-- In every pool that is reached exactly the starts of blocks in use are accepted. -/
theorem pgpCalls_release (junk : Junk) (rslt : Int) (addr : Nat) (cfg : PgpConfig)
    (accepted : Accepted addr cfg) :
    ∃ built, pgpCreate junk rslt addr cfg = some built ∧ ∀ pgpi ∈ built, ∀ calls,
      Runs.Meets pgpStep (fun call state => Sized call state ∧ Counted call state) calls ⟨pgpi, []⟩ →
      ∃ final, Runs.exec pgpStep calls ⟨pgpi, []⟩ = some final ∧
        ∃ tree nodes, PoolLaw pgpi.chunkAddr pgpi.limit final tree nodes ∧
          ∀ (junk : Junk) (p : BitVec 64), Counted (.free junk p) final →
            ((∃ next, pgpFree junk final.pool p.toNat = some (next, 0)) ↔
              ∃ a ∈ nodes, final.pool.payload a = p.toNat ∧ (final.pool.node a).using ≠ 0) ∧
            (∀ next, pgpFree junk final.pool p.toNat = some (next, 0) →
              ∃ a blocks result fewer, final.pool.payload a = p.toNat ∧ Gone final.pool nodes a next fewer ∧
                PoolLaw pgpi.chunkAddr pgpi.limit ⟨next, blocks⟩ result fewer) ∧
            ((∀ a ∈ nodes, final.pool.payload a = p.toNat → (final.pool.node a).using = 0) →
              pgpFree junk final.pool p.toNat = some (final.pool, -1)) := by
  obtain ⟨built, run, pools⟩ := sized_reached junk rslt accepted
  refine ⟨built, run, fun pgpi here calls meets => ?_⟩
  obtain ⟨configured, reach⟩ := pools pgpi here
  obtain ⟨final, taken, tree, nodes, reached⟩ := reach calls meets
  refine ⟨final, taken, tree, nodes, reached.law, fun junk p few => ?_⟩
  rcases pgpFree_iff configured reached few junk p.toNat with
    ⟨used, a, next, blocks, result, fewer, freed, after, member, payload, bits, released⟩ | ⟨unused, refused⟩
  · refine ⟨iff_of_true ⟨next, freed⟩ used, fun other again => ?_, fun unused => ?_⟩
    · rw [freed] at again
      cases again
      exact ⟨a, blocks, result, fewer, payload, released.gone, after.law⟩
    · exact absurd (unused a member payload) bits
  · refine ⟨iff_of_false ?_ ?_, fun other again => ?_, fun _ => refused⟩
    · rintro ⟨other, again⟩
      rw [refused] at again
      cases again
    · rintro ⟨a, member, payload, bits⟩
      exact bits (unused a member payload)
    · rw [refused] at again
      cases again

/-- One of two pages of a block is released, and a stray pointer is refused. -/
theorem pgpCalls_release_page : ∃ pgpi final next nodes a fewer,
    pgpCreate ⟨0, 0, 0, 0, 0⟩ 0 64 ⟨896, 64, 2⟩ = some (some pgpi) ∧
    Runs.exec pgpStep [.alloc ⟨0, 0, 0, 0, 0⟩ 64, .alloc ⟨0, 0, 0, 0, 0⟩ 64] ⟨pgpi, []⟩ = some final ∧
    pgpFree ⟨0, 0, 0, 0, 0⟩ final.pool 640 = some (next, 0) ∧ final.pool.payload a = 640 ∧
    Gone final.pool nodes a next fewer := by
  obtain ⟨built, run, pools⟩ := pgpCalls_release ⟨0, 0, 0, 0, 0⟩ 0 64 ⟨896, 64, 2⟩
    (Accepted.of_large ⟨6, by decide, by decide⟩ (by decide) (by decide +kernel))
  have meets : ∀ found ∈ pgpCreate ⟨0, 0, 0, 0, 0⟩ 0 64 ⟨896, 64, 2⟩, found.isSome ∧ ∀ pgpi ∈ found,
      Runs.Meets pgpStep (fun call state => Sized call state ∧ Counted call state)
        [.alloc ⟨0, 0, 0, 0, 0⟩ 64, .alloc ⟨0, 0, 0, 0, 0⟩ 64] ⟨pgpi, []⟩ ∧
      ∀ final ∈ Runs.exec pgpStep [.alloc ⟨0, 0, 0, 0, 0⟩ 64, .alloc ⟨0, 0, 0, 0, 0⟩ 64] ⟨pgpi, []⟩,
        Counted (.free ⟨0, 0, 0, 0, 0⟩ 640) final ∧
        ∃ result ∈ pgpFree ⟨0, 0, 0, 0, 0⟩ final.pool 640, result.2 = 0 := by
    decide +kernel
  obtain ⟨created, known⟩ := meets built run
  obtain ⟨pgpi, rfl⟩ := Option.isSome_iff_exists.mp created
  obtain ⟨requested, after⟩ := known pgpi rfl
  obtain ⟨final, taken, tree, nodes, -, releases⟩ := pools pgpi rfl _ requested
  obtain ⟨counted, ⟨next, zero⟩, freed, rfl⟩ := after final taken
  obtain ⟨a, blocks, result, fewer, payload, gone, -⟩ :=
    (releases ⟨0, 0, 0, 0, 0⟩ 640 counted).2.1 next freed
  exact ⟨pgpi, final, next, nodes, a, fewer, run, taken, freed, payload, gone⟩

/-- After a request of no pages two blocks start at one address, and the larger one cannot be released. -/
theorem pgpFree_hidden : ∃ built ∈ pgpCreate ⟨0, 0, 0, 0, 0⟩ 0 64 ⟨896, 64, 2⟩, ∃ pgpi ∈ built,
    ∃ final ∈ Runs.exec pgpStep
      [.alloc ⟨0, 0, 0, 0, 0⟩ 0, .alloc ⟨0, 0, 0, 0, 0⟩ 128, .free ⟨0, 0, 0, 0, 0⟩ 640] ⟨pgpi, []⟩,
    final.pool.payload 400 = 640 ∧ (final.pool.node 400).using = 1 ∧ (final.pool.node 400).pgCount = 2 ∧
    ∃ result ∈ pgpFree ⟨0, 0, 0, 0, 0⟩ final.pool 640, result.2 = -1 := by
  decide +kernel

/-- In every pool that is reached a released block is joined with the free blocks behind it. -/
theorem pgpCalls_joined (junk : Junk) (rslt : Int) (addr : Nat) (cfg : PgpConfig)
    (accepted : Accepted addr cfg) :
    ∃ built, pgpCreate junk rslt addr cfg = some built ∧ ∀ pgpi ∈ built, ∀ calls,
      Runs.Meets pgpStep (fun call state => Sized call state ∧ Counted call state) calls ⟨pgpi, []⟩ →
      ∃ final, Runs.exec pgpStep calls ⟨pgpi, []⟩ = some final ∧
        ∀ (junk : Junk) (p : BitVec 64) next, Counted (.free junk p) final →
          pgpFree junk final.pool p.toNat = some (next, 0) →
          ∃ a blocks tree nodes, PoolLaw pgpi.chunkAddr pgpi.limit ⟨next, blocks⟩ tree nodes ∧ a ∈ nodes ∧
            next.payload a = p.toNat ∧ (next.node a).using = 0 ∧ Joined next nodes a := by
  obtain ⟨built, run, pools⟩ := sized_reached junk rslt accepted
  refine ⟨built, run, fun pgpi here calls meets => ?_⟩
  obtain ⟨configured, reach⟩ := pools pgpi here
  obtain ⟨final, taken, tree, nodes, reached⟩ := reach calls meets
  refine ⟨final, taken, fun junk p other few again => ?_⟩
  rcases pgpFree_iff configured reached few junk p.toNat with
    ⟨-, a, next, blocks, result, fewer, freed, after, -, payload, -, released⟩ | ⟨-, refused⟩
  · rw [freed] at again
    cases again
    exact ⟨a, blocks, result, fewer, after.law, released.still, released.samePayload.trans payload,
      released.unused, released.joined⟩
  · rw [refused] at again
    cases again

/-- The first page of a block joins the second page again. -/
theorem pgpCalls_joined_page : ∃ pgpi final next nodes a,
    pgpCreate ⟨0, 0, 0, 0, 0⟩ 0 64 ⟨896, 64, 2⟩ = some (some pgpi) ∧
    Runs.exec pgpStep [.alloc ⟨0, 0, 0, 0, 0⟩ 64, .alloc ⟨0, 0, 0, 0, 0⟩ 64, .free ⟨0, 0, 0, 0, 0⟩ 704]
      ⟨pgpi, []⟩ = some final ∧
    pgpFree ⟨0, 0, 0, 0, 0⟩ final.pool 640 = some (next, 0) ∧ next.payload a = 640 ∧
    Joined next nodes a := by
  obtain ⟨built, run, pools⟩ := pgpCalls_joined ⟨0, 0, 0, 0, 0⟩ 0 64 ⟨896, 64, 2⟩
    (Accepted.of_large ⟨6, by decide, by decide⟩ (by decide) (by decide +kernel))
  have meets : ∀ found ∈ pgpCreate ⟨0, 0, 0, 0, 0⟩ 0 64 ⟨896, 64, 2⟩, found.isSome ∧ ∀ pgpi ∈ found,
      Runs.Meets pgpStep (fun call state => Sized call state ∧ Counted call state)
        [.alloc ⟨0, 0, 0, 0, 0⟩ 64, .alloc ⟨0, 0, 0, 0, 0⟩ 64, .free ⟨0, 0, 0, 0, 0⟩ 704] ⟨pgpi, []⟩ ∧
      ∀ final ∈ Runs.exec pgpStep
          [.alloc ⟨0, 0, 0, 0, 0⟩ 64, .alloc ⟨0, 0, 0, 0, 0⟩ 64, .free ⟨0, 0, 0, 0, 0⟩ 704] ⟨pgpi, []⟩,
        Counted (.free ⟨0, 0, 0, 0, 0⟩ 640) final ∧
        ∃ result ∈ pgpFree ⟨0, 0, 0, 0, 0⟩ final.pool 640, result.2 = 0 := by
    decide +kernel
  obtain ⟨created, known⟩ := meets built run
  obtain ⟨pgpi, rfl⟩ := Option.isSome_iff_exists.mp created
  obtain ⟨requested, after⟩ := known pgpi rfl
  obtain ⟨final, taken, joins⟩ := pools pgpi rfl _ requested
  obtain ⟨counted, ⟨next, zero⟩, freed, rfl⟩ := after final taken
  obtain ⟨a, blocks, tree, nodes, -, -, payload, -, joined⟩ := joins ⟨0, 0, 0, 0, 0⟩ 640 next counted freed
  exact ⟨pgpi, final, next, nodes, a, run, taken, freed, payload, joined⟩

/-- Two free blocks of a page stay side by side when the second one is released last. -/
theorem pgpFree_apart : ∃ built ∈ pgpCreate ⟨0, 0, 0, 0, 0⟩ 0 64 ⟨896, 64, 2⟩, ∃ pgpi ∈ built,
    ∃ final ∈ Runs.exec pgpStep
      [.alloc ⟨0, 0, 0, 0, 0⟩ 64, .alloc ⟨0, 0, 0, 0, 0⟩ 64, .free ⟨0, 0, 0, 0, 0⟩ 640] ⟨pgpi, []⟩,
    ∃ result ∈ pgpFree ⟨0, 0, 0, 0, 0⟩ final.pool 704, result.2 = 0 ∧
      ∃ a ∈ result.1.pgnFromPayload 640, ∃ b ∈ result.1.pgnFromPayload 704,
        (result.1.node a).using = 0 ∧ (result.1.node b).using = 0 ∧
        result.1.payload a + result.1.bytes a = result.1.payload b ∧
        (result.1.node a).pgCount + (result.1.node b).pgCount ≤ result.1.maxpgCount := by
  decide +kernel

end Syslib.Pgpool
