import Syslib.Pgpool.Calls

namespace Syslib.Pgpool

open Rbtree IntrusiveLists Runs

/-- The words of a pool that was created at the address `base`. -/
def PgpoolImpl.words (pgpi : PgpoolImpl) (base : Nat) (rest : Nat → Nat) : Nat → Nat :=
  headed base pgpi.chunckLabel pgpi.addrBegin pgpi.addrEnd rest

/-- The result is null on failure; a refused argument reaches the unset local `pgpi`. -/
def pgpLoad (stale : Nat) (word : Nat → Nat) (addr : Nat) : Option Nat :=
  if addr = 0 ∨ addr % 8 ≠ 0 then if stale = 0 then some 0 else none
  else
    let pgpi := addr - 8
    if word pgpi ≠ pgpChunkLabel then some 0
    else if word (pgpi + 8) ≠ pgpi ∨ word (pgpi + 16) ≤ addr then some 0
    else some (pgpi + 8)

variable {a b n rounds remain pg addr size payload : Nat} {rslt : Int} {junk : Junk} {cfg : PgpConfig}
  {pgpi next : PgpoolImpl}

section Kept

theorem fetchFreePgn_kept (run : pgpi.fetchFreePgn = some (next, a)) : pgpi.Kept next := by
  unfold PgpoolImpl.fetchFreePgn at run
  split at run
  · cases run
  · cases run
    rfl

theorem linkFln_kept (run : pgpi.linkFln junk a = some next) : pgpi.Kept next := by
  unfold PgpoolImpl.linkFln at run
  dsimp only at run
  split_ifs at run
  cases run
  rfl

theorem unlinkFln_kept (run : pgpi.unlinkFln junk a = some next) : pgpi.Kept next := by
  unfold PgpoolImpl.unlinkFln at run
  dsimp only at run
  split_ifs at run
  · cases run
    rfl
  · cases run
    rfl

theorem linkRbn_kept (run : pgpi.linkRbn a = some next) : pgpi.Kept next := by
  simp only [PgpoolImpl.linkRbn, Option.bind_eq_bind, Option.bind_eq_some_iff] at run
  obtain ⟨result, -, run⟩ := run
  cases run
  rfl

theorem unlinkRbn_kept (run : pgpi.unlinkRbn a = some next) : pgpi.Kept next := by
  simp only [PgpoolImpl.unlinkRbn, Option.bind_eq_bind, Option.bind_eq_some_iff] at run
  obtain ⟨pgnTree, -, run⟩ := run
  cases run
  rfl

theorem writeNode_kept (node : PgNode) : pgpi.Kept (pgpi.writeNode a node) := rfl

theorem splitNode_kept (run : pgpi.splitNode junk a n = some next) : pgpi.Kept next := by
  simp only [PgpoolImpl.splitNode, Option.bind_eq_bind, Option.bind_eq_some_iff] at run
  obtain ⟨⟨fetched, b⟩, taken, linked, entered, run⟩ := run
  have last := (linkRbn_kept entered).trans (linkFln_kept run)
  refine ((fetchFreePgn_kept taken).trans ?_).trans last
  rfl

theorem scanLists_kept (run : pgpi.scanLists junk n = some (next, a)) : pgpi.Kept next := by
  unfold PgpoolImpl.scanLists at run
  dsimp only at run
  split at run
  · cases run
    rfl
  · simp only [Option.bind_eq_bind, Option.bind_eq_some_iff] at run
    obtain ⟨unlinked, removed, run⟩ := run
    have first := unlinkFln_kept removed
    split_ifs at run
    · simp only [Option.bind_eq_some_iff] at run
      obtain ⟨cut, halves, run⟩ := run
      cases run
      exact first.trans (splitNode_kept halves)
    · cases run
      exact first

theorem takeFreeNode_kept (run : pgpi.takeFreeNode junk n = some (next, a)) : pgpi.Kept next := by
  unfold PgpoolImpl.takeFreeNode at run
  dsimp only at run
  split_ifs at run
  · split at run
    · exact scanLists_kept run
    · cases run
      rfl
  · exact scanLists_kept run

theorem pgpAlloc_kept (run : pgpAlloc junk pgpi size = some (next, payload)) : pgpi.Kept next := by
  simp only [pgpAlloc, Option.bind_eq_bind, Option.bind_eq_some_iff] at run
  obtain ⟨⟨taken, a⟩, took, run⟩ := run
  have first := takeFreeNode_kept took
  split_ifs at run
  · cases run
    exact first
  · cases run
    exact first.trans rfl

theorem mergeLoop_kept (run : pgpi.mergeLoop junk rounds a = some next) : pgpi.Kept next := by
  induction rounds generalizing pgpi with
  | zero => cases run
  | succ rounds ih =>
      simp only [PgpoolImpl.mergeLoop, Option.bind_eq_bind, Option.bind_eq_some_iff] at run
      obtain ⟨succ, -, run⟩ := run
      split_ifs at run
      · cases run
        rfl
      · cases run
        rfl
      · cases run
        rfl
      · simp only [Option.bind_eq_some_iff] at run
        obtain ⟨unlinked, removed, left, dropped, run⟩ := run
        have first := (unlinkFln_kept removed).trans (unlinkRbn_kept dropped)
        refine (first.trans ?_).trans (ih run)
        rfl

theorem returnFreeNode_kept (run : pgpi.returnFreeNode junk a = some next) : pgpi.Kept next := by
  simp only [PgpoolImpl.returnFreeNode, Option.bind_eq_bind, Option.bind_eq_some_iff] at run
  obtain ⟨merged, loop, run⟩ := run
  exact (mergeLoop_kept loop).trans (linkFln_kept run)

theorem pgpFree_kept (run : pgpFree junk pgpi payload = some (next, rslt)) : pgpi.Kept next := by
  unfold pgpFree at run
  split_ifs at run
  · cases run
    rfl
  · simp only [Option.bind_eq_bind, Option.bind_eq_some_iff] at run
    obtain ⟨a, -, run⟩ := run
    split_ifs at run
    · cases run
      rfl
    · cases run
      rfl
    · simp only [Option.bind_eq_some_iff] at run
      obtain ⟨returned, loop, run⟩ := run
      have first := PgpoolImpl.Kept.trans (writeNode_kept _) (returnFreeNode_kept loop)
      cases run
      exact first.trans rfl

theorem pgpStep_kept {call : PgpCall} {state last : PgpState} (run : pgpStep call state = some last) :
    state.pool.Kept last.pool := by
  cases call with
  | alloc junk size =>
      simp only [pgpStep, Option.bind_eq_bind, Option.bind_eq_some_iff] at run
      obtain ⟨⟨pool, payload⟩, alloc, run⟩ := run
      cases run
      exact pgpAlloc_kept alloc
  | free junk payload =>
      simp only [pgpStep, Option.bind_eq_bind, Option.bind_eq_some_iff] at run
      obtain ⟨⟨pool, rslt⟩, free, run⟩ := run
      cases run
      exact pgpFree_kept free

/-- No call writes to the structure in front of the pages. -/
theorem pgpCalls_kept {calls : List PgpCall} {state last : PgpState}
    (run : exec pgpStep calls state = some last) : state.pool.Kept last.pool := by
  induction calls generalizing state with
  | nil =>
      cases run
      rfl
  | cons call rest ih =>
      obtain ⟨middle, step, run⟩ := Option.bind_eq_some_iff.mp run
      exact (pgpStep_kept step).trans (ih run)

theorem carve_kept (run : carve junk rounds pgpi remain pg = some next) : pgpi.Kept next := by
  induction rounds generalizing pgpi remain pg with
  | zero =>
      rw [carve] at run
      split_ifs at run
      cases run
      rfl
  | succ rounds ih =>
      rw [carve] at run
      split_ifs at run
      · cases run
        rfl
      · simp only [Option.bind_eq_bind, Option.bind_eq_some_iff] at run
        obtain ⟨⟨fetched, b⟩, taken, linked, entered, listed, filed, run⟩ := run
        have last := ((linkRbn_kept entered).trans (linkFln_kept filed)).trans (ih run)
        refine ((fetchFreePgn_kept taken).trans ?_).trans last
        rfl

end Kept

/-- The creation writes the label and its own address in front of the pool. -/
theorem pgpCreate_begin (made : pgpCreate junk rslt addr cfg = some (some pgpi)) :
    addr ≠ 0 ∧ addr % 8 = 0 ∧ pgpi.chunckLabel = pgpChunkLabel ∧ pgpi.addrBegin = addr := by
  unfold pgpCreate at made
  split_ifs at made with refused order
  · cases made
  · simp only [Option.bind_eq_bind, Option.bind_eq_some_iff] at made
    obtain ⟨carved, cut, made⟩ := made
    have kept := carve_kept cut
    have result := Option.some.inj made
    split_ifs at result
    obtain rfl := Option.some.inj result
    refine ⟨by omega, by omega, ?_, ?_⟩
    · rw [kept]
      rfl
    · rw [kept]
      rfl
  · cases made

/-- A pool whose structure lies in its range is found at its handle. -/
theorem pgpLoad_handle {calls : List PgpCall} {blocks : List (Nat × Nat)} {last : PgpState}
    (stale : Nat) (rest : Nat → Nat) (made : pgpCreate junk rslt addr cfg = some (some pgpi))
    (inside : addr + 8 < pgpi.addrEnd) (run : exec pgpStep calls ⟨pgpi, blocks⟩ = some last) :
    pgpLoad stale (last.pool.words addr rest) (addr + 8) = some (addr + 8) := by
  obtain ⟨real, aligned, label, begin_⟩ := pgpCreate_begin made
  have kept := pgpCalls_kept run
  have same : last.pool.chunckLabel = pgpChunkLabel ∧ last.pool.addrBegin = addr ∧
      last.pool.addrEnd = pgpi.addrEnd := by
    rw [kept]
    exact ⟨label, begin_, rfl⟩
  rw [pgpLoad, if_neg (by omega)]
  simp only [Nat.add_sub_cancel, PgpoolImpl.words, headed_label, headed_begin, headed_end, same.1,
    same.2.1, same.2.2, ne_eq, not_true_eq_false, if_false, false_or]
  rw [if_neg (by omega)]

end Syslib.Pgpool
