import Syslib.Library.Runs
import Syslib.Mmpool.Invariant

namespace Syslib.Mmpool

open IntrusiveLists Runs

inductive MmpCall where
  | alloc (payloadSize : BitVec 64)
  | free (p : BitVec 64)
  deriving DecidableEq, Repr

/-- The pool alone takes any calls, also a second release of a pointer. -/
def mmpRun (call : MmpCall) (mmpi : MmpoolImpl) : Option MmpoolImpl :=
  match call with
  | .alloc payloadSize => (mmpAlloc mmpi payloadSize.toNat).map Prod.fst
  | .free p => (mmpFree mmpi p.toNat).map Prod.fst

/-- The words of a pool that was created at the address `base`. -/
def MmpoolImpl.words (mmpi : MmpoolImpl) (base : Nat) (rest : Nat → Nat) : Nat → Nat :=
  headed base mmpi.chunckLabel mmpi.addrBegin mmpi.addrEnd rest

/-- The result is null on failure; a null argument reads before the start of the memory. -/
def mmpLoad (word : Nat → Nat) (addr : Nat) : Option Nat :=
  if addr % 8 ≠ 0 then some 0
  else if addr = 0 then none
  else
    let mmpi := addr - 8
    if word mmpi ≠ chunkLabel then some 0
    else if word (mmpi + 8) ≠ mmpi ∨ word (mmpi + 16) ≤ addr then some 0
    else some (mmpi + 8)

variable {bh nbh gone hd fln idx rounds size addr base : Nat} {rslt : Int} {mmpi next : MmpoolImpl}

section Kept

theorem makeBlock_kept (made : mmpi.makeBlock addr size = (next, hd)) : mmpi.Kept next := by
  unfold MmpoolImpl.makeBlock at made
  split_ifs at made
  · rw [← show _ = next from congrArg Prod.fst made]
    rfl
  · rw [← show _ = next from congrArg Prod.fst made]
    rfl

theorem returnFreeNodeToHead_kept (run : mmpi.returnFreeNodeToHead hd = some (next, rslt)) :
    mmpi.Kept next := by
  unfold MmpoolImpl.returnFreeNodeToHead MmpoolImpl.fetchFreeFln at run
  split_ifs at run
  · cases run
    rfl
  · cases run
    rfl
  · simp only [Option.bind_eq_bind, Option.bind_eq_some_iff] at run
    obtain ⟨idx, -, ⟨fetched, fln⟩, taken, run⟩ := run
    split at taken
    · cases taken
    · cases taken
      split_ifs at run
      cases run
      rfl

theorem splitBlock_kept {count : Nat} (run : mmpi.splitBlock count bh size = some (next, idx)) :
    mmpi.Kept next := by
  induction count generalizing mmpi size with
  | zero =>
      cases run
      rfl
  | succ count ih =>
      rw [MmpoolImpl.splitBlock] at run
      simp only [Option.bind_eq_bind, Option.bind_eq_some_iff] at run
      obtain ⟨⟨linked, rslt⟩, entered, rest⟩ := run
      have upper := makeBlock_kept (Prod.mk.eta (p := mmpi.makeBlock (bh + size / 2) (size / 2))).symm
      exact (upper.trans (returnFreeNodeToHead_kept entered)).trans (ih rest)

theorem takeFreeNode_kept (run : mmpi.takeFreeNode idx = some (next, rslt, bh)) : mmpi.Kept next := by
  unfold MmpoolImpl.takeFreeNode at run
  split at run
  · cases run
    rfl
  · rename_i list _
    split at run
    · cases run
      rfl
    · rename_i fln rest _
      have popped : mmpi.Kept { mmpi with lists := removeNode mmpi.lists fln } := rfl
      split_ifs at run
      · simp only [Option.bind_eq_bind, Option.bind_eq_some_iff] at run
        obtain ⟨⟨cut, newSize⟩, halves, ⟨linked, rslt⟩, entered, run⟩ := run
        cases run
        have lower := makeBlock_kept (Prod.mk.eta (p := cut.makeBlock (mmpi.block fln) newSize)).symm
        have second := lower.trans (returnFreeNodeToHead_kept entered)
        have last : linked.Kept (linked.returnFreeFln fln) := rfl
        exact ((popped.trans (splitBlock_kept halves)).trans second).trans last
      · cases run
        rfl

theorem unlinkBlock_kept (run : mmpi.unlinkBlock bh = some (next, rslt)) : mmpi.Kept next := by
  simp only [MmpoolImpl.unlinkBlock, Option.bind_eq_bind, Option.bind_eq_some_iff] at run
  obtain ⟨idx, -, run⟩ := run
  split_ifs at run
  · cases run
    rfl
  · cases run
    rfl
  · cases run
    rfl

theorem mergeBuddies_kept (run : mmpi.mergeBuddies bh nbh gone = some (next, hd)) : mmpi.Kept next := by
  unfold MmpoolImpl.mergeBuddies at run
  split_ifs at run
  · cases run
    rfl
  · cases run
    rfl
  · simp only at run
    split_ifs at run
    · cases run
      rfl
    · simp only [Option.bind_eq_bind, Option.bind_eq_some_iff] at run
      obtain ⟨⟨unlinked, rslt⟩, gone, run⟩ := run
      have first := unlinkBlock_kept gone
      split_ifs at run
      · cases run
        exact first
      · exact first.trans (makeBlock_kept (Option.some.inj run))

theorem allocLoop_kept (run : mmpi.allocLoop rounds idx = some (next, bh)) : mmpi.Kept next := by
  induction rounds generalizing mmpi with
  | zero => cases run
  | succ rounds ih =>
      simp only [MmpoolImpl.allocLoop, Option.bind_eq_bind, Option.bind_eq_some_iff] at run
      obtain ⟨⟨taken, rslt, block⟩, took, run⟩ := run
      have first := takeFreeNode_kept took
      split_ifs at run
      · cases run
        exact first
      · exact first.trans (ih run)
      · cases run
        exact first
      · cases run
        exact first.trans rfl

theorem mergeLoop_kept (run : mmpi.mergeLoop rounds bh = some (next, hd)) : mmpi.Kept next := by
  induction rounds generalizing mmpi bh with
  | zero => cases run
  | succ rounds ih =>
      rw [MmpoolImpl.mergeLoop] at run
      split_ifs at run
      · simp only [Option.bind_eq_bind, Option.bind_eq_some_iff] at run
        obtain ⟨⟨joined, after⟩, merged, run⟩ := run
        have first := mergeBuddies_kept merged
        split_ifs at run
        · exact first.trans (ih run)
        · simp only [Option.bind_eq_some_iff] at run
          obtain ⟨⟨back, before⟩, mergedBack, run⟩ := run
          have second := first.trans (mergeBuddies_kept mergedBack)
          split_ifs at run
          · exact second.trans (ih run)
          · cases run
            exact second
      · cases run
        rfl

theorem mmpAlloc_kept {payloadSize : Nat} (run : mmpAlloc mmpi payloadSize = some (next, bh)) :
    mmpi.Kept next := by
  unfold mmpAlloc at run
  split_ifs at run
  · cases run
    rfl
  · split at run
    · cases run
      rfl
    · exact allocLoop_kept run

theorem mmpFree_kept {p : Nat} (run : mmpFree mmpi p = some (next, rslt)) : mmpi.Kept next := by
  unfold mmpFree at run
  split_ifs at run
  · cases run
    rfl
  · simp only at run
    split_ifs at run
    · cases run
      rfl
    · cases run
      rfl
    · simp only [Option.bind_eq_bind, Option.bind_eq_some_iff] at run
      obtain ⟨⟨merged, block⟩, loop, run⟩ := run
      have released : mmpi.Kept (mmpi.writeHead (p - headSize) { mmpi.head (p - headSize) with
        flag := (mmpi.head (p - headSize)).flag ^^^ blockBitUsed }) := rfl
      exact (released.trans (mergeLoop_kept loop)).trans (returnFreeNodeToHead_kept run)

theorem mmpRun_kept {call : MmpCall} (run : mmpRun call mmpi = some next) : mmpi.Kept next := by
  cases call with
  | alloc payloadSize =>
      obtain ⟨⟨pool, p⟩, alloc, rfl⟩ := Option.map_eq_some_iff.mp run
      exact mmpAlloc_kept alloc
  | free p =>
      obtain ⟨⟨pool, rslt⟩, free, rfl⟩ := Option.map_eq_some_iff.mp run
      exact mmpFree_kept free

/-- No call writes to the structure in front of the chunk. -/
theorem mmpCalls_kept {calls : List MmpCall} (run : exec mmpRun calls mmpi = some next) :
    mmpi.Kept next := by
  induction calls generalizing mmpi with
  | nil =>
      cases run
      rfl
  | cons call rest ih =>
      obtain ⟨middle, step, run⟩ := Option.bind_eq_some_iff.mp run
      exact (mmpRun_kept step).trans (ih run)

theorem initRow_kept {stop last : Nat}
    (run : initRow size stop rounds mmpi addr = some (some (next, last))) : mmpi.Kept next := by
  induction rounds generalizing mmpi addr with
  | zero => cases run
  | succ rounds ih =>
      rw [initRow] at run
      dsimp only at run
      split_ifs at run
      · cases run
      · simp only [Option.bind_eq_bind, Option.bind_eq_some_iff] at run
        obtain ⟨⟨linked, rslt⟩, entered, run⟩ := run
        have made := makeBlock_kept (Prod.mk.eta (p := mmpi.makeBlock addr size)).symm
        split_ifs at run
        · cases run
        · exact (made.trans (returnFreeNodeToHead_kept entered)).trans (ih run)
      · cases run
        rfl

theorem initRows_kept {stop chk2 : Nat}
    (run : initRows stop rounds mmpi idx addr chk2 = some (some next)) : mmpi.Kept next := by
  induction rounds generalizing mmpi idx addr chk2 with
  | zero => cases run
  | succ rounds ih =>
      rw [initRows] at run
      split_ifs at run
      · simp only [Option.bind_eq_bind, Option.bind_eq_some_iff] at run
        obtain ⟨row, filled, run⟩ := run
        cases row with
        | none => cases run
        | some result =>
            obtain ⟨listed, chk1⟩ := result
            exact (initRow_kept filled).trans (ih run)
      · cases run
        rfl

end Kept

/-- The rows of blocks are written behind the structure; a smallest block has its head and tail. -/
theorem mmpCreate_kept {outside : Nat → Word} {label : Nat} {cfg : MmpConfig}
    (made : mmpCreate outside label addr cfg = some (some mmpi)) :
    addr ≠ 0 ∧ addr % 8 = 0 ∧ headTailSize ≤ cfg.totalSize.toNat ∧
      (emptyPool outside addr cfg).Kept mmpi := by
  unfold mmpCreate at made
  split_ifs at made with refused small large
  · cases made
  · cases made
  · cases made
  · unfold mmpInitChunk at made
    dsimp only at made
    split_ifs at made with order heads written room behind
    · cases made
    · cases made
    · cases made
    · cases made
    · exact ⟨by omega, by omega, by omega, initRows_kept made⟩

/-- The creation writes the label and both ends. -/
theorem mmpCreate_begin {outside : Nat → Word} {label : Nat} {cfg : MmpConfig}
    (made : mmpCreate outside label addr cfg = some (some mmpi)) :
    addr ≠ 0 ∧ addr % 8 = 0 ∧ mmpi.chunckLabel = chunkLabel ∧ mmpi.addrBegin = addr ∧
      mmpi.addrEnd = align8 (addr + cfg.totalSize.toNat) ∧ headTailSize ≤ cfg.totalSize.toNat := by
  obtain ⟨real, aligned, least, kept⟩ := mmpCreate_kept made
  refine ⟨real, aligned, ?_, ?_, ?_, least⟩
  · rw [kept]
    rfl
  · rw [kept]
    rfl
  · rw [kept]
    rfl

theorem le_align8 {val : Nat} (inside : val + 8 ≤ 2 ^ 64) : val ≤ align8 val := by
  rw [align8, Nat.mod_eq_of_lt (by omega), show 2 ^ 64 - 8 = 2 ^ 64 - 2 ^ 3 from rfl,
    and_mask (by omega) (by decide)]
  omega

/-- A pool in memory that ends before the address space is found at its handle. -/
theorem mmpLoad_handle {outside : Nat → Word} {label : Nat} {cfg : MmpConfig} {calls : List MmpCall}
    (rest : Nat → Nat) (made : mmpCreate outside label addr cfg = some (some mmpi))
    (top : addr + cfg.totalSize.toNat + 8 ≤ 2 ^ 64) (run : exec mmpRun calls mmpi = some next) :
    mmpLoad (next.words addr rest) (addr + 8) = some (addr + 8) := by
  obtain ⟨real, aligned, label_, begin_, end_, least⟩ := mmpCreate_begin made
  have kept := mmpCalls_kept run
  have same : next.chunckLabel = chunkLabel ∧ next.addrBegin = addr ∧ next.addrEnd = mmpi.addrEnd := by
    rw [kept]
    exact ⟨label_, begin_, rfl⟩
  have room : addr + cfg.totalSize.toNat ≤ mmpi.addrEnd := by
    rw [end_]
    exact le_align8 top
  have large : 16 ≤ cfg.totalSize.toNat := least
  rw [mmpLoad, if_neg (by omega), if_neg (by omega)]
  simp only [Nat.add_sub_cancel, MmpoolImpl.words, headed_label, headed_begin, headed_end, same.1,
    same.2.1, same.2.2, ne_eq, not_true_eq_false, if_false, false_or]
  rw [if_neg (by omega)]

end Syslib.Mmpool
