import Mathlib.Tactic
import Syslib.Stkpool.Model

namespace Syslib.Stkpool

/-- The page size that `sysconf` reports is a power of two from 4096 on. -/
def PageSize (pgSize : Nat) : Prop := ∃ k, 12 ≤ k ∧ k ≤ 32 ∧ pgSize = 2 ^ k

/-- A frame is a guard page and a stack, rounded up to whole pages. -/
def frameSize (pgSize stkFrmSize : Nat) : Nat := roundUp (pgSize + stkFrmSize) pgSize

/-- The frames end at the rounded end of the memory. -/
def poolEnd (pgSize addr totalSize stkFrmSize : Nat) : Nat :=
  roundDown ((addr + totalSize) % 2 ^ 64) (frameSize pgSize stkFrmSize)

/-- The exit test of the count loop: the nodes from below meet the frames from above. -/
def Meeting (curPtr addrEnd frmSize cnt : Nat) : Prop :=
  wordSub addrEnd (frmSize * cnt) < (curPtr + cnt * nodeSize) % 2 ^ 64

instance Meeting.decidable (curPtr addrEnd frmSize cnt : Nat) :
    Decidable (Meeting curPtr addrEnd frmSize cnt) :=
  inferInstanceAs (Decidable (_ < _))

/-- The nodes that the loop of `_stkp_init` writes, up to the first page that is not protected. -/
def nodesWritten (ground : Ground) (payloadTrunkAddr stkFrmSize : Nat) : List Nat → List Nat
  | [] => []
  | i :: rest =>
      i :: if ground.mprotect ((payloadTrunkAddr + i * stkFrmSize) % 2 ^ 64) then
        nodesWritten ground payloadTrunkAddr stkFrmSize rest
      else []

/-- The ranges of memory that `stkp_create` writes, each with its start and its length. -/
def stkpWrites (rounds : Nat) (ground : Ground) (addr : Nat) (cfg : StkpConfig) :
    Option (List (Nat × Nat)) :=
  if addr = 0 ∨ addr % 2 ≠ 0 then some []
  else if cfg.stkFrmSize.toNat < minStkSize then some []
  else do
    let frmSize := frameSize ground.sysPgSize cfg.stkFrmSize.toNat
    let addrEnd := poolEnd ground.sysPgSize addr cfg.totalSize.toNat cfg.stkFrmSize.toNat
    let cnt ← countFrames (movePtrAlign8 addr implSize) addrEnd frmSize rounds ground.stkFrmCnt
    let nodes := nodesWritten ground (wordSub addrEnd (frmSize * cnt)) frmSize (List.range cnt)
    some ((addr, implSize) :: nodes.map fun i => (addr + implSize + nodeSize * i, nodeSize))

/-- The start of a frame, which is its guard page. -/
def StkpImpl.frame (stkpi : StkpImpl) (i : Nat) : Nat := stkpi.payloadTrunkAddr + i * stkpi.stkFrmSize

/-- The pool has at least one frame, and its parts lie one behind the other inside its memory. -/
structure Laid (stkpi : StkpImpl) (addr totalSize stkFrmSize : Nat) : Prop where
  some_frame : 0 < stkpi.stkFrmCnt
  start : stkpi.addrBegin = addr
  nodes : addr + implSize + nodeSize * stkpi.stkFrmCnt ≤ stkpi.frame 0
  inside : ∀ i < stkpi.stkFrmCnt, stkpi.frame i + stkpi.stkFrmSize ≤ addr + totalSize
  apart : ∀ i j, i < j → stkpi.frame i + stkpi.stkFrmSize ≤ stkpi.frame j
  aligned : ∀ i, stkpi.frame i % stkpi.sysPgSize = 0
  stack : stkpi.sysPgSize + stkFrmSize ≤ stkpi.stkFrmSize
  node : ∀ i < stkpi.stkFrmCnt, stkpi.node i = stkpi.frame i + stkpi.sysPgSize
  listed : stkpi.freeList = List.range stkpi.stkFrmCnt

/-- The creation ends, it writes only into its memory, and a pool that it returns is laid out there. -/
def CreateLaw (rounds : Nat) (ground : Ground) (addr : Nat) (cfg : StkpConfig) : Prop :=
  ∃ result writes, stkpCreate rounds ground addr cfg = some result ∧
    stkpWrites rounds ground addr cfg = some writes ∧
    (∀ write ∈ writes, addr ≤ write.1 ∧ write.1 + write.2 ≤ addr + cfg.totalSize.toNat) ∧
    ∀ stkpi ∈ result, Laid stkpi addr cfg.totalSize.toNat cfg.stkFrmSize.toNat

section Sizes

variable {pgSize stkFrmSize addr totalSize : Nat}

theorem PageSize.bounds (page : PageSize pgSize) : 4096 ≤ pgSize ∧ pgSize ≤ 2 ^ 32 ∧ 4096 ∣ pgSize ∧
    pgSize ∣ 2 ^ 64 := by
  obtain ⟨k, low, high, rfl⟩ := page
  refine ⟨?_, Nat.pow_le_pow_right (by decide) high, ?_, Nat.pow_dvd_pow 2 (by omega)⟩
  · exact Nat.pow_le_pow_right (by decide : 0 < 2) low
  · exact Nat.pow_dvd_pow 2 low

theorem frameSize_spec (page : PageSize pgSize) (small : stkFrmSize < 2 ^ 32) :
    pgSize + stkFrmSize ≤ frameSize pgSize stkFrmSize ∧
      frameSize pgSize stkFrmSize < 2 * pgSize + stkFrmSize ∧ pgSize ∣ frameSize pgSize stkFrmSize := by
  obtain ⟨-, large, -, -⟩ := page.bounds
  obtain ⟨k, low, high, rfl⟩ := page
  have fits : 2 ^ k + stkFrmSize + 2 ^ k ≤ 2 ^ 64 := by omega
  obtain ⟨above, multiple, -⟩ := roundUp_spec fits (by omega : k ≤ 64)
  refine ⟨above, ?_, Nat.dvd_of_mod_eq_zero multiple⟩
  have positive := Nat.two_pow_pos k
  have whole := Nat.mul_div_le (2 ^ k + stkFrmSize + 2 ^ k - 1) (2 ^ k)
  rw [frameSize, roundUp_eq fits (by omega : k ≤ 64)]
  omega

/-- The mask drops the low bits of the end, and more when the frame size is not a power of two. -/
theorem poolEnd_spec (page : PageSize pgSize) (small : stkFrmSize < 2 ^ 32) :
    poolEnd pgSize addr totalSize stkFrmSize ≤ (addr + totalSize) % 2 ^ 64 ∧
      pgSize ∣ poolEnd pgSize addr totalSize stkFrmSize := by
  obtain ⟨-, upper, multiple⟩ := frameSize_spec page small
  obtain ⟨-, large, -, word⟩ := page.bounds
  obtain ⟨k, low, high, rfl⟩ := page
  refine ⟨Nat.and_le_left, ?_⟩
  have mask : (2 ^ 64 - frameSize (2 ^ k) stkFrmSize) % 2 ^ k = 0 :=
    Nat.mod_eq_zero_of_dvd (Nat.dvd_sub word multiple)
  apply Nat.dvd_of_mod_eq_zero
  rw [poolEnd, roundDown, Nat.and_mod_two_pow, mask, Nat.and_zero]

end Sizes

section Count

variable {curPtr addrEnd frmSize rounds : Nat}

/-- The loop ends at the first count that passes the exit test. -/
theorem countFrames_first {n cnt : Nat} (stops : Meeting curPtr addrEnd frmSize n)
    (first : ∀ m, cnt ≤ m → m < n → ¬ Meeting curPtr addrEnd frmSize m) (below : cnt ≤ n)
    (inside : n < 2 ^ 64) (enough : n < cnt + rounds) :
    countFrames curPtr addrEnd frmSize rounds cnt = some (wordSub n 1) := by
  induction rounds generalizing cnt with
  | zero => omega
  | succ rounds ih =>
      rw [countFrames]
      split_ifs with here
      · have same : cnt = n := by
          by_contra other
          exact first cnt (le_refl _) (by omega) here
        rw [same]
      · have other : cnt ≠ n := fun equal => here (equal ▸ stops)
        rw [Nat.mod_eq_of_lt (by omega)]
        exact ih (fun m lower upper => first m (by omega) upper) (by omega) (by omega)

/-- At some count the lower end is the last word of the address space, which no frame reaches. -/
theorem exists_meeting (aligned : curPtr % 8 = 0) (inside : curPtr < 2 ^ 64) (endPage : 4096 ∣ addrEnd)
    (frmPage : 4096 ∣ frmSize) : ∃ n < 2 ^ 61, Meeting curPtr addrEnd frmSize n := by
  -- The number below is the inverse of three modulo `2 ^ 61`.
  refine ⟨(2 ^ 61 - 1 - curPtr / 8) * 768614336404564651 % 2 ^ 61, Nat.mod_lt _ (by decide), ?_⟩
  generalize steps : (2 ^ 61 - 1 - curPtr / 8) * 768614336404564651 % 2 ^ 61 = n
  have last : (curPtr + n * nodeSize) % 2 ^ 64 = 2 ^ 64 - 8 := by
    rw [nodeSize]
    omega
  have page : 4096 ∣ wordSub addrEnd (frmSize * n) := by
    have frames : 4096 ∣ frmSize * n := frmPage.mul_right n
    rw [wordSub]
    omega
  have word : wordSub addrEnd (frmSize * n) < 2 ^ 64 := Nat.mod_lt _ (by decide)
  rw [Meeting, last]
  omega

theorem countFrames_ends (aligned : curPtr % 8 = 0) (inside : curPtr < 2 ^ 64) (endPage : 4096 ∣ addrEnd)
    (frmPage : 4096 ∣ frmSize) (enough : 2 ^ 61 ≤ rounds) :
    ∃ n < 2 ^ 61, Meeting curPtr addrEnd frmSize n ∧ (∀ m < n, ¬ Meeting curPtr addrEnd frmSize m) ∧
      countFrames curPtr addrEnd frmSize rounds 0 = some (wordSub n 1) := by
  obtain ⟨bound, small, stops⟩ := exists_meeting aligned inside endPage frmPage
  have found : ∃ n, Meeting curPtr addrEnd frmSize n := ⟨bound, stops⟩
  have least := Nat.find_min' found stops
  have before : ∀ m < Nat.find found, ¬ Meeting curPtr addrEnd frmSize m := fun m less => Nat.find_min found less
  refine ⟨Nat.find found, by omega, Nat.find_spec found, before, ?_⟩
  exact countFrames_first (Nat.find_spec found) (fun m _ => before m) (Nat.zero_le _) (by omega) (by omega)

end Count

/-- The exit test in terms of the distance between the structure and the end. -/
theorem meeting_fitting {start addrEnd frmSize cnt : Nat} (head : start ≤ addrEnd)
    (inside : addrEnd + 4096 ≤ 2 ^ 64) (lower : (frmSize + nodeSize) * cnt ≤ addrEnd - start)
    (upper : addrEnd - start < (frmSize + nodeSize) * (cnt + 1)) (below : frmSize * (cnt + 1) ≤ addrEnd) :
    (∀ m < cnt + 1, ¬ Meeting start addrEnd frmSize m) ∧ Meeting start addrEnd frmSize (cnt + 1) := by
  constructor
  · intro m less meeting
    have part : (frmSize + nodeSize) * m ≤ (frmSize + nodeSize) * cnt :=
      Nat.mul_le_mul_left _ (Nat.le_of_lt_succ less)
    rw [Nat.add_mul frmSize nodeSize m] at part
    simp only [Meeting, wordSub, nodeSize] at *
    omega
  · rw [Nat.add_mul] at lower upper
    rw [Nat.mul_succ] at upper below
    simp only [Meeting, wordSub, Nat.mul_succ, nodeSize] at *
    omega

/-- A loop that ends after the first count has room for the structure and for less than one frame. -/
theorem ends_of_one {start last addrEnd frmSize : Nat} (head : start ≤ last) (memory : last ≤ 2 ^ 64)
    (low : addrEnd ≤ last % 2 ^ 64) (inside : addrEnd + 4096 ≤ 2 ^ 64) (some_frame : 0 < frmSize)
    (small : frmSize ≤ 2 ^ 40) (before : ¬ Meeting (start % 2 ^ 64) addrEnd frmSize 0)
    (stops : Meeting (start % 2 ^ 64) addrEnd frmSize 1) :
    start ≤ addrEnd ∧ addrEnd - start < frmSize + nodeSize ∧ frmSize ≤ addrEnd := by
  simp only [Meeting, wordSub, nodeSize, Nat.mul_zero, Nat.mul_one, Nat.zero_mul, Nat.one_mul] at before stops
  simp only [nodeSize]
  omega

/-- Nodes and frames that lie inside the memory one behind the other have not wrapped around. -/
theorem ends_of_laid {start last addrEnd frmSize cnt : Nat} (memory : last ≤ 2 ^ 64)
    (low : addrEnd ≤ last % 2 ^ 64) (inside : addrEnd + 4096 ≤ 2 ^ 64) (positive : 0 < start)
    (some_frame : 0 < frmSize) (small : frmSize ≤ 2 ^ 40)
    (before : ¬ Meeting (start % 2 ^ 64) addrEnd frmSize 0)
    (stops : Meeting (start % 2 ^ 64) addrEnd frmSize (cnt + 1))
    (nodes : start + nodeSize * cnt ≤ wordSub addrEnd (frmSize * cnt))
    (frames : wordSub addrEnd (frmSize * cnt) + frmSize * cnt ≤ last) :
    start ≤ addrEnd ∧ frmSize * cnt + nodeSize * cnt ≤ addrEnd - start ∧
      addrEnd - start < frmSize * cnt + nodeSize * cnt + frmSize + nodeSize ∧
      frmSize * cnt + frmSize ≤ addrEnd := by
  simp only [Meeting, wordSub, nodeSize, Nat.mul_zero, Nat.zero_mul, Nat.mul_succ, Nat.succ_mul] at *
  generalize frmSize * cnt = total at *
  have whole : total ≤ 2 ^ 64 := by omega
  by_cases reached : total ≤ addrEnd
  · have trunk : (addrEnd + 2 ^ 64 - total % 2 ^ 64) % 2 ^ 64 = addrEnd - total := by omega
    rw [trunk] at nodes frames
    omega
  · exfalso
    omega

section Fill

variable {ground : Ground} {stkpi next : StkpImpl} {indices : List Nat}

/-- A filled pool has written one node after the other. -/
theorem fillNodes_spec (run : fillNodes ground indices stkpi = some (some next)) (once : indices.Nodup) :
    next.freeList = stkpi.freeList ++ indices ∧ (∀ i ∈ indices, i + 1 ≠ 2 ^ 31) ∧
      (∀ i ∈ indices, next.node i =
        ((stkpi.payloadTrunkAddr + i * stkpi.stkFrmSize) % 2 ^ 64 + stkpi.sysPgSize) % 2 ^ 64) ∧
      ∀ i, i ∉ indices → next.node i = stkpi.node i := by
  induction indices generalizing stkpi with
  | nil =>
      obtain rfl := Option.some.inj (Option.some.inj run)
      simp
  | cons i rest ih =>
      simp only [fillNodes] at run
      split_ifs at run with allowed last
      · obtain ⟨fresh, once⟩ := List.nodup_cons.mp once
        obtain ⟨listed, short, filled, kept⟩ := ih run once
        refine ⟨?_, ?_, ?_, ?_⟩
        · rw [listed, List.append_assoc]
          rfl
        · intro j member
          rcases List.mem_cons.mp member with rfl | later
          · exact last
          · exact short j later
        · intro j member
          rcases List.mem_cons.mp member with rfl | later
          · rw [kept j fresh]
            exact Function.update_self _ _ _
          · exact filled j later
        · intro j outside
          rw [List.mem_cons, not_or] at outside
          rw [kept j outside.2]
          exact Function.update_of_ne outside.1 _ _
      · cases run

/-- A short list of nodes is filled, or a page is refused on the way. -/
theorem fillNodes_ends (short : ∀ i ∈ indices, i + 1 < 2 ^ 31) :
    ∃ result, fillNodes ground indices stkpi = some result := by
  induction indices generalizing stkpi with
  | nil => exact ⟨_, rfl⟩
  | cons i rest ih =>
      simp only [fillNodes]
      split_ifs with allowed last
      · have bound := short i (List.mem_cons_self ..)
        omega
      · exact ih fun j member => short j (List.mem_cons_of_mem _ member)
      · exact ⟨_, rfl⟩

/-- When every page can be protected no list is given up. -/
theorem fillNodes_allowed (allowed : ∀ page, ground.mprotect page = true) :
    fillNodes ground indices stkpi ≠ some none := by
  induction indices generalizing stkpi with
  | nil => simp [fillNodes]
  | cons i rest ih =>
      simp only [fillNodes, allowed, if_true]
      split_ifs
      · simp
      · exact ih

theorem nodesWritten_sub {payloadTrunkAddr stkFrmSize : Nat} :
    ∀ i ∈ nodesWritten ground payloadTrunkAddr stkFrmSize indices, i ∈ indices := by
  induction indices with
  | nil => simp [nodesWritten]
  | cons i rest ih =>
      intro j member
      rw [nodesWritten] at member
      split_ifs at member
      · rcases List.mem_cons.mp member with rfl | later
        · exact List.mem_cons_self ..
        · exact List.mem_cons_of_mem _ (ih j later)
      · rw [List.mem_singleton.mp member]
        exact List.mem_cons_self ..

end Fill

/-- The number of frames that fit between the structure and the rounded end, each with its node. -/
def fitting (pgSize addr totalSize stkFrmSize : Nat) : Nat :=
  (poolEnd pgSize addr totalSize stkFrmSize - (addr + implSize)) / (frameSize pgSize stkFrmSize + nodeSize)

/-- The structure ends in front of the rounded end, one frame more than fits does not reach below the
address zero, and the index of the frames is an `int`. -/
def Fits (pgSize addr totalSize stkFrmSize : Nat) : Prop :=
  addr + implSize ≤ poolEnd pgSize addr totalSize stkFrmSize ∧
    frameSize pgSize stkFrmSize * (fitting pgSize addr totalSize stkFrmSize + 1) ≤
      poolEnd pgSize addr totalSize stkFrmSize ∧
    fitting pgSize addr totalSize stkFrmSize < 2 ^ 31

instance Fits.decidable (pgSize addr totalSize stkFrmSize : Nat) :
    Decidable (Fits pgSize addr totalSize stkFrmSize) :=
  inferInstanceAs (Decidable (addr + implSize ≤ poolEnd pgSize addr totalSize stkFrmSize ∧
    frameSize pgSize stkFrmSize * (fitting pgSize addr totalSize stkFrmSize + 1) ≤
      poolEnd pgSize addr totalSize stkFrmSize ∧
    fitting pgSize addr totalSize stkFrmSize < 2 ^ 31))

theorem movePtrAlign8_eq {addr : Nat} (aligned : addr % 8 = 0) :
    movePtrAlign8 addr implSize = (addr + implSize) % 2 ^ 64 := by
  have mask := @and_mask ((addr + implSize + 7) % 2 ^ 64) 3 (Nat.mod_lt _ (by decide)) (by decide)
  rw [movePtrAlign8]
  norm_num at mask ⊢
  rw [mask]
  simp only [implSize]
  omega

section Create

variable {rounds : Nat} {ground : Ground} {addr : Nat} {cfg : StkpConfig}

/-- The creation without its refused arguments. -/
theorem stkpCreate_eq (real : addr ≠ 0) (aligned : addr % 8 = 0)
    (enough : minStkSize ≤ cfg.stkFrmSize.toNat) (zero : ground.stkFrmCnt = 0) {cnt : Nat}
    (counted : countFrames ((addr + implSize) % 2 ^ 64)
      (poolEnd ground.sysPgSize addr cfg.totalSize.toNat cfg.stkFrmSize.toNat)
      (frameSize ground.sysPgSize cfg.stkFrmSize.toNat) rounds 0 = some cnt) :
    let frmSize := frameSize ground.sysPgSize cfg.stkFrmSize.toNat
    let addrEnd := poolEnd ground.sysPgSize addr cfg.totalSize.toNat cfg.stkFrmSize.toNat
    let trunk := wordSub addrEnd (frmSize * cnt)
    (stkpCreate rounds ground addr cfg =
      if cnt = 0 then some none
      else fillNodes ground (List.range cnt)
        { stkpTag := stkpTagWord, addrBegin := addr, addrEnd := addrEnd, freeList := [],
          payloadTrunkAddr := trunk, stkFrmSize := frmSize, stkFrmCnt := cnt,
          sysPgSize := ground.sysPgSize, node := fun _ => 0 }) ∧
    stkpWrites rounds ground addr cfg = some ((addr, implSize) ::
      (nodesWritten ground trunk frmSize (List.range cnt)).map fun i =>
        (addr + implSize + nodeSize * i, nodeSize)) := by
  intro frmSize addrEnd trunk
  have even : ¬ (addr = 0 ∨ addr % 2 ≠ 0) := by omega
  have big : ¬ cfg.stkFrmSize.toNat < minStkSize := Nat.not_lt.mpr enough
  rw [← movePtrAlign8_eq aligned, ← zero] at counted
  constructor
  · simp only [poolEnd, frameSize] at counted
    simp only [stkpCreate, if_neg even, if_neg big, stkpInit, Option.bind_eq_bind, counted, Option.bind_some]
    rfl
  · simp only [stkpWrites, if_neg even, if_neg big, Option.bind_eq_bind, counted, Option.bind_some]
    rfl

variable (page : PageSize ground.sysPgSize) (zero : ground.stkFrmCnt = 0) (aligned : addr % 8 = 0)
  (memory : addr + cfg.totalSize.toNat ≤ 2 ^ 64) (enough : minStkSize ≤ cfg.stkFrmSize.toNat)
  (long : 2 ^ 61 ≤ rounds)

include page zero aligned memory enough long

/-- A pool that fits is laid out, or it is refused with nothing written behind its memory. -/
theorem createLaw_of_fits (real : addr ≠ 0)
    (fits : Fits ground.sysPgSize addr cfg.totalSize.toNat cfg.stkFrmSize.toNat) :
    CreateLaw rounds ground addr cfg := by
  have small : cfg.stkFrmSize.toNat < 2 ^ 32 := cfg.stkFrmSize.isLt
  obtain ⟨pgLow, pgHigh, pgPage, pgWord⟩ := page.bounds
  obtain ⟨frmLow, frmHigh, frmPage⟩ := frameSize_spec page small
  obtain ⟨endLow, endPage⟩ := @poolEnd_spec _ _ addr cfg.totalSize.toNat page small
  obtain ⟨head, below, short⟩ := fits
  have division := Nat.div_add_mod (poolEnd ground.sysPgSize addr cfg.totalSize.toNat cfg.stkFrmSize.toNat -
    (addr + implSize)) (frameSize ground.sysPgSize cfg.stkFrmSize.toNat + nodeSize)
  have rest := Nat.mod_lt (poolEnd ground.sysPgSize addr cfg.totalSize.toNat cfg.stkFrmSize.toNat -
    (addr + implSize)) (by omega : 0 < frameSize ground.sysPgSize cfg.stkFrmSize.toNat + nodeSize)
  rw [← fitting] at division
  have bound : poolEnd ground.sysPgSize addr cfg.totalSize.toNat cfg.stkFrmSize.toNat + 4096 ≤ 2 ^ 64 := by
    have whole := pgPage.trans endPage
    omega
  have most := Nat.mod_le (addr + cfg.totalSize.toNat) (2 ^ 64)
  have inside : (addr + implSize) % 2 ^ 64 = addr + implSize := Nat.mod_eq_of_lt (by omega)
  have upper : poolEnd ground.sysPgSize addr cfg.totalSize.toNat cfg.stkFrmSize.toNat - (addr + implSize) <
      (frameSize ground.sysPgSize cfg.stkFrmSize.toNat + nodeSize) *
        (fitting ground.sysPgSize addr cfg.totalSize.toNat cfg.stkFrmSize.toNat + 1) := by
    rw [Nat.mul_succ]
    omega
  obtain ⟨first, stops⟩ := meeting_fitting head bound (by omega) upper below
  have counted := countFrames_first stops (fun m _ => first m) (Nat.zero_le _) (by omega)
    (by omega : _ < 0 + rounds)
  have counts : wordSub (fitting ground.sysPgSize addr cfg.totalSize.toNat cfg.stkFrmSize.toNat + 1) 1 =
      fitting ground.sysPgSize addr cfg.totalSize.toNat cfg.stkFrmSize.toNat := by
    rw [wordSub]
    omega
  rw [counts, ← inside] at counted
  obtain ⟨created, written⟩ := stkpCreate_eq real aligned enough zero counted
  have room := Nat.add_mul (frameSize ground.sysPgSize cfg.stkFrmSize.toNat) nodeSize
    (fitting ground.sysPgSize addr cfg.totalSize.toNat cfg.stkFrmSize.toNat)
  generalize frameSize ground.sysPgSize cfg.stkFrmSize.toNat = frm at *
  generalize poolEnd ground.sysPgSize addr cfg.totalSize.toNat cfg.stkFrmSize.toNat = addrEnd at *
  generalize fitting ground.sysPgSize addr cfg.totalSize.toNat cfg.stkFrmSize.toNat = cnt at *
  have trunk : wordSub addrEnd (frm * cnt) = addrEnd - frm * cnt := by
    rw [wordSub]
    omega
  rw [trunk] at created written
  have writes : ∀ write ∈ (addr, implSize) :: (nodesWritten ground (addrEnd - frm * cnt) frm
      (List.range cnt)).map (fun i => (addr + implSize + nodeSize * i, nodeSize)),
      addr ≤ write.1 ∧ write.1 + write.2 ≤ addr + cfg.totalSize.toNat := by
    rintro write member
    rcases List.mem_cons.mp member with rfl | later
    · exact ⟨le_refl _, by omega⟩
    · obtain ⟨i, reached, rfl⟩ := List.mem_map.mp later
      have less := List.mem_range.mp (nodesWritten_sub i reached)
      have part : nodeSize * (i + 1) ≤ nodeSize * cnt := Nat.mul_le_mul_left _ less
      rw [Nat.mul_succ] at part
      exact ⟨by omega, by omega⟩
  by_cases empty : cnt = 0
  · rw [if_pos empty] at created
    exact ⟨none, _, created, written, writes, by simp⟩
  · rw [if_neg empty] at created
    obtain ⟨result, filled⟩ := @fillNodes_ends ground
      { stkpTag := stkpTagWord, addrBegin := addr, addrEnd := addrEnd, freeList := [],
        payloadTrunkAddr := addrEnd - frm * cnt, stkFrmSize := frm, stkFrmCnt := cnt,
        sysPgSize := ground.sysPgSize, node := fun _ => 0 } (List.range cnt)
      (fun i member => by have less := List.mem_range.mp member; omega)
    refine ⟨result, _, created.trans filled, written, writes, ?_⟩
    rintro stkpi rfl
    have kept := fillNodes_kept filled
    obtain ⟨listed, -, nodes, -⟩ := fillNodes_spec filled List.nodup_range
    have frame : ∀ i, stkpi.frame i = addrEnd - frm * cnt + i * frm := by
      intro i
      rw [StkpImpl.frame, kept]
    have trunkPage : ground.sysPgSize ∣ addrEnd - frm * cnt := Nat.dvd_sub endPage (frmPage.mul_right cnt)
    have last : ∀ i < cnt, i * frm + frm ≤ frm * cnt := by
      intro i less
      have step := Nat.mul_le_mul_right frm (show i + 1 ≤ cnt from less)
      rw [Nat.succ_mul, Nat.mul_comm cnt] at step
      exact step
    have frmEq : stkpi.stkFrmSize = frm := by rw [kept]
    have cntEq : stkpi.stkFrmCnt = cnt := by rw [kept]
    have pageEq : stkpi.sysPgSize = ground.sysPgSize := by rw [kept]
    refine ⟨?_, by rw [kept], ?_, ?_, ?_, ?_, ?_, ?_, ?_⟩
    · rw [cntEq]
      exact Nat.pos_of_ne_zero empty
    · rw [frame, cntEq]
      omega
    · intro i less
      have reach := last i (cntEq ▸ less)
      rw [frame, frmEq]
      omega
    · intro i j less
      have step := Nat.mul_le_mul_right frm (show i + 1 ≤ j from less)
      rw [Nat.succ_mul] at step
      rw [frame, frame, frmEq]
      omega
    · intro i
      rw [frame, pageEq]
      exact Nat.mod_eq_zero_of_dvd (Nat.dvd_add trunkPage (frmPage.mul_left i))
    · rw [pageEq, frmEq]
      exact frmLow
    · intro i less
      rw [cntEq] at less
      have reach := last i less
      rw [nodes i (List.mem_range.mpr less), frame, pageEq]
      simp only
      rw [Nat.mod_eq_of_lt (by omega), Nat.mod_eq_of_lt (by omega)]
    · rw [listed, cntEq]
      rfl

/-- When every page can be protected a lawful creation is one that fits. -/
theorem fits_of_createLaw (real : addr ≠ 0) (allowed : ∀ page, ground.mprotect page = true)
    (law : CreateLaw rounds ground addr cfg) :
    Fits ground.sysPgSize addr cfg.totalSize.toNat cfg.stkFrmSize.toNat := by
  have small : cfg.stkFrmSize.toNat < 2 ^ 32 := cfg.stkFrmSize.isLt
  obtain ⟨pgLow, pgHigh, pgPage, pgWord⟩ := page.bounds
  obtain ⟨frmLow, frmHigh, frmPage⟩ := frameSize_spec page small
  obtain ⟨endLow, endPage⟩ := @poolEnd_spec _ _ addr cfg.totalSize.toNat page small
  have bound : poolEnd ground.sysPgSize addr cfg.totalSize.toNat cfg.stkFrmSize.toNat + 4096 ≤ 2 ^ 64 := by
    have whole := pgPage.trans endPage
    omega
  have start : (addr + implSize) % 2 ^ 64 % 8 = 0 := by
    rw [implSize]
    omega
  obtain ⟨n, few, stops, first, counted⟩ := countFrames_ends start (Nat.mod_lt _ (by decide))
    (pgPage.trans endPage) (pgPage.trans frmPage) long
  obtain ⟨created, written⟩ := stkpCreate_eq real aligned enough zero counted
  obtain ⟨result, writes, made, wrote, within, laid⟩ := law
  rw [written, Option.some.injEq] at wrote
  have header := (within (addr, implSize) (wrote ▸ List.mem_cons_self ..)).2
  -- It is enough to place the number of frames between two bounds.
  have placed : ∀ c, addr + implSize ≤ poolEnd ground.sysPgSize addr cfg.totalSize.toNat cfg.stkFrmSize.toNat →
      c * (frameSize ground.sysPgSize cfg.stkFrmSize.toNat + nodeSize) ≤
        poolEnd ground.sysPgSize addr cfg.totalSize.toNat cfg.stkFrmSize.toNat - (addr + implSize) →
      poolEnd ground.sysPgSize addr cfg.totalSize.toNat cfg.stkFrmSize.toNat - (addr + implSize) <
        (c + 1) * (frameSize ground.sysPgSize cfg.stkFrmSize.toNat + nodeSize) →
      frameSize ground.sysPgSize cfg.stkFrmSize.toNat * (c + 1) ≤
        poolEnd ground.sysPgSize addr cfg.totalSize.toNat cfg.stkFrmSize.toNat →
      c < 2 ^ 31 → Fits ground.sysPgSize addr cfg.totalSize.toNat cfg.stkFrmSize.toNat := by
    intro c head lower upper below short
    have same : fitting ground.sysPgSize addr cfg.totalSize.toNat cfg.stkFrmSize.toNat = c :=
      Nat.div_eq_of_lt_le lower upper
    exact ⟨head, by rwa [same], by rwa [same]⟩
  by_cases empty : wordSub n 1 = 0
  · obtain rfl : n = 1 := by
      rw [wordSub] at empty
      omega
    obtain ⟨head, upper, below⟩ := ends_of_one header memory endLow bound (by omega) (by omega)
      (first 0 (by decide)) stops
    exact placed 0 head (by omega) (by omega) (by omega) (by decide)
  · rw [if_neg empty] at created
    rw [created] at made
    cases result with
    | none => exact absurd made (fillNodes_allowed allowed)
    | some stkpi =>
        have laid := laid stkpi rfl
        have kept := fillNodes_kept made
        obtain ⟨-, short, -, -⟩ := fillNodes_spec made List.nodup_range
        have count : wordSub n 1 < 2 ^ 31 := by
          by_contra long
          exact short (2 ^ 31 - 1) (List.mem_range.mpr (by omega)) (by decide)
        obtain ⟨c, rfl⟩ : ∃ c, n = c + 1 := by
          refine Nat.exists_eq_add_one_of_ne_zero fun none => ?_
          rw [none, wordSub] at count
          omega
        have counts : wordSub (c + 1) 1 = c := by
          rw [wordSub]
          omega
        rw [counts] at kept count empty
        have cntEq : stkpi.stkFrmCnt = c := by rw [kept]
        have frmEq : stkpi.stkFrmSize = frameSize ground.sysPgSize cfg.stkFrmSize.toNat := by rw [kept]
        have frame : ∀ i, stkpi.frame i = wordSub
            (poolEnd ground.sysPgSize addr cfg.totalSize.toNat cfg.stkFrmSize.toNat)
            (frameSize ground.sysPgSize cfg.stkFrmSize.toNat * c) +
              i * frameSize ground.sysPgSize cfg.stkFrmSize.toNat := by
          intro i
          rw [StkpImpl.frame, kept]
        have nodes := laid.nodes
        have last := laid.inside (c - 1) (by omega)
        rw [frame, cntEq, Nat.zero_mul, Nat.add_zero] at nodes
        rw [frame, frmEq, Nat.add_assoc, ← Nat.succ_mul,
          show (c - 1).succ = c by omega, Nat.mul_comm c] at last
        obtain ⟨head, lower, upper, below⟩ := ends_of_laid memory endLow bound
          (Nat.lt_of_lt_of_le (by decide) (Nat.le_add_left implSize addr)) (by omega) (by omega)
          (first 0 (Nat.succ_pos _)) stops nodes last
        have sum : c * (frameSize ground.sysPgSize cfg.stkFrmSize.toNat + nodeSize) =
            frameSize ground.sysPgSize cfg.stkFrmSize.toNat * c + nodeSize * c := by
          rw [Nat.mul_comm, Nat.add_mul]
        refine placed c head (by omega) ?_ ?_ count
        · rw [Nat.succ_mul]
          omega
        · rw [Nat.mul_succ]
          exact below

end Create

/-- For memory of zeros `stkp_create` keeps to its law, whatever the kernel protects, exactly when the
frames that it counts fit. -/
theorem stkpCreate_laid_iff {rounds : Nat} {ground : Ground} {addr : Nat} {cfg : StkpConfig}
    (page : PageSize ground.sysPgSize) (zero : ground.stkFrmCnt = 0) (aligned : addr % 8 = 0)
    (memory : addr + cfg.totalSize.toNat ≤ 2 ^ 64) (enough : minStkSize ≤ cfg.stkFrmSize.toNat)
    (long : 2 ^ 61 ≤ rounds) :
    (∀ mprotect, CreateLaw rounds { ground with mprotect := mprotect } addr cfg) ↔
      addr = 0 ∨ Fits ground.sysPgSize addr cfg.totalSize.toNat cfg.stkFrmSize.toNat := by
  constructor
  · intro law
    by_cases real : addr = 0
    · exact Or.inl real
    · exact Or.inr (@fits_of_createLaw rounds { ground with mprotect := fun _ => true } addr cfg page zero
        aligned memory enough long real (fun _ => rfl) (law _))
  · rintro (rfl | fits) mprotect
    · exact ⟨none, [], rfl, rfl, by simp, by simp⟩
    · by_cases real : addr = 0
      · subst real
        exact ⟨none, [], rfl, rfl, by simp, by simp⟩
      · exact @createLaw_of_fits rounds { ground with mprotect := mprotect } addr cfg page zero aligned memory
          enough long real fits

/-- One mebibyte of memory with stacks of two pages. -/
theorem stkpCreate_laid_iff_mebibyte :
    (∀ mprotect, CreateLaw (2 ^ 61) ⟨0, 4096, mprotect⟩ 65536 ⟨0x100000, 0x2000⟩) ↔
      65536 = 0 ∨ Fits 4096 65536 (0x100000 : BitVec 64).toNat (0x2000 : BitVec 32).toNat :=
  @stkpCreate_laid_iff (2 ^ 61) ⟨0, 4096, fun _ => true⟩ 65536 ⟨0x100000, 0x2000⟩ ⟨12, by decide, by decide, rfl⟩ rfl
    (by decide) (by decide) (by decide) (le_refl _)

/-- The nodes of a pool in a hundred bytes lie behind its memory. -/
theorem stkpCreate_behind : ¬ CreateLaw (2 ^ 61) ⟨0, 4096, fun _ => true⟩ 65536 ⟨100, 0x2000⟩ := by
  intro law
  have fits := @fits_of_createLaw (2 ^ 61) ⟨0, 4096, fun _ => true⟩ 65536 ⟨100, 0x2000⟩
    ⟨12, by decide, by decide, rfl⟩ rfl (by decide) (by decide) (by decide) (le_refl _) (by decide)
    (fun _ => rfl) law
  exact absurd fits (by decide)

end Syslib.Stkpool
