import Syslib.Mmpool.Create

namespace Syslib.Mmpool

variable {addr label x : Nat} {outside : Nat → Word} {cfg : MmpConfig} {mmpi next : MmpoolImpl}

/-- The heads of the lists end here. -/
def flhEnd (addr : Nat) (cfg : MmpConfig) : Nat :=
  flhStart addr + (cfg.maxOrder.toNat - cfg.minOrder.toNat + 1) * flhSize

/-- The creation gets as far as its first write. -/
def Checked (label addr : Nat) (cfg : MmpConfig) : Prop :=
  addr ≠ 0 ∧ addr % 8 = 0 ∧ blockSize cfg.minOrder.toNat ≤ cfg.totalSize.toNat ∧
    cfg.totalSize.toNat ≤ 0xFFFFFFFF ∧ headTailSize ≤ blockSize cfg.minOrder.toNat ∧
    blockSize cfg.minOrder.toNat < blockSize cfg.maxOrder.toNat ∧ label ≠ chunkLabel

instance Checked.decidable : Decidable (Checked label addr cfg) := inferInstanceAs (Decidable (_ ∧ _))

/-- The ranges of bytes that the creation writes until it returns or faults. -/
def createWrites (label addr : Nat) (cfg : MmpConfig) : List (Nat × Nat) :=
  if Checked label addr cfg then
    let mmpi := emptyPool (fun _ => ⟨0, 0⟩) addr cfg
    let maxBlockSize := blockSize cfg.maxOrder.toNat
    let rows := if mmpi.chunkAddr < mmpi.addrEnd then List.range (mmpi.chunkSize / maxBlockSize) else []
    [(addr, addr + implSize), (flnStart addr cfg, flnStart addr cfg + mmpi.flnCount * flnSize),
      (flhStart addr, flhEnd addr cfg)] ++
    rows.flatMap fun n =>
      let block := mmpi.chunkAddr + n * maxBlockSize
      [(block, block + headSize), (block + maxBlockSize - headSize, block + maxBlockSize)]
  else []

def Written (label addr : Nat) (cfg : MmpConfig) (x : Nat) : Prop :=
  ∃ range ∈ createWrites label addr cfg, range.1 ≤ x ∧ x < range.2

/-- The structure, the heads, the descriptors and the chunk follow each other in the memory. -/
structure LaidOut (addr : Nat) (cfg : MmpConfig) (mmpi : MmpoolImpl) : Prop where
  heads : addr + implSize ≤ flhStart addr
  nodes : flhEnd addr cfg ≤ flnStart addr cfg
  chunk : flnStart addr cfg + mmpi.flnCount * flnSize ≤ mmpi.chunkAddr
  ends : mmpi.chunkAddr + mmpi.chunkSize ≤ addr + cfg.totalSize.toNat

/-- The creation fails or lays the pool out in its memory, and it writes nowhere else. -/
def Contained (outside : Nat → Word) (label addr : Nat) (cfg : MmpConfig) : Prop :=
  (∀ x, Written label addr cfg x → addr ≤ x ∧ x < addr + cfg.totalSize.toNat) ∧
    (mmpCreate outside label addr cfg = some none ∨
      ∃ mmpi, mmpCreate outside label addr cfg = some (some mmpi) ∧ LaidOut addr cfg mmpi)

/-- The start of the chunk, as the sizes of the memory and of its parts give it. -/
def chunkStart (addr : Nat) (cfg : MmpConfig) : Nat :=
  movePtrAlign64 (flnStart addr cfg)
    ((memoryEnd addr cfg - flnStart addr cfg) / (2 ^ cfg.minOrder.toNat + flnSize) * flnSize)

/-- Blocks of 16 and 32 bytes have room for one block but not for a descriptor. -/
def Starved (addr : Nat) (cfg : MmpConfig) : Prop :=
  cfg.minOrder.toNat = 4 ∧ cfg.maxOrder.toNat = 5 ∧ flnStart addr cfg + 32 ≤ memoryEnd addr cfg ∧
    memoryEnd addr cfg < flnStart addr cfg + 48

/-- The end of the memory is rounded up, and the last block ends there. -/
def Rounded (addr : Nat) (cfg : MmpConfig) : Prop :=
  cfg.totalSize.toNat % 8 ≠ 0 ∧ chunkStart addr cfg < memoryEnd addr cfg ∧
    (memoryEnd addr cfg - chunkStart addr cfg) % 2 ^ cfg.maxOrder.toNat = 0

/-- The heads have room, and the rest of the memory is empty, ends at the top of the address space or is cut
    without an excess. -/
def Fits (addr : Nat) (cfg : MmpConfig) : Prop :=
  addr + implSize ≤ flhStart addr ∧ flhEnd addr cfg ≤ addr + cfg.totalSize.toNat ∧
    (flnStart addr cfg = memoryEnd addr cfg ∨ memoryEnd addr cfg = 0 ∨
      flhEnd addr cfg ≤ flnStart addr cfg ∧ flnStart addr cfg < memoryEnd addr cfg ∧
        flnStart addr cfg ≤ chunkStart addr cfg ∧ ¬ Starved addr cfg ∧ ¬ Rounded addr cfg)

instance Starved.decidable : Decidable (Starved addr cfg) := inferInstanceAs (Decidable (_ ∧ _))

instance Rounded.decidable : Decidable (Rounded addr cfg) := inferInstanceAs (Decidable (_ ∧ _))

instance Fits.decidable : Decidable (Fits addr cfg) := inferInstanceAs (Decidable (_ ∧ _))

theorem mmpCreate_unchecked (unchecked : ¬ Checked label addr cfg) :
    mmpCreate outside label addr cfg = some none := by
  rw [mmpCreate]
  split_ifs with address total huge
  · rfl
  · rfl
  · rfl
  · dsimp only [mmpInitChunk]
    split_ifs with order tiny labelled
    · rfl
    · rfl
    · rfl
    all_goals exact absurd ⟨by omega, by omega, by omega, by omega, by omega, by omega, labelled⟩ unchecked

theorem mmpCreate_checked (checked : Checked label addr cfg) : mmpCreate outside label addr cfg =
    if memoryEnd addr cfg ≠ 0 ∧ memoryEnd addr cfg < flnStart addr cfg then none
    else if memoryEnd addr cfg ≤ (emptyPool outside addr cfg).chunkAddr then some none
    else initRows (emptyPool outside addr cfg).limit ((emptyPool outside addr cfg).freeListCount + 1)
      (emptyPool outside addr cfg) ((emptyPool outside addr cfg).freeListCount - 1)
      (emptyPool outside addr cfg).chunkAddr 0 := by
  obtain ⟨real, aligned, least, most, tiny, order, label⟩ := checked
  rw [mmpCreate, if_neg (by omega), if_neg (by omega), if_neg (by omega)]
  dsimp only [mmpInitChunk]
  rw [if_neg (by omega), if_neg (by omega), if_neg label]
  rfl

/-- With room for the descriptors the creation goes on to the chunk. -/
theorem mmpCreate_roomy (checked : Checked label addr cfg) (room : flnStart addr cfg ≤ memoryEnd addr cfg) :
    mmpCreate outside label addr cfg =
      if memoryEnd addr cfg ≤ (emptyPool outside addr cfg).chunkAddr then some none
      else initRows (emptyPool outside addr cfg).limit ((emptyPool outside addr cfg).freeListCount + 1)
        (emptyPool outside addr cfg) ((emptyPool outside addr cfg).freeListCount - 1)
        (emptyPool outside addr cfg).chunkAddr 0 := by
  rw [mmpCreate_checked checked, if_neg fun lacking => Nat.not_lt.mpr room lacking.2]

section Writes

variable (checked : Checked label addr cfg)

include checked

theorem written_nodes (low : flnStart addr cfg ≤ x)
    (high : x < flnStart addr cfg + (emptyPool outside addr cfg).flnCount * flnSize) : Written label addr cfg x :=
  ⟨(flnStart addr cfg, flnStart addr cfg + (emptyPool outside addr cfg).flnCount * flnSize), by
    simp [createWrites, checked, emptyPool], low, high⟩

theorem written_heads (low : flhStart addr ≤ x) (high : x < flhEnd addr cfg) : Written label addr cfg x :=
  ⟨(flhStart addr, flhEnd addr cfg), by simp [createWrites, checked], low, high⟩

theorem written_block (ordered : Ordered cfg) (behind : (emptyPool outside addr cfg).chunkAddr < memoryEnd addr cfg)
    (filled : 0 < (emptyPool outside addr cfg).chunkSize) :
    Written label addr cfg (emptyPool outside addr cfg).chunkAddr := by
  have large := ordered.largest
  have size := @chunkSize_eq addr outside cfg ordered
  have positive := Nat.two_pow_pos cfg.maxOrder.toNat
  have some_ : 0 < (emptyPool outside addr cfg).chunkSize / blockSize cfg.maxOrder.toNat := by
    rw [blockSize_eq (by omega), size, Nat.mul_div_cancel_left _ positive]
    rw [size] at filled
    exact Nat.pos_of_mul_pos_left filled
  refine ⟨((emptyPool outside addr cfg).chunkAddr, (emptyPool outside addr cfg).chunkAddr + headSize), ?_, le_rfl,
    Nat.lt_add_of_pos_right (by decide)⟩
  rw [createWrites, if_pos checked]
  refine List.mem_append_right _ (List.mem_flatMap.mpr ⟨0, ?_, by simp [emptyPool]⟩)
  show 0 ∈ if (emptyPool outside addr cfg).chunkAddr < memoryEnd addr cfg then
    List.range ((emptyPool outside addr cfg).chunkSize / blockSize cfg.maxOrder.toNat) else []
  rw [if_pos behind]
  exact List.mem_range.mpr some_

end Writes

/-- Nothing is written apart from the parts of the pool. -/
theorem written_cases (ordered : Ordered cfg) (written : Written label addr cfg x) :
    (addr ≤ x ∧ x < addr + implSize) ∨
      (flnStart addr cfg ≤ x ∧ x < flnStart addr cfg + (emptyPool outside addr cfg).flnCount * flnSize) ∨
      (flhStart addr ≤ x ∧ x < flhEnd addr cfg) ∨
      (emptyPool outside addr cfg).chunkAddr < memoryEnd addr cfg ∧ (emptyPool outside addr cfg).chunkAddr ≤ x ∧
        x < (emptyPool outside addr cfg).limit := by
  obtain ⟨range, inside, low, high⟩ := written
  have large := ordered.largest
  have size := @chunkSize_eq addr outside cfg ordered
  have positive := Nat.two_pow_pos cfg.maxOrder.toNat
  have least : 2 ^ 4 ≤ 2 ^ cfg.maxOrder.toNat :=
    Nat.pow_le_pow_right (by decide) (ordered.smallest.trans ordered.larger.le)
  rw [createWrites] at inside
  split_ifs at inside
  · rcases List.mem_append.mp inside with first | row
    · simp only [List.mem_cons, List.not_mem_nil, or_false] at first
      rcases first with rfl | rfl | rfl
      · exact Or.inl ⟨low, high⟩
      · exact Or.inr (Or.inl ⟨low, high⟩)
      · exact Or.inr (Or.inr (Or.inl ⟨low, high⟩))
    · obtain ⟨n, counted, row⟩ := List.mem_flatMap.mp row
      split_ifs at counted with behind
      · have bound : (n + 1) * 2 ^ cfg.maxOrder.toNat ≤ (emptyPool outside addr cfg).chunkSize := by
          have less := List.mem_range.mp counted
          rw [blockSize_eq (by omega), show (emptyPool (fun _ => ⟨0, 0⟩) addr cfg).chunkSize =
            (emptyPool outside addr cfg).chunkSize from rfl, size, Nat.mul_div_cancel_left _ positive] at less
          rw [size, Nat.mul_comm]
          exact Nat.mul_le_mul_left _ less
        rw [Nat.succ_mul] at bound
        have limit : (emptyPool outside addr cfg).limit =
          (emptyPool outside addr cfg).chunkAddr + (emptyPool outside addr cfg).chunkSize := rfl
        rw [blockSize_eq (by omega), show (emptyPool (fun _ => ⟨0, 0⟩) addr cfg).chunkAddr =
            (emptyPool outside addr cfg).chunkAddr from rfl] at row
        simp only [List.mem_cons, List.not_mem_nil, or_false, headSize] at row
        refine Or.inr (Or.inr (Or.inr ⟨behind, ?_⟩))
        rcases row with rfl | rfl
        · simp only at low high
          omega
        · simp only at low high
          omega
      · exact absurd counted List.not_mem_nil
  · exact absurd inside List.not_mem_nil

section Parts

variable (ordered : Ordered cfg)

include ordered

/-- The sizes of the parts, with the roundings of the source. -/
theorem parts : flhStart addr = (addr + 191) % 2 ^ 64 / 64 * 64 ∧
    flnStart addr cfg = (flhEnd addr cfg + 63) % 2 ^ 64 / 64 * 64 ∧
    memoryEnd addr cfg = (addr + cfg.totalSize.toNat + 7) % 2 ^ 64 / 8 * 8 ∧
    flhStart addr + 80 ≤ flhEnd addr cfg ∧ flhEnd addr cfg ≤ flhStart addr + 1080 := by
  have smallest := ordered.smallest
  have larger := ordered.larger
  have largest := ordered.largest
  refine ⟨movePtrAlign64_eq .., movePtrAlign64_eq .., align8_eq _, ?_, ?_⟩
  · rw [flhEnd, flhSize]
    omega
  · rw [flhEnd, flhSize]
    omega

/-- The descriptors leave their own room free and that of the blocks. -/
theorem nodes_room (room : flnStart addr cfg ≤ memoryEnd addr cfg) :
    (emptyPool outside addr cfg).chunkAddr = chunkStart addr cfg ∧
      (emptyPool outside addr cfg).flnCount * 16 + (emptyPool outside addr cfg).flnCount * 32 ≤
        memoryEnd addr cfg - flnStart addr cfg := by
  have counted := (@flnCount_bounds addr outside cfg ordered room).1
  have least : 2 ^ 4 ≤ 2 ^ cfg.minOrder.toNat := Nat.pow_le_pow_right (by decide) ordered.smallest
  have smaller := Nat.mul_le_mul_left (emptyPool outside addr cfg).flnCount least
  rw [Nat.mul_add] at counted
  refine ⟨?_, by omega⟩
  rw [chunkStart, show 2 ^ cfg.minOrder.toNat + flnSize = 2 ^ cfg.minOrder.toNat + 32 from rfl,
    ← @flnCount_eq addr outside cfg ordered room]
  rfl

/-- The blocks fill the chunk up to less than one of the largest size. -/
theorem blocks_room :
    (emptyPool outside addr cfg).chunkSize ≤ memoryEnd addr cfg - (emptyPool outside addr cfg).chunkAddr ∧
      memoryEnd addr cfg - (emptyPool outside addr cfg).chunkAddr <
        (emptyPool outside addr cfg).chunkSize + 2 ^ cfg.maxOrder.toNat ∧
      (emptyPool outside addr cfg).chunkSize % 2 ^ cfg.maxOrder.toNat = 0 := by
  have parts := Nat.div_add_mod (memoryEnd addr cfg - (emptyPool outside addr cfg).chunkAddr) (2 ^ cfg.maxOrder.toNat)
  have less := Nat.mod_lt (memoryEnd addr cfg - (emptyPool outside addr cfg).chunkAddr)
    (Nat.two_pow_pos cfg.maxOrder.toNat)
  rw [chunkSize_eq ordered]
  exact ⟨by omega, by omega, Nat.mul_mod_right ..⟩

/-- A pool with a descriptor has one for each block of the largest size. -/
theorem blocks_le (some_ : 1 ≤ (emptyPool outside addr cfg).flnCount)
    (above : flnStart addr cfg + (emptyPool outside addr cfg).flnCount * 32 ≤ (emptyPool outside addr cfg).chunkAddr)
    (behind : (emptyPool outside addr cfg).chunkAddr < memoryEnd addr cfg) :
    (emptyPool outside addr cfg).chunkSize / 2 ^ cfg.maxOrder.toNat ≤ (emptyPool outside addr cfg).flnCount := by
  have counted := (@flnCount_bounds addr outside cfg ordered (by omega)).2
  obtain ⟨room, -, whole⟩ := @blocks_room addr outside cfg ordered
  have least : 2 ^ 4 ≤ 2 ^ cfg.minOrder.toNat := Nat.pow_le_pow_right (by decide) ordered.smallest
  have double : 2 * 2 ^ cfg.minOrder.toNat ≤ 2 ^ cfg.maxOrder.toNat := by
    rw [← Nat.pow_succ']
    exact Nat.pow_le_pow_right (by decide) ordered.larger
  have blocks := Nat.div_mul_cancel (Nat.dvd_of_mod_eq_zero whole)
  have smaller := Nat.mul_le_mul_left ((emptyPool outside addr cfg).chunkSize / 2 ^ cfg.maxOrder.toNat) double
  rw [Nat.mul_add, Nat.succ_mul, Nat.succ_mul] at counted
  have few : 2 * ((emptyPool outside addr cfg).chunkSize / 2 ^ cfg.maxOrder.toNat) * 2 ^ cfg.minOrder.toNat <
      ((emptyPool outside addr cfg).flnCount + 3) * 2 ^ cfg.minOrder.toNat := by
    rw [Nat.add_mul, Nat.mul_comm 2, Nat.mul_assoc]
    omega
  have := Nat.lt_of_mul_lt_mul_right few
  omega

end Parts

section Result

variable (checked : Checked label addr cfg) (room : flnStart addr cfg ≤ memoryEnd addr cfg)
  (behind : (emptyPool outside addr cfg).chunkAddr < memoryEnd addr cfg)

include checked room behind

theorem created_bare (bare : (emptyPool outside addr cfg).chunkSize = 0) :
    mmpCreate outside label addr cfg = some (some (emptyPool outside addr cfg)) := by
  rw [mmpCreate_roomy checked room, if_neg (Nat.not_le.mpr behind)]
  exact initRows_none bare

variable (ordered : Ordered cfg) (real : 8 ≤ (emptyPool outside addr cfg).chunkAddr)

include ordered real

theorem created_starved (none_ : (emptyPool outside addr cfg).flnCount = 0)
    (filled : 0 < (emptyPool outside addr cfg).chunkSize) : mmpCreate outside label addr cfg = none := by
  rw [mmpCreate_roomy checked room, if_neg (Nat.not_le.mpr behind)]
  exact initRows_starved (emptyPool_configured ordered real behind) filled (by rw [emptyPool_spare, none_]; rfl)

theorem created_filled (some_ : 1 ≤ (emptyPool outside addr cfg).flnCount)
    (above : flnStart addr cfg + (emptyPool outside addr cfg).flnCount * 32 ≤ (emptyPool outside addr cfg).chunkAddr) :
    ∃ mmpi, mmpCreate outside label addr cfg = some (some mmpi) ∧ (emptyPool outside addr cfg).Kept mmpi := by
  have enough : (emptyPool outside addr cfg).chunkSize / 2 ^ cfg.maxOrder.toNat ≤
      ((emptyPool outside addr cfg).lists .freeFln).length := by
    rw [emptyPool_spare, List.length_range]
    exact blocks_le ordered some_ above behind
  rw [mmpCreate_roomy checked room, if_neg (Nat.not_le.mpr behind)]
  exact initRows_fills (emptyPool_configured ordered real behind) emptyPool_rowed enough

end Result

/-- Without a descriptor only the smallest configuration has a block. -/
theorem starved_of (ordered : Ordered cfg) (none_ : (emptyPool outside addr cfg).flnCount = 0)
    (filled : 0 < (emptyPool outside addr cfg).chunkSize)
    (start : flnStart addr cfg ≤ (emptyPool outside addr cfg).chunkAddr) : Starved addr cfg := by
  obtain ⟨room, -, whole⟩ := @blocks_room addr outside cfg ordered
  have counted := (@flnCount_bounds addr outside cfg ordered (by omega)).2
  have block := Nat.le_of_dvd filled (Nat.dvd_of_mod_eq_zero whole)
  have smallest := ordered.smallest
  have larger := ordered.larger
  have double : 2 ^ (cfg.minOrder.toNat + 1) ≤ 2 ^ cfg.maxOrder.toNat := Nat.pow_le_pow_right (by decide) larger
  rw [none_, Nat.zero_add, Nat.one_mul] at counted
  have least : cfg.minOrder.toNat = 4 := by
    by_contra other
    have more : 2 ^ 5 ≤ 2 ^ cfg.minOrder.toNat := Nat.pow_le_pow_right (by decide) (by omega)
    omega
  have most : cfg.maxOrder.toNat = 5 := by
    by_contra other
    have more : 2 ^ 6 ≤ 2 ^ cfg.maxOrder.toNat := Nat.pow_le_pow_right (by decide) (by omega)
    rw [least] at counted
    omega
  rw [least] at counted
  rw [most] at block
  exact ⟨least, most, by omega, by omega⟩

/-- A chunk that leaves its memory ends where the end of the memory has been rounded to. -/
theorem rounded_of (ordered : Ordered cfg) (aligned : addr % 8 = 0) (room : flnStart addr cfg ≤ memoryEnd addr cfg)
    (behind : (emptyPool outside addr cfg).chunkAddr < memoryEnd addr cfg)
    (leaves : addr + cfg.totalSize.toNat <
      (emptyPool outside addr cfg).chunkAddr + (emptyPool outside addr cfg).chunkSize) : Rounded addr cfg := by
  obtain ⟨-, -, ends, -, -⟩ := @parts addr cfg ordered
  have chunk := (@nodes_room addr outside cfg ordered room).1
  obtain ⟨size, -, whole⟩ := @blocks_room addr outside cfg ordered
  have place := @chunkAddr_eq addr outside cfg
  have large := ordered.smallest.trans ordered.larger.le
  have eight : 2 ^ 3 ∣ (emptyPool outside addr cfg).chunkSize :=
    (Nat.pow_dvd_pow 2 (by omega)).trans (Nat.dvd_of_mod_eq_zero whole)
  refine ⟨?_, chunk ▸ behind, ?_⟩
  · omega
  · rw [← chunk, show memoryEnd addr cfg - (emptyPool outside addr cfg).chunkAddr =
      (emptyPool outside addr cfg).chunkSize by omega]
    exact whole

/-- At the top of the address space the descriptors stay in the memory, and no room is left for a chunk. -/
theorem Contained.top (checked : Checked label addr cfg) (ordered : Ordered cfg)
    (first : addr + implSize ≤ flhStart addr) (heads : flhEnd addr cfg ≤ addr + cfg.totalSize.toNat)
    (zero : memoryEnd addr cfg = 0) : Contained outside label addr cfg := by
  obtain ⟨flh, fln, ends, headsLe, -⟩ := @parts addr cfg ordered
  have least : 2 ^ 4 ≤ 2 ^ cfg.minOrder.toNat := Nat.pow_le_pow_right (by decide) ordered.smallest
  have most := checked.2.2.2.1
  have inside := @flnStart_lt addr cfg
  have counted := Nat.div_mul_le_self (wordSub (memoryEnd addr cfg) (flnStart addr cfg)) (2 ^ cfg.minOrder.toNat + 32)
  rw [← @flnCount_wrap addr outside cfg ordered, zero, wordSub, Nat.mul_add] at counted
  have smaller := Nat.mul_le_mul_left (emptyPool outside addr cfg).flnCount least
  rw [implSize] at first
  refine ⟨fun x written => ?_, Or.inl ?_⟩
  · have cases_ := @written_cases _ _ _ outside _ ordered written
    simp only [implSize, flnSize, zero] at cases_
    rcases cases_ with head | node | list | chunk
    · omega
    · omega
    · omega
    · omega
  · rw [mmpCreate_checked checked, if_neg fun lacking => lacking.1 zero, zero, if_pos (Nat.zero_le _)]

/-- A pool that has room for its heads and no excess stays in its memory. -/
theorem Fits.contained (fits : Fits addr cfg) (checked : Checked label addr cfg) (ordered : Ordered cfg) :
    Contained outside label addr cfg := by
  obtain ⟨flh, fln, ends, headsLe, -⟩ := @parts addr cfg ordered
  have place := @chunkAddr_eq addr outside cfg
  have aligned := checked.2.1
  have stop : memoryEnd addr cfg ≤ addr + cfg.totalSize.toNat + 7 ∧ memoryEnd addr cfg < 2 ^ 64 := by omega
  have whole : flnStart addr cfg % 64 = 0 := by omega
  clear flh fln ends
  obtain ⟨first, heads, rest⟩ := fits
  have inside (nodesIn : (emptyPool outside addr cfg).flnCount = 0 ∨ addr ≤ flnStart addr cfg ∧ flnStart addr cfg +
        (emptyPool outside addr cfg).flnCount * 32 ≤ addr + cfg.totalSize.toNat)
      (chunkIn : (emptyPool outside addr cfg).chunkAddr < memoryEnd addr cfg →
        addr ≤ (emptyPool outside addr cfg).chunkAddr ∧ (emptyPool outside addr cfg).limit ≤
          addr + cfg.totalSize.toNat) (x : Nat)
      (written : Written label addr cfg x) : addr ≤ x ∧ x < addr + cfg.totalSize.toNat := by
    have cases_ := @written_cases _ _ _ outside _ ordered written
    simp only [implSize, flnSize] at cases_ first
    omega
  rcases rest with empty | top | ⟨after, less, above, fed, exact_⟩
  · have none_ : (emptyPool outside addr cfg).flnCount = 0 := by
      rw [flnCount_eq ordered empty.le, empty, Nat.sub_self, Nat.zero_div]
    have full : memoryEnd addr cfg ≤ (emptyPool outside addr cfg).chunkAddr := by
      rw [none_] at place
      omega
    refine ⟨inside (Or.inl none_) (fun behind => absurd behind (Nat.not_lt.mpr full)), Or.inl ?_⟩
    rw [mmpCreate_roomy checked empty.le, if_pos full]
  · exact Contained.top checked ordered first heads top
  · obtain ⟨chunk, nodes⟩ := @nodes_room addr outside cfg ordered less.le
    rw [implSize] at first
    rw [← chunk] at above
    have nodesIn : (emptyPool outside addr cfg).flnCount = 0 ∨ addr ≤ flnStart addr cfg ∧ flnStart addr cfg +
        (emptyPool outside addr cfg).flnCount * 32 ≤ addr + cfg.totalSize.toNat := by omega
    by_cases behind : (emptyPool outside addr cfg).chunkAddr < memoryEnd addr cfg
    · have stays : (emptyPool outside addr cfg).chunkAddr + (emptyPool outside addr cfg).chunkSize ≤
          addr + cfg.totalSize.toNat := by
        by_contra leaves
        exact exact_ (rounded_of ordered aligned less.le behind (Nat.not_le.mp leaves))
      have next : flnStart addr cfg + (emptyPool outside addr cfg).flnCount * 32 ≤
          (emptyPool outside addr cfg).chunkAddr := by
        clear stays nodesIn inside
        omega
      refine ⟨inside nodesIn fun _ => ⟨by omega, stays⟩, Or.inr ?_⟩
      rcases Nat.eq_zero_or_pos (emptyPool outside addr cfg).chunkSize with bare | filled
      · exact ⟨_, created_bare checked less.le behind bare, first, after, next, stays⟩
      · have some_ : 1 ≤ (emptyPool outside addr cfg).flnCount := by
          by_contra none_
          exact fed (starved_of ordered (by omega) filled above)
        obtain ⟨mmpi, made, kept⟩ := created_filled checked less.le behind ordered (by omega) some_ next
        refine ⟨mmpi, made, first, after, ?_, ?_⟩
        · rw [kept]
          exact next
        · rw [kept]
          exact stays
    · refine ⟨inside nodesIn fun less => absurd less behind, Or.inl ?_⟩
      rw [mmpCreate_roomy checked less.le, if_pos (Nat.not_lt.mp behind)]

/-- Writes in the memory show that the heads have room and that no address has wrapped around. -/
theorem heads_fit (checked : Checked label addr cfg) (ordered : Ordered cfg)
    (inside : ∀ x, Written label addr cfg x → addr ≤ x ∧ x < addr + cfg.totalSize.toNat) :
    addr + implSize ≤ flhStart addr ∧ flhEnd addr cfg ≤ addr + cfg.totalSize.toNat := by
  obtain ⟨flh, -, -, some_, -⟩ := @parts addr cfg ordered
  have first := inside _ (written_heads checked le_rfl (by omega))
  have last := inside (flhEnd addr cfg - 1) (written_heads checked (by omega) (by omega))
  rw [implSize]
  exact ⟨by omega, by omega⟩

/-- A creation that stays in its memory does not fault. -/
theorem Contained.sound (contained : Contained outside label addr cfg) :
    mmpCreate outside label addr cfg ≠ none := by
  intro fault
  rcases contained.2 with null | ⟨mmpi, made, -⟩
  · rw [fault] at null
    cases null
  · rw [fault] at made
    cases made

theorem Contained.laid (contained : Contained outside label addr cfg)
    (made : mmpCreate outside label addr cfg = some (some mmpi)) : LaidOut addr cfg mmpi := by
  rcases contained.2 with null | ⟨other, created, laid⟩
  · rw [made] at null
    cases null
  · rw [made] at created
    cases created
    exact laid

section Staying

variable (contained : Contained outside label addr cfg) (checked : Checked label addr cfg) (ordered : Ordered cfg)
  (less : flnStart addr cfg < memoryEnd addr cfg)

include contained checked ordered less

/-- Descriptors in front of the heads would let the creation write there. -/
theorem Contained.nodes : flhEnd addr cfg ≤ flnStart addr cfg := by
  obtain ⟨first, heads⟩ := heads_fit checked ordered contained.1
  obtain ⟨flh, fln, ends, headsGe, headsLe⟩ := @parts addr cfg ordered
  have place := @chunkAddr_eq addr outside cfg
  by_contra wrapped
  have low : flnStart addr cfg < addr := by
    clear place ends
    rw [implSize] at first
    omega
  have none_ : (emptyPool outside addr cfg).flnCount = 0 := by
    by_contra some_
    have written := contained.1 _
      (@written_nodes addr label _ outside cfg checked le_rfl (by rw [flnSize]; omega))
    omega
  have start : (emptyPool outside addr cfg).chunkAddr = flnStart addr cfg := by
    rw [none_] at place
    omega
  have behind : (emptyPool outside addr cfg).chunkAddr < memoryEnd addr cfg := start ▸ less
  rcases Nat.eq_zero_or_pos (emptyPool outside addr cfg).chunkSize with bare | filled
  · exact wrapped (contained.laid (created_bare checked less.le behind bare)).nodes
  · have written := contained.1 _ (written_block checked ordered behind filled)
    omega

/-- A chunk in front of the descriptors would begin at address 0. -/
theorem Contained.above : flnStart addr cfg ≤ (emptyPool outside addr cfg).chunkAddr := by
  have place := @chunkAddr_eq addr outside cfg
  have real := checked.1
  obtain ⟨-, nodes⟩ := @nodes_room addr outside cfg ordered less.le
  obtain ⟨-, excess, -⟩ := @blocks_room addr outside cfg ordered
  have inside := contained.1
  obtain ⟨-, fln, ends, -, -⟩ := @parts addr cfg ordered
  by_contra wrapped
  have zero : (emptyPool outside addr cfg).chunkAddr = 0 := by
    clear excess
    omega
  have small : 2 ^ cfg.maxOrder.toNat ≤ 2 ^ 30 := Nat.pow_le_pow_right (by decide) ordered.largest
  obtain ⟨first, heads⟩ := heads_fit checked ordered inside
  have after := contained.nodes checked ordered less
  rw [implSize] at first
  have written := inside _ (@written_block addr label outside cfg checked ordered (by omega) (by omega))
  omega

/-- The chunk does not begin at address 0. -/
theorem Contained.start : 8 ≤ (emptyPool outside addr cfg).chunkAddr := by
  have first := (heads_fit checked ordered contained.1).1
  have heads := (@parts addr cfg ordered).2.2.2.1
  have after := contained.nodes checked ordered less
  have above := contained.above checked ordered less
  rw [implSize] at first
  omega

/-- A pool with a block has a descriptor for it. -/
theorem Contained.fed : ¬ Starved addr cfg := by
  rintro ⟨least, most, block, tight⟩
  have excess := (@blocks_room addr outside cfg ordered).2.1
  have nodes := (@nodes_room addr outside cfg ordered less.le).2
  have place := @chunkAddr_eq addr outside cfg
  have whole : flnStart addr cfg % 64 = 0 := by
    have fln := (@parts addr cfg ordered).2.1
    omega
  have real : flnStart addr cfg < 2 ^ 64 := flnStart_lt
  rw [most] at excess
  have none_ : (emptyPool outside addr cfg).flnCount = 0 := by omega
  have lowest : (emptyPool outside addr cfg).chunkAddr = flnStart addr cfg := by
    rw [none_] at place
    omega
  have behind : (emptyPool outside addr cfg).chunkAddr < memoryEnd addr cfg := lowest ▸ less
  have filled : 0 < (emptyPool outside addr cfg).chunkSize := by
    clear place
    omega
  exact contained.sound
    (created_starved checked less.le behind ordered (contained.start checked ordered less) none_ filled)

/-- The last block of a rounded memory would end behind it. -/
theorem Contained.exact : ¬ Rounded addr cfg := by
  rintro ⟨odd, behind, all⟩
  obtain ⟨chunk, nodes⟩ := @nodes_room addr outside cfg ordered less.le
  obtain ⟨size, excess, whole⟩ := @blocks_room addr outside cfg ordered
  have above := contained.above checked ordered less
  rw [← chunk] at behind all
  have filled : (emptyPool outside addr cfg).chunkSize =
      memoryEnd addr cfg - (emptyPool outside addr cfg).chunkAddr := by
    by_contra other
    have step := Buddies.unit_le (Nat.dvd_of_mod_eq_zero whole) (Nat.dvd_of_mod_eq_zero all)
      (lt_of_le_of_ne size other)
    omega
  have some_ : 1 ≤ (emptyPool outside addr cfg).flnCount := by
    by_contra none_
    exact contained.fed checked ordered less (starved_of ordered (by omega) (by omega) above)
  have next : flnStart addr cfg + (emptyPool outside addr cfg).flnCount * 32 ≤
      (emptyPool outside addr cfg).chunkAddr := by
    have place := @chunkAddr_eq addr outside cfg
    have stop := @memoryEnd_lt addr cfg
    have fln := (@parts addr cfg ordered).2.1
    clear size excess
    omega
  obtain ⟨mmpi, made, kept⟩ := created_filled checked less.le behind ordered
    (contained.start checked ordered less) some_ next
  have stays := (contained.laid made).ends
  rw [kept] at stays
  change (emptyPool outside addr cfg).chunkAddr + (emptyPool outside addr cfg).chunkSize ≤ _ at stays
  have inside : addr < memoryEnd addr cfg := by
    have first := (heads_fit checked ordered contained.1).1
    have heads := (@parts addr cfg ordered).2.2.2.1
    have after := contained.nodes checked ordered less
    omega
  have ends := (@parts addr cfg ordered).2.2.1
  have aligned := checked.2.1
  have short := checked.2.2.2.1
  omega

end Staying

/-- A pool that stays in its memory has room for its heads and no excess. -/
theorem Contained.fits (contained : Contained outside label addr cfg) (checked : Checked label addr cfg)
    (ordered : Ordered cfg) : Fits addr cfg := by
  obtain ⟨first, heads⟩ := heads_fit checked ordered contained.1
  refine ⟨first, heads, ?_⟩
  by_cases full : flnStart addr cfg = memoryEnd addr cfg
  · exact Or.inl full
  by_cases top : memoryEnd addr cfg = 0
  · exact Or.inr (Or.inl top)
  · have room : flnStart addr cfg ≤ memoryEnd addr cfg := by
      by_contra lacking
      refine contained.sound ?_
      rw [mmpCreate_checked checked, if_pos ⟨top, Nat.not_le.mp lacking⟩]
    have less := lt_of_le_of_ne room full
    have chunk := (@nodes_room addr outside cfg ordered room).1
    exact Or.inr (Or.inr ⟨contained.nodes checked ordered less, less,
      chunk ▸ contained.above checked ordered less, contained.fed checked ordered less,
      contained.exact checked ordered less⟩)

theorem contained_unchecked (unchecked : ¬ Checked label addr cfg) : Contained outside label addr cfg := by
  refine ⟨?_, Or.inl (mmpCreate_unchecked unchecked)⟩
  rintro x ⟨range, inside, -⟩
  rw [createWrites, if_neg unchecked] at inside
  exact absurd inside List.not_mem_nil

/-- The creation stays in its memory exactly when it writes nothing or the parts have room without an excess. -/
theorem mmpCreate_contained (outside : Nat → Word) (label addr : Nat) (cfg : MmpConfig)
    (larger : cfg.minOrder.toNat < cfg.maxOrder.toNat) (largest : cfg.maxOrder.toNat ≤ 30) (real : addr ≠ 0)
    (aligned : addr % 8 = 0) (least : 2 ^ cfg.minOrder.toNat ≤ cfg.totalSize.toNat)
    (most : cfg.totalSize.toNat ≤ 0xFFFFFFFF) :
    Contained outside label addr cfg ↔ label = chunkLabel ∨ cfg.minOrder.toNat < 4 ∨ Fits addr cfg := by
  have min_eq := @blockSize_eq cfg.minOrder.toNat (by omega)
  have max_eq := @blockSize_eq cfg.maxOrder.toNat (by omega)
  have order : 2 ^ cfg.minOrder.toNat < 2 ^ cfg.maxOrder.toNat := Nat.pow_lt_pow_right (by decide) larger
  by_cases small : cfg.minOrder.toNat < 4
  · have tiny : 2 ^ cfg.minOrder.toNat < 2 ^ 4 := Nat.pow_lt_pow_right (by decide) small
    have unchecked : ¬ Checked label addr cfg := by
      rintro ⟨-, -, -, -, large, -⟩
      rw [min_eq, headTailSize] at large
      omega
    exact ⟨fun _ => Or.inr (Or.inl small), fun _ => contained_unchecked unchecked⟩
  · have ordered : Ordered cfg := ⟨Nat.not_lt.mp small, larger, largest⟩
    have large : 2 ^ 4 ≤ 2 ^ cfg.minOrder.toNat := Nat.pow_le_pow_right (by decide) ordered.smallest
    by_cases labelled : label = chunkLabel
    · have unchecked : ¬ Checked label addr cfg := fun checked => checked.2.2.2.2.2.2 labelled
      exact ⟨fun _ => Or.inl labelled, fun _ => contained_unchecked unchecked⟩
    · have checked : Checked label addr cfg :=
        ⟨real, aligned, min_eq.le.trans least, most, large.trans min_eq.ge, by rw [min_eq, max_eq]; exact order, labelled⟩
      constructor
      · exact fun contained => Or.inr (Or.inr (contained.fits checked ordered))
      · rintro (same | tiny | fits)
        · exact absurd same labelled
        · exact absurd tiny small
        · exact fits.contained checked ordered

theorem mmpCreate_contained_once : Contained (fun _ => ⟨0, 0⟩) 0 4096 ⟨640, 5, 6⟩ :=
  (mmpCreate_contained (fun _ => ⟨0, 0⟩) 0 4096 ⟨640, 5, 6⟩ (by decide) (by decide) (by decide) (by decide) (by decide)
    (by decide)).mpr (Or.inr (Or.inr (by decide +kernel)))

/-- The end of the memory is rounded up to a multiple of eight, and the last block ends seven bytes behind it. -/
theorem mmpCreate_leaves : ¬ Contained (fun _ => ⟨0, 0⟩) 0 4096 ⟨345, 4, 5⟩ := by
  intro contained
  have tail : (4440, 4448) ∈ createWrites 0 4096 ⟨345, 4, 5⟩ := by decide +kernel
  have last := contained.1 4447 ⟨_, tail, by decide, by decide⟩
  exact absurd last.2 (by decide)

end Syslib.Mmpool
