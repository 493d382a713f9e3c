import Syslib.Library.Buddies
import Syslib.Mmpool.Steps

namespace Syslib.Mmpool

open IntrusiveLists Tiling

variable {addr c i label rounds stop : Nat} {outside : Nat → Word} {cfg : MmpConfig} {mmpi next origin : MmpoolImpl}
  {blocks rest : List Nat} {rslt : Int}

section Geometry

theorem movePtrAlign64_eq (ptr offset : Nat) :
    movePtrAlign64 ptr offset = (ptr + offset + 63) % 2 ^ 64 / 64 * 64 := by
  rw [movePtrAlign64, Nat.mul_comm]
  exact @and_mask _ 6 (Nat.mod_lt _ (by decide)) (by decide)

theorem align8_eq (val : Nat) : align8 val = (val + 7) % 2 ^ 64 / 8 * 8 := by
  rw [align8, Nat.mul_comm]
  exact @and_mask _ 3 (Nat.mod_lt _ (by decide)) (by decide)

/-- The orders are shift counts that give positive sizes, and the smallest block has a head and a tail. -/
structure Ordered (cfg : MmpConfig) : Prop where
  smallest : 4 ≤ cfg.minOrder.toNat
  larger : cfg.minOrder.toNat < cfg.maxOrder.toNat
  largest : cfg.maxOrder.toNat ≤ 30

/-- A block with its descriptor has a multiple of eight bytes. -/
theorem unit_eq (ordered : Ordered cfg) :
    align8 (blockSize cfg.minOrder.toNat + flnSize) = 2 ^ cfg.minOrder.toNat + 32 := by
  have least := ordered.smallest
  have large := ordered.larger.le.trans ordered.largest
  have small : 2 ^ cfg.minOrder.toNat ≤ 2 ^ 30 := Nat.pow_le_pow_right (by decide) large
  obtain ⟨count, whole⟩ : 2 ^ 4 ∣ 2 ^ cfg.minOrder.toNat := Nat.pow_dvd_pow 2 least
  rw [align8_eq, blockSize_eq (by omega), flnSize]
  omega

/-- The heads of the lists start here, and their end is rounded up to the start of the descriptors. -/
def flhStart (addr : Nat) : Nat := movePtrAlign64 addr implSize

def flnStart (addr : Nat) (cfg : MmpConfig) : Nat :=
  movePtrAlign64 (flhStart addr) ((cfg.maxOrder.toNat - cfg.minOrder.toNat + 1) * flhSize)

def memoryEnd (addr : Nat) (cfg : MmpConfig) : Nat := align8 (addr + cfg.totalSize.toNat)

theorem memoryEnd_lt : memoryEnd addr cfg < 2 ^ 64 := by
  rw [memoryEnd, align8_eq]
  omega

theorem flnStart_lt : flnStart addr cfg < 2 ^ 64 := by
  rw [flnStart, movePtrAlign64_eq]
  omega

/-- Each descriptor has room for one of the smallest blocks. -/
theorem flnCount_wrap (ordered : Ordered cfg) : (emptyPool outside addr cfg).flnCount =
    wordSub (memoryEnd addr cfg) (flnStart addr cfg) / (2 ^ cfg.minOrder.toNat + 32) := by
  rw [← unit_eq ordered]
  rfl

theorem flnCount_eq (ordered : Ordered cfg) (room : flnStart addr cfg ≤ memoryEnd addr cfg) :
    (emptyPool outside addr cfg).flnCount =
      (memoryEnd addr cfg - flnStart addr cfg) / (2 ^ cfg.minOrder.toNat + 32) := by
  have inside := @memoryEnd_lt addr cfg
  rw [flnCount_wrap ordered, wordSub]
  congr 1
  omega

theorem chunkSize_eq (ordered : Ordered cfg) : (emptyPool outside addr cfg).chunkSize =
    2 ^ cfg.maxOrder.toNat * ((memoryEnd addr cfg - (emptyPool outside addr cfg).chunkAddr) / 2 ^ cfg.maxOrder.toNat) := by
  have large := ordered.largest
  have inside := @memoryEnd_lt addr cfg
  rw [← @roundDown_eq (memoryEnd addr cfg - (emptyPool outside addr cfg).chunkAddr) cfg.maxOrder.toNat (by omega)
    (by omega), ← blockSize_eq (by omega)]
  rfl

/-- The descriptors and as many of the smallest blocks have room. -/
theorem flnCount_bounds (ordered : Ordered cfg) (room : flnStart addr cfg ≤ memoryEnd addr cfg) :
    (emptyPool outside addr cfg).flnCount * (2 ^ cfg.minOrder.toNat + 32) ≤ memoryEnd addr cfg - flnStart addr cfg ∧
      memoryEnd addr cfg - flnStart addr cfg <
        ((emptyPool outside addr cfg).flnCount + 1) * (2 ^ cfg.minOrder.toNat + 32) := by
  rw [flnCount_eq ordered room]
  exact ⟨Nat.div_mul_le_self _ _, (Nat.div_lt_iff_lt_mul (Nat.succ_pos _)).mp (Nat.lt_succ_self _)⟩

theorem chunkAddr_eq : (emptyPool outside addr cfg).chunkAddr =
    (flnStart addr cfg + (emptyPool outside addr cfg).flnCount * 32 + 63) % 2 ^ 64 / 64 * 64 :=
  movePtrAlign64_eq ..

/-- Below the last page of the address space no address wraps around. -/
theorem chunkAddr_real (ordered : Ordered cfg) (top : addr + cfg.totalSize.toNat + 4096 ≤ 2 ^ 64)
    (least : 16 ≤ cfg.totalSize.toNat) (room : flnStart addr cfg ≤ memoryEnd addr cfg) :
    8 ≤ (emptyPool outside addr cfg).chunkAddr := by
  have large := ordered.largest
  have counted := (@flnCount_bounds addr outside cfg ordered room).1
  rw [Nat.mul_add] at counted
  have ends : memoryEnd addr cfg + 64 ≤ 2 ^ 64 := by
    rw [memoryEnd, align8_eq]
    omega
  have first : flhStart addr = (addr + 191) / 64 * 64 := by
    rw [flhStart, movePtrAlign64_eq, implSize]
    omega
  have start : 8 ≤ flnStart addr cfg := by
    rw [flnStart, movePtrAlign64_eq, flhSize, Nat.mod_eq_of_lt (by omega)]
    omega
  rw [chunkAddr_eq, Nat.mod_eq_of_lt (by omega)]
  omega

/-- The chunk starts behind the first words of the memory and ends in it. -/
theorem emptyPool_configured (ordered : Ordered cfg) (real : 8 ≤ (emptyPool outside addr cfg).chunkAddr)
    (behind : (emptyPool outside addr cfg).chunkAddr < memoryEnd addr cfg) :
    Configured (emptyPool outside addr cfg) := by
  have large := ordered.largest
  have size := @chunkSize_eq addr outside cfg ordered
  have ends := @memoryEnd_lt addr cfg
  refine ⟨ordered.smallest, ordered.larger, large, rfl, ?_, real, ?_, ?_⟩
  · show blockSize cfg.maxOrder.toNat - headTailSize = _
    rw [blockSize_eq (by omega)]
    rfl
  · have part := Nat.mul_div_le (memoryEnd addr cfg - (emptyPool outside addr cfg).chunkAddr) (2 ^ cfg.maxOrder.toNat)
    omega
  · rw [size]
    exact Nat.mul_mod_right ..

end Geometry

/-- The pool as if its chunk ended behind the blocks that have been made so far. -/
def MmpoolImpl.cut (mmpi : MmpoolImpl) (size : Nat) : MmpoolImpl := { mmpi with chunkSize := size }

theorem Configured.cut (configured : Configured mmpi) (whole : c % 2 ^ mmpi.maxBlockOrder = 0)
    (fits : c ≤ mmpi.chunkSize) : Configured (mmpi.cut c) := by
  have room := configured.room
  exact ⟨configured.smallest, configured.larger, configured.largest, configured.listCount, configured.payload,
    configured.real, lt_of_le_of_lt (Nat.add_le_add_left fits _) room, whole⟩

/-- The first blocks have been made, each of the largest size, and they are free. -/
structure Rowed (origin : MmpoolImpl) (c : Nat) (mmpi : MmpoolImpl) (blocks : List Nat) : Prop where
  kept : origin.Kept mmpi
  whole : c % 2 ^ origin.maxBlockOrder = 0
  fits : c ≤ origin.chunkSize
  holds : Holds True 0 0 (mmpi.cut c) blocks
  largest : ∀ b ∈ blocks, (mmpi.head b).flag = 0 ∧ mmpi.size b = 2 ^ origin.maxBlockOrder
  within : origin.Within mmpi origin.chunkAddr origin.limit
  linked : ∀ n, mmpi.Linked n ↔ origin.Linked n

/-- Before the first block is made, all descriptors are unused. -/
theorem Rowed.empty (unused : ∀ place, place ≠ .freeFln → origin.lists place = [])
    (counted : origin.lists .freeFln = List.range origin.flnCount) : Rowed origin 0 origin [] := by
  have bare : Listed (fun a => a ∈ ([] : List Nat) ∧ a ≠ 0) (origin.cut 0) := by
    refine ⟨⟨?_, ?_⟩, ?_, fun zero => zero.2 rfl, fun inside => absurd inside.1 List.not_mem_nil, ?_,
      fun inside => absurd inside.1 List.not_mem_nil⟩
    · intro place
      show (origin.lists place).Nodup
      by_cases spare : place = .freeFln
      · rw [spare, counted]
        exact List.nodup_range
      · rw [unused place spare]
        exact List.nodup_nil
    · intro first second n inFirst inSecond
      have only {place : FlnList} (inside : n ∈ origin.lists place) : place = .freeFln := by
        by_contra other
        rw [unused place other] at inside
        exact List.not_mem_nil inside
      exact (only inFirst).trans (only inSecond).symm
    · intro i place inside
      change i ∈ origin.lists place at inside
      by_cases spare : place = .freeFln
      · rw [spare, counted] at inside
        exact List.mem_range.mp inside
      · rw [unused place spare] at inside
        exact absurd inside List.not_mem_nil
    · intro i idx
      show i ∈ origin.lists (.flh idx) ↔ _
      rw [unused _ (by simp)]
      exact ⟨fun inside => absurd inside List.not_mem_nil, fun inside => absurd inside.1.1 List.not_mem_nil⟩
  refine ⟨rfl, Nat.zero_mod _, Nat.zero_le _, ?_, fun b inside => absurd inside List.not_mem_nil,
    fun _ _ => rfl, fun _ => Iff.rfl⟩
  exact ⟨rfl, fun a inside => absurd inside List.not_mem_nil, fun _ a inside => absurd inside List.not_mem_nil,
    fun a inside => absurd inside List.not_mem_nil, bare⟩

theorem emptyPool_spare :
    (emptyPool outside addr cfg).lists .freeFln = List.range (emptyPool outside addr cfg).flnCount := by
  simp only [emptyPool, if_true]

theorem emptyPool_rowed : Rowed (emptyPool outside addr cfg) 0 (emptyPool outside addr cfg) [] :=
  Rowed.empty (fun _ other => if_neg other) emptyPool_spare

/-- The range behind the last block becomes a block without a list. -/
theorem Rowed.grow (rowed : Rowed origin c mmpi blocks) (configured : Configured origin) :
    Holds True (origin.chunkAddr + c) (2 ^ origin.maxBlockOrder) (mmpi.cut (c + 2 ^ origin.maxBlockOrder))
      (blocks ++ [origin.chunkAddr + c]) := by
  have chunk : mmpi.chunkAddr = origin.chunkAddr := by rw [rowed.kept]
  have largest : mmpi.maxBlockOrder = origin.maxBlockOrder := by rw [rowed.kept]
  have smallest : mmpi.minBlockOrder = origin.minBlockOrder := by rw [rowed.kept]
  have cut := (configured.kept rowed.kept).cut (largest ▸ rowed.whole) (by rw [rowed.kept]; exact rowed.fits)
  have holds := rowed.holds
  have old {b : Nat} (inside : b ∈ blocks) : b ≠ 0 ∧ b ≠ origin.chunkAddr + c := by
    have bounds := holds.tiled.bounds inside
    rw [show (mmpi.cut c).limit = mmpi.chunkAddr + c from rfl, chunk, id_eq] at bounds
    exact ⟨holds.real cut inside, by omega⟩
  have size {b : Nat} (inside : b ∈ blocks) : (mmpi.cut (c + 2 ^ origin.maxBlockOrder)).sizeIn
      (origin.chunkAddr + c) (2 ^ origin.maxBlockOrder) b = (mmpi.cut c).sizeIn 0 0 b := by
    rw [Holds.size_in (old inside).2, Holds.size_in (old inside).1]
    rfl
  have new : (mmpi.cut (c + 2 ^ origin.maxBlockOrder)).sizeIn (origin.chunkAddr + c) (2 ^ origin.maxBlockOrder)
      (origin.chunkAddr + c) = 2 ^ origin.maxBlockOrder := if_pos rfl
  have first {b : Nat} (inside : b ∈ blocks ++ [origin.chunkAddr + c]) (other : b ≠ origin.chunkAddr + c) :
      b ∈ blocks := by
    simp only [List.mem_append, List.mem_singleton] at inside
    exact inside.resolve_right other
  refine ⟨?_, ?_, fun _ a inside other => holds.tails trivial a (first inside other) (old (first inside other)).1,
    fun a inside other => holds.flags a (first inside other) (old (first inside other)).1, ?_⟩
  · refine tiles_append.mpr ⟨origin.chunkAddr + c, ?_, rfl, ?_, ?_⟩
    · have tiled := holds.tiled
      rw [show (mmpi.cut c).limit = mmpi.chunkAddr + c from rfl, chunk] at tiled
      exact tiled.congr fun b inside => ⟨rfl, size inside⟩
    · rw [new]
      exact Nat.two_pow_pos _
    · show _ = mmpi.chunkAddr + (c + 2 ^ origin.maxBlockOrder)
      rw [new, chunk, Nat.add_assoc]
  · intro b inside
    by_cases last : b = origin.chunkAddr + c
    · refine ⟨origin.maxBlockOrder, ?_, largest.ge, last ▸ new, ?_⟩
      · exact smallest.le.trans configured.larger.le
      · show (b - mmpi.chunkAddr) % _ = 0
        rw [last, chunk, Nat.add_sub_cancel_left]
        exact rowed.whole
    · obtain ⟨k, low, high, span, aligned⟩ := holds.shaped b (first inside last)
      exact ⟨k, low, high, (size (first inside last)).trans span, aligned⟩
  · have same : (fun b => b ∈ blocks ++ [origin.chunkAddr + c] ∧ b ≠ origin.chunkAddr + c) =
        fun b => b ∈ blocks ∧ b ≠ 0 := by
      funext b
      apply propext
      constructor
      · exact fun inside => ⟨first inside.1 inside.2, (old (first inside.1 inside.2)).1⟩
      · exact fun inside => ⟨List.mem_append_left _ inside.1, (old inside.1).2⟩
    rw [same]
    exact holds.listed.congr (fun _ _ => rfl) rfl rfl rfl rfl

/-- A block enters a list only with an unused descriptor. -/
theorem returnFreeNodeToHead_spare (run : mmpi.returnFreeNodeToHead c = some (next, rslt))
    (flag : (mmpi.head c).flag = 0) (small : (mmpi.head c).blockSize ≤ blockSize mmpi.maxBlockOrder) :
    mmpi.lists .freeFln ≠ [] := by
  intro empty
  rw [MmpoolImpl.returnFreeNodeToHead, if_neg (by simp [flag] : ¬ (mmpi.head c).flag &&& blockBitUsed ≠ 0),
    if_neg (Nat.not_lt.mpr small)] at run
  simp [MmpoolImpl.fetchFreeFln, empty] at run

/-- One round of the loop makes the next block. -/
theorem Rowed.step (rowed : Rowed origin c mmpi blocks) (configured : Configured origin)
    (fits : c + 2 ^ origin.maxBlockOrder ≤ origin.chunkSize) (spare : mmpi.lists .freeFln = i :: rest) :
    (mmpi.made (origin.chunkAddr + c) (2 ^ origin.maxBlockOrder)).returnFreeNodeToHead (origin.chunkAddr + c) =
        some (mmpi.remade (origin.chunkAddr + c) i origin.maxBlockOrder, 0) ∧
      Rowed origin (c + 2 ^ origin.maxBlockOrder) (mmpi.remade (origin.chunkAddr + c) i origin.maxBlockOrder)
        (blocks ++ [origin.chunkAddr + c]) := by
  have now := configured.kept rowed.kept
  have chunk : mmpi.chunkAddr = origin.chunkAddr := by rw [rowed.kept]
  have largest : mmpi.maxBlockOrder = origin.maxBlockOrder := by rw [rowed.kept]
  have smallest : mmpi.minBlockOrder = origin.minBlockOrder := by rw [rowed.kept]
  have least : mmpi.minBlockOrder ≤ origin.maxBlockOrder := smallest.le.trans configured.larger.le
  have large := configured.large configured.larger.le
  have whole : (c + 2 ^ origin.maxBlockOrder) % 2 ^ mmpi.maxBlockOrder = 0 := by
    rw [largest, Nat.add_mod_right]
    exact rowed.whole
  have cut := now.cut whole (by rw [rowed.kept]; exact fits)
  have inside : i ∈ mmpi.lists .freeFln := spare ▸ List.mem_cons_self
  have real : origin.chunkAddr + c ≠ 0 := by
    have start := configured.real
    rw [headSize] at start
    omega
  have member : origin.chunkAddr + c ∈ blocks ++ [origin.chunkAddr + c] := by simp
  have grown := remake_holds (rowed.grow configured) cut member least inside
  have keep := @remade_kept mmpi (origin.chunkAddr + c) i origin.maxBlockOrder
  have head := @remade_head (origin.chunkAddr + c) i origin.maxBlockOrder mmpi large
  have positive := Nat.two_pow_pos origin.maxBlockOrder
  rw [headTailSize] at large
  refine ⟨remake_eq now real least largest.ge spare, rowed.kept.trans keep, ?_, fits, grown, ?_, ?_,
    fun n => (remade_linked inside).trans (rowed.linked n)⟩
  · rw [Nat.add_mod_right]
    exact rowed.whole
  · intro b made
    rcases List.mem_append.mp made with old | last
    · have bounds := rowed.holds.tiled.bounds old
      rw [show (mmpi.cut c).limit = mmpi.chunkAddr + c from rfl, chunk, id_eq] at bounds
      have word : (mmpi.remade (origin.chunkAddr + c) i origin.maxBlockOrder).word b = mmpi.word b :=
        remade_word (by omega) (by rw [headSize]; omega)
      rw [head_congr word, size_congr word]
      exact rowed.largest b old
    · obtain rfl := List.mem_singleton.mp last
      rw [MmpoolImpl.size, head]
      exact ⟨rfl, rfl⟩
  · intro x outside
    rw [MmpoolImpl.limit] at outside
    have word : (mmpi.remade (origin.chunkAddr + c) i origin.maxBlockOrder).word x = mmpi.word x :=
      remade_word (by omega) (by rw [headSize]; omega)
    exact word.trans (rowed.within x outside)

/-- The row writes the header of its next block and goes on with the rest. -/
theorem initRow_eq (configured : Configured origin) (fits : c + 2 ^ origin.maxBlockOrder ≤ origin.chunkSize) :
    initRow (2 ^ origin.maxBlockOrder) origin.limit (rounds + 1) mmpi (origin.chunkAddr + c) =
      ((mmpi.made (origin.chunkAddr + c) (2 ^ origin.maxBlockOrder)).returnFreeNodeToHead (origin.chunkAddr + c)).bind
        fun (next, rslt) => if rslt < 0 then some none
          else initRow (2 ^ origin.maxBlockOrder) origin.limit rounds next
            (origin.chunkAddr + (c + 2 ^ origin.maxBlockOrder)) := by
  have limit : origin.limit = origin.chunkAddr + origin.chunkSize := rfl
  have small := configured.largest
  have start := configured.real
  rw [headSize] at start
  have least := configured.smallest.trans configured.larger.le
  have made := @makeBlock_eq (origin.chunkAddr + c) origin.maxBlockOrder mmpi least (by omega)
  rw [initRow, if_pos (by omega)]
  simp only [congrArg Prod.fst made, congrArg Prod.snd made]
  rw [if_neg (by omega), Nat.add_assoc]
  rfl

/-- The row ends at the end of the chunk. -/
theorem Rowed.run (configured : Configured origin) (rowed : Rowed origin c mmpi blocks)
    (run : initRow (2 ^ origin.maxBlockOrder) origin.limit rounds mmpi (origin.chunkAddr + c) =
      some (some (next, stop))) :
    stop = origin.limit ∧ ∃ pieces, Rowed origin origin.chunkSize next pieces := by
  have limit : origin.limit = origin.chunkAddr + origin.chunkSize := rfl
  induction rounds generalizing c mmpi blocks with
  | zero => cases run
  | succ rounds ih =>
      by_cases more : c + 2 ^ origin.maxBlockOrder ≤ origin.chunkSize
      · rw [initRow_eq configured more] at run
        obtain ⟨⟨linked, rslt⟩, entered, run⟩ := Option.bind_eq_some_iff.mp run
        obtain ⟨flag, size⟩ := @made_fresh (origin.chunkAddr + c) origin.maxBlockOrder mmpi
          (configured.large configured.larger.le)
        have filled := returnFreeNodeToHead_spare entered flag (by
          show (mmpi.made _ _).size _ ≤ blockSize mmpi.maxBlockOrder
          rw [size, (configured.kept rowed.kept).max_eq, show mmpi.maxBlockOrder = origin.maxBlockOrder by rw [rowed.kept]])
        obtain ⟨i, rest, spare⟩ := List.exists_cons_of_ne_nil filled
        obtain ⟨linked_eq, later⟩ := rowed.step configured more spare
        obtain ⟨rfl, rfl⟩ := Prod.mk.inj (Option.some.inj (entered.symm.trans linked_eq))
        change (if (0 : Int) < 0 then some none else _) = _ at run
        rw [if_neg (by decide)] at run
        exact ih later run
      · rw [initRow, if_neg (by omega)] at run
        cases run
        have whole : c = origin.chunkSize := by
          by_contra other
          have step := Buddies.unit_le (Nat.dvd_of_mod_eq_zero rowed.whole)
            (Nat.dvd_of_mod_eq_zero configured.whole) (lt_of_le_of_ne rowed.fits other)
          exact more step
        subst whole
        exact ⟨rfl, blocks, rowed⟩

/-- With a descriptor for each block the row gets to its end. -/
theorem Rowed.fills (configured : Configured origin) (rowed : Rowed origin c mmpi blocks) {left : Nat}
    (remains : c + left * 2 ^ origin.maxBlockOrder = origin.chunkSize) (bounded : left < rounds)
    (enough : left ≤ (mmpi.lists .freeFln).length) :
    ∃ next, initRow (2 ^ origin.maxBlockOrder) origin.limit rounds mmpi (origin.chunkAddr + c) =
      some (some (next, origin.limit)) ∧ origin.Kept next := by
  have limit : origin.limit = origin.chunkAddr + origin.chunkSize := rfl
  have positive := Nat.two_pow_pos origin.maxBlockOrder
  induction left generalizing c mmpi blocks rounds with
  | zero =>
      obtain ⟨rounds, rfl⟩ : ∃ n, rounds = n + 1 := ⟨rounds - 1, by omega⟩
      refine ⟨mmpi, ?_, rowed.kept⟩
      rw [initRow, if_neg (by omega), limit, ← remains, Nat.zero_mul]
      rfl
  | succ left ih =>
      obtain ⟨rounds, rfl⟩ : ∃ n, rounds = n + 1 := ⟨rounds - 1, by omega⟩
      rw [Nat.succ_mul] at remains
      obtain ⟨i, rest, spare⟩ := List.exists_cons_of_length_pos (by omega : 0 < (mmpi.lists .freeFln).length)
      obtain ⟨entered, later⟩ := rowed.step configured (by omega) spare
      have fewer : left ≤ ((mmpi.remade (origin.chunkAddr + c) i origin.maxBlockOrder).lists .freeFln).length := by
        rw [remade_spare spare]
        rw [spare, List.length_cons] at enough
        omega
      obtain ⟨next, run, kept⟩ := ih later (by omega) (by omega : left < rounds) fewer
      refine ⟨next, ?_, kept⟩
      rw [initRow_eq configured (by omega), entered]
      exact run

theorem Rowed.full (rowed : Rowed origin origin.chunkSize mmpi blocks) : Holds True 0 0 mmpi blocks := by
  have size : mmpi.chunkSize = origin.chunkSize := by rw [rowed.kept]
  have same : mmpi.cut origin.chunkSize = mmpi := by
    rw [MmpoolImpl.cut, ← size]
  exact same ▸ rowed.holds

/-- Without room for a block there is no row. -/
theorem initRows_none (empty : origin.chunkSize = 0) :
    initRows origin.limit (origin.freeListCount + 1) origin (origin.freeListCount - 1) origin.chunkAddr 0 =
      some (some origin) := by
  have limit : origin.limit = origin.chunkAddr := congrArg (origin.chunkAddr + ·) empty
  rw [initRows, limit, if_neg fun more => Nat.lt_irrefl _ more.2.1]

/-- The blocks of the first row have the largest size, so it ends at the end of the chunk. -/
theorem initRows_eq (configured : Configured origin) (filled : 0 < origin.chunkSize) :
    initRows origin.limit (origin.freeListCount + 1) origin (origin.freeListCount - 1) origin.chunkAddr 0 =
      (initRow (2 ^ origin.maxBlockOrder) origin.limit (origin.limit - origin.chunkAddr + 1) origin
        (origin.chunkAddr + 0)).bind fun row => match row with
          | none => some none
          | some (next, stop) => initRows origin.limit origin.freeListCount next ((origin.freeListCount - 1) / 2) stop
              (stop + 2 ^ origin.maxBlockOrder) := by
  have larger := configured.larger
  have count := configured.listCount
  have small := configured.largest
  have limit : origin.limit = origin.chunkAddr + origin.chunkSize := rfl
  have start := configured.real
  rw [headSize] at start
  have size : blockSize origin.minBlockOrder * blockSize (origin.freeListCount - 1) = 2 ^ origin.maxBlockOrder := by
    rw [blockSize_eq (by omega), blockSize_eq (by omega), ← Nat.pow_add]
    congr 1
    omega
  rw [initRows, if_pos (by omega), size]
  rfl

/-- No row follows the first one. -/
theorem initRows_end (configured : Configured origin) {idx chk2 : Nat} :
    initRows origin.limit origin.freeListCount next idx origin.limit chk2 = some (some next) := by
  obtain ⟨levels, counted⟩ : ∃ levels, origin.freeListCount = levels + 1 := ⟨_, configured.listCount⟩
  rw [counted, initRows, if_neg fun more => Nat.lt_irrefl _ more.2.1]

theorem initRows_rowed (configured : Configured origin) (empty : Rowed origin 0 origin [])
    (run : initRows origin.limit (origin.freeListCount + 1) origin (origin.freeListCount - 1) origin.chunkAddr 0 =
      some (some next)) : ∃ blocks, Rowed origin origin.chunkSize next blocks := by
  rcases Nat.eq_zero_or_pos origin.chunkSize with bare | filled
  · rw [initRows_none bare] at run
    cases run
    exact ⟨[], bare ▸ empty⟩
  · rw [initRows_eq configured filled] at run
    obtain ⟨row, made, run⟩ := Option.bind_eq_some_iff.mp run
    rcases row with _ | ⟨full, stop⟩
    · cases run
    · obtain ⟨rfl, blocks, rowed⟩ := empty.run configured made
      have same := (initRows_end configured).symm.trans run
      cases same
      exact ⟨blocks, rowed⟩

/-- With enough descriptors all blocks are made. -/
theorem initRows_fills (configured : Configured origin) (empty : Rowed origin 0 origin [])
    (enough : origin.chunkSize / 2 ^ origin.maxBlockOrder ≤ (origin.lists .freeFln).length) :
    ∃ next, initRows origin.limit (origin.freeListCount + 1) origin (origin.freeListCount - 1) origin.chunkAddr 0 =
      some (some next) ∧ origin.Kept next := by
  rcases Nat.eq_zero_or_pos origin.chunkSize with bare | filled
  · exact ⟨origin, initRows_none bare, rfl⟩
  · have whole := Nat.div_mul_cancel (Nat.dvd_of_mod_eq_zero configured.whole)
    have limit : origin.limit = origin.chunkAddr + origin.chunkSize := rfl
    have fewer := Nat.div_le_self origin.chunkSize (2 ^ origin.maxBlockOrder)
    obtain ⟨next, run, kept⟩ := @Rowed.fills _ (origin.limit - origin.chunkAddr + 1) _ _ _ configured empty
      (origin.chunkSize / 2 ^ origin.maxBlockOrder) (by omega) (by omega) enough
    exact ⟨next, by rw [initRows_eq configured filled, run]; exact initRows_end configured, kept⟩

/-- Without a descriptor the first block faults. -/
theorem initRows_starved (configured : Configured origin) (filled : 0 < origin.chunkSize)
    (spare : origin.lists .freeFln = []) :
    initRows origin.limit (origin.freeListCount + 1) origin (origin.freeListCount - 1) origin.chunkAddr 0 = none := by
  have room := Nat.le_of_dvd filled (Nat.dvd_of_mod_eq_zero configured.whole)
  obtain ⟨flag, size⟩ := @made_fresh (origin.chunkAddr + 0) origin.maxBlockOrder origin
    (configured.large configured.larger.le)
  have fault : (origin.made (origin.chunkAddr + 0) (2 ^ origin.maxBlockOrder)).returnFreeNodeToHead
      (origin.chunkAddr + 0) = none := by
    by_contra some_
    obtain ⟨⟨next, rslt⟩, entered⟩ := Option.ne_none_iff_exists'.mp some_
    exact returnFreeNodeToHead_spare entered flag (size.le.trans configured.max_eq.ge) spare
  rw [initRows_eq configured filled, initRow_eq configured (by omega), fault]
  rfl

/-- A new pool has only free blocks of the largest size. -/
theorem mmpCreate_rowed (ordered : Ordered cfg) (top : addr + cfg.totalSize.toNat + 4096 ≤ 2 ^ 64)
    (made : mmpCreate outside label addr cfg = some (some mmpi)) :
    Configured (emptyPool outside addr cfg) ∧ (emptyPool outside addr cfg).chunkAddr < memoryEnd addr cfg ∧
      ∃ blocks, Rowed (emptyPool outside addr cfg) (emptyPool outside addr cfg).chunkSize mmpi blocks := by
  have smallest := ordered.smallest
  have larger := ordered.larger
  have largest := ordered.largest
  have least : 2 ^ 4 ≤ 2 ^ cfg.minOrder.toNat := Nat.pow_le_pow_right (by decide) smallest
  rw [mmpCreate, blockSize_eq (by omega)] at made
  split_ifs at made with address total huge
  · cases made
  · cases made
  · cases made
  · dsimp only [mmpInitChunk] at made
    split_ifs at made with order tiny labelled lacking full
    · cases made
    · cases made
    · cases made
    · cases made
    · have behind := Nat.not_le.mp full
      have room : flnStart addr cfg ≤ memoryEnd addr cfg := by
        by_contra other
        exact lacking ⟨Nat.ne_of_gt (lt_of_le_of_lt (Nat.zero_le _) behind), Nat.not_le.mp other⟩
      have real := @chunkAddr_real addr outside cfg ordered top (by omega) room
      have configured := emptyPool_configured ordered real (Nat.not_le.mp full)
      exact ⟨configured, Nat.not_le.mp full, initRows_rowed configured emptyPool_rowed made⟩

end Syslib.Mmpool
