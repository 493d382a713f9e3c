import Syslib.Mmpool.Calls

namespace Syslib.Mmpool

open IntrusiveLists Tiling Buddies Runs

variable {a c j k n o q : Nat} {mmpi : MmpoolImpl} {blocks : List Nat} {heap : Heap}

namespace MmpoolImpl

/-- The aligned ranges of an order are numbered from the start of the chunk. -/
def range (mmpi : MmpoolImpl) (k q : Nat) : Nat := mmpi.chunkAddr + q * 2 ^ k

def rangeCount (mmpi : MmpoolImpl) (k : Nat) : Nat := mmpi.chunkSize / 2 ^ k

/-- The block has a byte of the range. -/
def Touches (mmpi : MmpoolImpl) (a k q : Nat) : Prop :=
  a < mmpi.range k q + 2 ^ k ∧ mmpi.range k q < a + mmpi.size a

end MmpoolImpl

namespace Sound

variable (sound : Sound mmpi blocks)

include sound

theorem sized (inside : a ∈ blocks) : mmpi.sizeIn 0 0 a = mmpi.size a :=
  Holds.size_in (sound.holds.real sound.configured inside)

theorem ordered (inside : a ∈ blocks) : ∃ j, mmpi.minBlockOrder ≤ j ∧ j ≤ mmpi.maxBlockOrder ∧ mmpi.size a = 2 ^ j ∧
    (a - mmpi.chunkAddr) % 2 ^ j = 0 := by
  obtain ⟨j, least, most, size, aligned⟩ := sound.holds.shaped a inside
  exact ⟨j, least, most, sound.sized inside ▸ size, aligned⟩

theorem range_inside (most : k ≤ mmpi.maxBlockOrder) (inside : q < mmpi.rangeCount k) :
    mmpi.range k q + 2 ^ k ≤ mmpi.limit := by
  have whole : 2 ^ k ∣ mmpi.chunkSize :=
    (Nat.pow_dvd_pow 2 most).trans (Nat.dvd_of_mod_eq_zero sound.configured.whole)
  have more := Nat.mul_le_mul_right (2 ^ k) (Nat.succ_le_of_lt inside)
  rw [MmpoolImpl.rangeCount, Nat.div_mul_cancel whole, Nat.succ_mul] at more
  rw [MmpoolImpl.range, MmpoolImpl.limit]
  omega

/-- A block of at least the order starts where an aligned range does. -/
theorem starts_range (inside : a ∈ blocks) (size : mmpi.size a = 2 ^ j) (order : k ≤ j) :
    ∃ q < mmpi.rangeCount k, mmpi.range k q = a := by
  obtain ⟨o, -, top, span, aligned⟩ := sound.ordered inside
  obtain rfl : j = o := Nat.pow_right_injective le_rfl (size.symm.trans span)
  have bounds := sound.tiled.bounds inside
  have positive := Nat.two_pow_pos k
  have larger := Nat.pow_le_pow_right (by decide : 0 < 2) order
  have whole : 2 ^ k ∣ a - mmpi.chunkAddr :=
    (Nat.pow_dvd_pow 2 order).trans (Nat.dvd_of_mod_eq_zero aligned)
  rw [MmpoolImpl.limit, size, id_eq] at bounds
  refine ⟨(a - mmpi.chunkAddr) / 2 ^ k, ?_, ?_⟩
  · refine Nat.div_lt_div_of_lt_of_dvd ?_ (by omega)
    exact (Nat.pow_dvd_pow 2 (order.trans top)).trans (Nat.dvd_of_mod_eq_zero sound.configured.whole)
  · rw [MmpoolImpl.range, Nat.div_mul_cancel whole]
    omega

/-- An aligned range without a used byte lies in one free block. -/
theorem range_free (most : k ≤ mmpi.maxBlockOrder) (inside : q < mmpi.rangeCount k)
    (clear : ∀ c, mmpi.IsUsed blocks c → ¬ mmpi.Touches c k q) :
    ∃ a j, mmpi.IsFree blocks a j ∧ k ≤ j ∧ a ≤ mmpi.range k q ∧ mmpi.range k q < a + 2 ^ j := by
  have room := sound.range_inside most inside
  have positive := Nat.two_pow_pos k
  have low : mmpi.chunkAddr ≤ mmpi.range k q := Nat.le_add_right _ _
  obtain ⟨a, member, before, behind⟩ := sound.tiled.covers low (by omega : mmpi.range k q < mmpi.limit)
  obtain ⟨j, -, -, size, aligned⟩ := sound.ordered member
  have start := (sound.tiled.bounds member).1
  rw [id_eq] at before behind start
  have unused {c : Nat} (inC : c ∈ blocks) (touches : mmpi.Touches c k q) : (mmpi.head c).flag = 0 := by
    by_contra used
    exact clear c ⟨inC, used⟩ touches
  by_cases order : k ≤ j
  · exact ⟨a, j, ⟨member, unused member ⟨by omega, behind⟩, size⟩, order, before, size ▸ behind⟩
  · -- a smaller block starts at the range, and the blocks behind it are free as well
    have whole : 2 ^ j ∣ mmpi.range k q - mmpi.chunkAddr := by
      rw [MmpoolImpl.range, Nat.add_sub_cancel_left]
      exact (Nat.pow_dvd_pow 2 (by omega)).trans (Nat.dvd_mul_left _ _)
    have first : a = mmpi.range k q := by
      by_contra other
      have step := unit_le (Nat.dvd_of_mod_eq_zero aligned) whole (by omega)
      omega
    subst first
    refine ⟨mmpi.range k q, k, ?_, le_rfl, le_rfl, by omega⟩
    refine wholly_single sound.holds sound.configured sound.unpaired k member ?_ ?_ most ?_
    · rw [MmpoolImpl.range, Nat.add_sub_cancel_left]
      exact Nat.mul_mod_left _ _
    · rw [size]
      exact Nat.pow_le_pow_right (by decide) (by omega)
    · intro c inC lower upper
      have sizeC := (sound.tiled.bounds inC).2.1
      exact unused inC ⟨upper, by omega⟩

theorem free_range (free : mmpi.IsFree blocks a j) (order : k ≤ j) :
    ∃ q < mmpi.rangeCount k, ∀ c, mmpi.IsUsed blocks c → ¬ mmpi.Touches c k q := by
  obtain ⟨q, inside, start⟩ := sound.starts_range free.1 free.2.2 order
  refine ⟨q, inside, fun c used touches => ?_⟩
  have larger := Nat.pow_le_pow_right (by decide : 0 < 2) order
  have apart := sound.tiled.disjoint used.1 free.1 (by rintro rfl; exact used.2 free.2.1)
  rw [free.2.2, id_eq, id_eq] at apart
  rw [MmpoolImpl.Touches, start] at touches
  omega

/-- An allocation gives null exactly when every aligned range of its order has a used byte, and then it
changes nothing. -/
theorem refuses_iff (supplied : mmpi.Supplied) (positive : 1 ≤ n) (fits : n ≤ mmpi.maxPayloadSize) :
    ∃ next answer, mmpAlloc mmpi n = some (next, answer) ∧ (answer = 0 → next = mmpi) ∧
      (answer = 0 ↔ ∀ q < mmpi.rangeCount (mmpi.neededOrder n),
        ∃ c, mmpi.IsUsed blocks c ∧ mmpi.Touches c (mmpi.neededOrder n) q) := by
  have least : mmpi.minBlockOrder ≤ mmpi.neededOrder n := le_max_left _ _
  have most : mmpi.neededOrder n ≤ mmpi.maxBlockOrder := (flhIdx_eq sound.configured fits).2
  rcases mmpAlloc_cases sound.configured sound.holds (fun j less most filled none_ =>
    sound.supply supplied least less most filled none_) positive fits with
    ⟨null, none_⟩ | ⟨j, a, rest, next, above, below, -, first, ran, -⟩
  · refine ⟨mmpi, 0, null, fun _ => rfl, iff_of_true rfl fun q inside => ?_⟩
    by_contra clear
    obtain ⟨a, j, free, order, -⟩ := sound.range_free most inside fun c used touches => clear ⟨c, used, touches⟩
    obtain ⟨-, top, -⟩ := sound.holds.shape sound.configured free.1 free.2.2
    have listed := (sound.holds.mem_freeBlocks sound.configured (least.trans order)).mpr free
    rw [none_ j order top] at listed
    exact List.not_mem_nil listed
  · have free : mmpi.IsFree blocks a j :=
      (sound.holds.mem_freeBlocks sound.configured (least.trans above)).mp (first ▸ List.mem_cons_self)
    have nonzero : payloadAddr a ≠ 0 := by simp [payloadAddr, headSize]
    refine ⟨next, payloadAddr a, ran, fun null => absurd null nonzero, iff_of_false nonzero fun covered => ?_⟩
    obtain ⟨q, inside, clear⟩ := sound.free_range free above
    obtain ⟨c, used, touches⟩ := covered q inside
    exact clear c used touches

section Restored

variable (unused : ∀ a, ¬ mmpi.IsUsed blocks a)

include unused

theorem range_whole (inside : q < mmpi.rangeCount mmpi.maxBlockOrder) :
    mmpi.IsFree blocks (mmpi.range mmpi.maxBlockOrder q) mmpi.maxBlockOrder := by
  obtain ⟨a, j, free, order, before, behind⟩ := sound.range_free le_rfl inside fun c used => absurd used (unused c)
  obtain ⟨-, most, -⟩ := sound.holds.shape sound.configured free.1 free.2.2
  obtain rfl : j = mmpi.maxBlockOrder := le_antisymm most order
  obtain ⟨p, -, rfl⟩ := sound.starts_range free.1 free.2.2 le_rfl
  have same : p = q := by
    simp only [MmpoolImpl.range] at before behind
    have low : p ≤ q := Nat.le_of_mul_le_mul_right (by omega) (Nat.two_pow_pos mmpi.maxBlockOrder)
    have high : q < p + 1 := by
      refine Nat.lt_of_mul_lt_mul_right (a := 2 ^ mmpi.maxBlockOrder) ?_
      rw [Nat.succ_mul]
      omega
    omega
  exact same ▸ free

/-- Without a used block the chunk is cut in blocks of the largest order. -/
theorem restored (least : mmpi.minBlockOrder ≤ o) :
    a ∈ mmpi.freeBlocks o ↔ o = mmpi.maxBlockOrder ∧ ∃ q < mmpi.rangeCount o, mmpi.range o q = a := by
  rw [sound.holds.mem_freeBlocks sound.configured least]
  constructor
  · intro free
    have bounds := sound.tiled.bounds free.1
    have inner := enclosing_bounds mmpi.maxBlockOrder (a - mmpi.chunkAddr)
    have inside : (a - mmpi.chunkAddr) / 2 ^ mmpi.maxBlockOrder < mmpi.rangeCount mmpi.maxBlockOrder := by
      rw [MmpoolImpl.limit, id_eq] at bounds
      exact Nat.div_lt_div_of_lt_of_dvd (Nat.dvd_of_mod_eq_zero sound.configured.whole) (by omega)
    have whole := sound.range_whole unused inside
    have same : mmpi.range mmpi.maxBlockOrder ((a - mmpi.chunkAddr) / 2 ^ mmpi.maxBlockOrder) = a := by
      by_contra other
      have apart := sound.tiled.disjoint whole.1 free.1 other
      rw [whole.2.2, free.2.2, id_eq, id_eq] at apart
      have positive := Nat.two_pow_pos o
      rw [free.2.2, id_eq] at bounds
      rw [MmpoolImpl.range] at apart
      rw [enclosing] at inner
      omega
    have size := whole.2.2
    rw [same, free.2.2] at size
    obtain rfl := Nat.pow_right_injective le_rfl size
    exact ⟨rfl, _, inside, same⟩
  · rintro ⟨rfl, q, inside, rfl⟩
    exact sound.range_whole unused inside

end Restored

end Sound

/-- A pool that holds its users' pointers answers every request, and it refuses one exactly when every aligned
range of the order that the request needs has a byte of a held block. A pool without held pointers is as good
as a new one. -/
theorem mmpRun_complete (outside : Nat → Word) (addr : Nat) (cfg : MmpConfig) (mmpi : MmpoolImpl)
    (ordered : Ordered cfg) (top : addr + cfg.totalSize.toNat + 4096 ≤ 2 ^ 64)
    (made : mmpCreate outside 0 addr cfg = some (some mmpi)) (supplied : mmpi.Supplied) (first rest : List MmpCall)
    (untrapped : Meets mmpStep Untrapped (first ++ rest) ⟨mmpi, []⟩) :
    ∃ heap, exec mmpStep first ⟨mmpi, []⟩ = some heap ∧
      (∀ n, 1 ≤ n → n ≤ heap.mmpi.maxPayloadSize →
        ∃ next answer, mmpAlloc heap.mmpi n = some (next, answer) ∧ (answer = 0 → next = heap.mmpi) ∧
          (answer = 0 ↔ ∀ q < heap.mmpi.rangeCount (heap.mmpi.neededOrder n),
            ∃ entry ∈ heap.live, heap.mmpi.Touches (entry.1 - headSize) (heap.mmpi.neededOrder n) q)) ∧
      (heap.live = [] → ∀ o a, heap.mmpi.minBlockOrder ≤ o → (a ∈ heap.mmpi.freeBlocks o ↔
        o = heap.mmpi.maxBlockOrder ∧ ∃ q < heap.mmpi.rangeCount o, heap.mmpi.range o q = a)) := by
  obtain ⟨heap, run, enough, blocks, sound, owned⟩ :=
    run_steady ordered top made supplied first (meets_append.mp untrapped).1
  refine ⟨heap, run, fun n positive fits => ?_, fun empty o a least => ?_⟩
  · obtain ⟨next, answer, ran, kept, law⟩ := sound.refuses_iff enough positive fits
    refine ⟨next, answer, ran, kept, law.trans (forall₂_congr fun q inside => ⟨?_, ?_⟩)⟩
    · rintro ⟨c, used, touches⟩
      obtain ⟨entry, held, place⟩ := List.mem_map.mp ((owned.used c).mp used)
      exact ⟨entry, held, by rwa [place, payloadAddr, Nat.add_sub_cancel]⟩
    · rintro ⟨entry, held, touches⟩
      obtain ⟨c, place, -⟩ := owned.large entry held
      rw [place, payloadAddr, Nat.add_sub_cancel] at touches
      exact ⟨c, (owned.used c).mpr (place ▸ List.mem_map_of_mem held), touches⟩
  · refine sound.restored (fun c used => ?_) least
    have held := (owned.used c).mp used
    rw [empty] at held
    exact List.not_mem_nil held

/-- One of the four smallest blocks is held, so no range of the whole chunk is free. -/
theorem mmpRun_complete_held : ∃ mmpi ∈ (mmpCreate (fun _ => ⟨0, 0⟩) 0 4096 ⟨512, 5, 7⟩).join,
    ∃ heap, exec mmpStep [.alloc 1, .alloc 1, .free 4520] ⟨mmpi, []⟩ = some heap ∧
      mmpAlloc heap.mmpi 100 = some (heap.mmpi, 0) := by
  obtain ⟨mmpi, made, supplied, untrapped, held⟩ : ∃ mmpi ∈ (mmpCreate (fun _ => ⟨0, 0⟩) 0 4096 ⟨512, 5, 7⟩).join,
      mmpi.Supplied ∧ Meets mmpStep Untrapped ([.alloc 1, .alloc 1, .free 4520] ++ [.free 4488]) ⟨mmpi, []⟩ ∧
      ∃ heap ∈ exec mmpStep [.alloc 1, .alloc 1, .free 4520] ⟨mmpi, []⟩, 100 ≤ heap.mmpi.maxPayloadSize ∧
        ∀ q < heap.mmpi.rangeCount (heap.mmpi.neededOrder 100), ∃ entry ∈ heap.live,
          entry.1 - headSize < heap.mmpi.range (heap.mmpi.neededOrder 100) q + 2 ^ heap.mmpi.neededOrder 100 ∧
            heap.mmpi.range (heap.mmpi.neededOrder 100) q < entry.1 - headSize + heap.mmpi.size (entry.1 - headSize) := by
    decide +kernel
  obtain ⟨heap, run, fits, covered⟩ := held
  obtain ⟨final, again, law, -⟩ := mmpRun_complete (fun _ => ⟨0, 0⟩) 4096 ⟨512, 5, 7⟩ mmpi
    ⟨by decide, by decide, by decide⟩ (by decide) (Option.join_eq_some_iff.mp made) supplied _ [.free 4488] untrapped
  obtain rfl := Option.some.inj (run.symm.trans again)
  obtain ⟨next, answer, ran, kept, refused⟩ := law 100 (by decide) fits
  obtain rfl := refused.mpr covered
  exact ⟨mmpi, made, heap, run, kept rfl ▸ ran⟩

end Syslib.Mmpool
