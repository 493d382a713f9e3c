import Syslib.Stkpool.Layout

namespace Syslib.Stkpool

open Runs

/-- The address that `stkp_alloc` returns for a frame: the first one behind the guard page. -/
def StkpImpl.payload (stkpi : StkpImpl) (i : Nat) : Nat := stkpi.frame i + stkpi.sysPgSize

/-- The second component lists the addresses that were returned and not freed yet. -/
def stkpStep (call : StkpCall) (state : StkpImpl × List Nat) : Option (StkpImpl × List Nat) :=
  match call with
  | .alloc =>
      let (stkpi, p) := stkpAlloc state.1
      some (stkpi, if p = 0 then state.2 else p :: state.2)
  | .free p => do
      let (stkpi, rslt) ← stkpFree state.1 p.toNat
      some (stkpi, if rslt = 0 then state.2.erase p.toNat else state.2)

/-- The index that `stkp_free` divides out of a pointer. -/
def freeIndex (stkpi : StkpImpl) (p : Nat) : Nat :=
  (wordSub p stkpi.sysPgSize - stkpi.payloadTrunkAddr) / stkpi.stkFrmSize

/-- A freed pointer that passes the checks is in front of the end, and it is the address of its frame or
this frame is free. -/
def Told : StkpCall → StkpImpl × List Nat → Prop
  | .alloc, _ => True
  | .free p, (stkpi, _) =>
      p.toNat = 0 ∨ p.toNat &&& wordSub stkpi.sysPgSize 1 ≠ 0 ∨
        wordSub p.toNat stkpi.sysPgSize < stkpi.payloadTrunkAddr ∨
        freeIndex stkpi p.toNat < stkpi.stkFrmCnt ∧
          (p.toNat = stkpi.payload (freeIndex stkpi p.toNat) ∨ stkpi.node (freeIndex stkpi p.toNat) % 4 = 0)

instance Told.decidable : ∀ (call : StkpCall) (state : StkpImpl × List Nat), Decidable (Told call state)
  | .alloc, _ => isTrue trivial
  | .free _, (_, _) => inferInstanceAs (Decidable (_ ∨ _ ∨ _ ∨ _ ∧ (_ ∨ _)))

/-- The stacks that are in use lie apart from each other and from every guard page. -/
structure Separate (state : StkpImpl × List Nat) : Prop where
  once : state.2.Nodup
  apart : ∀ p ∈ state.2, ∀ q ∈ state.2, p ≠ q →
    p + (state.1.stkFrmSize - state.1.sysPgSize) ≤ q ∨ q + (state.1.stkFrmSize - state.1.sysPgSize) ≤ p
  guarded : ∀ p ∈ state.2, ∀ i < state.1.stkFrmCnt,
    p + (state.1.stkFrmSize - state.1.sysPgSize) ≤ state.1.frame i ∨
      state.1.frame i + state.1.sysPgSize ≤ p

/-- A free of an address in use succeeds; any other one is refused and changes nothing. -/
def FreeLaw (state : StkpImpl × List Nat) (p : Nat) : Prop :=
  if p ∈ state.2 then ∃ next, stkpFree state.1 p = some (next, 0)
  else stkpFree state.1 p = some (state.1, -1)

/-- Each frame is free or in use, and the list and the addresses say which. -/
structure Sound (stkpi : StkpImpl) (state : StkpImpl × List Nat) : Prop where
  kept : stkpi.Kept state.1
  node : ∀ i < stkpi.stkFrmCnt, state.1.node i = stkpi.payload i ∨ state.1.node i = stkpi.payload i + 1
  listed : ∀ i, i ∈ state.1.freeList ↔ i < stkpi.stkFrmCnt ∧ state.1.node i = stkpi.payload i
  listedOnce : state.1.freeList.Nodup
  held : ∀ p, p ∈ state.2 ↔ ∃ i < stkpi.stkFrmCnt, p = stkpi.payload i ∧ state.1.node i = stkpi.payload i + 1
  heldOnce : state.2.Nodup

section Geometry

variable {stkpi : StkpImpl} {addr totalSize stkFrmSize : Nat}

theorem payload_mod (laid : Laid stkpi addr totalSize stkFrmSize) (i : Nat) :
    stkpi.payload i % stkpi.sysPgSize = 0 := by
  rw [StkpImpl.payload, Nat.add_mod_right]
  exact laid.aligned i

theorem payload_mod_four (laid : Laid stkpi addr totalSize stkFrmSize) (page : PageSize stkpi.sysPgSize)
    (i : Nat) : stkpi.payload i % 4 = 0 := by
  obtain ⟨-, -, whole, -⟩ := page.bounds
  have multiple := Nat.dvd_of_mod_eq_zero (payload_mod laid i)
  have four : 4 ∣ stkpi.payload i := (show 4 ∣ 4096 by decide).trans (whole.trans multiple)
  exact Nat.mod_eq_zero_of_dvd four

theorem payload_apart (laid : Laid stkpi addr totalSize stkFrmSize) {i j : Nat} (less : i < j) :
    stkpi.payload i + stkpi.stkFrmSize ≤ stkpi.payload j := by
  have apart := laid.apart i j less
  rw [StkpImpl.payload, StkpImpl.payload]
  omega

theorem payload_inj (laid : Laid stkpi addr totalSize stkFrmSize) (page : PageSize stkpi.sysPgSize)
    {i j : Nat} (same : stkpi.payload i = stkpi.payload j) : i = j := by
  have stack := laid.stack
  have positive := page.bounds.1
  rcases Nat.lt_trichotomy i j with less | equal | more
  · have apart := payload_apart laid less
    omega
  · exact equal
  · have apart := payload_apart laid more
    omega

theorem and_page (page : PageSize stkpi.sysPgSize) (p : Nat) :
    p &&& wordSub stkpi.sysPgSize 1 = p % stkpi.sysPgSize := by
  obtain ⟨low, high, -, -⟩ := page.bounds
  have less : wordSub stkpi.sysPgSize 1 = stkpi.sysPgSize - 1 := by
    rw [wordSub]
    omega
  obtain ⟨k, -, -, power⟩ := page
  rw [less, power, Nat.and_two_pow_sub_one_eq_mod]

end Geometry

/-- The checks of `stkp_free` in front of the division. -/
def Passes (stkpi : StkpImpl) (p : Nat) : Prop :=
  p ≠ 0 ∧ p &&& wordSub stkpi.sysPgSize 1 = 0 ∧ stkpi.payloadTrunkAddr ≤ wordSub p stkpi.sysPgSize

section Free

variable {stkpi : StkpImpl} {state : StkpImpl × List Nat} {p : Nat}

theorem stkpFree_refused (refused : ¬ Passes stkpi p) : stkpFree stkpi p = some (stkpi, -1) := by
  simp only [Passes, not_and_or, not_not] at refused
  unfold stkpFree
  dsimp only
  split_ifs with null offset low <;> first | rfl | (exfalso; omega)

theorem stkpFree_passed (passes : Passes stkpi p) :
    stkpFree stkpi p =
      if stkpi.stkFrmCnt ≤ freeIndex stkpi p then none
      else if stkpi.node (freeIndex stkpi p) % 4 = 0 then some (stkpi, -1)
      else some ({ stkpi with
        node := Function.update stkpi.node (freeIndex stkpi p)
          (stkpi.node (freeIndex stkpi p) - stkpi.node (freeIndex stkpi p) % 4)
        freeList := freeIndex stkpi p :: stkpi.freeList }, 0) := by
  obtain ⟨real, aligned, above⟩ := passes
  rw [stkpFree, if_neg real, if_neg (not_not.mpr aligned)]
  dsimp only
  rw [if_neg (Nat.not_lt.mpr above)]
  rfl

theorem told_free {p : BitVec 64} : Told (.free p) state ↔ ¬ Passes state.1 p.toNat ∨
    freeIndex state.1 p.toNat < state.1.stkFrmCnt ∧
      (p.toNat = state.1.payload (freeIndex state.1 p.toNat) ∨
        state.1.node (freeIndex state.1 p.toNat) % 4 = 0) := by
  simp only [Told, Passes, not_and_or, not_not, not_le, ne_eq, or_assoc]

end Free

section Run

variable {stkpi : StkpImpl} {addr totalSize stkFrmSize : Nat} {state next : StkpImpl × List Nat}

theorem Sound.frame (sound : Sound stkpi state) (i : Nat) : state.1.frame i = stkpi.frame i := by
  rw [StkpImpl.frame, sound.kept]
  rfl

theorem Sound.payload (sound : Sound stkpi state) (i : Nat) : state.1.payload i = stkpi.payload i := by
  rw [StkpImpl.payload, sound.frame, sound.kept]
  rfl

theorem Sound.count (sound : Sound stkpi state) : state.1.stkFrmCnt = stkpi.stkFrmCnt := by
  rw [sound.kept]

/-- The address of a frame passes the checks and leads back to its frame. -/
theorem Sound.passes (sound : Sound stkpi state) (laid : Laid stkpi addr totalSize stkFrmSize)
    (page : PageSize stkpi.sysPgSize) (enough : minStkSize ≤ stkFrmSize)
    (memory : addr + totalSize ≤ 2 ^ 64) {i : Nat} (inside : i < stkpi.stkFrmCnt) :
    Passes state.1 (stkpi.payload i) ∧ freeIndex state.1 (stkpi.payload i) = i := by
  have last := laid.inside i inside
  have stack := laid.stack
  have positive := page.bounds.1
  have pageEq : state.1.sysPgSize = stkpi.sysPgSize := by rw [sound.kept]
  have frmEq : state.1.stkFrmSize = stkpi.stkFrmSize := by rw [sound.kept]
  have trunkEq : state.1.payloadTrunkAddr = stkpi.payloadTrunkAddr := by rw [sound.kept]
  rw [minStkSize] at enough
  have back : wordSub (stkpi.payload i) stkpi.sysPgSize = stkpi.frame i := by
    rw [wordSub, StkpImpl.payload]
    omega
  refine ⟨⟨?_, ?_, ?_⟩, ?_⟩
  · rw [StkpImpl.payload]
    omega
  · rw [pageEq, and_page page]
    exact payload_mod laid i
  · rw [pageEq, trunkEq, back]
    exact Nat.le_add_right _ _
  · rw [freeIndex, pageEq, frmEq, trunkEq, back, StkpImpl.frame, Nat.add_sub_cancel_left]
    exact Nat.mul_div_cancel i (by omega)

/-- A frame in use is held under its address. -/
theorem Sound.held_payload (sound : Sound stkpi state) (laid : Laid stkpi addr totalSize stkFrmSize)
    (page : PageSize stkpi.sysPgSize) {i : Nat} (inside : i < stkpi.stkFrmCnt) :
    stkpi.payload i ∈ state.2 ↔ state.1.node i % 4 ≠ 0 := by
  have four := payload_mod_four laid page i
  rw [sound.held]
  constructor
  · rintro ⟨j, -, same, used⟩
    obtain rfl := payload_inj laid page same
    omega
  · intro used
    rcases sound.node i inside with free | taken
    · omega
    · exact ⟨i, inside, rfl, taken⟩

/-- The step with a pointer that keeps to the condition. -/
theorem stkpFree_told (laid : Laid stkpi addr totalSize stkFrmSize) (page : PageSize stkpi.sysPgSize)
    (enough : minStkSize ≤ stkFrmSize) (memory : addr + totalSize ≤ 2 ^ 64) (sound : Sound stkpi state)
    {p : BitVec 64} (told : Told (.free p) state) :
    (p.toNat ∉ state.2 ∧ stkpFree state.1 p.toNat = some (state.1, -1)) ∨
      ∃ i < stkpi.stkFrmCnt, p.toNat = stkpi.payload i ∧ p.toNat ∈ state.2 ∧
        state.1.node i = stkpi.payload i + 1 ∧ stkpFree state.1 p.toNat = some ({ state.1 with
          node := Function.update state.1.node i (stkpi.payload i)
          freeList := i :: state.1.freeList }, 0) := by
  have address : p.toNat ∈ state.2 → Passes state.1 p.toNat ∧
      freeIndex state.1 p.toNat < stkpi.stkFrmCnt ∧
        p.toNat = stkpi.payload (freeIndex state.1 p.toNat) := by
    intro member
    obtain ⟨i, inside, same, -⟩ := (sound.held _).mp member
    obtain ⟨passes, index⟩ := sound.passes laid page enough memory inside
    rw [same, index]
    exact ⟨passes, inside, rfl⟩
  by_cases passes : Passes state.1 p.toNat
  · obtain ⟨inside, place⟩ := (told_free.mp told).resolve_left (not_not.mpr passes)
    rw [sound.count] at inside
    rw [sound.payload] at place
    by_cases free : state.1.node (freeIndex state.1 p.toNat) % 4 = 0
    · refine Or.inl ⟨?_, ?_⟩
      · intro member
        obtain ⟨-, -, same⟩ := address member
        rw [same, sound.held_payload laid page inside] at member
        exact member free
      · rw [stkpFree_passed passes, if_neg (by rw [sound.count]; omega), if_pos free]
    · have same := place.resolve_right free
      have member : p.toNat ∈ state.2 := by
        rw [same, sound.held_payload laid page inside]
        exact free
      have four := payload_mod_four laid page (freeIndex state.1 p.toNat)
      have used : state.1.node (freeIndex state.1 p.toNat) = stkpi.payload (freeIndex state.1 p.toNat) + 1 := by
        rcases sound.node _ inside with unused | taken
        · rw [unused] at free
          exact absurd four free
        · exact taken
      refine Or.inr ⟨_, inside, same, member, used, ?_⟩
      rw [stkpFree_passed passes, if_neg (by rw [sound.count]; omega), if_neg free]
      have cleared : state.1.node (freeIndex state.1 p.toNat) - state.1.node (freeIndex state.1 p.toNat) % 4 =
          stkpi.payload (freeIndex state.1 p.toNat) := by omega
      rw [cleared]
  · exact Or.inl ⟨fun member => passes (address member).1, stkpFree_refused passes⟩

/-- The law of a free holds exactly for the pointers that keep to the condition. -/
theorem freeLaw_iff (laid : Laid stkpi addr totalSize stkFrmSize) (page : PageSize stkpi.sysPgSize)
    (enough : minStkSize ≤ stkFrmSize) (memory : addr + totalSize ≤ 2 ^ 64) (sound : Sound stkpi state)
    (p : BitVec 64) : FreeLaw state p.toNat ↔ Told (.free p) state := by
  constructor
  · intro law
    by_contra untold
    rw [told_free, not_or, not_not, not_and_or] at untold
    obtain ⟨passes, wrong⟩ := untold
    have outside : p.toNat ∉ state.2 := by
      intro member
      obtain ⟨i, inside, same, -⟩ := (sound.held _).mp member
      have index := (sound.passes laid page enough memory inside).2
      rw [same, index, sound.count, sound.payload] at wrong
      rcases wrong with beyond | other
      · exact beyond inside
      · exact other (Or.inl rfl)
    rw [FreeLaw, if_neg outside, stkpFree_passed passes] at law
    split_ifs at law with beyond free
    · rcases wrong with far | other
      · exact far (Nat.not_le.mp beyond)
      · exact other (Or.inr free)
    · exact absurd (Prod.mk.inj (Option.some.inj law)).2 (by decide)
  · intro told
    rcases stkpFree_told laid page enough memory sound told with ⟨outside, refused⟩ | ⟨i, -, -, member, -, freed⟩
    · rw [FreeLaw, if_neg outside]
      exact refused
    · rw [FreeLaw, if_pos member]
      exact ⟨_, freed⟩

theorem stkpAlloc_sound (laid : Laid stkpi addr totalSize stkFrmSize) (page : PageSize stkpi.sysPgSize)
    (sound : Sound stkpi state) : ∃ next, stkpStep .alloc state = some next ∧ Sound stkpi next := by
  obtain ⟨pool, held⟩ := state
  refine ⟨_, rfl, ?_⟩
  cases shape : pool.freeList with
  | nil =>
      simp only [if_true]
      exact sound
  | cons i rest =>
      obtain ⟨inside, unused⟩ := (sound.listed i).mp (shape ▸ List.mem_cons_self ..)
      have once := sound.listedOnce
      simp only [shape, List.nodup_cons] at once
      have four := payload_mod_four laid page i
      have positive := page.bounds.1
      have address : pool.node i - pool.node i % 4 = stkpi.payload i := by
        simp only at unused
        omega
      have real : stkpi.payload i ≠ 0 := by
        rw [StkpImpl.payload]
        omega
      simp only [address, if_neg real]
      have here : Function.update pool.node i (stkpi.payload i + 1) i = stkpi.payload i + 1 :=
        Function.update_self _ _ _
      have there : ∀ j, j ≠ i → Function.update pool.node i (stkpi.payload i + 1) j = pool.node j :=
        fun j other => Function.update_of_ne other _ _
      refine ⟨sound.kept.trans rfl, ?_, ?_, once.2, ?_, ?_⟩
      · intro j below
        dsimp only
        by_cases same : j = i
        · rw [same]
          exact Or.inr here
        · rw [there j same]
          exact sound.node j below
      · intro j
        dsimp only
        by_cases same : j = i
        · rw [same, here]
          exact iff_of_false once.1 (by omega)
        · rw [there j same, ← sound.listed j, shape, List.mem_cons]
          exact (or_iff_right same).symm
      · intro p
        dsimp only
        rw [List.mem_cons, sound.held]
        constructor
        · rintro (rfl | ⟨j, below, rfl, used⟩)
          · exact ⟨i, inside, rfl, here⟩
          · refine ⟨j, below, rfl, ?_⟩
            rw [there j]
            · exact used
            · rintro rfl
              simp only at unused used
              omega
        · rintro ⟨j, below, rfl, used⟩
          by_cases same : j = i
          · exact Or.inl (by rw [same])
          · rw [there j same] at used
            exact Or.inr ⟨j, below, rfl, used⟩
      · refine List.nodup_cons.mpr ⟨?_, sound.heldOnce⟩
        rw [sound.held_payload laid page inside]
        simp only at unused ⊢
        omega

theorem stkpFree_sound (laid : Laid stkpi addr totalSize stkFrmSize) (page : PageSize stkpi.sysPgSize)
    (enough : minStkSize ≤ stkFrmSize) (memory : addr + totalSize ≤ 2 ^ 64) (sound : Sound stkpi state)
    {p : BitVec 64} (told : Told (.free p) state) :
    ∃ next, stkpStep (.free p) state = some next ∧ Sound stkpi next := by
  rcases stkpFree_told laid page enough memory sound told with
    ⟨-, refused⟩ | ⟨i, inside, same, member, used, freed⟩
  · refine ⟨state, ?_, sound⟩
    simp [stkpStep, refused]
  · refine ⟨_, by simp only [stkpStep, freed, Option.bind_eq_bind, Option.bind_some, if_true]; rfl, ?_⟩
    obtain ⟨pool, held⟩ := state
    simp only at used member ⊢
    have here : Function.update pool.node i (stkpi.payload i) i = stkpi.payload i := Function.update_self _ _ _
    have there : ∀ j, j ≠ i → Function.update pool.node i (stkpi.payload i) j = pool.node j :=
      fun j other => Function.update_of_ne other _ _
    have unlisted : i ∉ pool.freeList := by
      intro listed
      have unused := ((sound.listed i).mp listed).2
      simp only at unused
      omega
    refine ⟨sound.kept.trans rfl, ?_, ?_, List.nodup_cons.mpr ⟨unlisted, sound.listedOnce⟩, ?_,
      sound.heldOnce.erase _⟩
    · intro j below
      dsimp only
      by_cases equal : j = i
      · rw [equal]
        exact Or.inl here
      · rw [there j equal]
        exact sound.node j below
    · intro j
      dsimp only
      rw [List.mem_cons]
      by_cases equal : j = i
      · rw [equal, here]
        exact iff_of_true (Or.inl rfl) ⟨inside, rfl⟩
      · rw [there j equal, ← sound.listed j]
        exact or_iff_right equal
    · intro q
      dsimp only
      rw [sound.heldOnce.mem_erase_iff, sound.held, same]
      constructor
      · rintro ⟨other, j, below, rfl, taken⟩
        refine ⟨j, below, rfl, ?_⟩
        rw [there j]
        · exact taken
        · rintro rfl
          exact other rfl
      · rintro ⟨j, below, rfl, taken⟩
        by_cases equal : j = i
        · rw [equal, here] at taken
          omega
        · rw [there j equal] at taken
          exact ⟨fun address => equal (payload_inj laid page address), j, below, rfl, taken⟩

/-- The stacks of a sound pool lie between the guard pages. -/
theorem Sound.separate (sound : Sound stkpi state) (laid : Laid stkpi addr totalSize stkFrmSize) :
    Separate state := by
  have stack := laid.stack
  have pageEq : state.1.sysPgSize = stkpi.sysPgSize := by rw [sound.kept]
  have frmEq : state.1.stkFrmSize = stkpi.stkFrmSize := by rw [sound.kept]
  refine ⟨sound.heldOnce, ?_, ?_⟩
  · intro p pHeld q qHeld other
    obtain ⟨i, -, rfl, -⟩ := (sound.held p).mp pHeld
    obtain ⟨j, -, rfl, -⟩ := (sound.held q).mp qHeld
    rw [pageEq, frmEq]
    rcases Nat.lt_trichotomy i j with less | rfl | more
    · have apart := payload_apart laid less
      omega
    · exact absurd rfl other
    · have apart := payload_apart laid more
      omega
  · intro p pHeld i _
    obtain ⟨j, -, rfl, -⟩ := (sound.held p).mp pHeld
    rw [pageEq, frmEq, sound.frame, StkpImpl.payload]
    rcases Nat.lt_or_ge j i with less | more
    · have apart := laid.apart j i less
      omega
    · have order : stkpi.frame i ≤ stkpi.frame j := Nat.add_le_add_left (Nat.mul_le_mul_right _ more) _
      omega

theorem sound_start (laid : Laid stkpi addr totalSize stkFrmSize) : Sound stkpi (stkpi, []) := by
  have unused : ∀ i < stkpi.stkFrmCnt, stkpi.node i = stkpi.payload i := laid.node
  refine ⟨rfl, fun i inside => Or.inl (unused i inside), ?_, ?_, ?_, List.nodup_nil⟩
  · intro i
    simp only [laid.listed, List.mem_range]
    exact ⟨fun inside => ⟨inside, unused i inside⟩, fun both => both.1⟩
  · simp only [laid.listed]
    exact List.nodup_range
  · intro p
    refine iff_of_false List.not_mem_nil ?_
    rintro ⟨i, inside, -, used⟩
    rw [unused i inside] at used
    omega

end Run

/-- In a run of told calls the stacks stay apart, and in each state reached a free keeps its law exactly
for the pointers that the condition allows. -/
theorem stkpCalls_told {stkpi : StkpImpl} {addr totalSize stkFrmSize : Nat}
    (page : PageSize stkpi.sysPgSize) (enough : minStkSize ≤ stkFrmSize)
    (laid : Laid stkpi addr totalSize stkFrmSize) (memory : addr + totalSize ≤ 2 ^ 64)
    (calls : List StkpCall) (meets : Meets stkpStep Told calls (stkpi, [])) :
    ∃ last, exec stkpStep calls (stkpi, []) = some last ∧ Separate last ∧
      ∀ p : BitVec 64, FreeLaw last p.toNat ↔ Told (.free p) last := by
  have run := @exec_invariant _ _ stkpStep Told (Sound stkpi) (by
    intro call state sound told
    cases call with
    | alloc => exact stkpAlloc_sound laid page sound
    | free p => exact stkpFree_sound laid page enough memory sound told) calls _ (sound_start laid) meets
  obtain ⟨last, ran, sound⟩ := run
  exact ⟨last, ran, sound.separate laid, freeLaw_iff laid page enough memory sound⟩

/-- A pool of two frames with stacks of two pages. -/
def twoFrames : StkpImpl :=
  { stkpTag := stkpTagWord, addrBegin := 0x80000, addrEnd := 0x106000, freeList := [0, 1],
    payloadTrunkAddr := 0x100000, stkFrmSize := 0x3000, stkFrmCnt := 2, sysPgSize := 0x1000,
    node := fun i => 0x101000 + 0x3000 * i }

theorem twoFrames_laid : Laid twoFrames 0x80000 0x86000 0x2000 := by
  have frame : ∀ i, twoFrames.frame i = 0x100000 + i * 0x3000 := fun _ => rfl
  refine ⟨by decide, rfl, by decide, ?_, ?_, ?_, by decide, ?_, rfl⟩
  · intro i (inside : i < 2)
    rw [frame]
    show 0x100000 + i * 0x3000 + 0x3000 ≤ 0x80000 + 0x86000
    omega
  · intro i j less
    rw [frame, frame]
    show 0x100000 + i * 0x3000 + 0x3000 ≤ 0x100000 + j * 0x3000
    omega
  · intro i
    rw [frame]
    show (0x100000 + i * 0x3000) % 0x1000 = 0
    omega
  · intro i _
    rw [frame]
    show 0x101000 + 0x3000 * i = 0x100000 + i * 0x3000 + 0x1000
    omega

/-- Two frames are handed out, the first one is freed, and a second free of it is refused. -/
theorem stkpCalls_told_two :
    ∃ last, exec stkpStep [.alloc, .alloc, .free 0x101000, .free 0x101000] (twoFrames, []) = some last ∧
      Separate last ∧ ∀ p : BitVec 64, FreeLaw last p.toNat ↔ Told (.free p) last :=
  stkpCalls_told ⟨12, by decide, by decide, rfl⟩ (le_refl _) twoFrames_laid (by decide) _ (by decide)

/-- A pointer into the middle of a stack in use is freed. -/
theorem stkpFree_interior : ∃ last, exec stkpStep [.alloc] (twoFrames, []) = some last ∧
    0x102000 ∉ last.2 ∧ ¬ FreeLaw last 0x102000 := by
  refine ⟨_, rfl, by decide, ?_⟩
  intro law
  rw [FreeLaw, if_neg (by decide)] at law
  exact absurd (congrArg (fun result => result.map Prod.snd) law) (by decide)

end Syslib.Stkpool
