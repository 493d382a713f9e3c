import Syslib.Mmspace.CacheSound

namespace Syslib.Mmspace

/-- The address lies in the block of the slab. -/
def CacheSpace.Within (mm : CacheSpace) (mc p : Nat) : Prop := mc ≤ p ∧ p < mc + (mm.zoneOf mc).cacheSize

instance (mm : CacheSpace) (mc p : Nat) : Decidable (mm.Within mc p) := inferInstanceAs (Decidable (_ ∧ _))

/-- No page of the slab behind its first one, up to the page of the address, carries the label. -/
def CacheSpace.Unlabelled (cfg : MmConfig) (mm : CacheSpace) (mc p : Nat) : Prop :=
  ∀ page, mc < page → page ≤ p → page % cfg.pageSize = 0 → (mm.heads page).slabLabel ≠ slabMark

section Lookup

variable {cfg : MmConfig} {mm : CacheSpace} {mc p : Nat}

/-- The search ends at the head of the slab at the latest. -/
theorem SlabsSound.lookup (pages : PagesFit cfg) (sound : SlabsSound cfg mm) (held : mc ∈ mm.blocks)
    (within : mm.Within mc p) :
    ∃ found, cacheOfObj cfg mm p = some found ∧ mc ≤ found ∧ found ≤ p ∧ found % cfg.pageSize = 0 ∧
      (found = mc ↔ mm.Unlabelled cfg mc p) := by
  obtain ⟨k, small, size⟩ := pages
  have slab := sound.slabs mc held
  have zone := sound.zone held
  have positive : 0 < cfg.pageSize := by rw [size]; exact Nat.two_pow_pos k
  have room := slab.room
  obtain ⟨above, below⟩ := within
  have down : roundDown p cfg.pageSize = cfg.pageSize * (p / cfg.pageSize) := by
    rw [size]
    exact roundDown_eq (by omega) (by omega)
  obtain ⟨first, rfl⟩ := Nat.dvd_of_mod_eq_zero slab.aligned
  have start : first ≤ p / cfg.pageSize := by
    rw [Nat.le_div_iff_mul_le positive, Nat.mul_comm]
    exact above
  have floor : cfg.pageSize * (p / cfg.pageSize) ≤ p := Nat.mul_div_le p _
  -- the page of the head is this many pages before the page of the address
  let back := p / cfg.pageSize - first
  have split : cfg.pageSize * (p / cfg.pageSize) = cfg.pageSize * first + cfg.pageSize * back := by
    rw [← Nat.mul_add, Nat.add_sub_cancel' start]
  have crossing : cfg.pageSize * back < (mm.zoneOf (cfg.pageSize * first)).cacheSize := by omega
  have reach : back < cfg.maxpgCount :=
    Nat.lt_of_mul_lt_mul_left (lt_trans crossing zone.reach)
  have address : ∀ i ≤ back, roundDown p cfg.pageSize - i * cfg.pageSize % 2 ^ 32 =
      cfg.pageSize * (p / cfg.pageSize - i) := by
    intro i early
    have less : i * cfg.pageSize ≤ cfg.pageSize * back := by
      rw [Nat.mul_comm]
      exact Nat.mul_le_mul_left _ early
    have word := zone.word
    rw [Nat.mod_eq_of_lt (by omega), down, Nat.mul_sub, Nat.mul_comm i]
  let labelled : Nat → Bool := fun i =>
    (mm.heads (roundDown p cfg.pageSize - i * cfg.pageSize % 2 ^ 32)).slabLabel = slabMark
  have own : labelled back = true := by
    have here : cfg.pageSize * (p / cfg.pageSize - back) = cfg.pageSize * first := by
      rw [Nat.mul_sub]
      omega
    simp only [labelled, address back (le_refl back), here, slab.labelled, decide_true]
  have search : cacheOfObj cfg mm p = ((List.range cfg.maxpgCount).find? labelled).map fun i =>
      roundDown p cfg.pageSize - i * cfg.pageSize % 2 ^ 32 := by
    rw [cacheOfObj, List.find?_map]
    rfl
  cases chosen : (List.range cfg.maxpgCount).find? labelled with
  | none =>
      have clear := List.find?_eq_none.mp chosen back (List.mem_range.mpr reach)
      exact absurd own clear
  | some i =>
      obtain ⟨marked, -, clear⟩ := List.find?_range_eq_some.mp chosen
      have early : i ≤ back := by
        by_contra late
        have unmarked := clear back (Nat.lt_of_not_le late)
        rw [own] at unmarked
        cases unmarked
      have less : cfg.pageSize * i ≤ cfg.pageSize * back := Nat.mul_le_mul_left _ early
      refine ⟨cfg.pageSize * (p / cfg.pageSize - i), ?_, ?_, ?_, Nat.mul_mod_right _ _, ?_⟩
      · rw [search, chosen, Option.map_some, address i early]
      · rw [Nat.mul_sub]
        omega
      · rw [Nat.mul_sub]
        omega
      · constructor
        · intro same page behind before whole
          obtain ⟨number, rfl⟩ := Nat.dvd_of_mod_eq_zero whole
          have later : first < number := Nat.lt_of_mul_lt_mul_left behind
          have upTo : number ≤ p / cfg.pageSize := by
            rw [Nat.le_div_iff_mul_le positive, Nat.mul_comm]
            exact before
          have last : p / cfg.pageSize - i = first := Nat.eq_of_mul_eq_mul_left positive same
          have unmarked := clear (p / cfg.pageSize - number) (by omega)
          have page : p / cfg.pageSize - (p / cfg.pageSize - number) = number := by omega
          simp only [labelled, address (p / cfg.pageSize - number) (by omega), page] at unmarked
          simpa using unmarked
        · intro unlabelled
          by_contra different
          have behind : cfg.pageSize * first < cfg.pageSize * (p / cfg.pageSize - i) := by
            rw [Nat.mul_sub] at different ⊢
            omega
          refine unlabelled _ behind ?_ (Nat.mul_mod_right _ _) ?_
          · rw [Nat.mul_sub]
            omega
          · rw [← address i early]
            simpa [labelled] using marked

/-- The search finds the slab of the address exactly when no label stands between them. -/
theorem SlabsSound.lookup_iff (pages : PagesFit cfg) (sound : SlabsSound cfg mm) (held : mc ∈ mm.blocks)
    (within : mm.Within mc p) :
    cacheOfObj cfg mm p = some mc ↔ mm.Unlabelled cfg mc p := by
  obtain ⟨found, search, -, -, -, same⟩ := sound.lookup pages held within
  rw [search, Option.some.injEq]
  exact same

end Lookup

end Syslib.Mmspace
