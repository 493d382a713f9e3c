import Syslib.Mmspace.CacheCalls

namespace Syslib.Mmspace

open BitSlots Runs

/-- No user writes the label to the word where it stands in a head, and the pages of a new slab do not hold it. -/
def CacheCall.Clean (cfg : MmConfig) (call : CacheCall) (trace : CacheTrace) : Prop :=
  match call with
  | .create _ _ _ => True
  | .alloc mmz first again => ∀ mc ∈ trace.mm.freshSlab mmz first again,
      ∀ page, mc < page → page < mc + (trace.mm.zones mmz).cacheSize → page % cfg.pageSize = 0 →
        (trace.mm.heads page).slabLabel ≠ slabMark
  | .free _ _ => True
  | .write _ bytes => bytes.slabLabel ≠ slabMark

/-- Only the first page of a slab carries the label. -/
def CacheSpace.Tidy (cfg : MmConfig) (mm : CacheSpace) : Prop :=
  ∀ mc ∈ mm.blocks, ∀ page, mc < page → page < mc + (mm.zoneOf mc).cacheSize → page % cfg.pageSize = 0 →
    (mm.heads page).slabLabel ≠ slabMark

section Tidy

variable {cfg : MmConfig} {mm next : CacheSpace} {mmz mc page p : Nat}

/-- A page behind the first one of a slab is no block. -/
theorem SlabsSound.inner (sound : SlabsSound cfg mm) (held : mc ∈ mm.blocks) (behind : mc < page)
    (before : page < mc + (mm.zoneOf mc).cacheSize) : page ∉ mm.blocks := by
  intro other
  rcases sound.spaced mc held page other (Nat.ne_of_lt behind) with apart | apart <;> omega

theorem CacheSpace.Tidy.unlabelled (tidy : mm.Tidy cfg) (held : mc ∈ mm.blocks) (within : mm.Within mc p) :
    mm.Unlabelled cfg mc p :=
  fun page behind upTo whole => tidy mc held page behind (lt_of_le_of_lt upTo within.2) whole

theorem Framed.tidy {fresh : Option Nat} (framed : Framed mm mmz fresh next) (sound : SlabsSound cfg next)
    (tidy : mm.Tidy cfg) (clean : ∀ mc ∈ fresh, ∀ page, mc < page → page < mc + (mm.zones mmz).cacheSize →
      page % cfg.pageSize = 0 → (mm.heads page).slabLabel ≠ slabMark) : next.Tidy cfg := by
  intro mc held page behind before whole
  rw [framed.heads page (sound.inner held behind before)]
  rcases framed.blocks mc held with ⟨old, same⟩ | ⟨new, same⟩
  · rw [same] at before
    exact tidy mc old page behind before whole
  · rw [same] at before
    exact clean mc new page behind before whole

/-- A clean call keeps the labels on the first pages. -/
theorem cacheStep_tidy (call : CacheCall) (trace next : CacheTrace)
    (sound : trace.Sound cfg) (tidy : trace.mm.Tidy cfg) (fits : call.Fits cfg trace)
    (clean : call.Clean cfg trace) (taken : cacheStep cfg call trace = some next) : next.mm.Tidy cfg := by
  cases call with
  | create mzi objSize objDtor =>
      rw [cacheStep] at taken
      split_ifs at taken with valid
      · obtain rfl := Option.some.inj taken
        intro mc held page behind before whole
        have registered := (sound.slabs.slabs mc held).registered
        have other : (trace.mm.heads mc).cache ≠ mzi := by
          intro same
          exact fits (same ▸ registered)
        have zoneOf : (mmCacheSetup cfg trace.mm mzi objSize objDtor).zoneOf mc = trace.mm.zoneOf mc :=
          Function.update_of_ne other _ _
        rw [zoneOf] at before
        exact tidy mc held page behind before whole
      · obtain rfl := Option.some.inj taken
        exact tidy
  | alloc mmz first again =>
      obtain ⟨registered, answer, sized⟩ := fits
      obtain ⟨mm, p, allocates, allocated⟩ := sound.slabs.mmCacheAlloc registered answer sized
      rw [cacheStep, allocates] at taken
      obtain rfl := Option.some.inj taken
      exact allocated.framed.tidy allocated.sound tidy clean
  | free mmz p =>
      obtain ⟨live, mc, held, within, search⟩ := fits
      obtain ⟨mm, frees, given⟩ := sound.free live held within search
      rw [cacheStep, frees] at taken
      obtain rfl := Option.some.inj taken
      have still : Framed trace.mm mmz none trace.mm := (Recalled.refl sound.slabs).framed none
      exact (still.refilled given.refilled).tidy given.sound tidy (by simp)
  | write page bytes =>
      obtain rfl := Option.some.inj taken
      intro mc held inner behind before whole
      have owner : (trace.mm.write page bytes).heads mc = trace.mm.heads mc := by
        apply Function.update_of_ne
        rintro rfl
        exact fits held
      rw [CacheSpace.zoneOf, owner] at before
      by_cases same : inner = page
      · subst same
        change (Function.update trace.mm.heads inner bytes inner).slabLabel ≠ slabMark
        rw [Function.update_self]
        exact clean
      · change (Function.update trace.mm.heads page bytes inner).slabLabel ≠ slabMark
        rw [Function.update_of_ne same]
        exact tidy mc held inner behind before whole

end Tidy

/-- The object is a used slot of this slab of its cache. -/
def CacheSpace.Carved (mm : CacheSpace) (mmz p mc : Nat) : Prop :=
  mc ∈ mm.blocks ∧ (mm.heads mc).cache = mmz ∧ ∃ idx ∈ slots (mm.heads mc).allocBits, p = mm.slotAddr mc idx

theorem SlabsSound.within {cfg : MmConfig} {mm : CacheSpace} {mmz p mc : Nat} (sound : SlabsSound cfg mm)
    (carved : mm.Carved mmz p mc) : mm.Within mc p := by
  obtain ⟨held, -, idx, used, rfl⟩ := carved
  have slab := sound.slabs mc held
  have place := slab.slot_within (sound.zone held) (slab.bits.used idx used)
  have sized := slab.sized
  exact ⟨by omega, by omega⟩

/-- The search finds the slab of a live object unless a label stands between them, and clean runs have none. -/
theorem cacheCalls_owner (cfg : MmConfig) (pages : PagesFit cfg) (calls : List CacheCall)
    (meets : Meets (cacheStep cfg) (CacheCall.Fits cfg) calls emptyCaches) :
    ∃ trace, exec (cacheStep cfg) calls emptyCaches = some trace ∧
      (∀ mmz p, (mmz, p) ∈ trace.objects → ∃ mc, trace.mm.Carved mmz p mc ∧
        (cacheOfObj cfg trace.mm p = some mc ↔ trace.mm.Unlabelled cfg mc p)) ∧
      (Meets (cacheStep cfg) (CacheCall.Clean cfg) calls emptyCaches → ∀ mmz p, (mmz, p) ∈ trace.objects →
        ∃ mc, trace.mm.Carved mmz p mc ∧ cacheOfObj cfg trace.mm p = some mc) := by
  obtain ⟨trace, run, sound⟩ := cacheCalls_sound pages calls meets
  refine ⟨trace, run, ?_, ?_⟩
  · intro mmz p live
    obtain ⟨mc, held, carved⟩ := (sound.objects mmz p).mp live
    exact ⟨mc, ⟨held, carved⟩, sound.slabs.lookup_iff pages held (sound.slabs.within ⟨held, carved⟩)⟩
  · intro clean mmz p live
    have tidy : trace.Sound cfg ∧ trace.mm.Tidy cfg := by
      refine @exec_keeps _ _ _ _ (fun trace : CacheTrace => trace.Sound cfg ∧ trace.mm.Tidy cfg) ?_
        calls emptyCaches trace ⟨emptyCaches_sound cfg, ?_⟩ (meets.both clean) run
      · rintro call before next ⟨kept, tidy⟩ ⟨fits, cleans⟩ taken
        obtain ⟨after, ran, held⟩ := cacheStep_sound pages call before kept fits
        obtain rfl := Option.some.inj (ran.symm.trans taken)
        exact ⟨held, cacheStep_tidy call before after kept tidy fits cleans taken⟩
      · exact fun mc inside => absurd inside List.not_mem_nil
    obtain ⟨mc, held, carved⟩ := (sound.objects mmz p).mp live
    have within := sound.slabs.within ⟨held, carved⟩
    exact ⟨mc, ⟨held, carved⟩,
      (sound.slabs.lookup_iff pages held within).mpr (tidy.2.unlabelled held within)⟩

/-- The cache has one object of a page each, the first one on the second page of its slab. -/
def pageCalls : List CacheCall := [.create 512 4096 0, .alloc 512 (some 1048576) none]

theorem cacheCalls_owner_page :
    ∃ trace, exec (cacheStep cachePages) pageCalls emptyCaches = some trace ∧
      (512, 1052672) ∈ trace.objects ∧ ∃ mc, trace.mm.Carved 512 1052672 mc ∧
        (cacheOfObj cachePages trace.mm 1052672 = some mc ↔ trace.mm.Unlabelled cachePages mc 1052672) := by
  have shape : ∃ trace ∈ exec (cacheStep cachePages) pageCalls emptyCaches,
      (512, 1052672) ∈ trace.objects := by
    decide +kernel
  obtain ⟨trace, run, live⟩ := shape
  obtain ⟨same, run', owner, -⟩ := cacheCalls_owner cachePages cachePages_fit pageCalls (by decide +kernel)
  obtain rfl := Option.some.inj (run.symm.trans run')
  exact ⟨trace, run, live, owner 512 1052672 live⟩

/-- The user writes the label into an object, and the search then ends inside this object. -/
def labelCalls : List CacheCall := pageCalls ++ [.write 1052672 ⟨0, slabMark, 0, 0, 0, 0⟩]

theorem cacheCalls_owner_misled :
    Meets (cacheStep cachePages) (CacheCall.Fits cachePages) labelCalls emptyCaches ∧
    ∃ trace ∈ exec (cacheStep cachePages) labelCalls emptyCaches,
      (512, 1052672) ∈ trace.objects ∧ trace.mm.blocks = [1048576] ∧
      cacheOfObj cachePages trace.mm 1052672 = some 1052672 := by
  decide +kernel

end Syslib.Mmspace
