import Syslib.Mmspace.CacheOwner

namespace Syslib.Mmspace

open BitSlots Runs

/-- The slab with this head has no object, or no used slot of it holds the address. -/
def CacheSpace.Refuses (mm : CacheSpace) (mc p : Nat) : Prop :=
  mmZcacheEmpty (mm.heads mc) ∨ p < (mm.heads mc).objPtr ∨
    (mm.zoneOf mc).objSize ≠ 0 ∧
        (mm.heads mc).objCount ≤ (p - (mm.heads mc).objPtr) / (mm.zoneOf mc).objSize ∨
    (mm.zoneOf mc).objSize ≠ 0 ∧
        (mm.heads mc).allocBits.getLsbD ((p - (mm.heads mc).objPtr) / (mm.zoneOf mc).objSize % 64) = false

instance (mm : CacheSpace) (mc p : Nat) : Decidable (mm.Refuses mc p) :=
  inferInstanceAs (Decidable (_ ∨ _ ∨ _ ∧ _ ∨ _ ∧ _))

/-- The call frees exactly the named object when it is live, and otherwise it fails and changes nothing. -/
def CacheTrace.FreesExactly (cfg : MmConfig) (trace : CacheTrace) (mmz p : Nat) : Prop :=
  ∃ next rslt ran, mmCacheFree cfg mmz p trace.mm = some (next, rslt, ran) ∧
    (rslt = 0 ↔ (mmz, p) ∈ trace.objects) ∧
    (rslt = 0 → ∀ mzi q, next.Holds mzi q ↔ trace.mm.Holds mzi q ∧ ¬ (mzi = mmz ∧ q = p)) ∧
    (rslt ≠ 0 → rslt = -1 ∧ ran = false ∧ next = trace.mm)

/-- A live object is searched over pages without a label; any other pointer finds a head that refuses it. -/
def CacheTrace.FreeFits (cfg : MmConfig) (trace : CacheTrace) (mmz p : Nat) : Prop :=
  (mmz, p) ∈ trace.objects ∧ (∀ mc ∈ trace.mm.blocks, trace.mm.Within mc p → trace.mm.Unlabelled cfg mc p) ∨
    (mmz, p) ∉ trace.objects ∧ (trace.mm.zones mmz).objDtor = 0 ∧
      ∀ mc ∈ cacheOfObj cfg trace.mm p, trace.mm.Refuses mc p

section Free

variable {cfg : MmConfig} {mm next : CacheSpace} {mmz mc p : Nat} {rslt : Int} {ran : Bool}

theorem mmCacheFree_refused (real : p ≠ 0) (search : cacheOfObj cfg mm p = some mc) (refuses : mm.Refuses mc p) :
    mmCacheFree cfg mmz p mm = some (mm, -1, decide ((mm.zones mmz).objDtor ≠ 0)) := by
  by_cases empty : mmZcacheEmpty (mm.heads mc)
  · simp only [mmCacheFree, if_neg real, search, if_pos empty]
  · have answer : mmZreturnObj mm mc p = some (mm, -1) := by
      rcases refuses with whole | before | ⟨sized, outside⟩ | ⟨sized, clear⟩
      · exact absurd whole empty
      · exact if_pos before
      · have unsized : (mm.zones (mm.heads mc).cache).objSize ≠ 0 := sized
        have beyond : (mm.heads mc).objCount ≤
            (p - (mm.heads mc).objPtr) / (mm.zones (mm.heads mc).cache).objSize := outside
        simp only [mmZreturnObj, if_neg unsized, if_pos beyond, ite_self]
      · have unsized : (mm.zones (mm.heads mc).cache).objSize ≠ 0 := sized
        have unset : (mm.heads mc).allocBits.getLsbD
            ((p - (mm.heads mc).objPtr) / (mm.zones (mm.heads mc).cache).objSize % 64) = false := clear
        simp only [mmZreturnObj, if_neg unsized, unset, if_true, ite_self]
    simp [mmCacheFree, real, search, empty, answer]

/-- Only the head of the slab that takes the address back changes, and the lists. -/
structure Touched (mm : CacheSpace) (mc : Nat) (next : CacheSpace) : Prop where
  zones : next.zones = mm.zones
  blocks : next.blocks = mm.blocks
  heads : ∀ other, other ≠ mc → next.heads other = mm.heads other

theorem Touched.mmZmoveCache {middle : CacheSpace} (touched : Touched mm mc middle) {place target : Nat × SlabList}
    (moved : mmZmoveCache middle mc (some place) target = some next) : Touched mm mc next := by
  rw [Mmspace.mmZmoveCache] at moved
  split_ifs at moved
  · obtain rfl := Option.some.inj moved
    exact touched
  · obtain rfl := Option.some.inj moved
    exact ⟨touched.zones, touched.blocks, touched.heads⟩

theorem Touched.mmZsettle {middle : CacheSpace} (touched : Touched mm mc middle) {before : MmCache}
    (settled : mmZsettle before mmz mc middle = some next) : Touched mm mc next := by
  obtain ⟨second, firstMove, secondMove⟩ := Option.bind_eq_some_iff.mp settled
  have touchedSecond : Touched mm mc second := by
    split_ifs at firstMove
    · exact touched.mmZmoveCache firstMove
    · exact Option.some.inj firstMove ▸ touched
  split_ifs at secondMove
  · exact touchedSecond.mmZmoveCache secondMove
  · exact Option.some.inj secondMove ▸ touchedSecond

theorem mmZreturnObj_accepts (accepts : ¬ mm.Refuses mc p) (returned : mmZreturnObj mm mc p = some (next, rslt)) :
    rslt = 0 ∧ Touched mm mc next := by
  rw [mmZreturnObj] at returned
  split_ifs at returned with before sized
  · exact absurd (Or.inr (Or.inl before)) accepts
  · dsimp only at returned
    split_ifs at returned with outside clear
    · exact absurd (Or.inr (Or.inr (Or.inl ⟨sized, outside⟩))) accepts
    · exact absurd (Or.inr (Or.inr (Or.inr ⟨sized, clear⟩))) accepts
    · obtain ⟨rfl, rfl⟩ := Prod.mk.inj (Option.some.inj returned)
      exact ⟨rfl, rfl, rfl, fun other different => Function.update_of_ne different _ _⟩

theorem mmCacheFree_accepts (real : p ≠ 0) (search : cacheOfObj cfg mm p = some mc) (accepts : ¬ mm.Refuses mc p)
    (freed : mmCacheFree cfg mmz p mm = some (next, rslt, ran)) :
    rslt = 0 ∧ Touched mm mc next := by
  have occupied : ¬ mmZcacheEmpty (mm.heads mc) := fun empty => accepts (Or.inl empty)
  simp only [mmCacheFree, if_neg real, search, if_neg occupied, Option.bind_eq_bind] at freed
  obtain ⟨⟨middle, answer⟩, returned, rest⟩ := Option.bind_eq_some_iff.mp freed
  obtain ⟨rfl, touched⟩ := mmZreturnObj_accepts accepts returned
  obtain ⟨after, settled, equal⟩ := Option.map_eq_some_iff.mp rest
  obtain ⟨rfl, same⟩ := Prod.mk.inj equal
  exact ⟨(Prod.mk.inj same).1.symm, touched.mmZsettle settled⟩

/-- A head that is no slab can change without a loss of an object. -/
theorem Touched.holds (touched : Touched mm mc next) (outside : mc ∉ mm.blocks) {mzi q : Nat}
    (holds : mm.Holds mzi q) : next.Holds mzi q := by
  obtain ⟨other, held, rfl, idx, used, rfl⟩ := holds
  have different : other ≠ mc := by
    rintro rfl
    exact outside held
  have same := touched.heads other different
  refine ⟨other, touched.blocks ▸ held, by rw [same], idx, same ▸ used, ?_⟩
  rw [CacheSpace.slotAddr, CacheSpace.slotAddr, CacheSpace.zoneOf, CacheSpace.zoneOf, same, touched.zones]

theorem mmCacheFree_ran (real : p ≠ 0) (freed : mmCacheFree cfg mmz p mm = some (next, rslt, ran)) :
    ran = decide ((mm.zones mmz).objDtor ≠ 0) := by
  cases search : cacheOfObj cfg mm p with
  | none =>
      simp only [mmCacheFree, if_neg real, search] at freed
      obtain ⟨-, same⟩ := Prod.mk.inj (Option.some.inj freed)
      exact (Prod.mk.inj same).2.symm
  | some mc =>
      by_cases empty : mmZcacheEmpty (mm.heads mc)
      · simp only [mmCacheFree, if_neg real, search, if_pos empty] at freed
        obtain ⟨-, same⟩ := Prod.mk.inj (Option.some.inj freed)
        exact (Prod.mk.inj same).2.symm
      · simp only [mmCacheFree, if_neg real, search, if_neg empty, Option.bind_eq_bind] at freed
        obtain ⟨⟨middle, answer⟩, -, rest⟩ := Option.bind_eq_some_iff.mp freed
        split_ifs at rest
        · obtain ⟨-, same⟩ := Prod.mk.inj (Option.some.inj rest)
          exact (Prod.mk.inj same).2.symm
        · obtain ⟨after, -, equal⟩ := Option.map_eq_some_iff.mp rest
          obtain ⟨-, same⟩ := Prod.mk.inj equal
          exact (Prod.mk.inj same).2.symm

end Free

/-- The call does what it promises exactly for the pointers that the condition names. -/
theorem CacheTrace.Sound.freesExactly_iff {cfg : MmConfig} (pages : PagesFit cfg) {trace : CacheTrace}
    (sound : trace.Sound cfg) {mmz p mc : Nat} (held : mc ∈ trace.mm.blocks) (within : trace.mm.Within mc p)
    (real : p ≠ 0) : trace.FreesExactly cfg mmz p ↔ trace.FreeFits cfg mmz p := by
  obtain ⟨found, search, behind, upTo, -, same⟩ := sound.slabs.lookup pages held within
  have alone : ∀ other ∈ trace.mm.blocks, trace.mm.Within other p → other = mc := by
    intro other otherHeld inside
    obtain ⟨above, below⟩ := within
    obtain ⟨otherAbove, otherBelow⟩ := inside
    by_contra different
    rcases sound.slabs.spaced other otherHeld mc held different with before | before <;> omega
  constructor
  · rintro ⟨next, rslt, ran, freed, answers, frees, fails⟩
    by_cases live : (mmz, p) ∈ trace.objects
    · refine Or.inl ⟨live, fun other otherHeld inside => ?_⟩
      obtain rfl := alone other otherHeld inside
      refine same.mp ?_
      by_contra different
      have outside : found ∉ trace.mm.blocks :=
        sound.slabs.inner held (by omega) (lt_of_le_of_lt upTo within.2)
      have accepts : ¬ trace.mm.Refuses found p := by
        intro refuses
        rw [mmCacheFree_refused real search refuses] at freed
        obtain ⟨-, answer⟩ := Prod.mk.inj (Option.some.inj freed)
        rw [← answers, ← (Prod.mk.inj answer).1] at live
        exact absurd live (by decide)
      obtain ⟨-, touched⟩ := mmCacheFree_accepts real search accepts freed
      have still := touched.holds outside ((sound.objects mmz p).mp live)
      exact ((frees (answers.mpr live) mmz p).mp still).2 ⟨rfl, rfl⟩
    · have failed : rslt ≠ 0 := fun zero => live (answers.mp zero)
      obtain ⟨-, quiet, -⟩ := fails failed
      refine Or.inr ⟨live, ?_, ?_⟩
      · have ranSame := mmCacheFree_ran real freed
        rw [quiet] at ranSame
        simpa using ranSame.symm
      · intro other chosen
        obtain rfl := Option.some.inj (search.symm.trans chosen)
        by_contra accepts
        exact failed (mmCacheFree_accepts real search accepts freed).1
  · rintro (⟨live, clear⟩ | ⟨dead, quiet, refuses⟩)
    · have own : cacheOfObj cfg trace.mm p = some mc := by
        rw [search, same.mpr (clear mc held within)]
      obtain ⟨next, freed, given⟩ := sound.free live held within own
      exact ⟨next, 0, _, freed, iff_of_true rfl live, fun _ => given.holds, fun failed => absurd rfl failed⟩
    · refine ⟨trace.mm, -1, _, mmCacheFree_refused real search (refuses found search),
        iff_of_false (by decide) dead, fun zero => absurd zero (by decide), fun _ => ⟨rfl, ?_, rfl⟩⟩
      simp [quiet]

/-- In every reachable space the call does what it promises exactly under the condition. -/
theorem cacheCalls_free (cfg : MmConfig) (pages : PagesFit cfg) (calls : List CacheCall)
    (meets : Meets (cacheStep cfg) (CacheCall.Fits cfg) calls emptyCaches) :
    ∃ trace, exec (cacheStep cfg) calls emptyCaches = some trace ∧
      ∀ mmz p, p ≠ 0 → (∃ mc ∈ trace.mm.blocks, trace.mm.Within mc p) →
        (trace.FreesExactly cfg mmz p ↔ trace.FreeFits cfg mmz p) := by
  obtain ⟨trace, run, sound⟩ := cacheCalls_sound pages calls meets
  refine ⟨trace, run, ?_⟩
  rintro mmz p real ⟨mc, held, within⟩
  exact sound.freesExactly_iff pages held within real

/-- Two caches, the first one with a destructor; the second object of the first one is free again. -/
def freeCalls : List CacheCall :=
  [.create 512 40 9, .create 1024 80 0, .alloc 512 (some 65536) none, .alloc 512 none none, .free 512 67112]

theorem cacheCalls_free_live :
    ∃ trace, exec (cacheStep cachePages) freeCalls emptyCaches = some trace ∧
      (trace.FreesExactly cachePages 512 67072 ↔ trace.FreeFits cachePages 512 67072) := by
  have shape : ∃ trace ∈ exec (cacheStep cachePages) freeCalls emptyCaches,
      65536 ∈ trace.mm.blocks ∧ trace.mm.Within 65536 67072 := by
    decide +kernel
  obtain ⟨trace, run, held, within⟩ := shape
  obtain ⟨same, run', exact_⟩ := cacheCalls_free cachePages cachePages_fit freeCalls (by decide +kernel)
  obtain rfl := Option.some.inj (run.symm.trans run')
  exact ⟨trace, run, exact_ 512 67072 (by decide) ⟨65536, held, within⟩⟩

/-- The answer of a call that frees something else, or that runs the destructor of a free object. -/
def WrongAnswer (cfg : MmConfig) (trace : CacheTrace) (mmz p : Nat) : Prop :=
  (mmz, p) ∉ trace.objects ∧ ∃ answer ∈ mmCacheFree cfg mmz p trace.mm, answer.2.1 = 0 ∨ answer.2.2 = true

instance (cfg : MmConfig) (trace : CacheTrace) (mmz p : Nat) : Decidable (WrongAnswer cfg trace mmz p) :=
  inferInstanceAs (Decidable (_ ∧ ∃ answer ∈ mmCacheFree cfg mmz p trace.mm, _))

theorem WrongAnswer.not_exactly {cfg : MmConfig} {trace : CacheTrace} {mmz p : Nat}
    (wrong : WrongAnswer cfg trace mmz p) : ¬ trace.FreesExactly cfg mmz p := by
  obtain ⟨dead, ⟨next, rslt, ran⟩, freed, effect⟩ := wrong
  rintro ⟨other, result, destroyed, freed', answers, -, fails⟩
  obtain ⟨rfl, same⟩ := Prod.mk.inj (Option.some.inj (freed.symm.trans freed'))
  obtain ⟨rfl, rfl⟩ := Prod.mk.inj same
  have failed : rslt ≠ 0 := fun zero => dead (answers.mp zero)
  rcases effect with zero | quiet
  · exact failed zero
  · rw [(fails failed).2.1] at quiet
    cases quiet

/-- Another cache frees the object, so does a pointer inside it, and a second free runs the destructor. -/
theorem cacheCalls_free_wrong :
    Meets (cacheStep cachePages) (CacheCall.Fits cachePages) freeCalls emptyCaches ∧
    ∃ trace ∈ exec (cacheStep cachePages) freeCalls emptyCaches,
      trace.mm.zoneList = [512, 1024] ∧ trace.objects = [(512, 67072)] ∧ trace.mm.blocks = [65536] ∧
      trace.mm.Within 65536 67072 ∧ trace.mm.Within 65536 67080 ∧ trace.mm.Within 65536 67112 ∧
      ¬ trace.FreesExactly cachePages 1024 67072 ∧ ¬ trace.FreesExactly cachePages 512 67080 ∧
      ¬ trace.FreesExactly cachePages 512 67112 := by
  have shape : Meets (cacheStep cachePages) (CacheCall.Fits cachePages) freeCalls emptyCaches ∧
      ∃ trace ∈ exec (cacheStep cachePages) freeCalls emptyCaches,
        trace.mm.zoneList = [512, 1024] ∧ trace.objects = [(512, 67072)] ∧ trace.mm.blocks = [65536] ∧
        trace.mm.Within 65536 67072 ∧ trace.mm.Within 65536 67080 ∧ trace.mm.Within 65536 67112 ∧
        WrongAnswer cachePages trace 1024 67072 ∧ WrongAnswer cachePages trace 512 67080 ∧
        WrongAnswer cachePages trace 512 67112 := by
    decide +kernel
  obtain ⟨meets, trace, run, zones, objects, blocks, first, second, third, other, inner, twice⟩ := shape
  exact ⟨meets, trace, run, zones, objects, blocks, first, second, third, other.not_exactly,
    inner.not_exactly, twice.not_exactly⟩

end Syslib.Mmspace
