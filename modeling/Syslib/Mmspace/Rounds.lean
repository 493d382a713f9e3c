import Syslib.Mmspace.Startup

namespace Syslib.Mmspace

open Runs

variable {Allocator : Type} {ops : Nat → MmOps Allocator} {mm next : MmSpaceImpl Allocator}
  {arType size place : Nat} {answer : Option ShmmBlk}

/-- No block but that of the free section is on the list of the area. -/
def Whole (mm : MmSpaceImpl Allocator) (arType : Nat) : Prop :=
  ∀ shm ∈ (mm.areaList arType).sectionList, (mm.areaList arType).freeSection = some shm

instance (mm : MmSpaceImpl Allocator) (arType : Nat) : Decidable (Whole mm arType) :=
  inferInstanceAs (Decidable (∀ shm ∈ _, _))

/-- The area has an attached free section and at most one block on its list. -/
structure Standing (mm : MmSpaceImpl Allocator) (arType : Nat) : Prop where
  free : ∃ shm ∈ (mm.areaList arType).freeSection, (mm.attached shm).isSome
  single : (mm.areaList arType).sectionList.length ≤ 1

/-- Requests change allocators of attached sections and move the free section of their area. -/
structure Walked (mm : MmSpaceImpl Allocator) (arType place : Nat) (next : MmSpaceImpl Allocator) :
    Prop where
  space : next = { mm with
    attached := next.attached
    areaList := Function.update mm.areaList arType
      { mm.areaList arType with freeSection := some place } }
  placed : (next.attached place).isSome
  kept : ∀ shm, (mm.attached shm).isSome ↔ (next.attached shm).isSome

theorem Walked.trans {middle last : MmSpaceImpl Allocator} {start : Nat}
    (first : Walked mm arType start middle) (second : Walked middle arType place last) :
    Walked mm arType place last := by
  constructor
  · rw [second.space, first.space]
    simp
  · exact second.placed
  · exact fun shm => (first.kept shm).trans (second.kept shm)

/-- A walk that ends where it started moves nothing. -/
theorem Walked.same (walked : Walked mm arType place next)
    (start : (mm.areaList arType).freeSection = some place) : next.areaList = mm.areaList := by
  rw [walked.space, ← start]
  exact Function.update_eq_self _ _

theorem allocAt_walked (free : (mm.areaList arType).freeSection = some place) {p : Option Nat}
    (asked : allocAt (ops arType) mm size place = some (next, p)) : Walked mm arType place next := by
  simp only [allocAt, Option.bind_eq_bind, Option.bind_eq_some_iff, Option.some.injEq,
    Prod.mk.injEq] at asked
  obtain ⟨sec, attached, rfl, rfl⟩ := asked
  constructor
  · rw [← free]
    simp [MmSpaceImpl.setSection]
  · simp [MmSpaceImpl.setSection]
  · intro shm
    by_cases here : shm = place
    · simp [MmSpaceImpl.setSection, here, attached]
    · simp [MmSpaceImpl.setSection, here]

/-- The free section ends on the last block of the list when every section refuses. -/
theorem askList_walked (list : List Nat) {refused : List Nat} {round : Allocation Allocator}
    {start : Nat} (free : (mm.areaList arType).freeSection = some start)
    (attached : (mm.attached start).isSome)
    (run : askList ops arType size list mm refused = some round) :
    ∃ place, Walked mm arType place round.space ∧ (place = start ∨ place ∈ list) ∧
      (round.p = none → list = [] ∨ list.getLast? = some place) := by
  induction list generalizing mm refused start with
  | nil =>
      cases run
      refine ⟨start, ⟨?_, attached, fun _ => Iff.rfl⟩, Or.inl rfl, fun _ => Or.inl rfl⟩
      rw [← free]
      simp
  | cons shm rest ih =>
      simp only [askList, Option.bind_eq_bind, Option.bind_eq_some_iff] at run
      obtain ⟨⟨middle, p⟩, asked, run⟩ := run
      have moved := allocAt_walked (by simp [MmSpaceImpl.setArea]) asked
      have first : Walked mm arType shm middle := by
        refine ⟨?_, moved.placed, moved.kept⟩
        rw [moved.space]
        simp [MmSpaceImpl.setArea]
      cases p with
      | some p =>
          cases run
          exact ⟨shm, first, Or.inr List.mem_cons_self, by simp⟩
      | none =>
          have after : (middle.areaList arType).freeSection = some shm := by
            rw [first.space]
            simp
          obtain ⟨place, second, inside, last⟩ := ih after first.placed run
          refine ⟨place, first.trans second, Or.inr ?_, fun refusal => Or.inr ?_⟩
          · rcases inside with rfl | later
            · exact List.mem_cons_self
            · exact List.mem_cons_of_mem _ later
          · rcases last refusal with rfl | ends
            · obtain rfl : place = shm := by simpa using inside
              rfl
            · rw [List.getLast?_cons, ends]
              rfl

theorem askArea_walked {refused : List Nat} {round : Allocation Allocator} {start : Nat}
    (free : (mm.areaList arType).freeSection = some start)
    (run : askArea ops mm arType size refused = some round) :
    ∃ place, Walked mm arType place round.space ∧
      (place = start ∨ place ∈ (mm.areaList arType).sectionList) ∧
      (round.p = none → (mm.areaList arType).sectionList = [] ∨
        (mm.areaList arType).sectionList.getLast? = some place) := by
  simp only [askArea, free, Option.bind_eq_bind, Option.bind_some, Option.bind_eq_some_iff] at run
  obtain ⟨⟨middle, p⟩, asked, run⟩ := run
  have first := allocAt_walked free asked
  have same := first.same free
  cases p with
  | some p =>
      cases run
      exact ⟨start, first, Or.inl rfl, by simp⟩
  | none =>
      simp only [same] at run
      obtain ⟨place, second, inside, last⟩ := askList_walked _ (by rw [same]; exact free)
        first.placed run
      exact ⟨place, first.trans second, inside, last⟩

/-- A walk over attached sections has a result. -/
theorem askList_runs (list : List Nat) {refused : List Nat}
    (attached : ∀ shm ∈ list, (mm.attached shm).isSome) :
    ∃ round, askList ops arType size list mm refused = some round := by
  induction list generalizing mm refused with
  | nil => exact ⟨_, rfl⟩
  | cons shm rest ih =>
      let moved := mm.setArea arType { mm.areaList arType with freeSection := some shm }
      obtain ⟨sec, held⟩ := Option.isSome_iff_exists.mp (attached shm List.mem_cons_self)
      have asked : allocAt (ops arType) moved size shm = some (moved.setSection shm
          (some { sec with allocator := ((ops arType).allocFunc sec.allocator size).1 }),
            ((ops arType).allocFunc sec.allocator size).2) := by
        simp [allocAt, moved, MmSpaceImpl.setArea, held]
      have walked := allocAt_walked (by simp [moved, MmSpaceImpl.setArea]) asked
      simp only [askList, Option.bind_eq_bind, asked, moved, Option.bind_some]
      cases ((ops arType).allocFunc sec.allocator size).2 with
      | some p => exact ⟨_, rfl⟩
      | none =>
          exact ih fun other later =>
            (walked.kept other).mp (attached other (List.mem_cons_of_mem _ later))

theorem askArea_runs {refused : List Nat} (standing : Standing mm arType) (whole : Whole mm arType) :
    ∃ round, askArea ops mm arType size refused = some round := by
  obtain ⟨shm, free, attached⟩ := standing.free
  obtain ⟨sec, held⟩ := Option.isSome_iff_exists.mp attached
  have asked : allocAt (ops arType) mm size shm = some (mm.setSection shm
      (some { sec with allocator := ((ops arType).allocFunc sec.allocator size).1 }),
        ((ops arType).allocFunc sec.allocator size).2) := by
    simp [allocAt, held]
  have walked := allocAt_walked free asked
  simp only [askArea, Option.mem_def.mp free, Option.bind_eq_bind, Option.bind_some, asked]
  cases ((ops arType).allocFunc sec.allocator size).2 with
  | some p => exact ⟨_, rfl⟩
  | none =>
      refine askList_runs _ fun other listed => (walked.kept other).mp ?_
      rw [walked.same free] at listed
      obtain rfl : shm = other := Option.some.inj (free.symm.trans (whole other listed))
      exact attached

/-- A round over a whole area moves nothing. -/
theorem askArea_same {shm : Nat} (free : (mm.areaList arType).freeSection = some shm)
    (whole : Whole mm arType) {refused : List Nat} {round : Allocation Allocator}
    (run : askArea ops mm arType size refused = some round) :
    round.space = { mm with attached := round.space.attached } := by
  obtain ⟨place, walked, inside, _⟩ := askArea_walked free run
  have start : (mm.areaList arType).freeSection = some place := by
    rcases inside with rfl | listed
    · exact free
    · exact whole place listed
  have areas := walked.same start
  rw [walked.space] at areas ⊢
  simp only at areas
  simp [areas]

/-- A round over a list with another block ends on this block when every section refuses. -/
theorem askArea_moves (standing : Standing mm arType) (broken : ¬ Whole mm arType)
    {refused : List Nat} {round : Allocation Allocator}
    (run : askArea ops mm arType size refused = some round) (refusal : round.p = none) :
    (round.space.areaList arType).freeSection ≠ (mm.areaList arType).freeSection := by
  obtain ⟨shm, free, _⟩ := standing.free
  obtain ⟨place, walked, _, last⟩ := askArea_walked free run
  have moved : (round.space.areaList arType).freeSection = some place := by
    rw [walked.space]
    simp
  intro same
  refine broken fun other listed => ?_
  have single := standing.single
  rw [moved] at same
  cases list : (mm.areaList arType).sectionList with
  | nil => simp [list] at listed
  | cons first rest =>
      rw [list, List.length_cons] at single
      obtain rfl : rest = [] := List.length_eq_zero_iff.mp (by omega)
      obtain rfl : other = first := by simpa [list] using listed
      have ends : place = other := by simpa [list, eq_comm] using last refusal
      rw [← same, ends]

/-- A creation that ends early changes the key counter at most. -/
theorem mmCreateSection_early (ops : Nat → MmOps Allocator) (early : EndsEarly mm arType answer) :
    ∃ key, mmCreateSection ops mm arType answer = ({ mm with nextShmmKey := key }, -1) := by
  by_cases full : NoRoom mm arType answer
  · exact mmCreateSection_noRoom ops full
  · obtain ⟨key, blk, rfl, linked⟩ := mmCreateSection_links ops full
    refine ⟨mm.nextShmmKey + 1, ?_⟩
    rw [linked]
    rcases early.resolve_left full blk rfl with unmapped | ⟨present, empty⟩
    · simp [linkSection, unmapped]
    · by_cases unmapped : blk.beginAddr = 0
      · simp [linkSection, unmapped]
      · have same : Function.update mm.areaList arType { mm.areaList arType with sectionList := [] } =
            mm.areaList := by
          rw [← empty]
          exact Function.update_eq_self _ _
        have found : (MmSpaceImpl.rbSearch { mm with nextShmmKey := mm.nextShmmKey + 1 }
            blk.beginAddr).isSome := present
        simp [linkSection, unmapped, MmSpaceImpl.setArea, same, found]

/-- A creation that fails keeps every section, but not the list of its area. -/
theorem mmCreateSection_failed {rslt : Int} (failed : rslt < 0)
    (created : mmCreateSection ops mm arType answer = (next, rslt)) :
    next.totalShmmCount = mm.totalShmmCount ∧ next.attached = mm.attached ∧ next.cfg = mm.cfg ∧
      (∀ other, (next.areaList other).freeSection = (mm.areaList other).freeSection) ∧
      (∀ other, next.areaList other = mm.areaList other ∨
        (next.areaList other).sectionList.length ≤ 1) := by
  by_cases full : NoRoom mm arType answer
  · obtain ⟨key, refused⟩ := mmCreateSection_noRoom ops full
    rw [refused] at created
    cases created
    exact ⟨rfl, rfl, rfl, fun _ => rfl, fun _ => Or.inl rfl⟩
  · obtain ⟨key, blk, rfl, linked⟩ := mmCreateSection_links ops full
    rw [linked] at created
    simp only [linkSection, MmSpaceImpl.setArea, MmSpaceImpl.setSection, Function.update_self,
      Function.update_idem, List.nil_append] at created
    have cleared (list : List Nat) (other : Nat) :
        (Function.update mm.areaList arType ⟨list, (mm.areaList arType).freeSection⟩
          other).freeSection = (mm.areaList other).freeSection := by
      by_cases here : other = arType
      · subst here
        simp
      · simp [here]
    have short (list : List Nat) (single : list.length ≤ 1) (other : Nat) :
        Function.update mm.areaList arType ⟨list, (mm.areaList arType).freeSection⟩ other =
            mm.areaList other ∨
          (Function.update mm.areaList arType ⟨list, (mm.areaList arType).freeSection⟩
            other).sectionList.length ≤ 1 := by
      by_cases here : other = arType
      · subst here
        exact Or.inr (by simpa using single)
      · exact Or.inl (by simp [here])
    split_ifs at created
    · cases created
      exact ⟨rfl, rfl, rfl, fun _ => rfl, fun _ => Or.inl rfl⟩
    · cases created
      exact ⟨rfl, rfl, rfl, cleared [], short [] (by simp)⟩
    · cases allocated : (ops arType).createFunc (blk.beginAddr + 16) (mm.cfg.mmCfg arType) with
      | none =>
          rw [allocated] at created
          cases created
          exact ⟨rfl, rfl, rfl, cleared [blk.shm], short [blk.shm] (by simp)⟩
      | some allocator =>
          rw [allocated] at created
          have := congrArg Prod.snd created
          simp only at this
          omega

theorem askArea_walks {refused : List Nat} {round : Allocation Allocator}
    (run : askArea ops mm arType size refused = some round) :
    ∃ place, Walked mm arType place round.space := by
  cases free : (mm.areaList arType).freeSection with
  | none => simp [askArea, free] at run
  | some shm =>
      obtain ⟨place, walked, _⟩ := askArea_walked free run
      exact ⟨place, walked⟩

/-- What each round and each creation keeps holds of the result. -/
theorem retryAlloc_keeps {before : List (Option ShmmBlk) → MmSpaceImpl Allocator → Prop}
    {after : MmSpaceImpl Allocator → Prop}
    (asked : ∀ {answers mm refused round}, before answers mm →
      askArea ops mm arType size refused = some round → before answers round.space)
    (ended : ∀ {answers mm}, before answers mm → after mm)
    (failed : ∀ {answers mm answer next rslt}, before answers mm → rslt < 0 →
      mmCreateSection ops mm arType answer = (next, rslt) → after next)
    (added : ∀ {answer answers mm next}, before (answer :: answers) mm →
      Added ops mm arType answer next → before answers next)
    {answers : List (Option ShmmBlk)} {refused : List Nat} {allocation : Allocation Allocator}
    (start : before answers mm)
    (run : retryAlloc ops arType size answers mm refused = some allocation) :
    after allocation.space := by
  induction answers generalizing mm refused with
  | nil =>
      simp only [retryAlloc, Option.bind_eq_bind, Option.bind_eq_some_iff] at run
      obtain ⟨round, walk, run⟩ := run
      have middle := asked start walk
      split_ifs at run
      · cases run
        exact ended middle
      · cases run
        by_cases refusal : (mmCreateSection ops round.space arType none).2 < 0
        · exact failed middle refusal rfl
        · obtain ⟨blk, _, _, _, impossible, _⟩ := (mmCreateSection_added refusal rfl).section_
          cases impossible
  | cons answer rest ih =>
      simp only [retryAlloc, Option.bind_eq_bind, Option.bind_eq_some_iff] at run
      obtain ⟨round, walk, run⟩ := run
      have middle := asked start walk
      split_ifs at run with _ refusal
      · cases run
        exact ended middle
      · cases run
        exact failed middle refusal rfl
      · exact ih (added middle (mmCreateSection_added refusal rfl)) run

/-- No round takes a section away from the space. -/
theorem retryAlloc_count {answers : List (Option ShmmBlk)} {refused : List Nat}
    {allocation : Allocation Allocator}
    (run : retryAlloc ops arType size answers mm refused = some allocation) :
    mm.totalShmmCount ≤ allocation.space.totalShmmCount := by
  refine @retryAlloc_keeps _ ops mm arType size
    (fun _ space => mm.totalShmmCount ≤ space.totalShmmCount)
    (fun space => mm.totalShmmCount ≤ space.totalShmmCount) ?_ id ?_ ?_ _ _ _ (Nat.le_refl _) run
  · intro answers space refused round least walk
    obtain ⟨place, walked⟩ := askArea_walks walk
    rw [walked.space]
    exact least
  · intro answers space answer next rslt least failed created
    exact (mmCreateSection_failed failed created).1 ▸ least
  · intro answer answers space next least added
    rw [added.count]
    exact Nat.le_succ_of_le least

theorem Added.standing (added : Added ops mm arType answer next) :
    Standing next arType ∧ Whole next arType := by
  obtain ⟨blk, key, addr, allocator, _, _, rfl⟩ := added.section_
  exact ⟨⟨⟨blk.shm, by simp, by simp⟩, by simp⟩, by simp [Whole]⟩

section Runs

variable {types : List Nat} {other : Nat}

theorem Standing.setSection (standing : Standing mm other) (shm : Nat)
    (sec : MmSectionImpl Allocator) : Standing (mm.setSection shm (some sec)) other := by
  obtain ⟨place, free, attached⟩ := standing.free
  refine ⟨⟨place, free, ?_⟩, standing.single⟩
  by_cases here : place = shm
  · simp [MmSpaceImpl.setSection, here]
  · simpa [MmSpaceImpl.setSection, here] using attached

theorem Walked.standing (walked : Walked mm arType place next) (standing : Standing mm other) :
    Standing next other := by
  obtain ⟨shm, free, attached⟩ := standing.free
  have kept := (walked.kept shm).mp attached
  have placed := walked.placed
  have single := standing.single
  rw [walked.space]
  by_cases here : other = arType
  · subst here
    exact ⟨⟨place, by simp, placed⟩, by simpa using single⟩
  · exact ⟨⟨shm, by simpa [here] using free, kept⟩, by simpa [here] using single⟩

theorem Added.keeps (added : Added ops mm arType answer next) (standing : Standing mm other) :
    Standing next other := by
  by_cases here : other = arType
  · exact here ▸ added.standing.1
  · obtain ⟨blk, key, addr, allocator, _, _, rfl⟩ := added.section_
    obtain ⟨shm, free, held⟩ := standing.free
    refine ⟨⟨shm, by simpa [here] using free, ?_⟩, by simpa [here] using standing.single⟩
    by_cases same : shm = blk.shm
    · simp [same]
    · simpa [same] using held

theorem Standing.failed {rslt : Int} (standing : Standing mm other) (failed : rslt < 0)
    (created : mmCreateSection ops mm arType answer = (next, rslt)) : Standing next other := by
  obtain ⟨_, attached, _, free, lists⟩ := mmCreateSection_failed failed created
  obtain ⟨shm, held, inside⟩ := standing.free
  refine ⟨⟨shm, by rw [free]; exact held, by rw [attached]; exact inside⟩, ?_⟩
  rcases lists other with same | short
  · rw [same]
    exact standing.single
  · exact short

theorem mmInitialize_standing {cfg : MmSpaceConfig} {answers : List (Option ShmmBlk)}
    (initialized : mmInitialize ops cfg answers = some mm) :
    ∀ arType < mmAreaCount, Standing mm arType := by
  unfold mmInitialize at initialized
  split_ifs at initialized
  obtain ⟨_, standing⟩ := @createSections_keeps _ ops _
    (fun _ types space => ∀ arType ∈ types, Standing space arType) (by
      intro answer answers types space arType next earlier _ added other inside
      rcases List.mem_cons.mp inside with rfl | known
      · exact added.standing.1
      · exact added.keeps (earlier other known)) _ [] _ _ (by decide) (by simp) initialized
  exact fun arType known => standing arType (by simpa using known)

theorem loadSections_standing (list : List Nat) {single : MmOps Allocator}
    (standing : ∀ arType < mmAreaCount, Standing mm arType)
    (loaded : loadSections single list mm = some next) :
    ∀ arType < mmAreaCount, Standing next arType := by
  induction list generalizing mm with
  | nil => exact Option.some.inj loaded ▸ standing
  | cons shm rest ih =>
      simp only [loadSections, Option.bind_eq_bind, Option.bind_eq_some_iff] at loaded
      obtain ⟨sec, _, allocator, _, remaining⟩ := loaded
      exact ih (fun arType known => (standing arType known).setSection shm _) remaining

theorem loadAreas_standing (list : List Nat) (standing : ∀ arType < mmAreaCount, Standing mm arType)
    (loaded : loadAreas ops list mm = some next) : ∀ arType < mmAreaCount, Standing next arType := by
  induction list generalizing mm with
  | nil => exact Option.some.inj loaded ▸ standing
  | cons arType rest ih =>
      simp only [loadAreas, Option.bind_eq_bind, Option.bind_eq_some_iff] at loaded
      obtain ⟨middle, first, remaining⟩ := loaded
      exact ih (loadSections_standing _ standing first) remaining

theorem callStep_standing {call : Call} {trace last : Trace Allocator}
    (standing : ∀ arType < mmAreaCount, Standing trace.space arType)
    (step : callStep ops call trace = some last) :
    ∀ arType < mmAreaCount, Standing last.space arType := by
  cases call with
  | load opened =>
      simp only [callStep, mmLoadArea, Option.bind_eq_bind, Option.bind_eq_some_iff] at step
      obtain ⟨space, loaded, step⟩ := step
      split_ifs at loaded
      cases step
      exact loadAreas_standing _ standing loaded
  | areaAlloc size arType answers =>
      simp only [callStep, Option.bind_eq_bind, Option.bind_eq_some_iff] at step
      obtain ⟨allocation, run, step⟩ := step
      cases step
      unfold mmAreaAlloc at run
      split_ifs at run
      · cases run
        exact standing
      · cases run
        exact standing
      · refine fun other known => @retryAlloc_keeps _ ops trace.space arType size
          (fun _ space => Standing space other) (fun space => Standing space other)
          ?_ id ?_ ?_ _ _ _ (standing other known) run
        · intro answers space refused round earlier walk
          obtain ⟨place, walked⟩ := askArea_walks walk
          exact walked.standing earlier
        · exact fun earlier failed created => earlier.failed failed created
        · exact fun earlier added => added.keeps earlier
  | free p =>
      simp only [callStep, Option.bind_eq_bind, Option.bind_eq_some_iff] at step
      obtain ⟨⟨space, rslt⟩, freed, step⟩ := step
      cases step
      unfold mmFree at freed
      split at freed
      · cases freed
        exact standing
      · simp only [Option.bind_eq_bind, Option.bind_eq_some_iff] at freed
        obtain ⟨sec, _, freed⟩ := freed
        cases freed
        exact fun arType known => (standing arType known).setSection _ _

theorem calls_standing {calls : List Call} {trace last : Trace Allocator}
    (standing : ∀ arType < mmAreaCount, Standing trace.space arType)
    (run : exec (callStep ops) calls trace = some last) :
    ∀ arType < mmAreaCount, Standing last.space arType := by
  induction calls generalizing trace with
  | nil => exact Option.some.inj run ▸ standing
  | cons call rest ih =>
      obtain ⟨next, step, run⟩ := Option.bind_eq_some_iff.mp run
      exact ih (callStep_standing standing step) run

end Runs

end Syslib.Mmspace
