import Syslib.Mmpool.Load
import Syslib.Mmspace.Rounds

namespace Syslib.Mmspace

open Runs Mmpool

variable {Allocator : Type} {ops : Nat → MmOps Allocator} {mm next : MmSpaceImpl Allocator}
  {arType size place : Nat} {answer : Option ShmmBlk}

/-- The call gives this result however many further answers the kernel has. -/
def Ends (ops : Nat → MmOps Allocator) (mm : MmSpaceImpl Allocator) (size arType : Nat)
    (answers : Nat → Option ShmmBlk) (allocation : Allocation Allocator) : Prop :=
  ∃ rounds, ∀ more ≥ rounds,
    mmAreaAlloc ops mm size arType ((List.range more).map answers) = some allocation

/-- The call ends with 0 and leaves the sections, the tree, the lists and the free sections alone. -/
def Refused (ops : Nat → MmOps Allocator) (mm : MmSpaceImpl Allocator) (size arType : Nat)
    (answers : Nat → Option ShmmBlk) : Prop :=
  ∃ allocation, Ends ops mm size arType answers allocation ∧ allocation.p = none ∧
    Unaltered mm allocation.space

/-- A pool was created for the area, and then it took any calls. -/
inductive Grown (ops : MmOps Allocator) (config : MmConfig) : Allocator → Prop where
  | created {addr : Nat} {allocator : Allocator}
      (made : ops.createFunc addr config = some allocator) : Grown ops config allocator
  | loaded {allocator next : Allocator} (earlier : Grown ops config allocator)
      (found : ops.loadFunc allocator = some next) : Grown ops config next
  | asked {allocator : Allocator} (size : Nat) (earlier : Grown ops config allocator) :
      Grown ops config (ops.allocFunc allocator size).1
  | freed {allocator : Allocator} (p : Nat) (earlier : Grown ops config allocator) :
      Grown ops config (ops.freeFunc allocator p).1

/-- No pool of the area serves the size, be it fresh or not. -/
def Unservable (ops : MmOps Allocator) (config : MmConfig) (size : Nat) : Prop :=
  ∀ allocator, Grown ops config allocator → (ops.allocFunc allocator size).2 = none

theorem range_succ_answers (answers : Nat → Option ShmmBlk) (more : Nat) :
    (List.range (more + 1)).map answers =
      answers 0 :: (List.range more).map fun index => answers (index + 1) := by
  rw [List.range_succ_eq_map, List.map_cons, List.map_map]
  rfl

/-- Each further round needs one more section, so the limit of the space bounds the rounds. -/
theorem retryAlloc_ends (left : Nat) (standing : Standing mm arType) (whole : Whole mm arType)
    (below : mm.cfg.maxShmmCount ≤ mm.totalShmmCount + left) (answers : Nat → Option ShmmBlk)
    (refused : List Nat) : ∃ allocation, ∀ more ≥ left + 1,
      retryAlloc ops arType size ((List.range more).map answers) mm refused = some allocation := by
  induction left generalizing mm answers refused with
  | zero =>
      obtain ⟨shm, free, _⟩ := standing.free
      obtain ⟨round, asked⟩ := @askArea_runs _ ops mm arType size refused standing whole
      have same := askArea_same free whole asked
      have full : NoRoom round.space arType (answers 0) := by
        rw [same]
        exact Or.inl (by simpa using below)
      obtain ⟨key, failed⟩ := mmCreateSection_noRoom ops full
      refine ⟨if round.p.isSome then round else
        { round with space := { round.space with nextShmmKey := key }, rslt := some (-1) }, ?_⟩
      rintro (_ | more) enough
      · omega
      · rw [range_succ_answers]
        simp only [retryAlloc, asked, failed, Option.bind_eq_bind, Option.bind_some]
        by_cases served : round.p.isSome
        · simp [served]
        · simp [served]
  | succ left ih =>
      obtain ⟨shm, free, _⟩ := standing.free
      obtain ⟨round, asked⟩ := @askArea_runs _ ops mm arType size refused standing whole
      have same := askArea_same free whole asked
      by_cases served : round.p.isSome
      · refine ⟨round, ?_⟩
        rintro (_ | more) enough
        · omega
        · rw [range_succ_answers]
          simp [retryAlloc, asked, served]
      · cases created : mmCreateSection ops round.space arType (answers 0) with
        | mk next rslt =>
            by_cases failed : rslt < 0
            · refine ⟨{ round with space := next, rslt := some rslt }, ?_⟩
              rintro (_ | more) enough
              · omega
              · rw [range_succ_answers]
                simp [retryAlloc, asked, served, created, failed]
            · have added := mmCreateSection_added failed created
              have count : next.totalShmmCount = mm.totalShmmCount + 1 := by rw [added.count, same]
              have limit : next.cfg = mm.cfg := by rw [added.cfg, same]
              have closer : next.cfg.maxShmmCount ≤ next.totalShmmCount + left := by
                rw [count, limit]
                push_cast at below ⊢
                omega
              obtain ⟨again, unbroken⟩ := added.standing
              obtain ⟨allocation, result⟩ := ih again unbroken closer
                (fun index => answers (index + 1)) round.refused
              refine ⟨allocation, ?_⟩
              rintro (_ | more) enough
              · omega
              · rw [range_succ_answers]
                simp only [retryAlloc, asked, Option.bind_eq_bind, Option.bind_some, served, created,
                  failed, if_false]
                exact result more (by omega)

theorem mmAreaAlloc_eq (standing : Standing mm arType) (known : arType < mmAreaCount)
    (answers : List (Option ShmmBlk)) :
    mmAreaAlloc ops mm size arType answers = retryAlloc ops arType size answers mm [] := by
  obtain ⟨shm, free, _⟩ := standing.free
  rw [mmAreaAlloc, if_neg (not_le.mpr known), Option.mem_def.mp free]
  rfl

theorem mmAreaAlloc_ends (standing : Standing mm arType) (whole : Whole mm arType)
    (known : arType < mmAreaCount) (answers : Nat → Option ShmmBlk) :
    ∃ allocation, Ends ops mm size arType answers allocation := by
  obtain ⟨allocation, result⟩ := @retryAlloc_ends _ ops mm arType size
    (mm.cfg.maxShmmCount - mm.totalShmmCount).toNat standing whole (by omega) answers []
  exact ⟨allocation, _, fun more enough =>
    (mmAreaAlloc_eq standing known _).trans (result more enough)⟩

/-- Nothing happens when no section serves the size and no creation touches the area. -/
theorem refused_of_early (standing : Standing mm arType) (known : arType < mmAreaCount)
    {answers : Nat → Option ShmmBlk} (whole : Whole mm arType) (unserved : ¬ Served ops mm size arType)
    (early : EndsEarly mm arType (answers 0)) : Refused ops mm size arType answers := by
  obtain ⟨shm, free, _⟩ := standing.free
  obtain ⟨round, asked⟩ := @askArea_runs _ ops mm arType size [] standing whole
  have same := askArea_same free whole asked
  have refusal : round.p = none := by
    rw [← Option.not_isSome_iff_eq_none]
    exact fun taken => unserved ⟨round, asked, taken⟩
  have still : EndsEarly round.space arType (answers 0) := by
    rw [same]
    exact early
  obtain ⟨key, failed⟩ := mmCreateSection_early ops still
  refine ⟨{ round with space := { round.space with nextShmmKey := key }, rslt := some (-1) },
    ⟨1, ?_⟩, refusal, ?_⟩
  · rintro (_ | more) enough
    · omega
    · rw [mmAreaAlloc_eq standing known, range_succ_answers]
      simp [retryAlloc, asked, refusal, failed]
  · rw [same]
    exact ⟨rfl, rfl, rfl⟩

/-- A call that leaves the space alone asked every section and created nothing. -/
theorem early_of_refused (standing : Standing mm arType) (known : arType < mmAreaCount)
    {answers : Nat → Option ShmmBlk} (refused : Refused ops mm size arType answers) :
    Whole mm arType ∧ ¬ Served ops mm size arType ∧ EndsEarly mm arType (answers 0) := by
  obtain ⟨shm, free, _⟩ := standing.free
  obtain ⟨allocation, ⟨rounds, ends⟩, refusal, same⟩ := refused
  have run := ends (rounds + 1) (Nat.le_succ _)
  rw [mmAreaAlloc_eq standing known, range_succ_answers] at run
  simp only [retryAlloc, Option.bind_eq_bind, Option.bind_eq_some_iff] at run
  obtain ⟨round, asked, run⟩ := run
  have unserved : round.p = none := by
    by_contra taken
    rw [if_pos (Option.isSome_iff_ne_none.mpr taken)] at run
    cases run
    exact taken refusal
  have notServed : ¬ Served ops mm size arType := by
    rintro ⟨other, again, taken⟩
    obtain rfl : round = other := Option.some.inj (asked.symm.trans again)
    simp [unserved] at taken
  rw [if_neg (by simp [unserved])] at run
  cases created : mmCreateSection ops round.space arType (answers 0) with
  | mk next rslt =>
      rw [created] at run
      simp only at run
      by_cases failed : rslt < 0
      · rw [if_pos failed] at run
        cases run
        have whole : Whole mm arType := by
          by_contra broken
          have kept := (mmCreateSection_failed failed created).2.2.2.1 arType
          rw [show next.areaList = mm.areaList from same.areas] at kept
          exact askArea_moves standing broken asked unserved kept.symm
        have unchanged := askArea_same free whole asked
        have restored : Unaltered round.space (mmCreateSection ops round.space arType (answers 0)).1 := by
          rw [created, unchanged]
          exact ⟨same.tree, same.areas, same.count⟩
        have early := (mmCreateSection_same ops (created ▸ failed)).mp restored
        rw [unchanged] at early
        exact ⟨whole, notServed, early⟩
      · rw [if_neg failed] at run
        obtain ⟨place, walked⟩ := askArea_walks asked
        have count : round.space.totalShmmCount = mm.totalShmmCount := by rw [walked.space]
        have grown := retryAlloc_count run
        have kept := same.count
        rw [(mmCreateSection_added failed created).count] at grown
        omega

theorem refused_iff (standing : Standing mm arType) (known : arType < mmAreaCount)
    (answers : Nat → Option ShmmBlk) : Refused ops mm size arType answers ↔
      Whole mm arType ∧ ¬ Served ops mm size arType ∧ EndsEarly mm arType (answers 0) :=
  ⟨early_of_refused standing known, fun ⟨whole, unserved, early⟩ =>
    refused_of_early standing known whole unserved early⟩

/-- The free section of the area has a pool that was made for it. -/
def Pooled (ops : Nat → MmOps Allocator) (mm : MmSpaceImpl Allocator) (arType : Nat) : Prop :=
  ∃ shm sec, (mm.areaList arType).freeSection = some shm ∧ mm.attached shm = some sec ∧
    sec.areaType = arType ∧ Grown (ops arType) (mm.cfg.mmCfg arType) sec.allocator

/-- The kernel's blocks lie apart, and the walk over a list meets only sections of its area. -/
def Call.Orderly (call : Call) (trace : Trace Allocator) : Prop :=
  match call with
  | .load _ => ∀ arType < mmAreaCount, Whole trace.space arType
  | .areaAlloc _ arType answers => Whole trace.space arType ∧ Distinct trace.space answers
  | .free _ => True

section Pools

variable {other shm : Nat} {sec grown : MmSectionImpl Allocator}

theorem Pooled.setSection (pooled : Pooled ops mm other) (attached : mm.attached shm = some sec)
    (same : grown.areaType = sec.areaType)
    (grows : ∀ config, Grown (ops sec.areaType) config sec.allocator →
      Grown (ops sec.areaType) config grown.allocator) :
    Pooled ops (mm.setSection shm (some grown)) other := by
  obtain ⟨place, held, free, inside, rfl, made⟩ := pooled
  by_cases here : place = shm
  · subst here
    obtain rfl : sec = held := Option.some.inj (attached.symm.trans inside)
    exact ⟨place, grown, free, Function.update_self _ _ _, same, grows _ made⟩
  · exact ⟨place, held, free, (Function.update_of_ne here _ _).trans inside, rfl, made⟩

/-- The pool of the free section belongs to the area, so it stays a pool of the area. -/
theorem allocAt_pooled (pooled : ∀ other < mmAreaCount, Pooled ops mm other)
    (known : arType < mmAreaCount) (free : (mm.areaList arType).freeSection = some shm)
    {p : Option Nat} (asked : allocAt (ops arType) mm size shm = some (next, p)) :
    (∀ other < mmAreaCount, Pooled ops next other) ∧
      (Unservable (ops arType) (mm.cfg.mmCfg arType) size → p = none) := by
  obtain ⟨place, sec, held, attached, kind, made⟩ := pooled arType known
  obtain rfl : place = shm := Option.some.inj (held.symm.trans free)
  simp only [allocAt, attached, Option.bind_eq_bind, Option.bind_some, Option.some.injEq,
    Prod.mk.injEq] at asked
  obtain ⟨rfl, rfl⟩ := asked
  refine ⟨fun other inside => (pooled other inside).setSection attached rfl fun config earlier => ?_,
    fun unservable => unservable _ made⟩
  rw [kind] at earlier ⊢
  exact earlier.asked size

theorem askList_pooled (list : List Nat) {refused : List Nat} {round : Allocation Allocator}
    (pooled : ∀ other < mmAreaCount, Pooled ops mm other) (known : arType < mmAreaCount)
    (free : (mm.areaList arType).freeSection = some shm) (whole : ∀ place ∈ list, place = shm)
    (run : askList ops arType size list mm refused = some round) :
    (∀ other < mmAreaCount, Pooled ops round.space other) ∧
      (Unservable (ops arType) (mm.cfg.mmCfg arType) size → round.p = none) := by
  induction list generalizing mm refused with
  | nil =>
      cases run
      exact ⟨pooled, fun _ => rfl⟩
  | cons place rest ih =>
      obtain rfl := whole place List.mem_cons_self
      have still : mm.setArea arType { mm.areaList arType with freeSection := some place } = mm :=
        MmSpaceImpl.setArea_eq_self (by rw [← free])
      simp only [askList, still, Option.bind_eq_bind, Option.bind_eq_some_iff] at run
      obtain ⟨⟨middle, p⟩, asked, run⟩ := run
      obtain ⟨kept, refusal⟩ := allocAt_pooled pooled known free asked
      have walked := allocAt_walked free asked
      cases p with
      | some p =>
          cases run
          exact ⟨kept, refusal⟩
      | none =>
          have config : middle.cfg = mm.cfg := by rw [walked.space]
          rw [← config]
          exact ih kept (by rw [walked.same free]; exact free)
            (fun other later => whole other (List.mem_cons_of_mem _ later)) run

theorem askArea_pooled {refused : List Nat} {round : Allocation Allocator}
    (pooled : ∀ other < mmAreaCount, Pooled ops mm other) (known : arType < mmAreaCount)
    (whole : Whole mm arType) (run : askArea ops mm arType size refused = some round) :
    (∀ other < mmAreaCount, Pooled ops round.space other) ∧
      (Unservable (ops arType) (mm.cfg.mmCfg arType) size → round.p = none) := by
  obtain ⟨shm, _, free, _⟩ := pooled arType known
  simp only [askArea, free, Option.bind_eq_bind, Option.bind_some, Option.bind_eq_some_iff] at run
  obtain ⟨⟨middle, p⟩, asked, run⟩ := run
  obtain ⟨kept, refusal⟩ := allocAt_pooled pooled known free asked
  have walked := allocAt_walked free asked
  have areas := walked.same free
  cases p with
  | some p =>
      cases run
      exact ⟨kept, refusal⟩
  | none =>
      have config : middle.cfg = mm.cfg := by rw [walked.space]
      rw [← config]
      refine askList_pooled _ kept known (by rw [areas]; exact free) ?_ run
      intro place listed
      rw [areas] at listed
      exact Option.some.inj ((whole place listed).symm.trans free)

theorem unserved_of_pooled (pooled : ∀ other < mmAreaCount, Pooled ops mm other)
    (known : arType < mmAreaCount) (whole : Whole mm arType)
    (unservable : Unservable (ops arType) (mm.cfg.mmCfg arType) size) :
    ¬ Served ops mm size arType := by
  rintro ⟨round, run, taken⟩
  have refusal := (askArea_pooled pooled known whole run).2 unservable
  simp [refusal] at taken

theorem Added.fresh (added : Added ops mm arType answer next) : Pooled ops next arType := by
  obtain ⟨blk, key, addr, allocator, _, made, rfl⟩ := added.section_
  exact ⟨blk.shm, ⟨arType, allocator⟩, by simp, by simp, rfl, .created made⟩

/-- The block of a new section is no block of another section. -/
theorem Added.pooled (added : Added ops mm arType answer next)
    (fresh : ∀ blk ∈ answer, mm.attached blk.shm = none) (pooled : Pooled ops mm other) :
    Pooled ops next other := by
  by_cases here : other = arType
  · exact here ▸ added.fresh
  · obtain ⟨blk, key, addr, allocator, rfl, made, rfl⟩ := added.section_
    obtain ⟨shm, sec, free, held, kind, grown⟩ := pooled
    have different : shm ≠ blk.shm := by
      rintro rfl
      simp [fresh blk rfl] at held
    exact ⟨shm, sec, by simpa [here] using free, by simpa [different] using held, kind, grown⟩

theorem Pooled.failed {rslt : Int} (pooled : Pooled ops mm other) (failed : rslt < 0)
    (created : mmCreateSection ops mm arType answer = (next, rslt)) : Pooled ops next other := by
  obtain ⟨_, attached, config, free, _⟩ := mmCreateSection_failed failed created
  obtain ⟨shm, sec, held, inside, kind, made⟩ := pooled
  exact ⟨shm, sec, by rw [free]; exact held, by rw [attached]; exact inside, kind,
    by rw [config]; exact made⟩

theorem mmInitialize_pooled {cfg : MmSpaceConfig} {answers : List (Option ShmmBlk)}
    (distinct : ((answers.filterMap id).map ShmmBlk.shm).Nodup)
    (initialized : mmInitialize ops cfg answers = some mm) :
    ∀ arType < mmAreaCount, Pooled ops mm arType := by
  unfold mmInitialize at initialized
  split_ifs at initialized
  obtain ⟨_, pooled, _⟩ := @createSections_keeps _ ops _
    (fun left types space => (∀ arType ∈ types, Pooled ops space arType) ∧ Distinct space left) (by
      rintro answer answers types space arType next ⟨earlier, apart⟩ _ added
      refine ⟨fun other inside => ?_, added.distinct apart⟩
      rcases List.mem_cons.mp inside with rfl | known
      · exact added.fresh
      · refine added.pooled ?_ (earlier other known)
        rintro blk rfl
        exact apart.2 blk List.mem_cons_self) _ [] _ _ (by decide) ⟨by simp, distinct, by simp⟩ initialized
  exact fun arType known => pooled arType (by simpa using known)

theorem loadSections_pooled (list : List Nat) (pooled : ∀ other < mmAreaCount, Pooled ops mm other)
    (known : arType < mmAreaCount)
    (whole : ∀ place ∈ list, (mm.areaList arType).freeSection = some place)
    (loaded : loadSections (ops arType) list mm = some next) :
    (∀ other < mmAreaCount, Pooled ops next other) ∧ next.areaList = mm.areaList := by
  induction list generalizing mm with
  | nil => exact Option.some.inj loaded ▸ ⟨pooled, rfl⟩
  | cons shm rest ih =>
      simp only [loadSections, Option.bind_eq_bind, Option.bind_eq_some_iff] at loaded
      obtain ⟨sec, attached, allocator, found, remaining⟩ := loaded
      obtain ⟨place, held, free, inside, kind, _⟩ := pooled arType known
      obtain rfl : place = shm := Option.some.inj (free.symm.trans (whole shm List.mem_cons_self))
      obtain rfl : sec = held := Option.some.inj (attached.symm.trans inside)
      have kept : ∀ other < mmAreaCount,
          Pooled ops (mm.setSection place (some { sec with allocator })) other := by
        refine fun other below => (pooled other below).setSection attached rfl fun config earlier => ?_
        rw [kind] at earlier ⊢
        exact earlier.loaded found
      obtain ⟨final, areas⟩ :=
        ih kept (fun later listed => whole later (List.mem_cons_of_mem _ listed)) remaining
      exact ⟨final, areas⟩

theorem loadAreas_pooled (list : List Nat) (pooled : ∀ other < mmAreaCount, Pooled ops mm other)
    (inside : ∀ arType ∈ list, arType < mmAreaCount)
    (whole : ∀ arType < mmAreaCount, Whole mm arType)
    (loaded : loadAreas ops list mm = some next) : ∀ other < mmAreaCount, Pooled ops next other := by
  induction list generalizing mm with
  | nil => exact Option.some.inj loaded ▸ pooled
  | cons arType rest ih =>
      simp only [loadAreas, Option.bind_eq_bind, Option.bind_eq_some_iff] at loaded
      obtain ⟨middle, first, remaining⟩ := loaded
      have known := inside arType List.mem_cons_self
      obtain ⟨kept, areas⟩ := loadSections_pooled _ pooled known (whole arType known) first
      refine ih kept (fun other later => inside other (List.mem_cons_of_mem _ later)) ?_ remaining
      intro other below
      rw [Whole, areas]
      exact whole other below

/-- A round over a whole area leaves the area whole and uses no block of the kernel. -/
theorem askArea_orderly {answers : List (Option ShmmBlk)} {refused : List Nat}
    {round : Allocation Allocator} (free : (mm.areaList arType).freeSection = some shm)
    (whole : Whole mm arType) (distinct : Distinct mm answers)
    (run : askArea ops mm arType size refused = some round) :
    Whole round.space arType ∧ Distinct round.space answers := by
  have same := askArea_same free whole run
  obtain ⟨place, walked⟩ := askArea_walks run
  refine ⟨by rw [same]; exact whole, distinct.1, fun blk inside => ?_⟩
  have unused := (walked.kept blk.shm).not.mp (by simp [distinct.2 blk inside])
  simpa using unused

theorem callStep_pooled (call : Call) (trace last : Trace Allocator)
    (pooled : ∀ other < mmAreaCount, Pooled ops trace.space other) (orderly : call.Orderly trace)
    (step : callStep ops call trace = some last) :
    ∀ other < mmAreaCount, Pooled ops last.space other := by
  cases call with
  | load opened =>
      simp only [callStep, mmLoadArea, Option.bind_eq_bind, Option.bind_eq_some_iff] at step
      obtain ⟨space, loaded, step⟩ := step
      split_ifs at loaded
      cases step
      exact loadAreas_pooled _ pooled (fun _ known => List.mem_range.mp known) orderly loaded
  | areaAlloc size arType answers =>
      simp only [callStep, Option.bind_eq_bind, Option.bind_eq_some_iff] at step
      obtain ⟨allocation, run, step⟩ := step
      cases step
      unfold mmAreaAlloc at run
      split_ifs at run with unknown
      · cases run
        exact pooled
      · cases run
        exact pooled
      · have known : arType < mmAreaCount := not_le.mp unknown
        obtain ⟨whole, distinct⟩ := orderly
        refine @retryAlloc_keeps _ ops trace.space arType size
          (fun left space => (∀ other < mmAreaCount, Pooled ops space other) ∧
            Whole space arType ∧ Distinct space left)
          (fun space => ∀ other < mmAreaCount, Pooled ops space other)
          ?_ And.left ?_ ?_ _ _ _ ⟨pooled, whole, distinct⟩ run
        · rintro left space refused round ⟨earlier, unbroken, apart⟩ walk
          obtain ⟨shm, _, free, _⟩ := earlier arType known
          exact ⟨(askArea_pooled earlier known unbroken walk).1,
            askArea_orderly free unbroken apart walk⟩
        · rintro left space answer next rslt ⟨earlier, _⟩ failed created other below
          exact (earlier other below).failed failed created
        · rintro answer left space next ⟨earlier, _, apart⟩ added
          refine ⟨fun other below => added.pooled ?_ (earlier other below), added.standing.2,
            added.distinct apart⟩
          rintro blk rfl
          exact apart.2 blk List.mem_cons_self
  | free p =>
      simp only [callStep, Option.bind_eq_bind, Option.bind_eq_some_iff] at step
      obtain ⟨⟨space, rslt⟩, freed, step⟩ := step
      cases step
      unfold mmFree at freed
      split at freed
      · cases freed
        exact pooled
      · simp only [Option.bind_eq_bind, Option.bind_eq_some_iff] at freed
        obtain ⟨sec, attached, freed⟩ := freed
        cases freed
        exact fun other below => (pooled other below).setSection attached rfl fun config earlier =>
          earlier.freed p

end Pools

/-- In an initialised space the call ends unless it walks over a foreign block, and it leaves the space
alone exactly when no section serves the size and the creation of one more ends early. A size that no pool
of the area serves is never served. -/
theorem mmAreaAlloc_refused (ops : Nat → MmOps Allocator) (cfg : MmSpaceConfig)
    (initial : List (Option ShmmBlk)) (mm : MmSpaceImpl Allocator)
    (initialized : mmInitialize ops cfg initial = some mm) (calls : List Call)
    (trace : Trace Allocator) (run : exec (callStep ops) calls ⟨mm, none⟩ = some trace)
    (arType : Nat) (known : arType < mmAreaCount) (size : Nat) (answers : Nat → Option ShmmBlk) :
    (Whole trace.space arType → ∃ allocation, Ends ops trace.space size arType answers allocation) ∧
      (Refused ops trace.space size arType answers ↔
        Whole trace.space arType ∧ ¬ Served ops trace.space size arType ∧
          EndsEarly trace.space arType (answers 0)) ∧
      (((initial.filterMap id).map ShmmBlk.shm).Nodup →
        Meets (callStep ops) Call.Orderly calls ⟨mm, none⟩ → Whole trace.space arType →
          Unservable (ops arType) (trace.space.cfg.mmCfg arType) size →
            ¬ Served ops trace.space size arType) := by
  have standing := calls_standing (mmInitialize_standing initialized) run arType known
  refine ⟨fun whole => mmAreaAlloc_ends standing whole known answers,
    refused_iff standing known answers, fun distinct orderly whole unservable => ?_⟩
  have pooled := exec_keeps (fun call state next => callStep_pooled call state next) calls ⟨mm, none⟩
    trace (mmInitialize_pooled distinct initialized) orderly run
  exact unserved_of_pooled pooled known whole unservable

/-- The pool of these fields of `struct mm_config`. -/
def mmpConfig (config : MmConfig) : MmpConfig :=
  ⟨BitVec.ofNat 64 config.totalSize, BitVec.ofNat 32 config.first, BitVec.ofNat 32 config.second⟩

/-- This is `__mmp_ops` over fresh memory; after a fault there is no pool any more. -/
def mmpOps (outside : Nat → Word) : MmOps (Option MmpoolImpl) where
  createFunc := fun addr config =>
    match mmpCreate outside 0 addr (mmpConfig config) with
    | none => some none
    | some made => made.map some
  loadFunc := some
  allocFunc := fun pool size =>
    match pool.bind fun mmpi => mmpAlloc mmpi size with
    | none => (none, none)
    | some (mmpi, p) => (some mmpi, if p = 0 then none else some p)
  freeFunc := fun pool p =>
    match pool.bind fun mmpi => mmpFree mmpi p with
    | none => (none, -1)
    | some (mmpi, rslt) => (some mmpi, rslt)

/-- The largest payload is one of the largest block without its head and its tail. -/
def mmpLimit (config : MmConfig) : Nat :=
  blockSize (mmpConfig config).maxOrder.toNat - headTailSize

theorem mmpOps_limit {outside : Nat → Word} {config : MmConfig} {pool : Option MmpoolImpl}
    (grown : Grown (mmpOps outside) config pool) :
    ∀ mmpi ∈ pool, mmpi.maxPayloadSize = mmpLimit config := by
  induction grown with
  | @created addr allocator made =>
      rintro mmpi rfl
      simp only [mmpOps] at made
      cases created : mmpCreate outside 0 addr (mmpConfig config) with
      | none => simp [created] at made
      | some result =>
          obtain rfl : result = some mmpi := by simpa [created] using made
          obtain ⟨_, _, _, kept⟩ := mmpCreate_kept created
          rw [kept]
          rfl
  | loaded earlier found inherited => exact Option.some.inj found ▸ inherited
  | @asked pool size earlier inherited =>
      intro mmpi inside
      simp only [mmpOps] at inside
      cases ran : pool.bind fun mmpi => mmpAlloc mmpi size with
      | none => simp [ran] at inside
      | some result =>
          obtain rfl : result.1 = mmpi := by simpa [ran] using inside
          obtain ⟨before, rfl, alloc⟩ := Option.bind_eq_some_iff.mp ran
          rw [mmpAlloc_kept alloc]
          exact inherited before rfl
  | @freed pool p earlier inherited =>
      intro mmpi inside
      simp only [mmpOps] at inside
      cases ran : pool.bind fun mmpi => mmpFree mmpi p with
      | none => simp [ran] at inside
      | some result =>
          obtain rfl : result.1 = mmpi := by simpa [ran] using inside
          obtain ⟨before, rfl, free⟩ := Option.bind_eq_some_iff.mp ran
          rw [mmpFree_kept free]
          exact inherited before rfl

/-- No buddy pool of the configuration serves a size beyond the limit. -/
theorem mmpOps_unservable (outside : Nat → Word) (config : MmConfig) {size : Nat}
    (large : mmpLimit config < size) : Unservable (mmpOps outside) config size := by
  intro pool grown
  cases pool with
  | none => rfl
  | some mmpi =>
      have limit := mmpOps_limit grown mmpi rfl
      have refusal : mmpAlloc mmpi size = some (mmpi, 0) := by
        rw [mmpAlloc, if_pos (Or.inr (by omega))]
      simp [mmpOps, refusal]

/-- A buddy pool for each area, whose largest block has 64 bytes, and room for eight sections. -/
def buddySpace : MmSpaceConfig := ⟨1, 8, fun _ => ⟨640, 5, 6⟩⟩

def buddyOps : Nat → MmOps (Option MmpoolImpl) := fun _ => mmpOps fun _ => ⟨0, 0⟩

/-- After one request the space is as the second request needs it. -/
theorem buddySpace_asked : ∃ mm ∈ mmInitialize buddyOps buddySpace ([1, 2, 3, 4, 5].map blockAt),
    Whole mm 0 ∧ ∃ trace ∈ exec (callStep buddyOps) [.areaAlloc 48 0 []] ⟨mm, none⟩,
      Whole trace.space 0 ∧ trace.space.cfg.mmCfg 0 = ⟨640, 5, 6⟩ ∧ EndsEarly trace.space 0 none := by
  decide +kernel

/-- A request beyond the limit changes nothing while the kernel gives no segment. -/
theorem mmAreaAlloc_refused_beyond : ∃ mm trace,
    mmInitialize buddyOps buddySpace ([1, 2, 3, 4, 5].map blockAt) = some mm ∧
      exec (callStep buddyOps) [.areaAlloc 48 0 []] ⟨mm, none⟩ = some trace ∧
        Refused buddyOps trace.space 49 0 fun _ => none := by
  obtain ⟨mm, initialized, whole, trace, run, still, config, early⟩ := buddySpace_asked
  obtain ⟨_, exact_, never⟩ := mmAreaAlloc_refused buddyOps buddySpace _ mm initialized _ trace run 0
    (by decide) 49 fun _ => none
  have orderly : Meets (callStep buddyOps) Call.Orderly [.areaAlloc 48 0 []] ⟨mm, none⟩ :=
    ⟨⟨whole, by simp [Distinct]⟩, fun _ _ => trivial⟩
  have unservable : Unservable (buddyOps 0) (trace.space.cfg.mmCfg 0) 49 := by
    rw [config]
    exact mmpOps_unservable _ _ (by decide)
  exact ⟨mm, trace, initialized, run,
    exact_.mpr ⟨still, never (by decide +kernel) orderly still unservable, early⟩⟩

/-- A request beyond the limit creates three sections, and then the space has all that it may have. -/
theorem mmAreaAlloc_uses_all : ∃ mm ∈ mmInitialize buddyOps buddySpace ([1, 2, 3, 4, 5].map blockAt),
    Unservable (buddyOps 0) (buddySpace.mmCfg 0) 49 ∧
      (∃ allocation ∈ mmAreaAlloc buddyOps mm 49 0 ([6, 7, 8, 9].map blockAt),
        allocation.p = none ∧ mm.totalShmmCount = 5 ∧ allocation.space.totalShmmCount = 8) ∧
      ¬ Refused buddyOps mm 49 0 fun index => blockAt (index + 6) := by
  have used : ∃ mm ∈ mmInitialize buddyOps buddySpace ([1, 2, 3, 4, 5].map blockAt),
      (∃ allocation ∈ mmAreaAlloc buddyOps mm 49 0 ([6, 7, 8, 9].map blockAt),
        allocation.p = none ∧ mm.totalShmmCount = 5 ∧ allocation.space.totalShmmCount = 8) ∧
      ¬ EndsEarly mm 0 (blockAt 6) := by
    decide +kernel
  obtain ⟨mm, initialized, grown, late⟩ := used
  refine ⟨mm, initialized, mmpOps_unservable _ _ (by decide), grown, fun refused => late ?_⟩
  exact ((refused_iff (mmInitialize_standing initialized 0 (by decide)) (by decide) _).mp refused).2.2

end Syslib.Mmspace
