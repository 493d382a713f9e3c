import Mathlib.Data.Fintype.Basic
import Syslib.Mmspace.Zones

namespace Syslib.Mmspace

open Hash Runs

/-- The modules keep their objects in zones of their own; the network has three. -/
inductive ZoneUser where
  | rbuf
  | ipc
  | timerNode
  | utask
  | acc
  | ses
  | pollObj
  deriving DecidableEq, Repr

namespace ZoneUser

instance : Fintype ZoneUser where
  elems := {.rbuf, .ipc, .timerNode, .utask, .acc, .ses, .pollObj}
  complete user := by cases user <;> decide

def zoneChars : ZoneUser → List Char
  | .rbuf => ['s', 'y', 's', '_', 'r', 'i', 'n', 'g', 'b', 'u', 'f', '_', 'z', 'o', 'n', 'e']
  | .ipc => ['s', 'y', 's', '_', 'i', 'p', 'c', '_', 'z', 'o', 'n', 'e']
  | .timerNode => ['t', 'i', 'm', 'e', 'r', '_', 'n', 'o', 'd', 'e', '_', 'z', 'o', 'n', 'e']
  | .utask => ['s', 'y', 's', '_', 'u', 't', 's', 'k']
  | .acc => ['n', 'e', 't', '_', 'a', 'c', 'c', '_', 'z', 'o', 'n', 'e']
  | .ses => ['n', 'e', 't', '_', 's', 'e', 's', '_', 'z', 'o', 'n', 'e']
  | .pollObj => ['n', 'e', 't', '_', 'p', 'o', 'l', 'l', '_', 'o', 'b', 'j', '_', 'z', 'o', 'n', 'e']

def zoneName (user : ZoneUser) : CString where
  bytes := user.zoneChars.map fun c => c.toNat.toUInt8
  noNul := by cases user <;> decide

/-- The sizes of the structures that the modules keep in their zones. -/
def objSize : ZoneUser → Nat
  | .rbuf => 32
  | .ipc => 32
  | .timerNode => 56
  | .utask => 216
  | .acc => 48
  | .ses => 128
  | .pollObj => 40

end ZoneUser

/-- The answer of the persistent area to one creation, and the stale word of its stack frame. -/
structure ZoneMemory where
  mem : Option Nat
  stale : Nat

/-- The pointer keeps a zone whose size is wrong, and only the call that finds it fails. -/
def tryRestoreZone (cfg : MmConfig) (user : ZoneUser) (memory : ZoneMemory) (theZone : Nat) (mm : ZoneSpace) :
    Option (ZoneSpace × Nat × Int) :=
  if theZone ≠ 0 then some (mm, theZone, 0)
  else do
    let found ← mmSearchZone mm user.zoneName
    if found = 0 then do
      let (mm, zone) ← mmCacheCreate cfg mm user.zoneName user.objSize memory.mem memory.stale
      some (mm, zone, if zone = 0 then -1 else 0)
    else some (mm, found, if (mm.zones found).objSize ≠ user.objSize then -1 else 0)

/-- A process keeps a static pointer for each zone. -/
abbrev Statics := ZoneUser → Nat

/-- The zones are restored one after the other, and the first failure ends the call. -/
def tryRestoreZones (cfg : MmConfig) :
    List (ZoneUser × ZoneMemory) → Statics → ZoneSpace → Option (ZoneSpace × Statics × Int)
  | [], statics, mm => some (mm, statics, 0)
  | (user, memory) :: rest, statics, mm => do
      let (mm, zone, rslt) ← tryRestoreZone cfg user memory (statics user) mm
      let statics := Function.update statics user zone
      if rslt < 0 then some (mm, statics, -1) else tryRestoreZones cfg rest statics mm

def rbufTryRestoreZone (cfg : MmConfig) (memory : ZoneMemory) := tryRestoreZones cfg [(.rbuf, memory)]

def ipcTryRestoreZone (cfg : MmConfig) (memory : ZoneMemory) := tryRestoreZones cfg [(.ipc, memory)]

def timerNodeTryRestoreZone (cfg : MmConfig) (memory : ZoneMemory) := tryRestoreZones cfg [(.timerNode, memory)]

def utaskTryRestoreZone (cfg : MmConfig) (memory : ZoneMemory) := tryRestoreZones cfg [(.utask, memory)]

def netTryRestoreZones (cfg : MmConfig) (acc ses pollObj : ZoneMemory) :=
  tryRestoreZones cfg [(.acc, acc), (.ses, ses), (.pollObj, pollObj)]

/-- The first call of a module restores its zones. -/
inductive RestoreCall where
  | rbuf (memory : ZoneMemory)
  | ipc (memory : ZoneMemory)
  | timerNode (memory : ZoneMemory)
  | utask (memory : ZoneMemory)
  | net (acc ses pollObj : ZoneMemory)

def RestoreCall.run (cfg : MmConfig) : RestoreCall → Statics → ZoneSpace → Option (ZoneSpace × Statics × Int)
  | .rbuf memory => rbufTryRestoreZone cfg memory
  | .ipc memory => ipcTryRestoreZone cfg memory
  | .timerNode memory => timerNodeTryRestoreZone cfg memory
  | .utask memory => utaskTryRestoreZone cfg memory
  | .net acc ses pollObj => netTryRestoreZones cfg acc ses pollObj

def RestoreCall.zones : RestoreCall → List (ZoneUser × ZoneMemory)
  | .rbuf memory => [(.rbuf, memory)]
  | .ipc memory => [(.ipc, memory)]
  | .timerNode memory => [(.timerNode, memory)]
  | .utask memory => [(.utask, memory)]
  | .net acc ses pollObj => [(.acc, acc), (.ses, ses), (.pollObj, pollObj)]

/-- The processes share the space, and each has its own pointers. -/
structure ZoneProcesses where
  space : ZoneSpace
  statics : Nat → Statics

/-- A process that starts again has null pointers; the programs may use zones of their own. -/
inductive ZoneEvent where
  | restore (process : Nat) (call : RestoreCall)
  | restart (process : Nat)
  | other (call : ZoneCall)

def zoneEvent (cfg : MmConfig) (event : ZoneEvent) (state : ZoneProcesses) : Option ZoneProcesses :=
  match event with
  | .restore process call => do
      let (space, statics, _) ← call.run cfg (state.statics process) state.space
      some ⟨space, Function.update state.statics process statics⟩
  | .restart process => some { state with statics := Function.update state.statics process fun _ => 0 }
  | .other call => do
      let (space, _) ← zoneCall cfg call state.space
      some { state with space }

def ZoneCall.name : ZoneCall → CString
  | .create name _ _ _ => name
  | .search name => name

/-- The persistent area gives new records, a record at a time. -/
structure Fresh (mm : ZoneSpace) (memories : List ZoneMemory) : Prop where
  unused : ∀ memory ∈ memories, ∀ mzi ∈ memory.mem, mzi ≠ 0 ∧ mzi ∉ mm.live
  apart : (memories.filterMap ZoneMemory.mem).Nodup

instance (mm : ZoneSpace) (memories : List ZoneMemory) : Decidable (Fresh mm memories) :=
  decidable_of_iff ((∀ memory ∈ memories, ∀ mzi ∈ memory.mem, mzi ≠ 0 ∧ mzi ∉ mm.live) ∧
    (memories.filterMap ZoneMemory.mem).Nodup) ⟨fun ⟨unused, apart⟩ => ⟨unused, apart⟩, fun ⟨unused, apart⟩ => ⟨unused, apart⟩⟩

/-- A program's own names stay away from the buckets of the modules. -/
def ZoneEvent.Allowed (cfg : MmConfig) (event : ZoneEvent) (state : ZoneProcesses) : Prop :=
  match event with
  | .restore _ call => Fresh state.space (call.zones.map Prod.snd)
  | .restart _ => True
  | .other call => call.Allowed cfg (state.space, []) ∧
      ∀ user : ZoneUser, bucketOf zoneHashSize call.name ≠ bucketOf zoneHashSize user.zoneName

instance ZoneEvent.decidableAllowed (cfg : MmConfig) (event : ZoneEvent) (state : ZoneProcesses) :
    Decidable (event.Allowed cfg state) := by
  cases event <;> unfold ZoneEvent.Allowed <;> infer_instance

/-- No two of the names share a bucket. -/
theorem zoneName_bucket {user other : ZoneUser}
    (same : bucketOf zoneHashSize user.zoneName = bucketOf zoneHashSize other.zoneName) : user = other := by
  cases user <;> cases other <;> first | rfl | exact absurd same (by decide +kernel)

theorem zoneName_short (user : ZoneUser) : user.zoneName.bytes.length < hashKeyLen := by
  cases user <;> decide

theorem objSize_rounded (user : ZoneUser) : roundedObjSize user.objSize = user.objSize := by
  cases user <;> decide

/-- The registry has the zones of the modules alone in their buckets. -/
structure Sane (mm : ZoneSpace) (caches : Entries) : Prop where
  registered : Registered mm caches
  clear : ∀ entry ∈ caches, ∀ user : ZoneUser,
    bucketOf zoneHashSize entry.1 = bucketOf zoneHashSize user.zoneName → entry.1 = user.zoneName
  sized : ∀ (user : ZoneUser) zone, (user.zoneName, zone) ∈ caches → (mm.zones zone).objSize = user.objSize

/-- A pointer is null or has the zone of its user. -/
def Held (statics : Statics) (caches : Entries) : Prop :=
  ∀ user, statics user ≠ 0 → (user.zoneName, statics user) ∈ caches

variable {cfg : MmConfig} {mm next : ZoneSpace} {caches more : Entries} {user : ZoneUser} {memory : ZoneMemory}
  {zone theZone : Nat} {statics : Statics}

theorem Held.mono (held : Held statics caches) : Held statics (caches ++ more) :=
  fun user real => List.mem_append_left _ (held user real)

/-- A creation writes at most the record that it gets, and only when it has passed its checks. -/
theorem mmCacheCreate_zones {name : CString} {objSize stale : Nat} {mem : Option Nat}
    (run : mmCacheCreate cfg mm name objSize mem stale = some (next, zone)) :
    (∀ other, next.zones other ≠ mm.zones other →
        mem = some other ∧ hashSearch mm.zoneHash name.bytes = some 0 ∧ ValidSize cfg objSize) ∧
      (zone ≠ 0 → mem = some zone ∧ (next.zones zone).objSize = roundedObjSize objSize) ∧
      ∀ mzi, mzi ∈ next.live → mzi ∈ mm.live ∨ mem = some mzi := by
  have released (p : Nat) : ∀ mzi, mzi ∈ (mm.release p).live → mzi ∈ mm.live ∨ mem = some mzi :=
    fun mzi inside => Or.inl (List.mem_of_mem_erase inside)
  simp only [mmCacheCreate, Option.bind_eq_bind, Option.bind_eq_some_iff] at run
  obtain ⟨hn, searched, run⟩ := run
  by_cases refused : hn ≠ 0 ∨ ¬ ValidSize cfg objSize
  · obtain ⟨rfl, rfl⟩ : mm.release stale = next ∧ 0 = zone := by
      rcases refused with present | small
      · simpa [present] using run
      · by_cases present : hn = 0 <;> simpa [present, small] using run
    exact ⟨fun _ changed => absurd rfl changed, fun real => absurd rfl real, released stale⟩
  · rw [not_or] at refused
    obtain ⟨absent, valid⟩ : hn = 0 ∧ ValidSize cfg objSize := by simpa using refused
    subst absent
    rw [if_neg refused.1, if_neg refused.2] at run
    cases mem with
    | none =>
        cases run
        exact ⟨fun _ changed => absurd rfl changed, fun real => absurd rfl real, fun _ => Or.inl⟩
    | some mzi =>
        obtain ⟨⟨table, rslt⟩, -, run⟩ := Option.bind_eq_some_iff.mp run
        have kept (other : Nat) (changed : Function.update mm.zones mzi
            ⟨roundedObjSize objSize, zoneCacheSize cfg objSize⟩ other ≠ mm.zones other) :
            some mzi = some other ∧ hashSearch mm.zoneHash name.bytes = some 0 ∧ ValidSize cfg objSize := by
          by_cases same : other = mzi
          · exact ⟨congrArg some same.symm, searched, valid⟩
          · exact absurd (Function.update_of_ne same _ _) changed
        split_ifs at run
        · cases run
          refine ⟨kept, fun real => absurd rfl real, fun p inside => ?_⟩
          rcases List.mem_cons.mp (List.mem_of_mem_erase inside) with rfl | old
          · exact Or.inr rfl
          · exact Or.inl old
        · cases run
          refine ⟨kept, fun _ => ⟨rfl, by simp⟩, fun p inside => ?_⟩
          rcases List.mem_cons.mp inside with rfl | old
          · exact Or.inr rfl
          · exact Or.inl old

namespace Sane

variable (sane : Sane mm caches)

include sane

theorem fits (user : ZoneUser) : BucketFits mm user.zoneName := by
  by_cases present : user.zoneName ∈ caches.map Prod.fst
  · obtain ⟨entry, inside, same⟩ := List.mem_map.mp present
    have stored : (entry.1, hashNodeOf entry.2) ∈ caches.map fun entry => (entry.1, hashNodeOf entry.2) :=
      List.mem_map_of_mem inside
    refine Or.inr ⟨hashNodeOf entry.2, ?_, ?_⟩
    · rw [sane.registered.holds.buckets]
      refine List.mem_map.mpr ⟨_, List.mem_filter.mpr ⟨stored, ?_⟩, rfl⟩
      simp [same, sane.registered.size]
    · rw [sane.registered.holds.keys _ stored,
        strcmpEq_strncpyKey entry.1.noNul user.zoneName.noNul (sane.registered.holds.short (entry.1, hashNodeOf entry.2) stored), same]
      simp
  · refine Or.inl ?_
    rw [sane.registered.holds.buckets, List.map_eq_nil_iff, List.filter_eq_nil_iff]
    intro entry stored
    obtain ⟨cache, inside, rfl⟩ := List.mem_map.mp stored
    simp only [decide_eq_true_eq, sane.registered.size]
    intro same
    exact present (sane.clear cache inside user same ▸ List.mem_map_of_mem inside)

theorem search (user : ZoneUser) : mmSearchZone mm user.zoneName = some ((caches.lookup user.zoneName).getD 0) :=
  sane.registered.mmSearchZone ((zoneName_short user).trans (by decide)) (sane.fits user)

theorem lookup (member : (user.zoneName, zone) ∈ caches) : caches.lookup user.zoneName = some zone := by
  cases found : caches.lookup user.zoneName with
  | none => exact absurd (List.mem_map_of_mem member) (lookup_eq_none.mp found)
  | some other =>
      have same := List.inj_on_of_nodup_map sane.registered.names (mem_of_lookup found) member rfl
      rw [(Prod.mk.inj same).2]

/-- A creation of a user's zone. -/
theorem mmCacheCreate (valid : ValidSize cfg user.objSize) (missing : caches.lookup user.zoneName = none)
    (fresh : ∀ mzi ∈ memory.mem, mzi ≠ 0 ∧ mzi ∉ mm.live) :
    ∃ next zone more, Mmspace.mmCacheCreate cfg mm user.zoneName user.objSize memory.mem memory.stale =
        some (next, zone) ∧ Sane next (caches ++ more) ∧ (zone ≠ 0 → (user.zoneName, zone) ∈ caches ++ more) ∧
      (memory.mem.isSome → zone ≠ 0) := by
  have absent := lookup_eq_none.mp missing
  have allowed : (ZoneCall.create user.zoneName user.objSize memory.mem memory.stale).Allowed cfg (mm, caches) := by
    have short := zoneName_short user
    refine ⟨short.trans (by decide), sane.fits user, ?_⟩
    rw [if_pos ⟨sane.registered.empty (sane.fits user) missing, valid⟩]
    exact fun mzi given => ⟨short, fresh mzi given⟩
  obtain ⟨next, zone, run, kept, answers⟩ := sane.registered.mmCacheCreate allowed
  obtain ⟨same, written, -⟩ := mmCacheCreate_zones run
  refine ⟨next, zone, if zone = 0 then [] else [(user.zoneName, zone)], run, ?_, ?_, ?_⟩
  · refine ⟨by split_ifs at kept ⊢ <;> simpa using kept, ?_, ?_⟩
    · intro entry inside other shared
      rcases List.mem_append.mp inside with old | new
      · exact sane.clear entry old other shared
      · split_ifs at new with null
        · cases new
        · rw [List.mem_singleton] at new
          subst new
          rw [zoneName_bucket shared]
    · intro other record inside
      rcases List.mem_append.mp inside with old | new
      · have unchanged : next.zones record = mm.zones record := by
          by_contra changed
          exact (fresh record (same record changed).1).2
            ((sane.registered.live record).mpr (List.mem_map_of_mem old))
        rw [unchanged]
        exact sane.sized other record old
      · split_ifs at new with null
        · cases new
        · obtain ⟨name, rfl⟩ := Prod.mk.inj (List.mem_singleton.mp new)
          obtain rfl : other = user := zoneName_bucket (congrArg _ name)
          rw [(written null).2, objSize_rounded]
  · intro real
    rw [if_neg real]
    exact List.mem_append_right _ (List.mem_singleton_self _)
  · exact fun given null => absent ((answers valid given).mp null)

/-- A restore finds the zone or makes it, unless there is no memory for it. -/
theorem tryRestoreZone (valid : ValidSize cfg user.objSize) (held : theZone ≠ 0 → (user.zoneName, theZone) ∈ caches)
    (fresh : ∀ mzi ∈ memory.mem, mzi ≠ 0 ∧ mzi ∉ mm.live) :
    ∃ next zone more, Mmspace.tryRestoreZone cfg user memory theZone mm =
        some (next, zone, if zone = 0 then -1 else 0) ∧ Sane next (caches ++ more) ∧
      (zone ≠ 0 → (user.zoneName, zone) ∈ caches ++ more) ∧ (memory.mem.isSome → zone ≠ 0) ∧
      ∀ mzi, mzi ∈ next.live → mzi ∈ mm.live ∨ memory.mem = some mzi := by
  unfold Mmspace.tryRestoreZone
  by_cases real : theZone = 0
  · rw [if_neg (not_not.mpr real), sane.search user]
    cases found : caches.lookup user.zoneName with
    | none =>
        obtain ⟨next, zone, more, run, kept, entered, made⟩ := sane.mmCacheCreate valid found fresh
        refine ⟨next, zone, more, ?_, kept, entered, made, (mmCacheCreate_zones run).2.2⟩
        simp [run]
    | some zone =>
        have member := mem_of_lookup found
        have some_ := sane.registered.real _ member
        have size := sane.sized user zone member
        refine ⟨mm, zone, [], ?_, by simpa using sane, fun _ => by simpa using member, fun _ => some_, fun _ => Or.inl⟩
        simp only at some_
        simp [some_, size]
  · exact ⟨mm, theZone, [], by simp [real], by simpa using sane, fun _ => by simpa using held real, fun _ => real,
      fun _ => Or.inl⟩

end Sane

theorem Fresh.tail {memories : List ZoneMemory} (fresh : Fresh mm (memory :: memories))
    (taken : ∀ mzi, mzi ∈ next.live → mzi ∈ mm.live ∨ memory.mem = some mzi) : Fresh next memories := by
  have apart := fresh.apart
  refine ⟨fun later inside mzi given => ?_, apart.sublist ((List.sublist_cons_self _ _).filterMap _)⟩
  obtain ⟨real, unused⟩ := fresh.unused later (List.mem_cons_of_mem _ inside) mzi given
  refine ⟨real, fun live => ?_⟩
  rcases taken mzi live with old | same
  · exact unused old
  · rw [List.filterMap_cons_some same, List.nodup_cons] at apart
    exact apart.1 (List.mem_filterMap.mpr ⟨later, inside, given⟩)

/-- With memory for each zone the call succeeds and leaves no null pointer. -/
theorem Sane.tryRestoreZones (valid : ∀ user : ZoneUser, ValidSize cfg user.objSize)
    (zones : List (ZoneUser × ZoneMemory)) (sane : Sane mm caches) (held : Held statics caches)
    (fresh : Fresh mm (zones.map Prod.snd)) :
    ∃ next after rslt more, Mmspace.tryRestoreZones cfg zones statics mm = some (next, after, rslt) ∧
      Sane next (caches ++ more) ∧ Held after (caches ++ more) ∧ (∀ user, statics user ≠ 0 → after user = statics user) ∧
      ((∀ zone ∈ zones, zone.2.mem.isSome) → rslt = 0 ∧ ∀ zone ∈ zones, after zone.1 ≠ 0) := by
  induction zones generalizing mm caches statics with
  | nil => exact ⟨mm, statics, 0, [], rfl, by simpa using sane, by simpa using held, fun _ _ => rfl, by simp⟩
  | cons first rest ih =>
      obtain ⟨user, memory⟩ := first
      obtain ⟨next, zone, more, run, kept, entered, made, taken⟩ := sane.tryRestoreZone (valid user) (held user)
        (fresh.unused memory List.mem_cons_self)
      have still : Held (Function.update statics user zone) (caches ++ more) := by
        intro other real
        by_cases same : other = user
        · subst same
          rw [Function.update_self] at real ⊢
          exact entered real
        · rw [Function.update_of_ne same] at real ⊢
          exact List.mem_append_left _ (held other real)
      have before : ∀ other, statics other ≠ 0 → Function.update statics user zone other = statics other := by
        intro other real
        by_cases same : other = user
        · subst same
          have found : zone = statics other := by
            rw [Mmspace.tryRestoreZone, if_pos real, Option.some.injEq, Prod.mk.injEq] at run
            exact (Prod.mk.inj run.2).1.symm
          rw [Function.update_self, found]
        · exact Function.update_of_ne same _ _
      simp only [Mmspace.tryRestoreZones, run, Option.bind_eq_bind, Option.bind_some]
      by_cases null : zone = 0
      · subst null
        refine ⟨next, _, -1, more, by simp, kept, still, before, fun given => ?_⟩
        exact absurd rfl (made (given (user, memory) List.mem_cons_self))
      · rw [if_neg null, if_neg (by decide)]
        obtain ⟨last, after, rslt, later, ran, final, heldAfter, same, result⟩ := ih kept still (fresh.tail taken)
        refine ⟨last, after, rslt, more ++ later, ran, by simpa using final, by simpa using heldAfter, ?_, ?_⟩
        · intro other real
          rw [same other (by rwa [before other real]), before other real]
        · intro given
          obtain ⟨zero, all⟩ := result fun zone inside => given zone (List.mem_cons_of_mem _ inside)
          refine ⟨zero, fun entry inside => ?_⟩
          rcases List.mem_cons.mp inside with rfl | old
          · rw [same user (by rwa [Function.update_self]), Function.update_self]
            exact null
          · exact all entry old

theorem RestoreCall.run_eq (call : RestoreCall) : call.run cfg = Mmspace.tryRestoreZones cfg call.zones := by
  cases call <;> rfl

/-- A program's own call adds no zone to a bucket of the modules. -/
theorem Sane.other (sane : Sane mm caches) {call : ZoneCall} (allowed : call.Allowed cfg (mm, caches))
    (away : ∀ user : ZoneUser, bucketOf zoneHashSize call.name ≠ bucketOf zoneHashSize user.zoneName) :
    ∃ next zone more, zoneCall cfg call mm = some (next, zone) ∧ Sane next (caches ++ more) := by
  cases call with
  | search name =>
      have answer := sane.registered.mmSearchZone allowed.1 allowed.2
      exact ⟨mm, (caches.lookup name).getD 0, [], by rw [zoneCall, answer, Option.map_some], by simpa using sane⟩
  | create name objSize mem stale =>
      obtain ⟨next, zone, run, kept, -⟩ := sane.registered.mmCacheCreate allowed
      obtain ⟨same, written, -⟩ := mmCacheCreate_zones run
      refine ⟨next, zone, if zone = 0 then [] else [(name, zone)], run,
        by split_ifs at kept ⊢ <;> simpa using kept, ?_, ?_⟩
      · intro entry inside user shared
        rcases List.mem_append.mp inside with old | new
        · exact sane.clear entry old user shared
        · split_ifs at new
          · cases new
          · rw [List.mem_singleton.mp new] at shared
            exact absurd shared (away user)
      · intro user record inside
        rcases List.mem_append.mp inside with old | new
        · have unchanged : next.zones record = mm.zones record := by
            by_contra changed
            obtain ⟨given, absent, valid⟩ := same record changed
            have missing : caches.lookup name = none := by
              rw [sane.registered.search allowed.1 allowed.2.1] at absent
              cases found : caches.lookup name with
              | none => rfl
              | some mzi => simp [found, hashNodeOf] at absent
            have memory := allowed.2.2
            rw [if_pos ⟨sane.registered.empty allowed.2.1 missing, valid⟩] at memory
            exact (memory record given).2.2 ((sane.registered.live record).mpr (List.mem_map_of_mem old))
          rw [unchanged]
          exact sane.sized user record old
        · split_ifs at new
          · cases new
          · exact absurd (congrArg _ (Prod.mk.inj (List.mem_singleton.mp new)).1.symm) (away user)

/-- Some history of the registry has all the pointers of all the processes. -/
def Zoned (state : ZoneProcesses) : Prop :=
  ∃ caches, Sane state.space caches ∧ ∀ process, Held (state.statics process) caches

variable {state : ZoneProcesses}

/-- The zones that a restore adds leave the pointers of the other processes as they are. -/
theorem Zoned.restore (valid : ∀ user : ZoneUser, ValidSize cfg user.objSize) (zoned : Zoned state) (process : Nat)
    {call : RestoreCall} (fresh : Fresh state.space (call.zones.map Prod.snd)) :
    ∃ space statics rslt, call.run cfg (state.statics process) state.space = some (space, statics, rslt) ∧
      Zoned ⟨space, Function.update state.statics process statics⟩ ∧
      (∀ user, state.statics process user ≠ 0 → statics user = state.statics process user) ∧
      ((∀ zone ∈ call.zones, zone.2.mem.isSome) → rslt = 0 ∧ ∀ zone ∈ call.zones, statics zone.1 ≠ 0) := by
  obtain ⟨caches, sane, held⟩ := zoned
  obtain ⟨space, statics, rslt, more, run, kept, own, same, result⟩ :=
    sane.tryRestoreZones valid call.zones (held process) fresh
  refine ⟨space, statics, rslt, by rw [call.run_eq, run], ⟨caches ++ more, kept, fun other => ?_⟩, same, result⟩
  by_cases self : other = process
  · subst self
    simpa using own
  · simpa only [Function.update_of_ne self] using (held other).mono

theorem Zoned.event (valid : ∀ user : ZoneUser, ValidSize cfg user.objSize) (event : ZoneEvent) (state : ZoneProcesses)
    (zoned : Zoned state) (allowed : event.Allowed cfg state) :
    ∃ next, zoneEvent cfg event state = some next ∧ Zoned next := by
  cases event with
  | restore process call =>
      obtain ⟨space, statics, rslt, run, kept, -⟩ := zoned.restore valid process allowed
      exact ⟨_, by simp [zoneEvent, run], kept⟩
  | restart process =>
      obtain ⟨caches, sane, held⟩ := zoned
      refine ⟨_, rfl, caches, sane, fun other user real => ?_⟩
      by_cases self : other = process
      · subst self
        simp at real
      · simp only [Function.update_of_ne self] at real ⊢
        exact held other user real
  | other call =>
      obtain ⟨caches, sane, held⟩ := zoned
      have granted : call.Allowed cfg (state.space, caches) := by
        cases call <;> exact allowed.1
      obtain ⟨space, zone, more, run, kept⟩ := sane.other granted allowed.2
      exact ⟨⟨space, state.statics⟩, by simp [zoneEvent, run], caches ++ more, kept, fun other => (held other).mono⟩

end Syslib.Mmspace
