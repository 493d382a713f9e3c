import Mathlib.Data.List.Nodup
import Syslib.Hash.Table
import Syslib.Library.Runs
import Syslib.Misc
import Syslib.Mmspace.Space

namespace Syslib.Mmspace

open Hash Runs

/-- This is `struct _mmcache_impl` without its slab lists, its links and its name. -/
structure Mmcache where
  objSize : Nat
  cacheSize : Nat
  deriving DecidableEq, Repr

/-- The registry has the zone hash, the zone list and the cache records in the persistent area. -/
structure ZoneSpace where
  zoneHash : HashTable
  zoneList : List Nat
  zones : Nat → Mmcache
  live : List Nat

/-- The hash node follows the sizes, the functions, the slab lists and the list node. -/
def hashNodeOf (mzi : Nat) : Nat := mzi + 152

/-- This is `_conv_zone_hash_node`. -/
def convZoneHashNode (hn : Nat) : Nat := hn - 152

/-- The size of an object is an `unsigned int`. -/
def roundedObjSize (objSize : Nat) : Nat := roundUp objSize 8 % 2 ^ 32

/-- A slab has room for 32 objects and its head of 48 bytes. -/
def zoneCacheSize (cfg : MmConfig) (objSize : Nat) : Nat :=
  roundUp (roundedObjSize objSize * 32 % 2 ^ 32 + 48) cfg.pageSize

/-- The largest block of the page area bounds the size of a slab. -/
def ValidSize (cfg : MmConfig) (objSize : Nat) : Prop :=
  zoneCacheSize cfg objSize < cfg.pageSize * cfg.maxpgCount % 2 ^ 32

instance (cfg : MmConfig) (objSize : Nat) : Decidable (ValidSize cfg objSize) :=
  inferInstanceAs (Decidable (_ < _))

/-- The persistent area takes back a cache record. -/
def ZoneSpace.release (mm : ZoneSpace) (p : Nat) : ZoneSpace := { mm with live := mm.live.erase p }

/-- The early errors free `mzi`, which still holds a stale word of the stack. -/
def mmCacheCreate (cfg : MmConfig) (mm : ZoneSpace) (name : CString) (objSize : Nat)
    (mem : Option Nat) (stale : Nat) : Option (ZoneSpace × Nat) := do
  let hn ← hashSearch mm.zoneHash name.bytes
  if hn ≠ 0 then some (mm.release stale, 0)
  else if ¬ ValidSize cfg objSize then some (mm.release stale, 0)
  else
    match mem with
    | none => some (mm, 0)
    | some mzi => do
        let zone : Mmcache := ⟨roundedObjSize objSize, zoneCacheSize cfg objSize⟩
        let table := { mm.zoneHash with
          hashKey := Function.update mm.zoneHash.hashKey (hashNodeOf mzi) (strncpyKey name.bytes) }
        let mm := { mm with
          live := mzi :: mm.live
          zones := Function.update mm.zones mzi zone
          zoneList := mm.zoneList ++ [mzi] }
        let (zoneHash, rslt) ← hashInsert table (hashNodeOf mzi)
        if rslt < 0 then some (({ mm with zoneHash }).release mzi, 0)
        else some ({ mm with zoneHash }, mzi)

def mmSearchZone (mm : ZoneSpace) (zoneName : CString) : Option Nat := do
  let hn ← hashSearch mm.zoneHash zoneName.bytes
  if hn = 0 then some 0 else some (convZoneHashNode hn)

/-- A creation brings the answer of the persistent area and the stale word of its stack frame. -/
inductive ZoneCall where
  | create (name : CString) (objSize : Nat) (mem : Option Nat) (stale : Nat)
  | search (name : CString)

def zoneCall (cfg : MmConfig) (call : ZoneCall) (mm : ZoneSpace) : Option (ZoneSpace × Nat) :=
  match call with
  | .create name objSize mem stale => mmCacheCreate cfg mm name objSize mem stale
  | .search name => (mmSearchZone mm name).map fun zone => (mm, zone)

/-- The history keeps the name and the address of each cache that a creation returns. -/
def zoneStep (cfg : MmConfig) (call : ZoneCall) (state : ZoneSpace × Entries) :
    Option (ZoneSpace × Entries) := do
  let (mm, zone) ← zoneCall cfg call state.1
  match call with
  | .create name _ _ _ => some (mm, if zone = 0 then state.2 else state.2 ++ [(name, zone)])
  | .search _ => some (mm, state.2)

/-- This is `ZONE_HASH_SIZE`. -/
def zoneHashSize : Nat := 64

def emptyZones : ZoneSpace where
  zoneHash := ⟨zoneHashSize, fun _ => [], fun _ => []⟩
  zoneList := []
  zones := fun _ => ⟨0, 0⟩
  live := []

/-- A creation is refused only for a name in use, and a search finds the cache of its name. -/
def Answers (cfg : MmConfig) (caches : Entries) (zone : Nat) : ZoneCall → Prop
  | .create name objSize mem _ =>
      ValidSize cfg objSize → mem.isSome → (zone = 0 ↔ name ∈ caches.map Prod.fst)
  | .search name => zone = (caches.lookup name).getD 0

instance (cfg : MmConfig) (caches : Entries) (zone : Nat) (call : ZoneCall) :
    Decidable (Answers cfg caches zone call) := by
  cases call <;> unfold Answers <;> infer_instance

/-- The bucket of the name is empty, or a node in it has this name. -/
def BucketFits (mm : ZoneSpace) (name : CString) : Prop :=
  mm.zoneHash.hashList (bucketOf zoneHashSize name) = [] ∨
    ∃ hn ∈ mm.zoneHash.hashList (bucketOf zoneHashSize name),
      strcmpEq (mm.zoneHash.hashKey hn) name.bytes = some true

instance (mm : ZoneSpace) (name : CString) : Decidable (BucketFits mm name) :=
  inferInstanceAs (Decidable (_ ∨ _))

/-- The creation goes on to the allocation of the cache record. -/
def ReachesAlloc (cfg : MmConfig) (mm : ZoneSpace) (name : CString) (objSize : Nat) : Prop :=
  mm.zoneHash.hashList (bucketOf zoneHashSize name) = [] ∧ ValidSize cfg objSize

instance (cfg : MmConfig) (mm : ZoneSpace) (name : CString) (objSize : Nat) :
    Decidable (ReachesAlloc cfg mm name objSize) :=
  inferInstanceAs (Decidable (_ ∧ _))

/-- The name meets no other name in its bucket, and it fits the key field when it enters the table. -/
def ZoneCall.Allowed (cfg : MmConfig) (call : ZoneCall) (state : ZoneSpace × Entries) : Prop :=
  match call with
  | .create name objSize mem stale =>
      name.bytes.length < 2 ^ 31 ∧ BucketFits state.1 name ∧
        if ReachesAlloc cfg state.1 name objSize then
          ∀ mzi ∈ mem, name.bytes.length < hashKeyLen ∧ mzi ≠ 0 ∧ mzi ∉ state.1.live
        else stale ∉ state.1.live
  | .search name => name.bytes.length < 2 ^ 31 ∧ BucketFits state.1 name

instance ZoneCall.decidableAllowed (cfg : MmConfig) (call : ZoneCall) (state : ZoneSpace × Entries) :
    Decidable (call.Allowed cfg state) := by
  cases call <;> unfold ZoneCall.Allowed <;> infer_instance

/-- The table holds the caches of the history, whose records are live. -/
structure Registered (mm : ZoneSpace) (caches : Entries) : Prop where
  holds : Holds mm.zoneHash (caches.map fun entry => (entry.1, hashNodeOf entry.2))
  size : mm.zoneHash.bucketSize = zoneHashSize
  zoneList : mm.zoneList = caches.map Prod.snd
  live : ∀ mzi, mzi ∈ mm.live ↔ mzi ∈ caches.map Prod.snd
  real : ∀ entry ∈ caches, entry.2 ≠ 0
  names : (caches.map Prod.fst).Nodup
  records : (caches.map Prod.snd).Nodup

variable {mm : ZoneSpace} {caches : Entries} {cfg : MmConfig}

theorem lookup_hashNode (name : CString) (caches : Entries) :
    (caches.map fun entry => (entry.1, hashNodeOf entry.2)).lookup name =
      (caches.lookup name).map hashNodeOf := by
  induction caches with
  | nil => rfl
  | cons entry rest ih =>
      rw [List.map_cons, List.lookup_cons, List.lookup_cons, ih]
      cases name == entry.1 <;> rfl

/-- A fitting bucket of an absent name is empty. -/
theorem Registered.empty (registered : Registered mm caches) {name : CString}
    (fits : BucketFits mm name) (missing : caches.lookup name = none) :
    mm.zoneHash.hashList (bucketOf zoneHashSize name) = [] := by
  rcases fits with empty | ⟨hn, member, same⟩
  · exact empty
  · rw [registered.holds.buckets] at member
    obtain ⟨entry, inside, rfl⟩ := List.mem_map.mp member
    have stored := List.mem_of_mem_filter inside
    rw [registered.holds.keys entry stored,
      strcmpEq_strncpyKey entry.1.noNul name.noNul (registered.holds.short entry stored)] at same
    have equal : entry.1 = name := CString.ext (by simpa using same)
    obtain ⟨cache, old, rfl⟩ := List.mem_map.mp stored
    exact absurd (List.mem_map_of_mem old) (equal ▸ lookup_eq_none.mp missing)

theorem Registered.nonempty (registered : Registered mm caches) {name : CString} {mzi : Nat}
    (found : caches.lookup name = some mzi) :
    mm.zoneHash.hashList (bucketOf zoneHashSize name) ≠ [] := by
  intro empty
  rw [registered.holds.buckets, List.map_eq_nil_iff, List.filter_eq_nil_iff] at empty
  have shared := empty _ (List.mem_map_of_mem (mem_of_lookup found))
  rw [registered.size] at shared
  simp at shared

/-- In a fitting bucket the search answers the cache of the name, or nothing. -/
theorem Registered.search (registered : Registered mm caches) {name : CString}
    (small : name.bytes.length < 2 ^ 31) (fits : BucketFits mm name) :
    hashSearch mm.zoneHash name.bytes = some (((caches.lookup name).map hashNodeOf).getD 0) := by
  rw [registered.holds.search small, lookup_hashNode]
  cases found : caches.lookup name with
  | some mzi => rfl
  | none =>
      have empty := registered.empty fits found
      rw [registered.holds.buckets, ← registered.size] at empty
      rw [sharing, empty]
      rfl

theorem ZoneSpace.release_dead {stale : Nat} (dead : stale ∉ mm.live) : mm.release stale = mm := by
  rw [ZoneSpace.release, List.erase_of_not_mem dead]

/-- A search of an allowed name answers as the history says. -/
theorem Registered.mmSearchZone (registered : Registered mm caches) {name : CString}
    (small : name.bytes.length < 2 ^ 31) (fits : BucketFits mm name) :
    mmSearchZone mm name = some ((caches.lookup name).getD 0) := by
  rw [Mmspace.mmSearchZone, registered.search small fits]
  cases caches.lookup name with
  | none => rfl
  | some mzi =>
      have real : hashNodeOf mzi ≠ 0 := Nat.succ_ne_zero _
      have back : convZoneHashNode (hashNodeOf mzi) = mzi := Nat.add_sub_cancel mzi 152
      simp only [Option.bind_eq_bind, Option.bind_some, Option.map_some, Option.getD_some, real, if_false,
        back]

/-- A creation of an allowed name adds its cache to the history, or it changes nothing. -/
theorem Registered.mmCacheCreate (registered : Registered mm caches) {name : CString} {objSize : Nat}
    {mem : Option Nat} {stale : Nat}
    (allowed : (ZoneCall.create name objSize mem stale).Allowed cfg (mm, caches)) :
    ∃ next zone, mmCacheCreate cfg mm name objSize mem stale = some (next, zone) ∧
      Registered next (if zone = 0 then caches else caches ++ [(name, zone)]) ∧
      Answers cfg caches zone (.create name objSize mem stale) := by
  obtain ⟨small, fits, memory⟩ := allowed
  unfold Mmspace.mmCacheCreate
  rw [registered.search small fits]
  cases found : caches.lookup name with
  | some mzi =>
      have full := registered.nonempty found
      rw [if_neg fun reaches => full reaches.1] at memory
      have present : name ∈ caches.map Prod.fst := List.mem_map_of_mem (mem_of_lookup found)
      refine ⟨mm, 0, ?_, registered, fun _ _ => iff_of_true rfl present⟩
      simp [hashNodeOf, ZoneSpace.release_dead memory]
  | none =>
      have empty := registered.empty fits found
      have absent := lookup_eq_none.mp found
      by_cases valid : ValidSize cfg objSize
      · rw [if_pos ⟨empty, valid⟩] at memory
        cases mem with
        | none => exact ⟨mm, 0, by simp [valid], registered, fun _ given => absurd given (by simp)⟩
        | some mzi =>
            obtain ⟨short, real, fresh⟩ := memory mzi rfl
            rw [registered.live] at fresh
            have unlinked : hashNodeOf mzi ∉
                (caches.map fun entry => (entry.1, hashNodeOf entry.2)).map Prod.snd := by
              intro member
              rw [List.map_map, List.mem_map] at member
              obtain ⟨entry, inside, same⟩ := member
              have equal : entry.2 = mzi := by simpa [hashNodeOf] using same
              exact fresh (equal ▸ List.mem_map_of_mem inside)
            obtain ⟨table, inserted, holds, size⟩ := registered.holds.insert short unlinked
            let zone : Mmcache := ⟨roundedObjSize objSize, zoneCacheSize cfg objSize⟩
            refine ⟨⟨table, mm.zoneList ++ [mzi], Function.update mm.zones mzi zone, mzi :: mm.live⟩, mzi,
              ?_, ?_, fun _ _ => iff_of_false real absent⟩
            · simp only [Option.bind_eq_bind, Option.bind_some, Option.map_none, Option.getD_none, ne_eq,
                not_true_eq_false, if_false, valid, inserted, zone]
              rfl
            · rw [if_neg real]
              refine ⟨by simpa using holds, size.trans registered.size, ?_, ?_, ?_, ?_, ?_⟩
              · simp [registered.zoneList]
              · intro other
                simp [registered.live, or_comm]
              · intro entry member
                rcases List.mem_append.mp member with old | new
                · exact registered.real entry old
                · rw [List.mem_singleton.mp new]
                  exact real
              · rw [List.map_append]
                exact registered.names.append (List.nodup_singleton _)
                  (List.disjoint_singleton.mpr absent)
              · rw [List.map_append]
                exact registered.records.append (List.nodup_singleton _)
                  (List.disjoint_singleton.mpr fresh)
      · rw [if_neg fun reaches => valid reaches.2] at memory
        refine ⟨mm, 0, ?_, registered, fun right => absurd right valid⟩
        simp [valid, ZoneSpace.release_dead memory]

/-- An allowed call answers as the history says and keeps the registry. -/
theorem Registered.call (registered : Registered mm caches) {call : ZoneCall}
    (allowed : call.Allowed cfg (mm, caches)) :
    ∃ next later zone, zoneCall cfg call mm = some (next, zone) ∧
      zoneStep cfg call (mm, caches) = some (next, later) ∧ Registered next later ∧
      Answers cfg caches zone call := by
  cases call with
  | create name objSize mem stale =>
      obtain ⟨next, zone, run, kept, answers⟩ := registered.mmCacheCreate allowed
      exact ⟨next, _, zone, run, by simp [zoneStep, zoneCall, run], kept, answers⟩
  | search name =>
      have run := registered.mmSearchZone allowed.1 allowed.2
      exact ⟨mm, caches, _, by simp [zoneCall, run], by simp [zoneStep, zoneCall, run], registered, rfl⟩

theorem emptyZones_registered : Registered emptyZones [] := by
  refine ⟨⟨by decide, ?_, by simp, by simp⟩, rfl, rfl, ?_, by simp, List.nodup_nil, List.nodup_nil⟩
  · intro hash
    rfl
  · intro mzi
    rfl

/-- After every run of allowed calls the next call finds the cache of its own name, or none. -/
theorem zoneCalls_registry (cfg : MmConfig) (calls : List ZoneCall) (next : ZoneCall)
    (meets : Meets (zoneStep cfg) (ZoneCall.Allowed cfg) (calls ++ [next]) (emptyZones, [])) :
    ∃ mm caches after zone, exec (zoneStep cfg) calls (emptyZones, []) = some (mm, caches) ∧
      zoneCall cfg next mm = some (after, zone) ∧ Answers cfg caches zone next ∧
      ∀ name other mzi, caches.lookup name = some mzi → caches.lookup other = some mzi →
        name = other := by
  obtain ⟨before, last⟩ := meets_append.mp meets
  obtain ⟨⟨mm, caches⟩, run, registered⟩ := @exec_invariant _ _ (zoneStep cfg) (ZoneCall.Allowed cfg)
    (fun state => Registered state.1 state.2) (by
      intro call state held allowed
      obtain ⟨after, later, _, _, stepped, kept, _⟩ := held.call allowed
      exact ⟨(after, later), stepped, kept⟩) calls (emptyZones, []) emptyZones_registered before
  obtain ⟨after, _, zone, answer, _, _, answers⟩ := registered.call (last _ run).1
  refine ⟨mm, caches, after, zone, run, answer, answers, ?_⟩
  intro name other mzi first second
  have same := List.inj_on_of_nodup_map registered.records (mem_of_lookup first) (mem_of_lookup second)
    rfl
  exact congrArg Prod.fst same

theorem zoneA_noNul : (0 : UInt8) ∉ [97] := by decide

/-- The first name is alone in its bucket; the two others are anagrams and share one. -/
def zoneA : CString := ⟨[97], zoneA_noNul⟩

def zoneAB : CString := ⟨[97, 98], by decide⟩

def zoneBA : CString := ⟨[98, 97], by decide⟩

def smallPages : MmConfig := ⟨1048576, 4096, 16⟩

/-- Two caches with names in different buckets are found again. -/
theorem zoneCalls_registry_two :
    ∃ mm caches after zone, exec (zoneStep smallPages)
        [.create zoneA 8 (some 4096) 0, .create zoneAB 8 (some 8192) 0] (emptyZones, []) =
          some (mm, caches) ∧
      zoneCall smallPages (.search zoneAB) mm = some (after, zone) ∧
      Answers smallPages caches zone (.search zoneAB) ∧
      ∀ name other mzi, caches.lookup name = some mzi → caches.lookup other = some mzi →
        name = other :=
  zoneCalls_registry smallPages [.create zoneA 8 (some 4096) 0, .create zoneAB 8 (some 8192) 0]
    (.search zoneAB) (by decide +kernel)

/-- The search of an anagram finds the other cache, and its creation is refused. -/
theorem zoneCalls_anagram :
    ∃ state ∈ exec (zoneStep smallPages) [.create zoneAB 8 (some 4096) 0] (emptyZones, []),
      (∃ result ∈ zoneCall smallPages (.search zoneBA) state.1,
        ¬ Answers smallPages state.2 result.2 (.search zoneBA)) ∧
      ∃ result ∈ zoneCall smallPages (.create zoneBA 8 (some 8192) 0) state.1,
        ¬ Answers smallPages state.2 result.2 (.create zoneBA 8 (some 8192) 0) := by
  decide +kernel

end Syslib.Mmspace
