import Syslib.Hash.Table
import Syslib.Library.IntrusiveLists
import Syslib.Library.Runs

namespace Syslib.Hash

open IntrusiveLists Runs

/-- The named list is only asked whether it is empty; the node leaves the list that holds it. -/
def hashRemove (ht : HashTable) (key : List UInt8) : Option (HashTable × Int) :=
  if ht.bucketSize = 0 then some (ht, -1)
  else do
    let hash ← hashValue key ht.bucketSize
    let hn ← searchBucket ht.hashKey key (ht.hashList (hash % 2 ^ 32)) 0
    if hn = 0 then some (ht, -1)
    else if ht.hashList hash = [] then some (ht, -1)
    else some ({ ht with hashList := removeNode ht.hashList hn }, 0)

/-- The caller fills in the key field before it inserts the node. -/
inductive Call where
  | insert (hn : Nat) (name : CString) (field : List UInt8)
  | search (name : CString)
  | remove (name : CString)

/-- The answer is the return value, for a search the address of the node. -/
def callStep : Call → HashTable → Option (HashTable × Int)
  | .insert hn _ field, ht => hashInsert { ht with hashKey := Function.update ht.hashKey hn field } hn
  | .search name, ht => (hashSearch ht name.bytes).map fun hn : Nat => (ht, (hn : Int))
  | .remove name, ht => hashRemove ht name.bytes

/-- The nodes inserted under each key and not removed since. -/
def Call.after : Call → Entries → Entries
  | .insert hn name _, entries => entries ++ [(name, hn)]
  | .search _, entries => entries
  | .remove name, entries => entries.filter fun entry => entry.1 ≠ name

structure Trace where
  table : HashTable
  entries : Entries

def traceStep (call : Call) (trace : Trace) : Option Trace := do
  let (table, _) ← callStep call trace.table
  some ⟨table, call.after trace.entries⟩

/-- The node is not in the table, and its key field holds a short name that the table does not have. -/
def Call.Fits : Call → Trace → Prop
  | .insert hn name field, trace => hn ≠ 0 ∧ hn ∉ trace.entries.map Prod.snd ∧
      name ∉ trace.entries.map Prod.fst ∧ name.bytes.length < hashKeyLen ∧
      name.bytes ++ [0] <+: field
  | .search name, _ => name.bytes.length < 2 ^ 31
  | .remove name, _ => name.bytes.length < 2 ^ 31

/-- A present key has a bucket index that fits an `unsigned`; the bucket of an absent key is empty. -/
def Call.Clear : Call → Trace → Prop
  | .insert _ _ _, _ => True
  | .search name, trace =>
      if name ∈ trace.entries.map Prod.fst then bucketOf trace.table.bucketSize name < 2 ^ 32
      else trace.table.hashList (bucketOf trace.table.bucketSize name % 2 ^ 32) = []
  | .remove name, trace =>
      if name ∈ trace.entries.map Prod.fst then bucketOf trace.table.bucketSize name < 2 ^ 32
      else trace.table.hashList (bucketOf trace.table.bucketSize name % 2 ^ 32) = [] ∨
        trace.table.hashList (bucketOf trace.table.bucketSize name) = []

instance Call.Fits.decidable (call : Call) (trace : Trace) : Decidable (call.Fits trace) := by
  cases call <;> unfold Call.Fits <;> infer_instance

instance Call.Clear.decidable (call : Call) (trace : Trace) : Decidable (call.Clear trace) := by
  cases call <;> unfold Call.Clear <;> infer_instance

/-- The calls answer as a map does, and a removal unlinks the node of the key and no other one. -/
def Call.Right : Call → Trace → Prop
  | .insert hn name field, trace => callStep (.insert hn name field) trace.table =
      some ({ trace.table with
        hashList := pushBack trace.table.hashList (bucketOf trace.table.bucketSize name) hn
        hashKey := Function.update trace.table.hashKey hn field }, 0)
  | .search name, trace => callStep (.search name) trace.table =
      some (trace.table, (((trace.entries.lookup name).getD 0 : Nat) : Int))
  | .remove name, trace => callStep (.remove name) trace.table =
      match trace.entries.lookup name with
      | some hn => some ({ trace.table with hashList := removeNode trace.table.hashList hn }, 0)
      | none => some (trace.table, -1)

/-- Every entry is in the bucket of its name, and its key field holds this name. -/
structure Trace.Stored (trace : Trace) : Prop where
  positive : 0 < trace.table.bucketSize
  buckets : ∀ hash, trace.table.hashList hash =
    (trace.entries.filter fun entry => bucketOf trace.table.bucketSize entry.1 = hash).map Prod.snd
  keys : ∀ entry ∈ trace.entries, ∃ more, trace.table.hashKey entry.2 = entry.1.bytes ++ 0 :: more
  names : (trace.entries.map Prod.fst).Nodup
  nodes : (trace.entries.map Prod.snd).Nodup
  real : 0 ∉ trace.entries.map Prod.snd

/-- The search walks the bucket of the truncated index. -/
theorem Trace.Stored.search {trace : Trace} (stored : trace.Stored) (name : CString) (hash : Nat) :
    searchBucket trace.table.hashKey name.bytes (trace.table.hashList hash) 0 = some
      ((if bucketOf trace.table.bucketSize name = hash then trace.entries.lookup name else none).getD
        ((trace.table.hashList hash).getLastD 0)) := by
  have compared : ∀ entry ∈ trace.entries.filter fun entry =>
        bucketOf trace.table.bucketSize entry.1 = hash,
      strcmpEq (trace.table.hashKey entry.2) name.bytes = some (decide (entry.1.bytes = name.bytes)) := by
    intro entry member
    obtain ⟨more, field⟩ := stored.keys entry (List.mem_of_mem_filter member)
    rw [field]
    exact strcmpEq_terminated entry.1.noNul name.noNul more
  rw [stored.buckets, searchBucket_entries compared]
  congr 2
  split_ifs with here
  · subst here
    exact lookup_sharing trace.table.bucketSize name trace.entries
  · rw [lookup_eq_none]
    intro inside
    obtain ⟨entry, member, rfl⟩ := List.mem_map.mp inside
    exact here (by simpa using (List.mem_filter.mp member).2)

namespace Trace.Stored

variable {trace : Trace}

theorem hash (stored : trace.Stored) {name : CString} (small : name.bytes.length < 2 ^ 31) :
    trace.table.bucketSize ≠ 0 ∧
      hashValue name.bytes trace.table.bucketSize = some (bucketOf trace.table.bucketSize name) := by
  refine ⟨Nat.ne_of_gt stored.positive, ?_⟩
  rw [hashValue, if_pos small]
  rfl

/-- The node of an entry is in the bucket of its name and in no other one. -/
theorem member (stored : trace.Stored) {name : CString} {hn hash : Nat}
    (entry : (name, hn) ∈ trace.entries) :
    hn ∈ trace.table.hashList hash ↔ bucketOf trace.table.bucketSize name = hash := by
  rw [stored.buckets]
  constructor
  · intro inside
    obtain ⟨other, kept, same⟩ := List.mem_map.mp inside
    obtain ⟨old, here⟩ := List.mem_filter.mp kept
    obtain rfl := List.inj_on_of_nodup_map stored.nodes old entry same
    exact of_decide_eq_true here
  · rintro rfl
    exact List.mem_map.mpr ⟨_, List.mem_filter.mpr ⟨entry, by simp⟩, rfl⟩

theorem nonzero (stored : trace.Stored) {hash hn : Nat} (inside : hn ∈ trace.table.hashList hash) :
    hn ≠ 0 := by
  rintro rfl
  rw [stored.buckets] at inside
  obtain ⟨entry, kept, zero⟩ := List.mem_map.mp inside
  exact stored.real (zero ▸ List.mem_map_of_mem (List.mem_of_mem_filter kept))

/-- The last node of a bucket is the null pointer only when the bucket is empty. -/
theorem last_eq_zero (stored : trace.Stored) (hash : Nat) :
    (trace.table.hashList hash).getLastD 0 = 0 ↔ trace.table.hashList hash = [] := by
  constructor
  · intro zero
    by_contra some_
    have last := List.getLast_mem some_
    rw [List.getLastD_eq_getLast?, List.getLast?_eq_some_getLast some_, Option.getD_some] at zero
    exact stored.nonzero last zero
  · intro empty
    rw [empty]
    rfl

theorem search_eq (stored : trace.Stored) {name : CString} (small : name.bytes.length < 2 ^ 31) :
    callStep (.search name) trace.table = some (trace.table,
      (((if bucketOf trace.table.bucketSize name < 2 ^ 32 then trace.entries.lookup name else none).getD
        ((trace.table.hashList (bucketOf trace.table.bucketSize name % 2 ^ 32)).getLastD 0) : Nat) :
          Int)) := by
  obtain ⟨positive, hashed⟩ := stored.hash small
  have whole : bucketOf trace.table.bucketSize name = bucketOf trace.table.bucketSize name % 2 ^ 32 ↔
      bucketOf trace.table.bucketSize name < 2 ^ 32 := by omega
  rw [callStep, hashSearch, if_neg positive, hashed]
  simp only [Option.bind_eq_bind, Option.bind_some, stored.search, whole, Option.map_some]

/-- A search answers as the map does exactly when its bucket does not mislead it. -/
theorem search_right (stored : trace.Stored) {name : CString} (small : name.bytes.length < 2 ^ 31) :
    (Call.search name).Right trace ↔ (Call.search name).Clear trace := by
  have none_absent := @lookup_eq_none name trace.entries
  rw [Call.Right, stored.search_eq small, Option.some.injEq, Prod.mk.injEq, Int.natCast_inj, Call.Clear]
  cases found : trace.entries.lookup name with
  | none =>
      rw [if_neg (none_absent.mp found)]
      simpa using stored.last_eq_zero _
  | some hn =>
      have entry := mem_of_lookup found
      have present : name ∈ trace.entries.map Prod.fst := List.mem_map_of_mem entry
      rw [if_pos present]
      split_ifs with small_
      · simp only [Option.getD_some, true_and, small_]
      · simp only [Option.getD_none, Option.getD_some, true_and, small_, iff_false]
        intro same
        by_cases empty : trace.table.hashList (bucketOf trace.table.bucketSize name % 2 ^ 32) = []
        · rw [empty] at same
          exact stored.real (by
            rw [List.getLastD_nil] at same
            exact same ▸ List.mem_map_of_mem entry)
        · have last := List.getLast_mem empty
          rw [List.getLastD_eq_getLast?, List.getLast?_eq_some_getLast empty, Option.getD_some] at same
          have here := (stored.member entry).mp (same ▸ last)
          omega

/-- A removal that finds no node or an empty list in its bucket answers `-1`. -/
theorem remove_eq (stored : trace.Stored) {name : CString} (small : name.bytes.length < 2 ^ 31) :
    callStep (.remove name) trace.table =
      let hn := (if bucketOf trace.table.bucketSize name < 2 ^ 32 then trace.entries.lookup name
        else none).getD
          ((trace.table.hashList (bucketOf trace.table.bucketSize name % 2 ^ 32)).getLastD 0)
      if hn = 0 ∨ trace.table.hashList (bucketOf trace.table.bucketSize name) = []
      then some (trace.table, -1)
      else some ({ trace.table with hashList := removeNode trace.table.hashList hn }, 0) := by
  obtain ⟨positive, hashed⟩ := stored.hash small
  have whole : bucketOf trace.table.bucketSize name = bucketOf trace.table.bucketSize name % 2 ^ 32 ↔
      bucketOf trace.table.bucketSize name < 2 ^ 32 := by omega
  rw [callStep, hashRemove, if_neg positive, hashed]
  simp only [Option.bind_eq_bind, Option.bind_some, stored.search, whole]
  generalize Option.getD _ _ = hn
  by_cases zero : hn = 0
  · rw [if_pos zero, if_pos (Or.inl zero)]
  · by_cases empty : trace.table.hashList (bucketOf trace.table.bucketSize name) = []
    · rw [if_neg zero, if_pos empty, if_pos (Or.inr empty)]
    · rw [if_neg zero, if_neg empty, if_neg (by simp [zero, empty])]

/-- A removal unlinks the node of its key exactly when its bucket does not mislead it. -/
theorem remove_right (stored : trace.Stored) {name : CString} (small : name.bytes.length < 2 ^ 31) :
    (Call.remove name).Right trace ↔ (Call.remove name).Clear trace := by
  have none_absent := @lookup_eq_none name trace.entries
  rw [Call.Right, stored.remove_eq small, Call.Clear]
  dsimp only
  cases found : trace.entries.lookup name with
  | none =>
      have nothing : (if bucketOf trace.table.bucketSize name < 2 ^ 32 then (none : Option Nat)
          else none) = none := ite_self none
      rw [if_neg (none_absent.mp found), nothing, Option.getD_none]
      simp only [stored.last_eq_zero]
      split_ifs with quiet
      · exact iff_of_true rfl quiet
      · exact iff_of_false (by simp) quiet
  | some hn =>
      have entry := mem_of_lookup found
      have present : name ∈ trace.entries.map Prod.fst := List.mem_map_of_mem entry
      have inside : hn ∈ trace.table.hashList (bucketOf trace.table.bucketSize name) :=
        (stored.member entry).mpr rfl
      have filled := List.ne_nil_of_mem inside
      rw [if_pos present]
      simp only [filled, or_false]
      by_cases small_ : bucketOf trace.table.bucketSize name < 2 ^ 32
      · rw [if_pos small_, Option.getD_some, if_neg (stored.nonzero inside)]
        exact iff_of_true rfl small_
      · simp only [small_, if_false, Option.getD_none, iff_false]
        split_ifs with missing
        · simp
        · simp only [Option.some.injEq, Prod.mk.injEq, HashTable.mk.injEq, true_and, and_true]
          intro same
          have other : (trace.table.hashList
              (bucketOf trace.table.bucketSize name % 2 ^ 32)).getLastD 0 ≠ hn := by
            intro equal
            have some_ : trace.table.hashList (bucketOf trace.table.bucketSize name % 2 ^ 32) ≠ [] :=
              fun empty => missing ((stored.last_eq_zero _).mpr empty)
            have last := List.getLast_mem some_
            rw [List.getLastD_eq_getLast?, List.getLast?_eq_some_getLast some_, Option.getD_some] at equal
            have here := (stored.member entry).mp (equal ▸ last)
            omega
          have stays := congrFun same (bucketOf trace.table.bucketSize name)
          have nodup : (trace.table.hashList (bucketOf trace.table.bucketSize name)).Nodup := by
            rw [stored.buckets]
            exact (stored.nodes.sublist ((List.filter_sublist).map _))
          have left := (nodup.mem_erase_iff (a := hn)).mpr ⟨other.symm, inside⟩
          rw [removeNode, removeNode] at stays
          rw [stays] at left
          exact (nodup.mem_erase_iff.mp left).1 rfl

theorem insert_right (stored : trace.Stored) {hn : Nat} {name : CString} {field : List UInt8}
    (fits : (Call.insert hn name field).Fits trace) : (Call.insert hn name field).Right trace := by
  obtain ⟨-, -, -, short, more, rfl⟩ := fits
  rw [List.append_assoc, List.singleton_append]
  have small : name.bytes.length < 2 ^ 31 := Nat.lt_trans short (by decide)
  obtain ⟨positive, hashed⟩ := stored.hash small
  simp only [Call.Right, callStep, hashInsert, if_neg positive, Function.update_self,
    readKey_terminated name.noNul, Option.bind_eq_bind, Option.bind_some, hashed]
  rfl

/-- A new entry joins the bucket of its name. -/
theorem inserted (stored : trace.Stored) {hn : Nat} {name : CString} {field : List UInt8}
    (fits : (Call.insert hn name field).Fits trace) : Trace.Stored
      ⟨{ trace.table with
        hashList := pushBack trace.table.hashList (bucketOf trace.table.bucketSize name) hn
        hashKey := Function.update trace.table.hashKey hn field }, trace.entries ++ [(name, hn)]⟩ := by
  obtain ⟨real, node, absent, -, more, rfl⟩ := fits
  rw [List.append_assoc, List.singleton_append]
  constructor
  · exact stored.positive
  · intro hash
    by_cases here : hash = bucketOf trace.table.bucketSize name
    · subst here
      simp [pushBack, stored.buckets]
    · simp [pushBack, stored.buckets, here, Ne.symm here]
  · intro entry member
    rcases List.mem_append.mp member with old | new
    · have apart : entry.2 ≠ hn := fun same => node (same ▸ List.mem_map_of_mem old)
      obtain ⟨rest, held⟩ := stored.keys entry old
      exact ⟨rest, (Function.update_of_ne apart _ _).trans held⟩
    · rw [List.mem_singleton.mp new]
      exact ⟨more, Function.update_self _ _ _⟩
  · rw [List.map_append]
    refine List.nodup_append.mpr ⟨stored.names, List.nodup_singleton _, ?_⟩
    intro old member new last equal
    have same : old = name := equal.trans (List.mem_singleton.mp last)
    exact absent (same ▸ member)
  · rw [List.map_append]
    refine List.nodup_append.mpr ⟨stored.nodes, List.nodup_singleton _, ?_⟩
    intro old member new last equal
    have same : old = hn := equal.trans (List.mem_singleton.mp last)
    exact node (same ▸ member)
  · rw [List.map_append, List.mem_append, not_or]
    exact ⟨stored.real, fun zero => real (List.mem_singleton.mp zero).symm⟩

/-- The entries without one name are in the buckets without its node. -/
theorem removed (stored : trace.Stored) {hn : Nat} {name : CString} (entry : (name, hn) ∈ trace.entries) :
    Trace.Stored ⟨{ trace.table with hashList := removeNode trace.table.hashList hn },
      trace.entries.filter fun entry => entry.1 ≠ name⟩ := by
  have sub : (trace.entries.filter fun entry => entry.1 ≠ name).Sublist trace.entries :=
    List.filter_sublist
  have same : ∀ other ∈ trace.entries, (other.2 ≠ hn ↔ other.1 ≠ name) := by
    intro other member
    constructor
    · rintro apart equal
      exact apart (congrArg Prod.snd (List.inj_on_of_nodup_map stored.names member entry equal))
    · rintro apart equal
      exact apart (congrArg Prod.fst (List.inj_on_of_nodup_map stored.nodes member entry equal))
  constructor
  · exact stored.positive
  · intro hash
    have nodup : (trace.table.hashList hash).Nodup := by
      rw [stored.buckets]
      exact stored.nodes.sublist (List.filter_sublist.map _)
    change (trace.table.hashList hash).erase hn = _
    rw [nodup.erase_eq_filter, stored.buckets, List.filter_map, List.filter_filter, List.filter_filter]
    congr 1
    apply List.filter_congr
    intro other member
    have turn := same other member
    simp only [Function.comp_apply, ne_eq] at turn ⊢
    rw [Bool.and_comm]
    congr 1
    rw [Bool.eq_iff_iff]
    simpa using turn
  · intro other member
    exact stored.keys other (sub.subset member)
  · exact stored.names.sublist (sub.map _)
  · exact stored.nodes.sublist (sub.map _)
  · intro zero
    exact stored.real ((sub.map _).subset zero)

/-- A right call keeps the table as the map asks for. -/
theorem after_right (stored : trace.Stored) {call : Call} (fits : call.Fits trace)
    (right : call.Right trace) : ∃ next, traceStep call trace = some next ∧ next.Stored := by
  cases call with
  | insert hn name field =>
      rw [Call.Right] at right
      exact ⟨_, by rw [traceStep, right]; rfl, stored.inserted fits⟩
  | search name =>
      rw [Call.Right] at right
      exact ⟨_, by rw [traceStep, right]; rfl, stored⟩
  | remove name =>
      rw [Call.Right] at right
      cases found : trace.entries.lookup name with
      | none =>
          rw [found] at right
          have absent := lookup_eq_none.mp found
          have whole : (trace.entries.filter fun entry => entry.1 ≠ name) = trace.entries := by
            rw [List.filter_eq_self]
            intro entry member
            exact decide_eq_true fun same => absent (same ▸ List.mem_map_of_mem member)
          refine ⟨⟨trace.table, trace.entries⟩, ?_, stored⟩
          rw [traceStep, right, Option.bind_eq_bind, Option.bind_some, Call.after, whole]
      | some hn =>
          rw [found] at right
          exact ⟨_, by rw [traceStep, right]; rfl, stored.removed (mem_of_lookup found)⟩

end Trace.Stored

/-- A call answers as a map does exactly when its bucket does not mislead it. -/
theorem Call.right_iff {trace : Trace} (stored : trace.Stored) {call : Call} (fits : call.Fits trace) :
    call.Right trace ↔ call.Clear trace := by
  cases call with
  | insert hn name field => exact ⟨fun _ => trivial, fun _ => stored.insert_right fits⟩
  | search name => exact stored.search_right fits
  | remove name => exact stored.remove_right fits

/-- The table has empty buckets at first. -/
def emptyTrace (bucketSize : Nat) (hashKey : Nat → List UInt8) : Trace :=
  ⟨⟨bucketSize, fun _ => [], hashKey⟩, []⟩

theorem emptyTrace_stored {bucketSize : Nat} (positive : 0 < bucketSize) (hashKey : Nat → List UInt8) :
    (emptyTrace bucketSize hashKey).Stored :=
  ⟨positive, fun _ => rfl, fun _ member => absurd member List.not_mem_nil, List.nodup_nil, List.nodup_nil,
    List.not_mem_nil⟩

/-- A run that no bucket misled has answered as a map, and so does its next call unless it is misled. -/
theorem hashCalls_map {bucketSize : Nat} (positive : 0 < bucketSize) (hashKey : Nat → List UInt8)
    (calls : List Call)
    (meets : Meets traceStep (fun call trace => call.Fits trace ∧ call.Clear trace) calls
      (emptyTrace bucketSize hashKey)) :
    ∃ trace, exec traceStep calls (emptyTrace bucketSize hashKey) = some trace ∧ trace.Stored ∧
      ∀ call : Call, call.Fits trace → (call.Right trace ↔ call.Clear trace) := by
  have keeps : ∀ (call : Call) (trace : Trace), trace.Stored → call.Fits trace ∧ call.Clear trace →
      ∃ next, traceStep call trace = some next ∧ next.Stored := by
    intro call trace stored allowed
    exact stored.after_right allowed.1 ((Call.right_iff stored allowed.1).mpr allowed.2)
  obtain ⟨trace, run, stored⟩ := exec_invariant keeps calls _ (emptyTrace_stored positive hashKey) meets
  exact ⟨trace, run, stored, fun call fits => Call.right_iff stored fits⟩

def nameA : CString := ⟨[97], by decide⟩

def nameB : CString := ⟨[98], by decide⟩

/-- The node of the only key in a table of one bucket is found and removed. -/
theorem hashCalls_map_single :
    ∃ trace, exec traceStep [.insert 64 nameA [97, 0], .search nameA, .remove nameA, .search nameB]
        (emptyTrace 1 fun _ => []) = some trace ∧ trace.Stored := by
  obtain ⟨trace, run, stored, -⟩ := @hashCalls_map 1 (by decide) (fun _ => [])
    [.insert 64 nameA [97, 0], .search nameA, .remove nameA, .search nameB] (by decide)
  exact ⟨trace, run, stored⟩

/-- The search for a second key in the bucket finds the node of the first one, and its removal unlinks this node. -/
theorem hashCalls_misled :
    ∃ trace, exec traceStep [.insert 64 nameA [97, 0]] (emptyTrace 1 fun _ => []) = some trace ∧
      (Call.search nameB).Fits trace ∧ nameB ∉ trace.entries.map Prod.fst ∧
      callStep (.search nameB) trace.table = some (trace.table, 64) ∧
      ∃ table, callStep (.remove nameB) trace.table = some (table, 0) ∧
        callStep (.search nameA) table = some (table, 0) :=
  ⟨_, rfl, by decide, by decide, rfl, _, rfl, rfl⟩

end Syslib.Hash
