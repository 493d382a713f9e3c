import Mathlib.Algebra.Group.Nat.Defs
import Mathlib.Data.List.Basic
import Mathlib.Order.Basic

namespace Syslib.Hash

/-- A string in C has its bytes before the terminating zero. -/
@[ext] structure CString where
  bytes : List UInt8
  noNul : 0 ∉ bytes
  deriving DecidableEq

/-- This is `HASH_KEY_LEN`. -/
def hashKeyLen : Nat := 64

/-- This is `struct hash_table` with the memory of the key fields; a bucket lists its nodes. -/
structure HashTable where
  bucketSize : Nat
  hashList : Nat → List Nat
  hashKey : Nat → List UInt8

/-- A `char` is signed, so the sum takes its upper half as negative. -/
def charWord (c : UInt8) : Nat := if c < 128 then c.toNat else c.toNat + (2 ^ 64 - 256)

/-- The index of the loop is an `int`, which a longer string overflows. -/
def hashValue (key : List UInt8) (bucketSize : Nat) : Option Nat :=
  if key.length < 2 ^ 31 then
    some (key.foldl (fun sum c => (sum + charWord c) % 2 ^ 64) 0 % bucketSize)
  else none

/-- This is `strncpy` into the key field, which gets no zero behind a long name. -/
def strncpyKey (name : List UInt8) : List UInt8 :=
  name.take hashKeyLen ++ List.replicate (hashKeyLen - name.length) 0

/-- A key without a zero lets the reader run out of the field. -/
def readKey : List UInt8 → Option (List UInt8)
  | [] => none
  | c :: field => if c = 0 then some [] else (readKey field).map (c :: ·)

/-- This is `strcmp(hash_key, key) == 0`; the comparison may run out of the field as well. -/
def strcmpEq : List UInt8 → List UInt8 → Option Bool
  | [], _ => none
  | c :: _, [] => some (c = 0)
  | c :: field, k :: key => if c = k then strcmpEq field key else some false

def hashInsert (ht : HashTable) (hn : Nat) : Option (HashTable × Int) :=
  if ht.bucketSize = 0 then some (ht, -1)
  else do
    let key ← readKey (ht.hashKey hn)
    let hash ← hashValue key ht.bucketSize
    some ({ ht with hashList := Function.update ht.hashList hash (ht.hashList hash ++ [hn]) }, 0)

/-- The loop leaves the last visited node in `hn` when no key matches. -/
def searchBucket (hashKey : Nat → List UInt8) (key : List UInt8) : List Nat → Nat → Option Nat
  | [], hn => some hn
  | node :: rest, _ => do
      if (← strcmpEq (hashKey node) key) then some node else searchBucket hashKey key rest node

def hashSearch (ht : HashTable) (key : List UInt8) : Option Nat :=
  if ht.bucketSize = 0 then some 0
  else do
    let hash ← hashValue key ht.bucketSize
    searchBucket ht.hashKey key (ht.hashList (hash % 2 ^ 32)) 0

theorem strncpyKey_short {name : List UInt8} (short : name.length < hashKeyLen) :
    ∃ more, strncpyKey name = name ++ 0 :: List.replicate more 0 := by
  obtain ⟨more, rest⟩ := Nat.exists_eq_add_of_lt short
  refine ⟨more, ?_⟩
  rw [strncpyKey, List.take_of_length_le (Nat.le_of_lt short), rest]
  have count : name.length + more + 1 - name.length = more + 1 := by omega
  rw [count, List.replicate_succ]

/-- A reader of a field stops at its first zero. -/
theorem readKey_terminated {name : List UInt8} (noNul : 0 ∉ name) (more : List UInt8) :
    readKey (name ++ 0 :: more) = some name := by
  induction name with
  | nil => simp [readKey]
  | cons c rest ih =>
      simp only [List.mem_cons, not_or] at noNul
      simp [readKey, Ne.symm noNul.1, ih noNul.2]

/-- A short name comes out of its field as it went in. -/
theorem readKey_strncpyKey {name : List UInt8} (noNul : 0 ∉ name) (short : name.length < hashKeyLen) :
    readKey (strncpyKey name) = some name := by
  obtain ⟨more, field⟩ := strncpyKey_short short
  rw [field]
  exact readKey_terminated noNul _

/-- The comparison with a terminated field decides whether the names are equal. -/
theorem strcmpEq_terminated {stored key : List UInt8} (noNul : 0 ∉ stored) (keyNoNul : 0 ∉ key)
    (more : List UInt8) : strcmpEq (stored ++ 0 :: more) key = some (decide (stored = key)) := by
  induction stored generalizing key with
  | nil =>
      cases key with
      | nil => simp [strcmpEq]
      | cons k rest =>
          simp only [List.mem_cons, not_or] at keyNoNul
          simp [strcmpEq, keyNoNul.1]
  | cons c stored ih =>
      simp only [List.mem_cons, not_or] at noNul
      cases key with
      | nil => simp [strcmpEq, Ne.symm noNul.1]
      | cons k rest =>
          simp only [List.mem_cons, not_or] at keyNoNul
          simp only [List.cons_append, strcmpEq, ih noNul.2 keyNoNul.2, List.cons.injEq]
          by_cases same : c = k <;> simp [same]

theorem strcmpEq_strncpyKey {stored key : List UInt8} (noNul : 0 ∉ stored) (keyNoNul : 0 ∉ key)
    (short : stored.length < hashKeyLen) :
    strcmpEq (strncpyKey stored) key = some (decide (stored = key)) := by
  obtain ⟨more, field⟩ := strncpyKey_short short
  rw [field]
  exact strcmpEq_terminated noNul keyNoNul _

/-- The entries that the table holds, in the order of their insertions. -/
abbrev Entries := List (CString × Nat)

theorem lookup_eq_none {name : CString} {entries : Entries} :
    entries.lookup name = none ↔ name ∉ entries.map Prod.fst := by
  rw [List.lookup_eq_none_iff]
  simp only [bne_iff_ne, ne_eq, List.mem_map, not_exists, not_and]
  constructor
  · intro apart entry member same
    exact apart entry member same.symm
  · intro apart entry member same
    exact apart entry member same.symm

theorem mem_of_lookup {name : CString} {hn : Nat} {entries : Entries} (found : entries.lookup name = some hn) :
    (name, hn) ∈ entries := by
  obtain ⟨before, after, rfl, -⟩ := List.lookup_eq_some_iff.mp found
  simp

/-- The bucket of a name; a name in the table is short enough for its hash. -/
def bucketOf (bucketSize : Nat) (name : CString) : Nat :=
  name.bytes.foldl (fun sum c => (sum + charWord c) % 2 ^ 64) 0 % bucketSize

/-- The entries that share the bucket of a name. -/
def sharing (bucketSize : Nat) (name : CString) (entries : Entries) : Entries :=
  entries.filter fun entry => bucketOf bucketSize entry.1 = bucketOf bucketSize name

/-- The table holds these entries under their short names. -/
structure Holds (ht : HashTable) (entries : Entries) : Prop where
  bucketSize : 0 < ht.bucketSize ∧ ht.bucketSize ≤ 2 ^ 32
  buckets : ∀ hash, ht.hashList hash =
    (entries.filter fun entry => bucketOf ht.bucketSize entry.1 = hash).map Prod.snd
  keys : ∀ entry ∈ entries, ht.hashKey entry.2 = strncpyKey entry.1.bytes
  short : ∀ entry ∈ entries, entry.1.bytes.length < hashKeyLen

variable {ht : HashTable} {entries : Entries}

/-- A bucket search finds the first entry of the name, or it ends at the last node. -/
theorem searchBucket_entries {hashKey : Nat → List UInt8} {name : CString}
    (compared : ∀ entry ∈ entries,
      strcmpEq (hashKey entry.2) name.bytes = some (decide (entry.1.bytes = name.bytes))) (hn : Nat) :
    searchBucket hashKey name.bytes (entries.map Prod.snd) hn =
      some ((entries.lookup name).getD ((entries.map Prod.snd).getLastD hn)) := by
  induction entries generalizing hn with
  | nil => rfl
  | cons entry rest ih =>
      obtain ⟨stored, node⟩ := entry
      rw [List.map_cons, searchBucket, compared (stored, node) List.mem_cons_self]
      by_cases same : stored = name
      · simp [same]
      · have differ : stored.bytes ≠ name.bytes := fun equal => same (CString.ext equal)
        have apart : (name == stored) = false := by simpa using Ne.symm same
        rw [List.lookup_cons, apart]
        have later := ih (fun other member => compared other (List.mem_cons_of_mem _ member)) node
        simp only [Option.bind_eq_bind, Option.bind_some, differ, decide_false, Bool.false_eq_true,
          if_false, later, List.getLastD_cons]

/-- Only the entries in the bucket of the name can hold the name. -/
theorem lookup_sharing (bucketSize : Nat) (name : CString) (entries : Entries) :
    (sharing bucketSize name entries).lookup name = entries.lookup name := by
  induction entries with
  | nil => rfl
  | cons entry rest ih =>
      obtain ⟨stored, node⟩ := entry
      by_cases same : name = stored
      · subst same
        simp [sharing]
      · have apart : (name == stored) = false := by simpa using same
        rw [List.lookup_cons, apart, sharing, List.filter_cons]
        split_ifs
        · rw [List.lookup_cons, apart]
          exact ih
        · exact ih

/-- A search answers the entry of the name, and for an absent name the last node of its bucket. -/
theorem Holds.search (holds : Holds ht entries) {name : CString} (small : name.bytes.length < 2 ^ 31) :
    hashSearch ht name.bytes = some ((entries.lookup name).getD
      (((sharing ht.bucketSize name entries).map Prod.snd).getLastD 0)) := by
  have positive := holds.bucketSize.1
  have below : bucketOf ht.bucketSize name % 2 ^ 32 = bucketOf ht.bucketSize name :=
    Nat.mod_eq_of_lt (Nat.lt_of_lt_of_le (Nat.mod_lt _ positive) holds.bucketSize.2)
  have hash : hashValue name.bytes ht.bucketSize = some (bucketOf ht.bucketSize name) := by
    rw [hashValue, if_pos small]
    rfl
  rw [hashSearch, if_neg (Nat.ne_of_gt positive), hash]
  simp only [Option.bind_eq_bind, Option.bind_some, below, holds.buckets]
  rw [← lookup_sharing ht.bucketSize name entries]
  apply searchBucket_entries
  intro entry member
  have stored := List.mem_of_mem_filter member
  rw [holds.keys entry stored]
  exact strcmpEq_strncpyKey entry.1.noNul name.noNul (holds.short entry stored)

/-- A new node enters the bucket of the short name in its key field. -/
theorem Holds.insert (holds : Holds ht entries) {name : CString} {hn : Nat}
    (short : name.bytes.length < hashKeyLen) (fresh : hn ∉ entries.map Prod.snd) :
    ∃ next, hashInsert { ht with hashKey := Function.update ht.hashKey hn (strncpyKey name.bytes) } hn =
        some (next, 0) ∧ Holds next (entries ++ [(name, hn)]) ∧ next.bucketSize = ht.bucketSize := by
  have hash : hashValue name.bytes ht.bucketSize = some (bucketOf ht.bucketSize name) := by
    rw [hashValue, if_pos (by unfold hashKeyLen at short; omega)]
    rfl
  refine ⟨⟨ht.bucketSize, Function.update ht.hashList (bucketOf ht.bucketSize name)
    (ht.hashList (bucketOf ht.bucketSize name) ++ [hn]),
    Function.update ht.hashKey hn (strncpyKey name.bytes)⟩, ?_, ⟨holds.bucketSize, ?_, ?_, ?_⟩, rfl⟩
  · have positive := Nat.ne_of_gt holds.bucketSize.1
    simp [hashInsert, positive, readKey_strncpyKey name.noNul short, hash]
  · intro bucket
    by_cases here : bucket = bucketOf ht.bucketSize name
    · rw [here]
      simp [holds.buckets]
    · simp [holds.buckets, here, Ne.symm here]
  · intro entry member
    rcases List.mem_append.mp member with old | new
    · have apart : entry.2 ≠ hn := fun same => fresh (same ▸ List.mem_map_of_mem old)
      exact (Function.update_of_ne apart _ _).trans (holds.keys entry old)
    · rw [List.mem_singleton.mp new]
      exact Function.update_self _ _ _
  · intro entry member
    rcases List.mem_append.mp member with old | new
    · exact holds.short entry old
    · rw [List.mem_singleton.mp new]
      exact short

end Syslib.Hash
