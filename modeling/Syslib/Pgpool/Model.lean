import Syslib.Library.IntrusiveLists
import Syslib.Misc
import Syslib.Rbtree.Model

namespace Syslib.Pgpool

open Rbtree IntrusiveLists

/-- This is `struct _pg_node` without its links; the low two bits of the first word are `using`. -/
structure PgNode where
  payloadAddr : Nat
  pgCount : Nat
  deriving DecidableEq, Repr

/-- The two link fields of a page node are one union. -/
inductive PgList where
  | freePgn
  | fln (idx : Nat)
  deriving DecidableEq, Repr

/-- This is `struct _pgpool_impl` with the memory of its page nodes. -/
structure PgpoolImpl where
  chunckLabel : Nat
  addrBegin : Nat
  addrEnd : Nat
  maxpgCount : Nat
  freelistCount : Nat
  pgSize : Nat
  chunkAddr : Nat
  chunkPgcount : Nat
  pgnTree : RbTree
  node : Nat → PgNode
  lists : PgList → List Nat
  allocCount : BitVec 64
  freeCount : BitVec 64

/-- Each evaluation of `log_2(0)` may read another value. -/
structure Junk where
  index : Nat
  roundUp : Nat
  roundDown : Nat
  link : Nat
  unlink : Nat
  deriving DecidableEq, Repr

/-- This is `PGP_CHUNK_LABEL`. -/
def pgpChunkLabel : Nat := 0xbaba2121fdfd9696

/-- The tree links stand behind the list links in a page node. -/
def rbNodeOffset : Nat := 16

def PgNode.using (node : PgNode) : Nat := node.payloadAddr % 4

def PgNode.getPayload (node : PgNode) : Nat := node.payloadAddr - node.payloadAddr % 4

def PgNode.setUsing (node : PgNode) (value : Nat) : PgNode :=
  { node with payloadAddr := node.getPayload + value }

def PgNode.setPayload (node : PgNode) (payload : Nat) : PgNode :=
  { node with payloadAddr := payload ||| node.using }

namespace PgpoolImpl

/-- No walk in the tree is longer than the number of page nodes. -/
def fuel (pgpi : PgpoolImpl) : Nat := pgpi.chunkPgcount + 4

def writeNode (pgpi : PgpoolImpl) (pgn : Nat) (node : PgNode) : PgpoolImpl :=
  { pgpi with node := Function.update pgpi.node pgn node }

/-- A null descriptor faults. -/
def fetchFreePgn (pgpi : PgpoolImpl) : Option (PgpoolImpl × Nat) :=
  match pgpi.lists .freePgn with
  | [] => none
  | pgn :: _ => some ({ pgpi with lists := removeNode pgpi.lists pgn }, pgn)

def returnFreePgn (pgpi : PgpoolImpl) (pgn : Nat) : PgpoolImpl :=
  { pgpi with lists := pushFront pgpi.lists .freePgn pgn }

/-- A list head behind the last one is outside of the array. -/
def linkFln (junk : Junk) (pgpi : PgpoolImpl) (pgn : Nat) : Option PgpoolImpl :=
  let flhIdx := log2 junk.link (pgpi.node pgn).pgCount
  if flhIdx < pgpi.freelistCount then
    some { pgpi with lists := pushFront pgpi.lists (.fln flhIdx) pgn }
  else none

/-- An empty list refuses to remove a node. -/
def unlinkFln (junk : Junk) (pgpi : PgpoolImpl) (pgn : Nat) : Option PgpoolImpl :=
  let flhIdx := log2 junk.unlink (pgpi.node pgn).pgCount
  if flhIdx < pgpi.freelistCount then
    if pgpi.lists (.fln flhIdx) = [] then some pgpi
    else some { pgpi with lists := removeNode pgpi.lists pgn }
  else none

/-- The result of `rb_insert` is not read. -/
def linkRbn (pgpi : PgpoolImpl) (pgn : Nat) : Option PgpoolImpl := do
  let filled := pgpi.pgnTree.write (pgn + rbNodeOffset) ⟨(pgpi.node pgn).getPayload, 0, 0, 0⟩
  let (pgnTree, _) ← rbInsert pgpi.fuel filled (pgn + rbNodeOffset)
  some { pgpi with pgnTree }

def unlinkRbn (pgpi : PgpoolImpl) (pgn : Nat) : Option PgpoolImpl := do
  let pgnTree ← rbRemoveNode pgpi.fuel pgpi.pgnTree (pgn + rbNodeOffset)
  some { pgpi with pgnTree }

/-- The result is null without a node for the payload. -/
def pgnFromPayload (pgpi : PgpoolImpl) (payload : Nat) : Option Nat := do
  let (rbn, _) ← rbSearch pgpi.fuel pgpi.pgnTree payload
  some (if rbn = 0 then 0 else rbn - rbNodeOffset)

/-- The search goes through the lists from `idx` on. -/
def candidate (pgpi : PgpoolImpl) (pgCount : Nat) : Nat → Nat → Option Nat
  | 0, _ => none
  | left + 1, idx =>
      match (pgpi.lists (.fln idx)).find? fun pgn =>
          pgCount ≤ (pgpi.node pgn).pgCount ∧ (pgpi.node pgn).using = 0 with
      | some pgn => some pgn
      | none => candidate pgpi pgCount left (idx + 1)

/-- The rest of the pages goes to another descriptor. -/
def splitNode (junk : Junk) (pgpi : PgpoolImpl) (candi pgCount : Nat) : Option PgpoolImpl := do
  let (pgpi, newPgn) ← pgpi.fetchFreePgn
  let first := pgpi.node candi
  let rest := (pgpi.node newPgn).setPayload (first.getPayload + pgCount * pgpi.pgSize)
  let pgpi := pgpi.writeNode newPgn { rest with pgCount := first.pgCount - pgCount }
  let pgpi := pgpi.writeNode candi { pgpi.node candi with pgCount := pgCount }
  let pgpi ← pgpi.linkRbn newPgn
  pgpi.linkFln junk newPgn

/-- The node is null when no list has one that is large enough. -/
def scanLists (junk : Junk) (pgpi : PgpoolImpl) (pgCount : Nat) : Option (PgpoolImpl × Nat) :=
  let flhIdx := log2 junk.index pgCount
  match candidate pgpi pgCount (pgpi.freelistCount - flhIdx) flhIdx with
  | none => some (pgpi, 0)
  | some candi => do
      let pgpi ← pgpi.unlinkFln junk candi
      if pgCount < (pgpi.node candi).pgCount then do
        let pgpi ← pgpi.splitNode junk candi pgCount
        some (pgpi, candi)
      else some (pgpi, candi)

/-- The list of a power of two is read before the index is checked. -/
def takeFreeNode (junk : Junk) (pgpi : PgpoolImpl) (pgCount : Nat) : Option (PgpoolImpl × Nat) :=
  let flhIdx := log2 junk.index pgCount
  if isTwoPower junk.roundUp junk.roundDown pgCount then
    if flhIdx < pgpi.freelistCount then
      match pgpi.lists (.fln flhIdx) with
      | [] => pgpi.scanLists junk pgCount
      | pgn :: _ =>
          let popped := { pgpi with lists := removeNode pgpi.lists pgn }
          some (popped, if (pgpi.node pgn).using = 0 then pgn else 0)
    else none
  else pgpi.scanLists junk pgCount

/-- The pages of a size wrap around near the end of the address space. -/
def pagesOf (pgpi : PgpoolImpl) (size : Nat) : Nat := roundUp size pgpi.pgSize / pgpi.pgSize

end PgpoolImpl

/-- The result pairs the pool with the payload, which is null on failure. -/
def pgpAlloc (junk : Junk) (pgpi : PgpoolImpl) (size : Nat) : Option (PgpoolImpl × Nat) := do
  let (pgpi, pgn) ← pgpi.takeFreeNode junk (pgpi.pagesOf size)
  if pgn = 0 then some (pgpi, 0)
  else
    let node := pgpi.node pgn
    some ({ pgpi.writeNode pgn (node.setUsing 1) with allocCount := pgpi.allocCount + 1 },
      node.getPayload)

namespace PgpoolImpl

/-- The successor joins the node when it is free, fits and stands right behind it. -/
def mergeLoop (junk : Junk) : Nat → PgpoolImpl → Nat → Option PgpoolImpl
  | 0, _, _ => none
  | rounds + 1, pgpi, pgn => do
      let succ ← rbSucc pgpi.fuel pgpi.pgnTree (pgn + rbNodeOffset)
      if succ = 0 then some pgpi
      else
        let next := succ - rbNodeOffset
        let first := pgpi.node pgn
        let second := pgpi.node next
        if second.using ≠ 0 ∨ pgpi.maxpgCount < first.pgCount + second.pgCount then some pgpi
        else if second.getPayload ≠ first.getPayload + first.pgCount * pgpi.pgSize then some pgpi
        else do
          let pgpi ← pgpi.unlinkFln junk next
          let pgpi ← pgpi.unlinkRbn next
          let pgpi := pgpi.writeNode pgn { first with pgCount := first.pgCount + second.pgCount }
          mergeLoop junk rounds (pgpi.returnFreePgn next) pgn

def returnFreeNode (junk : Junk) (pgpi : PgpoolImpl) (pgn : Nat) : Option PgpoolImpl := do
  let pgpi ← mergeLoop junk (pgpi.chunkPgcount + 1) pgpi pgn
  pgpi.linkFln junk pgn

end PgpoolImpl

/-- The result pairs the pool with the return value. -/
def pgpFree (junk : Junk) (pgpi : PgpoolImpl) (payload : Nat) : Option (PgpoolImpl × Int) :=
  if payload &&& (pgpi.pgSize - 1) ≠ 0 then some (pgpi, -1)
  else do
    let pgn ← pgpi.pgnFromPayload payload
    if pgn = 0 then some (pgpi, -1)
    else if (pgpi.node pgn).using = 0 then some (pgpi, -1)
    else do
      let pgpi ← (pgpi.writeNode pgn ((pgpi.node pgn).setUsing 0)).returnFreeNode junk pgn
      some ({ pgpi with freeCount := pgpi.freeCount + 1 }, 0)

/-- These fields of `struct mm_config` are for a page pool. -/
structure PgpConfig where
  totalSize : BitVec 64
  pageSize : BitVec 32
  maxpgCount : BitVec 32
  deriving DecidableEq, Repr

/-- The sizes of `struct _pgpool_impl`, `struct _free_list_head` and `struct _pg_node`. -/
def implSize : Nat := 152

def flhSize : Nat := 40

def pgNodeSize : Nat := 64

/-- The chunk is cut into nodes of the largest size and one last node. -/
def carve (junk : Junk) : Nat → PgpoolImpl → Nat → Nat → Option PgpoolImpl
  | 0, pgpi, remain, _ => if remain = 0 then some pgpi else none
  | rounds + 1, pgpi, remain, pg =>
      if remain = 0 then some pgpi
      else do
        let (pgpi, pgn) ← pgpi.fetchFreePgn
        let count := if pgpi.maxpgCount ≤ remain then pgpi.maxpgCount else remain
        let pgpi := pgpi.writeNode pgn { (pgpi.node pgn).setPayload pg with pgCount := count }
        let pgpi ← pgpi.linkRbn pgn
        let pgpi ← pgpi.linkFln junk pgn
        carve junk rounds pgpi (remain - count) (pg + count * pgpi.pgSize)

/-- The loop appends one descriptor after the other. -/
def freshLists (pgnPool chunkPgcount : Nat) : PgList → List Nat :=
  (List.range chunkPgcount).foldl (fun lists i => pushBack lists .freePgn (pgnPool + pgNodeSize * i))
    fun _ => []

/-- The fresh memory is zero. -/
def emptyPool (junk : Junk) (addr : Nat) (cfg : PgpConfig) : PgpoolImpl :=
  let pgSize := cfg.pageSize.toNat
  let maxpgCount := cfg.maxpgCount.toNat
  let addrEnd := roundDown ((addr + cfg.totalSize.toNat) % 2 ^ 64) pgSize
  let freelistCount := log2 junk.index maxpgCount + 1
  let pgnPool := roundUp (addr + implSize) 64 + flhSize * freelistCount
  let chunkPgcount := wordSub addrEnd pgnPool / (pgSize + pgNodeSize)
  { chunckLabel := pgpChunkLabel
    addrBegin := addr
    addrEnd
    maxpgCount
    freelistCount
    pgSize
    chunkAddr := roundUp (roundUp (pgnPool + pgNodeSize * chunkPgcount) 64) pgSize
    chunkPgcount
    pgnTree := rbInit (fun _ => ⟨0, 0, 0, 0⟩) none
    node := fun _ => ⟨0, 0⟩
    lists := freshLists pgnPool chunkPgcount
    allocCount := 0
    freeCount := 0 }

/-- The loop tests `rslt`, which nothing has written; the result may be null or a fault. Refused arguments leave the
local `pgpi` unset, and here it is null then. -/
def pgpCreate (junk : Junk) (rslt : Int) (addr : Nat) (cfg : PgpConfig) : Option (Option PgpoolImpl) :=
  if addr = 0 ∨ addr % 8 ≠ 0 ∨ cfg.totalSize.toNat ≤ cfg.pageSize.toNat then some none
  else if ¬ isTwoPower junk.roundUp junk.roundDown cfg.pageSize.toNat then some none
  else do
    let pgpi := emptyPool junk addr cfg
    let remain := pgpi.chunkPgcount - pgpi.maxpgCount
    let carved ← carve junk remain pgpi remain pgpi.chunkAddr
    some (if rslt < 0 ∧ remain ≠ 0 then none else some carved)

/-- Arguments that are refused before the local `pgpi` is written. -/
def Refused (junk : Junk) (addr : Nat) (cfg : PgpConfig) : Prop :=
  (addr = 0 ∨ addr % 8 ≠ 0 ∨ cfg.totalSize.toNat ≤ cfg.pageSize.toNat) ∨
    ¬ isTwoPower junk.roundUp junk.roundDown cfg.pageSize.toNat

instance (junk : Junk) (addr : Nat) (cfg : PgpConfig) : Decidable (Refused junk addr cfg) :=
  inferInstanceAs (Decidable (_ ∨ _))

/-- Refused arguments make `pgp_destroy` follow the word that the local `pgpi` happens to hold. -/
def pgpCreateStale (stale : Nat) (junk : Junk) (rslt : Int) (addr : Nat) (cfg : PgpConfig) :
    Option (Option PgpoolImpl) :=
  if Refused junk addr cfg ∧ stale ≠ 0 then none else pgpCreate junk rslt addr cfg

/-- A pool only comes from arguments that are not refused. -/
theorem pgpCreateStale_made {junk : Junk} {rslt : Int} {addr : Nat} {cfg : PgpConfig} {pgpi : PgpoolImpl}
    (made : pgpCreate junk rslt addr cfg = some (some pgpi)) (stale : Nat) :
    pgpCreateStale stale junk rslt addr cfg = some (some pgpi) := by
  have granted : ¬ Refused junk addr cfg := by
    rintro (argument | page)
    · simp [pgpCreate, argument] at made
    · simp [pgpCreate, page] at made
  rw [pgpCreateStale, if_neg fun both => granted both.1, made]

end Syslib.Pgpool
