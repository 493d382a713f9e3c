import Syslib.Mmspace.Space
import Syslib.Ringbuf.Model

namespace Syslib.Ipc

open Mmspace Ringbuf Runs

/-- The kernel and the object caches answer the calls of one `ipc_create` or `ipc_link`. -/
structure Answers where
  zoneRestored : Bool
  peerAllocated : Bool
  segment : Option ShmmBlk
  ringZoneRestored : Bool
  ringAllocated : Bool
  deriving DecidableEq, Repr

/-- This is `struct _ipc_peer_impl`; the ring record lies in the cache and not in the segment. -/
structure IpcPeerImpl where
  channelId : Int
  bufferSize : Nat
  shb : ShmmBlk
  rb : RingBufImpl

/-- `MM_SHM_IPC` is one, the system id is zero, and the channel is an `unsigned short`. -/
def ipcShmKey (channelId : Int) : Int := 2 ^ 28 + channelId % 2 ^ 16

/-- The offset of `_the_blk` in `struct _shmm_blk_impl`. -/
def theBlkOffset : Nat := 8

/-- The kernel's answer counts only for a legal key and a null or page-aligned address. -/
def shmmOpenRaw (key : Int) (atAddr : Nat) (answer : Option ShmmBlk) : Option ShmmBlk :=
  if key ≤ 0 then none
  else if atAddr ≠ 0 ∧ atAddr % 4096 ≠ 0 then none
  else answer

/-- The macro `_conv_blk` subtracts the offset from every address, also from a null one. -/
def shmmOpen (key : Int) (atAddr : Nat) (answer : Option ShmmBlk) : Option ShmmBlk :=
  shmmOpenRaw key ((atAddr + 2 ^ 64 - theBlkOffset) % 2 ^ 64) answer

/-- Both functions put a new ring record over the contents of their segment. -/
def attachPeer (channelId : Int) (answers : Answers) (memory : Nat → UInt8) (blk : ShmmBlk) :
    Option IpcPeerImpl := do
  let size := blk.endAddr - blk.beginAddr
  let rb ← rbufCreate blk.beginAddr size answers.ringZoneRestored answers.ringAllocated memory
  some ⟨channelId, size, blk, rb⟩

def ipcCreate (channelId : Int) (bufferSize : Nat) (answers : Answers) (memory : Nat → UInt8) :
    Option IpcPeerImpl :=
  if channelId < 0 ∨ bufferSize = 0 then none
  else if !answers.zoneRestored then none
  else if !answers.peerAllocated then none
  else do
    let blk ← shmmCreate (ipcShmKey channelId) bufferSize answers.segment
    attachPeer channelId answers memory blk

def ipcLink (channelId : Int) (answers : Answers) (memory : Nat → UInt8) : Option IpcPeerImpl :=
  if channelId < 0 then none
  else if !answers.zoneRestored then none
  else if !answers.peerAllocated then none
  else do
    let blk ← shmmOpen (ipcShmKey channelId) 0 answers.segment
    attachPeer channelId answers memory blk

inductive Call where
  | ipcWrite (data : List UInt8)
  | ipcRead (size : Nat)
  deriving DecidableEq, Repr

/-- The two peers see the bytes of one segment; the log adds what was accepted and delivered. -/
structure Channel where
  writer : IpcPeerImpl
  reader : IpcPeerImpl
  accepted : List UInt8
  delivered : List UInt8

def callStep : Call → Channel → Option Channel
  | .ipcWrite data, channel => do
      let (rb, rslt) ← rbufWriteBlock channel.writer.rb data
      some { channel with
        writer := { channel.writer with rb }
        reader := { channel.reader with rb := { channel.reader.rb with bytes := rb.bytes } }
        accepted := if rslt = 0 then channel.accepted ++ data else channel.accepted }
  | .ipcRead size, channel => do
      let (rb, out) ← rbufReadBlock channel.reader.rb size
      some { channel with
        reader := { channel.reader with rb }
        delivered := channel.delivered ++ out.getD [] }

/-- The second peer is linked, and in every interleaving it reads what the first one wrote. -/
def Serves (first : IpcPeerImpl) (second : Option IpcPeerImpl) : Prop :=
  ∃ reader ∈ second, ∀ calls channel, exec callStep calls ⟨first, reader, [], []⟩ = some channel →
    channel.delivered <+: channel.accepted ∧
      ∀ size, channel.delivered.length + size ≤ channel.accepted.length →
        ∃ rb out, rbufReadBlock channel.reader.rb size = some (rb, some out)

/-- A null address turns into one that is neither null nor aligned, so nothing is ever opened. -/
theorem shmmOpen_null (key : Int) (answer : Option ShmmBlk) : shmmOpen key 0 answer = none := by
  have address : (0 + 2 ^ 64 - theBlkOffset) % 2 ^ 64 = 2 ^ 64 - 8 := by decide
  unfold shmmOpen shmmOpenRaw
  rw [address]
  split_ifs with low unaligned
  · rfl
  · rfl
  · exact absurd ⟨by decide, by decide⟩ unaligned

theorem ipcLink_none (channelId : Int) (answers : Answers) (memory : Nat → UInt8) :
    ipcLink channelId answers memory = none := by
  unfold ipcLink
  split_ifs
  · rfl
  · rfl
  · rfl
  · rw [shmmOpen_null]
    rfl

/-- No second peer is ever linked to a channel. -/
theorem ipcLink_never (channelId : Int) (answers : Answers) (memory : Nat → UInt8)
    (first : IpcPeerImpl) : ¬ Serves first (ipcLink channelId answers memory) := by
  rintro ⟨reader, linked, _⟩
  rw [ipcLink_none] at linked
  cases linked

/-- The kernel and the caches answer every call of both peers with success. -/
def willing : Answers := ⟨true, true, some ⟨65536, 69632, 77824⟩, true, true⟩

/-- The channel is created, and linking it fails although the kernel would attach its segment. -/
theorem ipcLink_refused : ∃ first, ipcCreate 7 4096 willing (fun _ => 0) = some first ∧
    ¬ Serves first (ipcLink 7 willing fun _ => 0) := by
  refine ⟨⟨7, 8192, ⟨65536, 69632, 77824⟩, ⟨69632, 8192, 0, 0, fun _ => 0⟩⟩, rfl, ?_⟩
  rintro ⟨reader, linked, _⟩
  cases linked

end Syslib.Ipc
