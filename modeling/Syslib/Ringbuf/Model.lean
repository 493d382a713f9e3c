import Syslib.Library.RingQueue
import Syslib.Library.Runs

namespace Syslib.Ringbuf

open RingQueue

/-- This is `struct _ring_buf_impl`; the bytes are numbered from `addr_begin`. -/
structure RingBufImpl where
  addrBegin : Nat
  size : Nat
  rOffset : Nat
  wOffset : Nat
  bytes : Nat → UInt8

/-- The size of `struct _ring_buf_impl` in bytes. -/
def ringBufImplSize : Nat := 32

/-- C converts a `long` to `unsigned long` modulo two to the word size. -/
def toUnsigned (value : Int) : Nat := (value % 2 ^ 64).toNat

/-- C converts an `unsigned long` to the `long` with the same bits. -/
def toLong (value : Int) : Int := value.bmod (2 ^ 64)

/-- An `unsigned long` sum wraps around. -/
def addUnsigned (first second : Nat) : Nat := (first + second) % 2 ^ 64

/-- The zone restore and the cache allocation are outside this file; the flags carry their results. -/
def rbufCreate (addr : Nat) (size : Int) (zoneRestored objAllocated : Bool) (memory : Nat → UInt8) :
    Option RingBufImpl :=
  if addr = 0 ∨ toUnsigned size ≤ ringBufImplSize then none
  else if addr % 8 ≠ 0 then none
  else if size % 8 ≠ 0 then none
  else if !zoneRestored then none
  else if !objAllocated then none
  else some ⟨addr, toUnsigned size, 0, 0, memory⟩

/-- A copy with a negative length has no defined result. -/
def memcpyIn (bytes : Nat → UInt8) (offset : Nat) (data : List UInt8) (length : Int) :
    Option (Nat → UInt8) :=
  if length < 0 then none else some (store bytes offset (data.take length.toNat))

def memcpyOut (bytes : Nat → UInt8) (offset : Nat) (length : Int) : Option (List UInt8) :=
  if length < 0 then none else some (segment bytes offset length.toNat)

/-- The result pairs the buffer with the return value; the data carries its own length. -/
def rbufWriteBlock (rbi : RingBufImpl) (data : List UInt8) : Option (RingBufImpl × Int) :=
  let datalen := data.length
  let r := rbi.rOffset
  let w := rbi.wOffset
  if rbi.addrBegin = 0 then some (rbi, -1)
  else if w < r then
    let remain := r - w
    if remain < datalen then some (rbi, -1)
    else do
      let bytes ← memcpyIn rbi.bytes w data datalen
      some ({ rbi with bytes := bytes, wOffset := w + datalen }, 0)
  else if toUnsigned (w + datalen) < addUnsigned r rbi.size then
    let remain := toLong (rbi.size - w)
    if remain ≥ datalen then do
      let bytes ← memcpyIn rbi.bytes w data datalen
      some ({ rbi with bytes := bytes, wOffset := w + datalen }, 0)
    else do
      let remain2 := datalen - remain
      let front ← memcpyIn rbi.bytes w data remain
      let bytes ← memcpyIn front 0 (data.drop remain.toNat) remain2
      some ({ rbi with bytes := bytes, wOffset := remain2.toNat }, 0)
  else some (rbi, -1)

/-- The result holds the bytes that a successful read delivers. -/
def rbufReadBlock (rbi : RingBufImpl) (readlen : Nat) : Option (RingBufImpl × Option (List UInt8)) :=
  let r := rbi.rOffset
  let w := rbi.wOffset
  if rbi.addrBegin = 0 then some (rbi, none)
  else if r ≤ w then
    let remain := w - r
    if remain < readlen then some (rbi, none)
    else do
      let out ← memcpyOut rbi.bytes r readlen
      some ({ rbi with rOffset := r + readlen }, some out)
  else if toUnsigned (r + readlen) < addUnsigned w rbi.size then
    let remain := toLong (rbi.size - r)
    if remain ≥ readlen then do
      let out ← memcpyOut rbi.bytes r readlen
      some ({ rbi with rOffset := r + readlen }, some out)
    else do
      let remain2 := readlen - remain
      let front ← memcpyOut rbi.bytes r remain
      let back ← memcpyOut rbi.bytes 0 remain2
      some ({ rbi with rOffset := remain2.toNat }, some (front ++ back))
  else some (rbi, none)

inductive Call where
  | write (data : List UInt8)
  | read (readlen : Nat)

/-- The log adds to the buffer the bytes accepted and the bytes delivered so far. -/
structure Log where
  ring : RingBufImpl
  accepted : List UInt8
  delivered : List UInt8

def callStep : Call → Log → Option Log
  | .write data, log => do
      let (ring, rslt) ← rbufWriteBlock log.ring data
      some { log with
        ring := ring
        accepted := if rslt = 0 then log.accepted ++ data else log.accepted }
  | .read readlen, log => do
      let (ring, out) ← rbufReadBlock log.ring readlen
      some { log with
        ring := ring
        delivered := log.delivered ++ out.getD [] }

end Syslib.Ringbuf
