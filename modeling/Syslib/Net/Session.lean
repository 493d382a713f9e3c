import Syslib.Library.RingQueue
import Syslib.Library.Runs

namespace Syslib.Net

open RingQueue

inductive SesState where
  | invalid
  | establishing
  | normal
  | closing
  | closed
  deriving DecidableEq, Repr

/-- These are the fields of `struct _ses_impl` that sending reads and writes. -/
structure SesImpl where
  state : SesState
  sendBuf : Option (Nat → UInt8)
  sendBufLen : Nat
  rOffset : Nat
  wOffset : Nat

/-- Linux gives `EAGAIN` and `EWOULDBLOCK` one number. -/
def eagain : Nat := 11

def efault : Nat := 14

/-- A `send` call accepts between one byte and the whole request, or it fails with an `errno`. -/
inductive SendAnswer where
  | accepts (more : Nat)
  | fails (errno : Nat)
  deriving DecidableEq, Repr

/-- C converts an `unsigned int` to the `int` with the same bits. -/
def toInt (value : Int) : Int := value.bmod (2 ^ 32)

/-- An `unsigned int` sum wraps around. -/
def addUnsignedInt (first second : Nat) : Nat := (first + second) % 2 ^ 32

/-- A copy with a negative length or a null buffer has no defined result. -/
def memcpySend (buf : Option (Nat → UInt8)) (offset : Nat) (data : List UInt8) (length : Int) :
    Option (Option (Nat → UInt8)) :=
  if length < 0 then none else buf.map fun bytes => some (store bytes offset (data.take length.toNat))

/-- The result pairs the session with the return value; the data carries its own length. -/
def writeSendBuf (sei : SesImpl) (data : List UInt8) : Option (SesImpl × Int) :=
  let datalen := data.length
  let r := sei.rOffset
  let w := sei.wOffset
  if w < r then
    let remain := r - w
    if remain < datalen then some (sei, -1)
    else do
      let buf ← memcpySend sei.sendBuf w data datalen
      some ({ sei with sendBuf := buf, wOffset := w + datalen }, 0)
  else if addUnsignedInt w datalen < addUnsignedInt r sei.sendBufLen then
    let remain := toInt (sei.sendBufLen - w)
    if remain ≥ datalen then do
      let buf ← memcpySend sei.sendBuf w data datalen
      some ({ sei with sendBuf := buf, wOffset := w + datalen }, 0)
    else do
      let remain2 := datalen - remain
      let front ← memcpySend sei.sendBuf w data remain
      let buf ← memcpySend front 0 (data.drop remain.toNat) remain2
      some ({ sei with sendBuf := buf, wOffset := remain2.toNat }, 0)
  else some (sei, -1)

/-- A `send` call returns the accepted count or the `errno` of its failure; a null buffer faults. -/
def sendCall (sei : SesImpl) (remain : Nat) : SendAnswer → Except Nat Nat
  | .accepts more => if sei.sendBuf.isSome then .ok (min (more + 1) remain) else .error efault
  | .fails errno => .error errno

/-- This is the state of the drain loop; `failure` holds the `errno` that stopped it. -/
structure Drain where
  sei : SesImpl
  passed : List UInt8
  answers : List SendAnswer
  failure : Option Nat

/-- The bytes that `count` sends from the read offset. -/
def SesImpl.front (sei : SesImpl) (count : Nat) : List UInt8 :=
  match sei.sendBuf with
  | some bytes => segment bytes sei.rOffset count
  | none => []

/-- This loop sends the stretch from the read offset to the end of the buffer. -/
def sendToEnd : List SendAnswer → SesImpl → List UInt8 → Drain
  | answers, sei, passed =>
    let remain := toInt (sei.sendBufLen - sei.rOffset)
    if remain ≤ 0 then ⟨sei, passed, answers, none⟩
    else match answers with
      | [] => ⟨sei, passed, [], some eagain⟩
      | answer :: rest =>
        match sendCall sei remain.toNat answer with
        | .error errno => ⟨sei, passed, rest, some errno⟩
        | .ok cnt =>
          sendToEnd rest { sei with rOffset := sei.rOffset + cnt } (passed ++ sei.front cnt)

/-- This is the code at the label `send_from_start`; it calls `send` at most once. -/
def sendFromStart (answers : List SendAnswer) (sei : SesImpl) (passed : List UInt8) : Drain :=
  let remain := sei.wOffset - sei.rOffset
  if remain = 0 then ⟨sei, passed, answers, none⟩
  else match answers with
    | [] => ⟨sei, passed, [], some eagain⟩
    | answer :: rest =>
      match sendCall sei remain answer with
      | .error errno => ⟨sei, passed, rest, some errno⟩
      | .ok cnt =>
        ⟨{ sei with rOffset := sei.rOffset + cnt }, passed ++ sei.front cnt, rest, none⟩

def sendAll (answers : List SendAnswer) (sei : SesImpl) : Drain :=
  if sei.rOffset ≤ sei.wOffset then sendFromStart answers sei []
  else
    let drain := sendToEnd answers sei []
    match drain.failure with
    | some _ => drain
    | none => sendFromStart drain.answers { drain.sei with rOffset := 0 } drain.passed

/-- `_net_try_send_all` either keeps the session or ends in `_net_close`. -/
inductive TryEnd where
  | keeps
  | closes (rslt : Int)
  deriving DecidableEq, Repr

/-- The result pairs the drained session with the way in which the function ends. -/
def netTrySendAll (answers : List SendAnswer) (sei : SesImpl) : Drain × TryEnd :=
  let drain := sendAll answers sei
  match drain.failure with
  | some errno => (drain, if errno = eagain then .keeps else .closes (-1))
  | none =>
    if drain.sei.state = .closing ∧ drain.sei.wOffset ≤ drain.sei.rOffset then (drain, .closes 0)
    else (drain, .keeps)

/-- A refused `net_send` gives the session back; an undefined copy gives no result. -/
def netSend (answers : List SendAnswer) (sei : SesImpl) (data : List UInt8) :
    Option (Except SesImpl (Drain × TryEnd)) :=
  if data.length ≤ 0 then some (.error sei)
  else if sei.state ≠ .normal then some (.error sei)
  else do
    let (sei, rslt) ← writeSendBuf sei data
    if rslt < 0 then some (.error sei) else some (.ok (netTrySendAll answers sei))

end Syslib.Net
