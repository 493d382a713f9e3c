import Syslib.Net.Graceful

namespace Syslib.Net

open Runs

/-- The loop reads these fields of a session; `recvBuf` says whether the receive buffer is there. -/
structure LoopSession extends SesImpl where
  sockFd : Nat
  recvBuf : Bool
  recvBufLen : Nat
  bytesRecv : Nat

inductive Callback where
  | conn
  | recv
  | disconn
  deriving DecidableEq, Repr

/-- These are the bits that the loops test: `EPOLLOUT`, `EPOLLIN` and `EPOLLERR`, or those of `poll`. -/
structure EventBits where
  output : Bool
  input : Bool
  error : Bool
  deriving DecidableEq, Repr

/-- An entry of `epoll_wait` points to its object, and an entry of `poll` has a descriptor. -/
inductive Target where
  | acceptor
  | session (sei : Nat)
  | descriptor (fd : Nat)
  deriving DecidableEq, Repr

/-- A frame is the rest of a function that has not returned, with the session that it goes on to use. -/
inductive Frame where
  | handlers (sei : Nat) (bits : EventBits)
  | netTrySendAll (sei : Nat)
  | netClose (sei : Nat)
  | netCloseRest (sei : Nat)
  | recvRound (sei : Nat)
  | recvReset (sei : Nat)
  | callback
  deriving DecidableEq, Repr

/-- Sessions are known by the order of their creation, so that memory that is used again is another session. -/
structure LoopState where
  sessions : Nat → Option LoopSession
  sesList : List Nat
  acceptors : List Nat
  released : List Nat
  batch : List (Target × EventBits)
  frames : List Frame
  log : List (Nat × Callback)

/-- The answers of the system to the next calls; `stale` is the `errno` that a zero of `recv` leaves. -/
structure Answered where
  sends : List SendAnswer
  recv : RecvAnswer
  stale : Nat
  accepted : Option (Nat × LoopSession)

/-- The system and the user decide what comes next; `proceed` runs the topmost function one step. -/
inductive LoopInput where
  | connect (sei : Nat) (ses : LoopSession)
  | run (entries : List (Target × EventBits))
  | proceed (answered : Answered)
  | netSend (sei : Nat) (data : List UInt8)
  | netDisconnect (sei : Nat)
  | finish

namespace LoopState

def write (state : LoopState) (sei : Nat) (ses : LoopSession) : LoopState :=
  { state with sessions := Function.update state.sessions sei (some ses) }

def push (state : LoopState) (frames : List Frame) : LoopState :=
  { state with frames := frames ++ state.frames }

/-- The user's function runs before the rest of the library's function. -/
def invoke (state : LoopState) (sei : Nat) (callback : Callback) (rest : List Frame) : LoopState :=
  { state with log := state.log ++ [(sei, callback)], frames := .callback :: rest ++ state.frames }

/-- A new session stands at the end of the list. -/
def create (state : LoopState) (sei : Nat) (ses : LoopSession) : LoopState :=
  { state.write sei ses with sesList := state.sesList ++ [sei] }

/-- A session that is established here runs the connect callback first. -/
def netOnSend (state : LoopState) (sei : Nat) : Option LoopState := do
  let ses ← state.sessions sei
  if ses.state = .establishing then
    some ((state.write sei { ses with state := .normal }).invoke sei .conn [.netTrySendAll sei])
  else some (state.push [.netTrySendAll sei])

def netOnRecv (state : LoopState) (sei : Nat) : Option LoopState := do
  let ses ← state.sessions sei
  let state := state.write sei { ses with bytesRecv := 0 }
  if ses.recvBuf = false ∨ ses.recvBufLen = 0 then some (state.push [.netClose sei])
  else some (state.push [.recvRound sei])

def netOnError (state : LoopState) (sei : Nat) : Option LoopState := do
  let ses ← state.sessions sei
  if ses.sockFd = 0 then some state else some (state.push [.netClose sei])

/-- The three tests of the events, in their order. -/
def handle (state : LoopState) (sei : Nat) (bits : EventBits) : Option LoopState :=
  if bits.output then (state.push [.handlers sei { bits with output := false }]).netOnSend sei
  else if bits.input then (state.push [.handlers sei { bits with input := false }]).netOnRecv sei
  else if bits.error then state.netOnError sei
  else some state

/-- The session is drained; the result may be its close. -/
def trySendAll (state : LoopState) (sei : Nat) (answers : List SendAnswer) : Option LoopState := do
  let ses ← state.sessions sei
  let (drain, ending) := netTrySendAll answers ses.toSesImpl
  let state := state.write sei { ses with toSesImpl := drain.sei }
  match ending with
  | .keeps => some state
  | .closes _ => some (state.push [.netClose sei])

/-- The buffers are freed first, and the session is taken from its list only after the callback. -/
def netClose (state : LoopState) (sei : Nat) : Option LoopState := do
  let ses ← state.sessions sei
  let state := state.write sei { ses with sendBuf := none, recvBuf := false }
  if ses.state ≠ .invalid ∧ ses.state ≠ .closed then
    some (state.invoke sei .disconn [.netCloseRest sei])
  else some (state.push [.netCloseRest sei])

/-- The descriptor is closed, and the session's memory is given back. -/
def netCloseRest (state : LoopState) (sei : Nat) : Option LoopState := do
  let _ ← state.sessions sei
  if sei ∉ state.sesList then some state
  else
    some { state with
      sessions := Function.update state.sessions sei none
      sesList := state.sesList.erase sei
      released := state.released ++ [sei] }

/-- The bytes that one `recv` call adds to the buffer. -/
def recvCount (ses : LoopSession) (more : Nat) : Nat :=
  ses.bytesRecv + min (more + 1) (ses.recvBufLen - ses.bytesRecv)

/-- After the last `recv` the rest of the bytes goes to the callback. -/
def recvEnd (state : LoopState) (sei : Nat) (ses : LoopSession) (errno : Nat) : LoopState :=
  if errno ≠ eagain then state.push [.netClose sei]
  else if 0 < ses.bytesRecv then state.invoke sei .recv []
  else state

/-- A full buffer goes to the callback, and the loop reads on after it. -/
def recvRound (state : LoopState) (sei : Nat) (answer : RecvAnswer) (stale : Nat) :
    Option LoopState := do
  let ses ← state.sessions sei
  match answer with
  | .data more =>
      let state := state.write sei { ses with bytesRecv := recvCount ses more }
      if ses.recvBufLen ≤ recvCount ses more then some (state.invoke sei .recv [.recvReset sei])
      else some (state.push [.recvRound sei])
  | .closed => some (state.recvEnd sei ses stale)
  | .fails errno => some (state.recvEnd sei ses errno)

def recvReset (state : LoopState) (sei : Nat) : Option LoopState := do
  let ses ← state.sessions sei
  some ((state.write sei { ses with bytesRecv := 0 }).push [.recvRound sei])

/-- An accepted connection has its session, or `accept4` gave none; then comes the user's function. -/
def netOnAcc (state : LoopState) (accepted : Option (Nat × LoopSession)) : LoopState :=
  match accepted with
  | none => state
  | some (sei, ses) => (state.create sei ses).push [.callback]

/-- The search in the tree finds the session that has the descriptor. -/
def holderOf (state : LoopState) (fd : Nat) : Option Nat :=
  state.sesList.find? fun sei => (state.sessions sei).any fun ses => ses.sockFd = fd

/-- The type word of a session is read from its memory; a descriptor that has vanished ends the loop. -/
def dispatch (state : LoopState) (answered : Answered) (target : Target) (bits : EventBits) :
    Option LoopState :=
  match target with
  | .acceptor => some (state.netOnAcc answered.accepted)
  | .session sei => do
      let _ ← state.sessions sei
      some (state.push [.handlers sei bits])
  | .descriptor fd =>
      if fd ∈ state.acceptors then some (state.netOnAcc answered.accepted)
      else
        match state.holderOf fd with
        | none => some { state with batch := [] }
        | some sei => some (state.push [.handlers sei bits])

def proceed (state : LoopState) (answered : Answered) : Option LoopState :=
  match state.frames with
  | [] =>
      match state.batch with
      | [] => some state
      | (target, bits) :: batch => { state with batch }.dispatch answered target bits
  | .callback :: _ => some state
  | .handlers sei bits :: frames => { state with frames }.handle sei bits
  | .netTrySendAll sei :: frames => { state with frames }.trySendAll sei answered.sends
  | .netClose sei :: frames => { state with frames }.netClose sei
  | .netCloseRest sei :: frames => { state with frames }.netCloseRest sei
  | .recvRound sei :: frames => { state with frames }.recvRound sei answered.recv answered.stale
  | .recvReset sei :: frames => { state with frames }.recvReset sei

/-- A send that is accepted goes on to drain the session; an undefined copy has no result. -/
def netSend (state : LoopState) (sei : Nat) (data : List UInt8) : Option LoopState := do
  let ses ← state.sessions sei
  if data.length ≤ 0 ∨ ses.state ≠ .normal then some state
  else do
    let (impl, rslt) ← writeSendBuf ses.toSesImpl data
    if rslt < 0 then some state
    else some ((state.write sei { ses with toSesImpl := impl }).push [.netTrySendAll sei])

def netDisconnect (state : LoopState) (sei : Nat) : Option LoopState := do
  let ses ← state.sessions sei
  if ses.state ≠ .normal ∧ ses.state ≠ .establishing then some state
  else some ((state.write sei { ses with state := .closing }).push [.netTrySendAll sei])

/-- No function runs, and no entry is left. -/
def Idle (state : LoopState) : Prop := state.frames = [] ∧ state.batch = []

instance (state : LoopState) : Decidable state.Idle := inferInstanceAs (Decidable (_ ∧ _))

/-- The user's function is the one that runs. -/
def UserRuns (state : LoopState) : Prop := state.frames.head? = some .callback

instance (state : LoopState) : Decidable state.UserRuns := inferInstanceAs (Decidable (_ = _))

end LoopState

/-- A step that reads a released session has no result; an input out of turn changes nothing. -/
def loopStep (input : LoopInput) (state : LoopState) : Option LoopState :=
  match input with
  | .connect sei ses => if state.Idle then some (state.create sei ses) else some state
  | .run entries => if state.Idle then some { state with batch := entries } else some state
  | .proceed answered => state.proceed answered
  | .netSend sei data => if state.UserRuns then state.netSend sei data else some state
  | .netDisconnect sei => if state.UserRuns then state.netDisconnect sei else some state
  | .finish => if state.UserRuns then some { state with frames := state.frames.tail } else some state

/-- Before the first call there are only acceptors. -/
def loopStart (acceptors : List Nat) : LoopState where
  sessions := fun _ => none
  sesList := []
  acceptors := acceptors
  released := []
  batch := []
  frames := []
  log := []

/-- The session that the frame goes on to use. -/
def Frame.ref : Frame → Option Nat
  | .handlers sei bits => if bits.output ∨ bits.input ∨ bits.error then some sei else none
  | .netTrySendAll sei => some sei
  | .netClose sei => some sei
  | .netCloseRest sei => some sei
  | .recvRound sei => some sei
  | .recvReset sei => some sei
  | .callback => none

def Target.ref : Target → Option Nat
  | .session sei => some sei
  | .acceptor => none
  | .descriptor _ => none

/-- The sessions that the functions still running and the entries still left will use. -/
def refs (frames : List Frame) (batch : List (Target × EventBits)) : List Nat :=
  frames.filterMap Frame.ref ++ batch.filterMap fun entry => entry.1.ref

/-- The callbacks that a session has seen. -/
def LoopState.calls (state : LoopState) (sei : Nat) : List Callback :=
  (state.log.filter fun entry => entry.1 = sei).map Prod.snd

/-- The connect callback at most once, and then the receive callback any number of times. -/
def Opened (calls : List Callback) : Prop :=
  ∃ count, calls = List.replicate count .recv ∨ calls = .conn :: List.replicate count .recv

/-- The disconnect callback comes once, and it is the last one. -/
def Ended (calls : List Callback) : Prop := ∃ opened, Opened opened ∧ calls = opened ++ [.disconn]

/-- Every session sees its callbacks in order, and a released one has seen its disconnect callback. -/
def LoopState.Orderly (state : LoopState) : Prop :=
  ∀ sei, (Opened (state.calls sei) ∨ Ended (state.calls sei)) ∧
    (sei ∈ state.released → Ended (state.calls sei))

/-- The offsets of the send ring lie in its buffer, whose size is an `int`. -/
structure SesImpl.Bounded (sei : SesImpl) : Prop where
  short : sei.sendBufLen < 2 ^ 31
  readInside : sei.rOffset ≤ sei.sendBufLen
  writeInside : sei.wOffset ≤ sei.sendBufLen
  mapped : sei.sendBuf.isSome

instance (sei : SesImpl) : Decidable sei.Bounded :=
  decidable_of_iff (sei.sendBufLen < 2 ^ 31 ∧ sei.rOffset ≤ sei.sendBufLen ∧
      sei.wOffset ≤ sei.sendBufLen ∧ sei.sendBuf.isSome)
    ⟨fun ⟨short, readInside, writeInside, mapped⟩ => ⟨short, readInside, writeInside, mapped⟩,
      fun ⟨short, readInside, writeInside, mapped⟩ => ⟨short, readInside, writeInside, mapped⟩⟩

/-- A new session is establishing and has its buffers. -/
structure Newborn (state : LoopState) (sei : Nat) (ses : LoopSession) : Prop where
  unknown : state.sessions sei = none ∧ sei ∉ state.released
  establishing : ses.state = .establishing
  bounded : ses.toSesImpl.Bounded

instance (state : LoopState) (sei : Nat) (ses : LoopSession) : Decidable (Newborn state sei ses) :=
  decidable_of_iff ((state.sessions sei = none ∧ sei ∉ state.released) ∧
      ses.state = .establishing ∧ ses.toSesImpl.Bounded)
    ⟨fun ⟨unknown, establishing, bounded⟩ => ⟨unknown, establishing, bounded⟩,
      fun ⟨unknown, establishing, bounded⟩ => ⟨unknown, establishing, bounded⟩⟩

/-- The system reports objects that are there, and the user calls for sessions that are not released. -/
def LoopInput.Possible (input : LoopInput) (state : LoopState) : Prop :=
  match input with
  | .connect sei ses => Newborn state sei ses
  | .run entries => ∀ entry ∈ entries, ∀ sei ∈ entry.1.ref, sei ∈ state.sesList
  | .proceed answered => ∀ new ∈ answered.accepted, Newborn state new.1 new.2
  | .netSend sei data => sei ∈ state.sesList ∧ data.length < 2 ^ 31
  | .netDisconnect sei => sei ∈ state.sesList
  | .finish => True

instance : ∀ (input : LoopInput) (state : LoopState), Decidable (input.Possible state)
  | .connect sei ses, state => inferInstanceAs (Decidable (Newborn state sei ses))
  | .run entries, state => inferInstanceAs
      (Decidable (∀ entry ∈ entries, ∀ sei ∈ entry.1.ref, sei ∈ state.sesList))
  | .proceed answered, state => inferInstanceAs
      (Decidable (∀ new ∈ answered.accepted, Newborn state new.1 new.2))
  | .netSend _ _, _ => inferInstanceAs (Decidable (_ ∧ _))
  | .netDisconnect sei, state => inferInstanceAs (Decidable (sei ∈ state.sesList))
  | .finish, _ => isTrue trivial

/-- This answer of `recv` passes bytes to the callback. -/
def Passes (ses : LoopSession) (answer : RecvAnswer) (stale : Nat) : Prop :=
  match answer with
  | .data more => ses.recvBufLen ≤ LoopState.recvCount ses more
  | .closed => stale = eagain ∧ 0 < ses.bytesRecv
  | .fails errno => errno = eagain ∧ 0 < ses.bytesRecv

instance (ses : LoopSession) (answer : RecvAnswer) (stale : Nat) :
    Decidable (Passes ses answer stale) := by
  cases answer <;> unfold Passes <;> infer_instance

/-- A close finds no other use of the session, an establishing session is passed no bytes, and a session
    that is being closed refuses the data of its own callback. -/
def LoopInput.Careful (input : LoopInput) (state : LoopState) : Prop :=
  match input, state.frames with
  | .proceed _, .netClose sei :: frames => sei ∉ refs frames state.batch
  | .proceed answered, .recvRound sei :: _ => ∀ ses ∈ state.sessions sei,
      ses.state = .establishing → ¬ Passes ses answered.recv answered.stale
  | .netSend sei data, .callback :: frames => .netCloseRest sei ∈ frames →
      ∀ ses ∈ state.sessions sei, data.length ≤ 0 ∨ ses.state ≠ .normal ∨
        ∃ written ∈ writeSendBuf ses.toSesImpl data, written.2 < 0
  | _, _ => True

instance (input : LoopInput) (state : LoopState) : Decidable (input.Careful state) := by
  unfold LoopInput.Careful
  split <;> infer_instance

end Syslib.Net
