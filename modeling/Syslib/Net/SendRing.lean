import Syslib.Net.Session

namespace Syslib.Net

open RingQueue Runs

/-- The offsets of the session encode the queue of bytes that `send` has not accepted yet. -/
structure SesImpl.Holds (sei : SesImpl) (queue : List UInt8) : Prop where
  short : sei.sendBufLen < 2 ^ 31
  readInside : sei.rOffset ≤ sei.sendBufLen
  writeInside : sei.wOffset ≤ sei.sendBufLen
  content : ∃ bytes, sei.sendBuf = some bytes ∧
    queue = held bytes sei.sendBufLen sei.rOffset sei.wOffset

/-- A wrapped write that ends exactly at the read offset makes the full buffer look empty. -/
def SesImpl.Fills (sei : SesImpl) (data : List UInt8) : Prop :=
  sei.wOffset < sei.rOffset ∧ data.length = sei.rOffset - sei.wOffset

instance (sei : SesImpl) (data : List UInt8) : Decidable (sei.Fills data) :=
  inferInstanceAs (Decidable (_ ∧ _))

def SendAnswer.patient : SendAnswer → Bool
  | .accepts _ => true
  | .fails errno => errno == eagain

theorem toInt_sub {size offset : Nat} (short : size < 2 ^ 31) (inside : offset ≤ size) :
    toInt ((size : Int) - offset) = ((size - offset : Nat) : Int) := by
  unfold toInt
  rw [Int.bmod_eq_of_le (by omega) (by omega)]
  omega

theorem memcpySend_natCast (bytes : Nat → UInt8) (offset : Nat) (data : List UInt8) (length : Nat) :
    memcpySend (some bytes) offset data length = some (some (store bytes offset (data.take length))) := by
  simp [memcpySend]

/-- A write either refuses and keeps the session or appends its data to the queue. -/
theorem writeSendBuf_holds (sei : SesImpl) (queue data : List UInt8) (holds : sei.Holds queue)
    (fits : data.length < 2 ^ 31) (open_ : ¬ sei.Fills data) :
    writeSendBuf sei data = some (sei, -1) ∨
      ∃ next, writeSendBuf sei data = some (next, 0) ∧ next.state = sei.state ∧
        next.Holds (queue ++ data) := by
  obtain ⟨state, buf, size, r, w⟩ := sei
  obtain ⟨short, readInside, writeInside, bytes, stored, content⟩ := holds
  simp only [SesImpl.Fills] at *
  subst stored content
  by_cases wrapped : w < r
  · by_cases refused : r - w < data.length
    · left
      simp [writeSendBuf, wrapped, refused]
    · right
      have gap : w + data.length < r := by omega
      refine ⟨⟨state, some (store bytes w data), size, r, w + data.length⟩, ?_, rfl, short,
        readInside, by simp only; omega, _, rfl, (held_store_wrapped bytes data gap).symm⟩
      simp [writeSendBuf, wrapped, refused, memcpySend_natCast]
  · have order : r ≤ w := by omega
    have left_ : addUnsignedInt w data.length = w + data.length := Nat.mod_eq_of_lt (by omega)
    have right_ : addUnsignedInt r size = r + size := Nat.mod_eq_of_lt (by omega)
    have remain := toInt_sub short writeInside
    by_cases room : w + data.length < r + size
    · right
      by_cases straight : data.length ≤ size - w
      · refine ⟨⟨state, some (store bytes w data), size, r, w + data.length⟩, ?_, rfl, short,
          readInside, by simp only; omega, _, rfl, (held_store_unwrapped bytes data order).symm⟩
        simp [writeSendBuf, wrapped, left_, right_, room, remain, straight, memcpySend_natCast]
      · have rest : (data.length : Int) - ((size - w : Nat) : Int) =
            ((data.length - (size - w) : Nat) : Int) := by omega
        have whole : (data.drop (size - w)).take (data.length - (size - w)) =
            data.drop (size - w) := List.take_of_length_le (by simp)
        have split := @held_store_split _ bytes size r w
          (data.take (size - w)) (data.drop (size - w)) order (by simp; omega) (by simp; omega)
        rw [List.take_append_drop, List.length_drop] at split
        refine ⟨⟨state, some (store (store bytes w (data.take (size - w))) 0
          (data.drop (size - w))), size, r, data.length - (size - w)⟩, ?_, rfl, short, readInside,
          by simp only; omega, _, rfl, split.symm⟩
        simp [writeSendBuf, wrapped, left_, right_, room, remain, straight, rest,
          memcpySend_natCast, whole]
    · left
      simp [writeSendBuf, wrapped, left_, right_, room]

/-- One accepted answer moves a nonempty front of the requested stretch. -/
theorem sendCall_ok {sei : SesImpl} {remain cnt : Nat} {answer : SendAnswer}
    (positive : 0 < remain) (sent : sendCall sei remain answer = .ok cnt) : 0 < cnt ∧ cnt ≤ remain := by
  cases answer with
  | fails errno => simp [sendCall] at sent
  | accepts more =>
      by_cases mapped : sei.sendBuf.isSome
      · simp only [sendCall, mapped, if_true, Except.ok.injEq] at sent
        omega
      · simp [sendCall, mapped] at sent

theorem sendCall_patient {sei : SesImpl} {remain errno : Nat} {answer : SendAnswer}
    (mapped : sei.sendBuf.isSome) (patient : answer.patient)
    (failed : sendCall sei remain answer = .error errno) : errno = eagain := by
  cases answer with
  | accepts more => simp [sendCall, mapped] at failed
  | fails code =>
      simp only [sendCall, Except.error.injEq] at failed
      subst failed
      simpa [SendAnswer.patient] using patient

/-- The drain passes a front of the queue, keeps the rest and stops for `EAGAIN` only. -/
structure Drain.Passes (drain : Drain) (sei : SesImpl) (passed queue : List UInt8) : Prop where
  state : drain.sei.state = sei.state
  split : ∃ front rest, queue = front ++ rest ∧ drain.passed = passed ++ front ∧ drain.sei.Holds rest
  patient : ∀ errno, drain.failure = some errno → errno = eagain
  suffix : ∀ answer ∈ drain.answers, answer.patient

/-- A loop that stops at once passes nothing. -/
theorem Drain.passes_nothing {sei : SesImpl} {queue : List UInt8} (passed : List UInt8)
    {answers : List SendAnswer} (failure : Option Nat) (holds : sei.Holds queue)
    (retry : ∀ errno, failure = some errno → errno = eagain)
    (patient : ∀ answer ∈ answers, answer.patient) :
    (⟨sei, passed, answers, failure⟩ : Drain).Passes sei passed queue :=
  ⟨rfl, ⟨[], queue, rfl, by simp, holds⟩, retry, patient⟩

/-- A round of the loop moves the read offset behind the accepted bytes. -/
theorem sendToEnd_ok {sei : SesImpl} {cnt : Nat} {answer : SendAnswer} {rest : List SendAnswer}
    {passed : List UInt8} (short : sei.sendBufLen < 2 ^ 31) (inside : sei.rOffset ≤ sei.sendBufLen)
    (more : ¬ sei.sendBufLen - sei.rOffset = 0)
    (called : sendCall sei (sei.sendBufLen - sei.rOffset) answer = .ok cnt) :
    sendToEnd (answer :: rest) sei passed =
      sendToEnd rest { sei with rOffset := sei.rOffset + cnt } (passed ++ sei.front cnt) := by
  have remain := toInt_sub short inside
  simp [sendToEnd, remain, more, called]

theorem sendToEnd_passes (answers : List SendAnswer) (sei : SesImpl) (passed queue : List UInt8)
    (holds : sei.Holds queue) (wrapped : sei.wOffset < sei.rOffset)
    (patient : ∀ answer ∈ answers, answer.patient) :
    (sendToEnd answers sei passed).Passes sei passed queue ∧
      (sendToEnd answers sei passed).sei.wOffset = sei.wOffset ∧
      ((sendToEnd answers sei passed).failure = none →
        (sendToEnd answers sei passed).sei.rOffset = sei.sendBufLen ∧
        (sendToEnd answers sei passed).sei.sendBufLen = sei.sendBufLen) := by
  induction answers generalizing sei passed queue with
  | nil =>
      have inside := holds.readInside
      have remain := toInt_sub holds.short inside
      by_cases done : sei.sendBufLen - sei.rOffset = 0
      · have stop : sendToEnd [] sei passed = ⟨sei, passed, [], none⟩ := by
          simp [sendToEnd, remain, done]
        rw [stop]
        exact ⟨Drain.passes_nothing passed none holds (by simp) (by simp), rfl,
          fun _ => ⟨by simp only; omega, rfl⟩⟩
      · have stop : sendToEnd [] sei passed = ⟨sei, passed, [], some eagain⟩ := by
          simp [sendToEnd, remain, done]
        rw [stop]
        exact ⟨Drain.passes_nothing passed _ holds (by simp) (by simp), rfl, by simp⟩
  | cons answer rest ih =>
      have inside := holds.readInside
      have remain := toInt_sub holds.short inside
      have patientRest : ∀ answer ∈ rest, answer.patient := fun other member =>
        patient other (List.mem_cons_of_mem answer member)
      by_cases done : sei.sendBufLen - sei.rOffset = 0
      · have stop : sendToEnd (answer :: rest) sei passed = ⟨sei, passed, answer :: rest, none⟩ := by
          simp [sendToEnd, remain, done]
        rw [stop]
        exact ⟨Drain.passes_nothing passed none holds (by simp) patient, rfl,
          fun _ => ⟨by simp only; omega, rfl⟩⟩
      · obtain ⟨short, _, writeInside, bytes, stored, content⟩ := holds
        have mapped : sei.sendBuf.isSome := by simp [stored]
        cases called : sendCall sei (sei.sendBufLen - sei.rOffset) answer with
        | error errno =>
            have stop : sendToEnd (answer :: rest) sei passed = ⟨sei, passed, rest, some errno⟩ := by
              simp [sendToEnd, remain, done, called]
            have retry := sendCall_patient mapped (patient answer List.mem_cons_self) called
            rw [stop]
            exact ⟨Drain.passes_nothing passed _ ⟨short, inside, writeInside, bytes, stored, content⟩
              (by simp [retry]) patientRest, rfl, by simp⟩
        | ok cnt =>
            have next := @sendToEnd_ok sei cnt answer rest passed short inside done called
            obtain ⟨_, bound⟩ := sendCall_ok (by omega) called
            have taken := held_take_wrapped bytes cnt wrapped
              (show sei.rOffset + cnt ≤ sei.sendBufLen by omega)
            have moved : SesImpl.Holds { sei with rOffset := sei.rOffset + cnt }
                (held bytes sei.sendBufLen (sei.rOffset + cnt) sei.wOffset) :=
              ⟨short, by simp only; omega, writeInside, bytes, stored, rfl⟩
            have front : sei.front cnt = segment bytes sei.rOffset cnt := by
              simp [SesImpl.front, stored]
            obtain ⟨⟨state, ⟨first, last, split, sent, kept⟩, retry, left⟩, same, ended⟩ :=
              ih { sei with rOffset := sei.rOffset + cnt } (passed ++ sei.front cnt) _ moved
                (by simp only; omega) patientRest
            rw [next]
            refine ⟨⟨state, ⟨sei.front cnt ++ first, last, ?_, ?_, kept⟩, retry, left⟩, same, ended⟩
            · rw [content, taken, split, front, List.append_assoc]
            · rw [sent, List.append_assoc]

theorem sendFromStart_passes (answers : List SendAnswer) (sei : SesImpl) (passed queue : List UInt8)
    (holds : sei.Holds queue) (order : sei.rOffset ≤ sei.wOffset)
    (patient : ∀ answer ∈ answers, answer.patient) :
    (sendFromStart answers sei passed).Passes sei passed queue := by
  by_cases done : sei.wOffset - sei.rOffset = 0
  · have stop : sendFromStart answers sei passed = ⟨sei, passed, answers, none⟩ := by
      simp [sendFromStart, done]
    rw [stop]
    exact Drain.passes_nothing passed none holds (by simp) patient
  · cases answers with
    | nil =>
        have stop : sendFromStart [] sei passed = ⟨sei, passed, [], some eagain⟩ := by
          simp [sendFromStart, done]
        rw [stop]
        exact Drain.passes_nothing passed _ holds (by simp) (by simp)
    | cons answer rest =>
        have patientRest : ∀ answer ∈ rest, answer.patient := fun other member =>
          patient other (List.mem_cons_of_mem answer member)
        obtain ⟨short, inside, writeInside, bytes, stored, content⟩ := holds
        have mapped : sei.sendBuf.isSome := by simp [stored]
        cases called : sendCall sei (sei.wOffset - sei.rOffset) answer with
        | error errno =>
            have stop : sendFromStart (answer :: rest) sei passed =
                ⟨sei, passed, rest, some errno⟩ := by
              simp [sendFromStart, done, called]
            have retry := sendCall_patient mapped (patient answer List.mem_cons_self) called
            rw [stop]
            exact Drain.passes_nothing passed _ ⟨short, inside, writeInside, bytes, stored, content⟩
              (by simp [retry]) patientRest
        | ok cnt =>
            have next : sendFromStart (answer :: rest) sei passed =
                ⟨{ sei with rOffset := sei.rOffset + cnt }, passed ++ sei.front cnt, rest, none⟩ := by
              simp [sendFromStart, done, called]
            obtain ⟨_, bound⟩ := sendCall_ok (by omega) called
            have taken := held_take_unwrapped bytes sei.sendBufLen cnt
              (show sei.rOffset + cnt ≤ sei.wOffset by omega)
            have front : sei.front cnt = segment bytes sei.rOffset cnt := by
              simp [SesImpl.front, stored]
            rw [next]
            refine ⟨rfl, ⟨sei.front cnt, held bytes sei.sendBufLen (sei.rOffset + cnt) sei.wOffset,
              ?_, rfl, short, ?_, writeInside, bytes, stored, rfl⟩, by simp, patientRest⟩
            · rw [content, front, taken]
            · simp only
              omega

/-- Draining passes a front of the queue to `send` and keeps the rest. -/
theorem sendAll_passes (answers : List SendAnswer) (sei : SesImpl) (queue : List UInt8)
    (holds : sei.Holds queue) (patient : ∀ answer ∈ answers, answer.patient) :
    (sendAll answers sei).Passes sei [] queue := by
  by_cases order : sei.rOffset ≤ sei.wOffset
  · simp only [sendAll, order, if_true]
    exact sendFromStart_passes answers sei [] queue holds order patient
  · obtain ⟨passes, sameWrite, ended⟩ :=
      sendToEnd_passes answers sei [] queue holds (by omega) patient
    simp only [sendAll, order, if_false]
    cases stopped : (sendToEnd answers sei []).failure with
    | some errno => exact passes
    | none =>
        obtain ⟨atEnd, sameSize⟩ := ended stopped
        obtain ⟨state, ⟨first, last, split, sent, short, inside, writeInside, bytes, stored,
          content⟩, retry, left⟩ := passes
        have wrappedRest : held bytes sei.sendBufLen sei.sendBufLen sei.wOffset =
            held bytes sei.sendBufLen 0 sei.wOffset := by
          have bound := holds.writeInside
          by_cases full : sei.wOffset < sei.sendBufLen
          · rw [held_wrapped bytes full, held_unwrapped bytes (Nat.zero_le _)]
            simp
          · exact absurd (holds.readInside) (by omega)
        have restart : SesImpl.Holds { (sendToEnd answers sei []).sei with rOffset := 0 } last :=
          ⟨short, Nat.zero_le _, writeInside, bytes, stored, by
            rw [content, atEnd, sameSize, sameWrite, wrappedRest]⟩
        obtain ⟨state2, ⟨second, rest, split2, sent2, kept⟩, retry2, left2⟩ :=
          sendFromStart_passes (sendToEnd answers sei []).answers _ (sendToEnd answers sei []).passed
            last restart (Nat.zero_le _) left
        refine ⟨state2.trans state, ⟨first ++ second, rest, ?_, ?_, kept⟩, retry2, left2⟩
        · rw [split, split2, List.append_assoc]
        · rw [sent2, sent, List.append_assoc]

/-- The application calls `net_send`, or the loop reports the socket writable. -/
inductive SendCall where
  | netSend (data : List UInt8) (answers : List SendAnswer)
  | netOnSend (answers : List SendAnswer)

/-- The log adds to the session the data accepted by the ring and the bytes passed to `send`. -/
structure SendLog where
  sei : SesImpl
  accepted : List UInt8
  passed : List UInt8

/-- A drain that ends in `_net_close` leaves no session to continue with. -/
def SendLog.drained (log : SendLog) (accepted : List UInt8) : Drain × TryEnd → Option SendLog
  | (drain, .keeps) => some ⟨drain.sei, accepted, log.passed ++ drain.passed⟩
  | (_, .closes _) => none

/-- In the normal state `_net_on_send` only drains the ring. -/
def sendStep : SendCall → SendLog → Option SendLog
  | .netSend data answers, log => do
      match ← netSend answers log.sei data with
      | .error sei => some { log with sei := sei }
      | .ok result => log.drained (log.accepted ++ data) result
  | .netOnSend answers, log => log.drained log.accepted (netTrySendAll answers log.sei)

/-- The data length is a positive `int`, no write fills the gap, and `send` fails for `EAGAIN` only. -/
def SendCall.Allowed : SendCall → SendLog → Prop
  | .netSend data answers, log => 0 < data.length ∧ data.length < 2 ^ 31 ∧
      (∀ answer ∈ answers, answer.patient) ∧ ¬ log.sei.Fills data
  | .netOnSend answers, _ => ∀ answer ∈ answers, answer.patient

instance : ∀ (call : SendCall) (log : SendLog), Decidable (call.Allowed log)
  | .netSend _ _, _ => inferInstanceAs (Decidable (_ ∧ _ ∧ _ ∧ _))
  | .netOnSend answers, _ => inferInstanceAs (Decidable (∀ answer ∈ answers, answer.patient))

/-- The accepted data is what `send` has taken followed by what the ring still holds. -/
structure SendLog.Consistent (log : SendLog) : Prop where
  normal : log.sei.state = .normal
  split : ∃ queue, log.accepted = log.passed ++ queue ∧ log.sei.Holds queue

theorem netTrySendAll_keeps (answers : List SendAnswer) (log : SendLog)
    (accepted queue : List UInt8) (normal : log.sei.state = .normal)
    (patient : ∀ answer ∈ answers, answer.patient) (holds : log.sei.Holds queue)
    (split : accepted = log.passed ++ queue) :
    ∃ next, log.drained accepted (netTrySendAll answers log.sei) = some next ∧
      next.accepted = accepted ∧ next.Consistent := by
  obtain ⟨state, ⟨front, rest, divided, sent, kept⟩, retry, _⟩ :=
    sendAll_passes answers log.sei queue holds patient
  have keeps : (netTrySendAll answers log.sei) = (sendAll answers log.sei, .keeps) := by
    unfold netTrySendAll
    cases stopped : (sendAll answers log.sei).failure with
    | some errno => simp [stopped, retry errno stopped]
    | none => simp [stopped, state, normal]
  rw [keeps]
  refine ⟨⟨(sendAll answers log.sei).sei, accepted, log.passed ++ (sendAll answers log.sei).passed⟩,
    rfl, rfl, state.trans normal, rest, ?_, kept⟩
  simp only [sent, List.nil_append]
  rw [split, divided, List.append_assoc]

/-- A refused write leaves the session as it was. -/
theorem writeSendBuf_refused {sei next : SesImpl} {data : List UInt8}
    (refused : writeSendBuf sei data = some (next, -1)) : next = sei := by
  unfold writeSendBuf at refused
  dsimp only at refused
  split_ifs at refused <;> simp_all [Option.bind_eq_some_iff]

/-- A refused `net_send` changes neither the session nor the two streams. -/
theorem sendStep_refused (log : SendLog) (data : List UInt8) (answers : List SendAnswer)
    (next : SesImpl) (refused : writeSendBuf log.sei data = some (next, -1)) :
    sendStep (.netSend data answers) log = some log := by
  have same := writeSendBuf_refused refused
  subst same
  by_cases empty : data.length ≤ 0
  · simp [sendStep, netSend, empty]
  · by_cases normal : log.sei.state = .normal
    · simp [sendStep, netSend, empty, normal, refused]
    · simp [sendStep, netSend, empty, normal]

theorem sendStep_consistent (call : SendCall) (log : SendLog) (consistent : log.Consistent)
    (allowed : call.Allowed log) :
    ∃ next, sendStep call log = some next ∧ next.Consistent := by
  obtain ⟨normal, queue, split, holds⟩ := consistent
  cases call with
  | netSend data answers =>
      obtain ⟨positive, fits, patient, open_⟩ := allowed
      rcases writeSendBuf_holds log.sei queue data holds fits open_ with
        refused | ⟨next, written, state, grown⟩
      · exact ⟨log, sendStep_refused log data answers _ refused, normal, queue, split, holds⟩
      · obtain ⟨final, kept, _, result⟩ := netTrySendAll_keeps answers
          ⟨next, log.accepted, log.passed⟩ (log.accepted ++ data) (queue ++ data)
          (state.trans normal) patient grown (by simp only [split, List.append_assoc])
        refine ⟨final, ?_, result⟩
        have nonempty : ¬ data.length ≤ 0 := by omega
        rw [← kept]
        simp [sendStep, netSend, nonempty, normal, written, SendLog.drained]
  | netOnSend answers =>
      obtain ⟨final, kept, _, result⟩ :=
        netTrySendAll_keeps answers log log.accepted queue normal allowed holds split
      exact ⟨final, kept, result⟩

/-- A session in the normal state starts with an empty ring. -/
def freshSession (size : Nat) (bytes : Nat → UInt8) : SesImpl :=
  ⟨.normal, some bytes, size, 0, 0⟩

/-- While no write fills the gap, `send` gets a prefix of the accepted data and the ring holds the rest. -/
theorem sendRing_stream (size : Nat) (bytes : Nat → UInt8) (short : size < 2 ^ 31)
    (calls : List SendCall)
    (meets : Meets sendStep SendCall.Allowed calls ⟨freshSession size bytes, [], []⟩) :
    ∃ log cells, exec sendStep calls ⟨freshSession size bytes, [], []⟩ = some log ∧
      log.sei.sendBuf = some cells ∧
      log.accepted = log.passed ++
        held cells log.sei.sendBufLen log.sei.rOffset log.sei.wOffset ∧
      ∀ data answers next, writeSendBuf log.sei data = some (next, -1) →
        sendStep (.netSend data answers) log = some log := by
  have start : (⟨freshSession size bytes, [], []⟩ : SendLog).Consistent :=
    ⟨rfl, [], rfl, short, Nat.zero_le _, Nat.zero_le _, bytes, rfl, by simp [freshSession]⟩
  obtain ⟨log, run, _, queue, split, _, _, _, cells, stored, content⟩ :=
    exec_invariant sendStep_consistent calls _ start meets
  exact ⟨log, cells, run, stored, by rw [split, content],
    fun data answers next refused => sendStep_refused log data answers next refused⟩

/-- A short exchange with partial sends meets the condition of the stream law. -/
theorem sendRing_stream_partial :
    ∃ log cells, exec sendStep [.netSend [1, 2, 3] [.accepts 0], .netOnSend [.fails eagain],
        .netSend [4] [.accepts 7]] ⟨freshSession 8 fun _ => 0, [], []⟩ = some log ∧
      log.sei.sendBuf = some cells ∧
      log.accepted = log.passed ++
        held cells log.sei.sendBufLen log.sei.rOffset log.sei.wOffset ∧
      ∀ data answers next, writeSendBuf log.sei data = some (next, -1) →
        sendStep (.netSend data answers) log = some log :=
  sendRing_stream 8 (fun _ => 0) (by decide) _ (by decide)

/-- The third message below ends at the read offset of the wrapped ring. -/
def overrun : List SendCall :=
  [.netSend [1, 1, 1, 1, 1] [.accepts 4], .netSend [2, 2, 2, 2, 2, 2] [.fails eagain],
    .netSend [3, 3] []]

/-- A filling message empties the ring although `send` has not taken its eight bytes. -/
theorem sendRing_overrun_lost :
    ∃ log cells, exec sendStep overrun ⟨freshSession 8 fun _ => 0, [], []⟩ = some log ∧
      log.sei.sendBuf = some cells ∧ log.passed.length + 8 = log.accepted.length ∧
      held cells log.sei.sendBufLen log.sei.rOffset log.sei.wOffset = [] ∧
      log.accepted ≠ log.passed ++
        held cells log.sei.sendBufLen log.sei.rOffset log.sei.wOffset :=
  ⟨_, _, rfl, rfl, by decide, by decide, by decide⟩

end Syslib.Net
