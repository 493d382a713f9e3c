import Syslib.Net.EventLoop

namespace Syslib.Net

open RingQueue Runs

/-- One session as the state shows it; `own` holds the frames that use it, the topmost one first. -/
structure Standing where
  ses : Option LoopSession
  listed : Nat
  released : Nat
  calls : List Callback
  own : List Frame
  waiting : Nat

def LoopState.standing (state : LoopState) (sei : Nat) : Standing where
  ses := state.sessions sei
  listed := state.sesList.count sei
  released := state.released.count sei
  calls := state.calls sei
  own := state.frames.filter fun frame => frame.ref = some sei
  waiting := (state.batch.filterMap fun entry => entry.1.ref).count sei

/-- A session that no `_net_close` has taken up can be used by any number of functions. -/
structure Standing.Alive (standing : Standing) (sei : Nat) (ses : LoopSession) : Prop where
  held : standing.ses = some ses
  listed : standing.listed = 1
  kept : standing.released = 0
  whole : .netCloseRest sei ∉ standing.own
  bounded : ses.toSesImpl.Bounded
  running : ses.state ≠ .invalid ∧ ses.state ≠ .closed
  order : Opened standing.calls
  early : ses.state = .establishing → standing.calls = []

/-- The rest of `_net_close` is the last function that uses a session in its disconnect callback. -/
structure Standing.Ending (standing : Standing) (sei : Nat) : Prop where
  held : ∃ ses, standing.ses = some ses
  listed : standing.listed = 1
  kept : standing.released = 0
  last : ∃ above, standing.own = above ++ [.netCloseRest sei] ∧
    ∀ frame ∈ above, frame = .netTrySendAll sei ∨ frame = .netClose sei
  passed : standing.waiting = 0
  order : Ended standing.calls

inductive Standing.Sound (standing : Standing) (sei : Nat) : Prop where
  | unknown (same : standing = ⟨none, 0, 0, [], [], 0⟩)
  | alive (ses : LoopSession) (alive : standing.Alive sei ses)
  | ending (ending : standing.Ending sei)
  | gone (calls : List Callback) (ended : Ended calls) (same : standing = ⟨none, 0, 1, calls, [], 0⟩)

def LoopState.Sound (state : LoopState) : Prop := ∀ sei, (state.standing sei).Sound sei

/-- Only the session `sei` may stand differently. -/
def Kept (sei : Nat) (state next : LoopState) : Prop :=
  ∀ other, other ≠ sei → next.standing other = state.standing other

theorem LoopState.Sound.turn {state next : LoopState} {sei : Nat} (sound : state.Sound)
    (kept : Kept sei state next) (here : (next.standing sei).Sound sei) : next.Sound := by
  intro other
  by_cases same : other = sei
  · rw [same]
    exact here
  · rw [kept other same]
    exact sound other

@[simp] theorem Frame.ref_callback : Frame.callback.ref = none := rfl

section Primitives

variable {sei : Nat} {origin state : LoopState} {ses : LoopSession}

theorem Kept.refl (sei : Nat) (state : LoopState) : Kept sei state state := fun _ _ => rfl

theorem LoopState.standing_write (state : LoopState) (sei : Nat) (ses : LoopSession) :
    (state.write sei ses).standing sei = { state.standing sei with ses := some ses } := by
  simp [standing, write, calls]

theorem LoopState.standing_push (state : LoopState) (frames : List Frame) (sei : Nat) :
    (state.push frames).standing sei = { state.standing sei with
      own := (frames.filter fun frame => frame.ref = some sei) ++ (state.standing sei).own } := by
  simp [standing, push, calls]

theorem LoopState.standing_invoke (state : LoopState) (sei : Nat) (callback : Callback)
    (rest : List Frame) :
    (state.invoke sei callback rest).standing sei = { state.standing sei with
      calls := (state.standing sei).calls ++ [callback]
      own := (rest.filter fun frame => frame.ref = some sei) ++ (state.standing sei).own } := by
  simp [standing, invoke, calls]

/-- Frames of the session `sei` are no frames of another one. -/
theorem filter_ref_other {frames : List Frame} {other : Nat}
    (own : ∀ frame ∈ frames, ∀ used ∈ frame.ref, used = sei) (distinct : other ≠ sei) :
    (frames.filter fun frame => frame.ref = some other) = [] := by
  rw [List.filter_eq_nil_iff]
  intro frame member used
  exact distinct (own frame member other (of_decide_eq_true used))

theorem Kept.write (kept : Kept sei origin state) : Kept sei origin (state.write sei ses) := by
  intro other distinct
  rw [← kept other distinct]
  simp [LoopState.standing, LoopState.write, LoopState.calls, distinct]

theorem Kept.push (kept : Kept sei origin state) {frames : List Frame}
    (own : ∀ frame ∈ frames, ∀ used ∈ frame.ref, used = sei) :
    Kept sei origin (state.push frames) := by
  intro other distinct
  rw [← kept other distinct, LoopState.standing_push, filter_ref_other own distinct, List.nil_append]

theorem Kept.invoke (kept : Kept sei origin state) {callback : Callback} {rest : List Frame}
    (own : ∀ frame ∈ rest, ∀ used ∈ frame.ref, used = sei) :
    Kept sei origin (state.invoke sei callback rest) := by
  intro other distinct
  have none_own := filter_ref_other own distinct
  rw [← kept other distinct]
  simp [LoopState.standing, LoopState.invoke, LoopState.calls, none_own, Ne.symm distinct]

/-- The topmost frame returns to the one below it. -/
theorem Kept.pop {frame : Frame} {frames : List Frame} (top : state.frames = frame :: frames)
    (own : ∀ used ∈ frame.ref, used = sei) : Kept sei state { state with frames } := by
  intro other distinct
  have foreign : frame.ref ≠ some other := fun used => distinct (own other used)
  simp [LoopState.standing, LoopState.calls, top, foreign]

theorem LoopState.standing_pop {frame : Frame} {frames : List Frame}
    (top : state.frames = frame :: frames) (used : frame.ref = some sei) :
    (state.standing sei).own = frame :: ({ state with frames }.standing sei).own := by
  simp [standing, top, used]

theorem Standing.Alive.write {new : LoopSession} (alive : (state.standing sei).Alive sei ses)
    (bounded : new.toSesImpl.Bounded) (running : new.state ≠ .invalid ∧ new.state ≠ .closed)
    (early : new.state = .establishing → ses.state = .establishing) :
    ((state.write sei new).standing sei).Alive sei new := by
  rw [LoopState.standing_write]
  exact ⟨rfl, alive.listed, alive.kept, alive.whole, bounded, running, alive.order,
    fun still => alive.early (early still)⟩

theorem Standing.Alive.push (alive : (state.standing sei).Alive sei ses) {frames : List Frame}
    (whole : .netCloseRest sei ∉ frames) : ((state.push frames).standing sei).Alive sei ses := by
  rw [LoopState.standing_push]
  refine ⟨alive.held, alive.listed, alive.kept, ?_, alive.bounded, alive.running, alive.order,
    alive.early⟩
  intro member
  rcases List.mem_append.mp member with new | old
  · exact whole (List.mem_filter.mp new).1
  · exact alive.whole old

theorem Standing.Alive.invoke (alive : (state.standing sei).Alive sei ses) {callback : Callback}
    {rest : List Frame} (whole : .netCloseRest sei ∉ rest) (ready : ses.state ≠ .establishing)
    (order : Opened ((state.standing sei).calls ++ [callback])) :
    ((state.invoke sei callback rest).standing sei).Alive sei ses := by
  rw [LoopState.standing_invoke]
  refine ⟨alive.held, alive.listed, alive.kept, ?_, alive.bounded, alive.running, order,
    fun still => absurd still ready⟩
  intro member
  rcases List.mem_append.mp member with new | old
  · exact whole (List.mem_filter.mp new).1
  · exact alive.whole old

theorem Standing.Alive.pop {frame : Frame} {frames : List Frame}
    (top : state.frames = frame :: frames) (used : frame.ref = some sei)
    (alive : (state.standing sei).Alive sei ses) :
    ({ state with frames }.standing sei).Alive sei ses := by
  refine ⟨alive.held, alive.listed, alive.kept, ?_, alive.bounded, alive.running, alive.order,
    alive.early⟩
  intro member
  apply alive.whole
  rw [LoopState.standing_pop top used]
  exact List.mem_cons_of_mem frame member

theorem Standing.Ending.write {new : LoopSession} (ending : (state.standing sei).Ending sei) :
    ((state.write sei new).standing sei).Ending sei := by
  rw [LoopState.standing_write]
  exact ⟨⟨new, rfl⟩, ending.listed, ending.kept, ending.last, ending.passed, ending.order⟩

/-- In the disconnect callback the library may still try to send for the session. -/
theorem Standing.Ending.push (ending : (state.standing sei).Ending sei) {frame : Frame}
    (harmless : frame = .netTrySendAll sei ∨ frame = .netClose sei) :
    ((state.push [frame]).standing sei).Ending sei := by
  obtain ⟨above, split, others⟩ := ending.last
  have used : frame.ref = some sei := by
    rcases harmless with rfl | rfl <;> rfl
  rw [LoopState.standing_push]
  refine ⟨ending.held, ending.listed, ending.kept, ⟨frame :: above, ?_, ?_⟩, ending.passed,
    ending.order⟩
  · simp [used, split]
  · intro other member
    rcases List.mem_cons.mp member with rfl | old
    · exact harmless
    · exact others other old

end Primitives

section Ring

theorem SesImpl.Bounded.seek {sei : SesImpl} (bounded : sei.Bounded) {offset : Nat}
    (inside : offset ≤ sei.sendBufLen) : SesImpl.Bounded { sei with rOffset := offset } :=
  ⟨bounded.short, inside, bounded.writeInside, bounded.mapped⟩

theorem SesImpl.Bounded.setState {sei : SesImpl} (bounded : sei.Bounded) (state : SesState) :
    SesImpl.Bounded { sei with state } :=
  ⟨bounded.short, bounded.readInside, bounded.writeInside, bounded.mapped⟩

/-- Whatever `send` answers, the read offset stays inside the buffer. -/
theorem sendFromStart_bounded (answers : List SendAnswer) {sei : SesImpl} (passed : List UInt8)
    (bounded : sei.Bounded) : (sendFromStart answers sei passed).sei.Bounded ∧
      (sendFromStart answers sei passed).sei.state = sei.state := by
  by_cases done : sei.wOffset - sei.rOffset = 0
  · simpa [sendFromStart, done] using bounded
  · cases answers with
    | nil => simpa [sendFromStart, done] using bounded
    | cons answer rest =>
        cases called : sendCall sei (sei.wOffset - sei.rOffset) answer with
        | error errno => simpa [sendFromStart, done, called] using bounded
        | ok cnt =>
            have bound := (sendCall_ok (by omega) called).2
            have inside := bounded.writeInside
            simp only [sendFromStart, done, called, if_false, and_true]
            exact bounded.seek (by omega)

theorem sendToEnd_bounded (answers : List SendAnswer) {sei : SesImpl} (passed : List UInt8)
    (bounded : sei.Bounded) : (sendToEnd answers sei passed).sei.Bounded ∧
      (sendToEnd answers sei passed).sei.state = sei.state := by
  induction answers generalizing sei passed with
  | nil =>
      rw [sendToEnd]
      split_ifs <;> exact ⟨bounded, rfl⟩
  | cons answer rest ih =>
      have inside := bounded.readInside
      have remain := toInt_sub bounded.short inside
      by_cases done : sei.sendBufLen - sei.rOffset = 0
      · simpa [sendToEnd, remain, done] using bounded
      · cases called : sendCall sei (sei.sendBufLen - sei.rOffset) answer with
        | error errno => simpa [sendToEnd, remain, done, called] using bounded
        | ok cnt =>
            have bound := (sendCall_ok (by omega) called).2
            have moved := @SesImpl.Bounded.seek sei bounded (sei.rOffset + cnt) (by omega)
            have next := @sendToEnd_ok sei cnt answer rest passed bounded.short inside done called
            rw [next]
            exact ih _ moved

theorem sendAll_bounded (answers : List SendAnswer) {sei : SesImpl} (bounded : sei.Bounded) :
    (sendAll answers sei).sei.Bounded ∧ (sendAll answers sei).sei.state = sei.state := by
  by_cases order : sei.rOffset ≤ sei.wOffset
  · simp only [sendAll, order, if_true]
    exact sendFromStart_bounded answers [] bounded
  · obtain ⟨kept, same⟩ := sendToEnd_bounded answers [] bounded
    simp only [sendAll, order, if_false]
    cases stopped : (sendToEnd answers sei []).failure with
    | some errno => exact ⟨kept, same⟩
    | none =>
        have restart := kept.seek (Nat.zero_le _)
        obtain ⟨bounded, state⟩ := sendFromStart_bounded (sendToEnd answers sei []).answers
          (sendToEnd answers sei []).passed restart
        exact ⟨bounded, state.trans same⟩

theorem netTrySendAll_sei (answers : List SendAnswer) (sei : SesImpl) :
    (netTrySendAll answers sei).1.sei = (sendAll answers sei).sei := by
  unfold netTrySendAll
  dsimp only
  cases (sendAll answers sei).failure with
  | some errno => rfl
  | none => split_ifs <;> rfl

/-- A write of any `int` length leaves the write offset inside the buffer. -/
theorem writeSendBuf_bounded {sei : SesImpl} (bounded : sei.Bounded) {data : List UInt8}
    (fits : data.length < 2 ^ 31) :
    ∃ next rslt, writeSendBuf sei data = some (next, rslt) ∧ next.Bounded ∧ next.state = sei.state := by
  obtain ⟨state, buf, size, r, w⟩ := sei
  obtain ⟨bytes, stored⟩ := Option.isSome_iff_exists.mp bounded.mapped
  obtain ⟨short, readInside, writeInside, -⟩ := bounded
  simp only at short readInside writeInside stored
  subst stored
  by_cases wrapped : w < r
  · by_cases refused : r - w < data.length
    · refine ⟨_, -1, ?_, ⟨short, readInside, writeInside, rfl⟩, rfl⟩
      simp [writeSendBuf, wrapped, refused]
    · refine ⟨⟨state, some (store bytes w data), size, r, w + data.length⟩, 0, ?_,
        ⟨short, readInside, by simp only; omega, rfl⟩, rfl⟩
      simp [writeSendBuf, wrapped, refused, memcpySend_natCast]
  · have left_ : addUnsignedInt w data.length = w + data.length := Nat.mod_eq_of_lt (by omega)
    have right_ : addUnsignedInt r size = r + size := Nat.mod_eq_of_lt (by omega)
    have remain := toInt_sub short writeInside
    by_cases room : w + data.length < r + size
    · by_cases straight : data.length ≤ size - w
      · refine ⟨⟨state, some (store bytes w data), size, r, w + data.length⟩, 0, ?_,
          ⟨short, readInside, by simp only; omega, rfl⟩, rfl⟩
        simp [writeSendBuf, wrapped, left_, right_, room, remain, straight, memcpySend_natCast]
      · have rest : (data.length : Int) - ((size - w : Nat) : Int) =
            ((data.length - (size - w) : Nat) : Int) := by omega
        refine ⟨⟨state, some (store (store bytes w (data.take (size - w))) 0
          ((data.drop (size - w)).take (data.length - (size - w)))), size, r,
          data.length - (size - w)⟩, 0, ?_, ⟨short, readInside, by simp only; omega, rfl⟩, rfl⟩
        simp [writeSendBuf, wrapped, left_, right_, room, remain, straight, rest,
          memcpySend_natCast]
    · refine ⟨_, -1, ?_, ⟨short, readInside, writeInside, rfl⟩, rfl⟩
      simp [writeSendBuf, wrapped, left_, right_, room]

end Ring

/-- The function has a result, which leaves the other sessions and is sound for `sei`. -/
def Turned (sei : Nat) (origin : LoopState) (result : Option LoopState) : Prop :=
  ∃ next, result = some next ∧ Kept sei origin next ∧ (next.standing sei).Sound sei

section Functions

variable {sei : Nat} {origin state : LoopState} {ses : LoopSession}

theorem Opened.recv {calls : List Callback} (opened : Opened calls) : Opened (calls ++ [.recv]) := by
  obtain ⟨count, rfl | rfl⟩ := opened
  · exact ⟨count + 1, Or.inl List.replicate_succ'.symm⟩
  · refine ⟨count + 1, Or.inr ?_⟩
    rw [List.replicate_succ', List.cons_append]

theorem netOnSend_turned (kept : Kept sei origin state)
    (alive : (state.standing sei).Alive sei ses) : Turned sei origin (state.netOnSend sei) := by
  have held : state.sessions sei = some ses := alive.held
  by_cases new : ses.state = .establishing
  · have fresh := alive.early new
    have bounded := alive.bounded.setState .normal
    have normal := @Standing.Alive.write _ _ _ { ses with state := .normal } alive bounded
      ⟨by simp, by simp⟩ (by simp)
    have first : Opened (((state.write sei { ses with state := .normal }).standing sei).calls ++
        [.conn]) := by
      rw [LoopState.standing_write, fresh]
      exact ⟨0, Or.inr rfl⟩
    refine ⟨_, by simp [LoopState.netOnSend, held, new]; rfl, kept.write.invoke (by simp [Frame.ref]), ?_⟩
    exact .alive _ (normal.invoke (by simp) (by simp) first)
  · refine ⟨_, by simp [LoopState.netOnSend, held, new]; rfl, kept.push (by simp [Frame.ref]), ?_⟩
    exact .alive _ (alive.push (by simp))

theorem netOnRecv_turned (kept : Kept sei origin state)
    (alive : (state.standing sei).Alive sei ses) : Turned sei origin (state.netOnRecv sei) := by
  have held : state.sessions sei = some ses := alive.held
  have cleared := @Standing.Alive.write _ _ _ { ses with bytesRecv := 0 } alive alive.bounded
    alive.running id
  by_cases broken : ses.recvBuf = false ∨ ses.recvBufLen = 0
  · refine ⟨_, by simp [LoopState.netOnRecv, held, broken]; rfl,
      kept.write.push (by simp [Frame.ref]), ?_⟩
    exact .alive _ (cleared.push (by simp))
  · refine ⟨_, by simp [LoopState.netOnRecv, held, broken]; rfl,
      kept.write.push (by simp [Frame.ref]), ?_⟩
    exact .alive _ (cleared.push (by simp))

theorem netOnError_turned (kept : Kept sei origin state)
    (alive : (state.standing sei).Alive sei ses) : Turned sei origin (state.netOnError sei) := by
  have held : state.sessions sei = some ses := alive.held
  by_cases none_left : ses.sockFd = 0
  · exact ⟨state, by simp [LoopState.netOnError, held, none_left], kept, .alive ses alive⟩
  · refine ⟨_, by simp [LoopState.netOnError, held, none_left]; rfl, kept.push (by simp [Frame.ref]), ?_⟩
    exact .alive _ (alive.push (by simp))

theorem handlers_own (sei : Nat) (bits : EventBits) :
    ∀ frame ∈ [Frame.handlers sei bits], ∀ used ∈ frame.ref, used = sei := by
  intro frame member used reads
  rw [List.mem_singleton.mp member, Frame.ref] at reads
  split_ifs at reads
  · exact (Option.mem_some_iff.mp reads).symm
  · exact absurd reads (Option.not_mem_none used)

theorem handle_turned (kept : Kept sei origin state) (alive : (state.standing sei).Alive sei ses)
    (bits : EventBits) : Turned sei origin (state.handle sei bits) := by
  rw [LoopState.handle]
  split_ifs with output input error
  · exact netOnSend_turned (kept.push (handlers_own sei _)) (alive.push (by simp))
  · exact netOnRecv_turned (kept.push (handlers_own sei _)) (alive.push (by simp))
  · exact netOnError_turned kept alive
  · exact ⟨state, rfl, kept, .alive ses alive⟩

/-- The drained session is written back; only a close adds a frame. -/
theorem trySendAll_cases {answers : List SendAnswer} (held : state.sessions sei = some ses) :
    ∃ drained : LoopState, drained = state.write sei
        { ses with toSesImpl := (sendAll answers ses.toSesImpl).sei } ∧
      (state.trySendAll sei answers = some drained ∨
        state.trySendAll sei answers = some (drained.push [.netClose sei])) := by
  refine ⟨_, rfl, ?_⟩
  have same := netTrySendAll_sei answers ses.toSesImpl
  cases ended : netTrySendAll answers ses.toSesImpl with
  | mk drain ending =>
      rw [ended] at same
      cases ending with
      | keeps => exact Or.inl (by simp [LoopState.trySendAll, held, ended, ← same])
      | closes rslt => exact Or.inr (by simp [LoopState.trySendAll, held, ended, ← same])

theorem trySendAll_turned (kept : Kept sei origin state)
    (alive : (state.standing sei).Alive sei ses) (answers : List SendAnswer) :
    Turned sei origin (state.trySendAll sei answers) := by
  obtain ⟨bounded, same⟩ := sendAll_bounded answers alive.bounded
  have drained := @Standing.Alive.write _ _ _
    { ses with toSesImpl := (sendAll answers ses.toSesImpl).sei } alive bounded
    (same ▸ alive.running) (fun still => same ▸ still)
  obtain ⟨_, rfl, keeps | closes⟩ := @trySendAll_cases _ _ _ answers alive.held
  · exact ⟨_, keeps, kept.write, .alive _ drained⟩
  · exact ⟨_, closes, kept.write.push (by simp [Frame.ref]), .alive _ (drained.push (by simp))⟩

theorem trySendAll_ending (kept : Kept sei origin state) (ending : (state.standing sei).Ending sei)
    (answers : List SendAnswer) : Turned sei origin (state.trySendAll sei answers) := by
  obtain ⟨ses, held⟩ := ending.held
  obtain ⟨_, rfl, keeps | closes⟩ := @trySendAll_cases _ _ _ answers held
  · exact ⟨_, keeps, kept.write, .ending ending.write⟩
  · exact ⟨_, closes, kept.write.push (by simp [Frame.ref]), .ending (ending.write.push (Or.inr rfl))⟩

/-- A close that finds no other use of the session calls the disconnect callback and then ends. -/
theorem netClose_turned (kept : Kept sei origin state) (alive : (state.standing sei).Alive sei ses)
    (alone : sei ∉ refs state.frames state.batch) : Turned sei origin (state.netClose sei) := by
  have held : state.sessions sei = some ses := alive.held
  rw [refs, List.mem_append, not_or] at alone
  have unused : (state.standing sei).own = [] := by
    refine List.filter_eq_nil_iff.mpr ?_
    intro frame member used
    exact alone.1 (List.mem_filterMap.mpr ⟨frame, member, of_decide_eq_true used⟩)
  have passed : (state.standing sei).waiting = 0 := List.count_eq_zero.mpr alone.2
  refine ⟨_, by simp [LoopState.netClose, held, alive.running]; rfl,
    kept.write.invoke (by simp [Frame.ref]), .ending ?_⟩
  rw [LoopState.standing_invoke, LoopState.standing_write]
  exact ⟨⟨_, rfl⟩, alive.listed, alive.kept, ⟨[], by simp [unused, Frame.ref], by simp⟩, passed,
    _, alive.order, rfl⟩

/-- The rest of a close releases a session that nothing uses any more. -/
theorem netCloseRest_turned (kept : Kept sei origin state) (held : state.sessions sei = some ses)
    (listed : (state.standing sei).listed = 1) (unreleased : (state.standing sei).released = 0)
    (unused : (state.standing sei).own = []) (passed : (state.standing sei).waiting = 0)
    (ended : Ended (state.standing sei).calls) : Turned sei origin (state.netCloseRest sei) := by
  have member : sei ∈ state.sesList := by
    apply List.count_pos_iff.mp
    show 0 < (state.standing sei).listed
    omega
  refine ⟨_, by simp [LoopState.netCloseRest, held, member]; rfl, ?_, ?_⟩
  · intro other distinct
    rw [← kept other distinct]
    simp [LoopState.standing, LoopState.calls, distinct, List.count_erase_of_ne distinct,
      Ne.symm distinct]
  · refine .gone (state.standing sei).calls ended ?_
    simp only [LoopState.standing] at listed unreleased unused passed
    simp [LoopState.standing, LoopState.calls, listed, unreleased, unused, passed]

theorem recvEnd_turned (kept : Kept sei origin state) (alive : (state.standing sei).Alive sei ses)
    {errno : Nat} (ready : errno = eagain → 0 < ses.bytesRecv → ses.state ≠ .establishing) :
    Kept sei origin (state.recvEnd sei ses errno) ∧
      ((state.recvEnd sei ses errno).standing sei).Sound sei := by
  rw [LoopState.recvEnd]
  split_ifs with failed more
  · exact ⟨kept.push (by simp [Frame.ref]), .alive _ (alive.push (by simp))⟩
  · exact ⟨kept.invoke (by simp),
      .alive _ (alive.invoke (by simp) (ready (not_ne_iff.mp failed) more) alive.order.recv)⟩
  · exact ⟨kept, .alive ses alive⟩

theorem recvRound_turned (kept : Kept sei origin state)
    (alive : (state.standing sei).Alive sei ses) {answer : RecvAnswer} {stale : Nat}
    (ready : Passes ses answer stale → ses.state ≠ .establishing) :
    Turned sei origin (state.recvRound sei answer stale) := by
  have held : state.sessions sei = some ses := alive.held
  cases answer with
  | closed =>
      exact ⟨_, by simp [LoopState.recvRound, held],
        recvEnd_turned kept alive fun again more => ready ⟨again, more⟩⟩
  | fails errno =>
      exact ⟨_, by simp [LoopState.recvRound, held],
        recvEnd_turned kept alive fun again more => ready ⟨again, more⟩⟩
  | data more =>
      have filled := @Standing.Alive.write _ _ _
        { ses with bytesRecv := LoopState.recvCount ses more } alive alive.bounded alive.running id
      by_cases full : ses.recvBufLen ≤ LoopState.recvCount ses more
      · have opened : Opened (((state.write sei { ses with bytesRecv := LoopState.recvCount ses more
            }).standing sei).calls ++ [.recv]) := by
          rw [LoopState.standing_write]
          exact alive.order.recv
        refine ⟨_, by simp [LoopState.recvRound, held, full]; rfl,
          kept.write.invoke (by simp [Frame.ref]), ?_⟩
        exact .alive _ (filled.invoke (by simp) (ready full) opened)
      · refine ⟨_, by simp [LoopState.recvRound, held, full]; rfl,
          kept.write.push (by simp [Frame.ref]), ?_⟩
        exact .alive _ (filled.push (by simp))

theorem recvReset_turned (kept : Kept sei origin state)
    (alive : (state.standing sei).Alive sei ses) : Turned sei origin (state.recvReset sei) := by
  have held : state.sessions sei = some ses := alive.held
  have cleared := @Standing.Alive.write _ _ _ { ses with bytesRecv := 0 } alive alive.bounded
    alive.running id
  refine ⟨_, by simp [LoopState.recvReset, held]; rfl, kept.write.push (by simp [Frame.ref]), ?_⟩
  exact .alive _ (cleared.push (by simp))

theorem netSend_held (held : state.sessions sei = some ses) (data : List UInt8) :
    state.netSend sei data =
      if data.length ≤ 0 ∨ ses.state ≠ .normal then some state
      else (writeSendBuf ses.toSesImpl data).bind fun written =>
        if written.2 < 0 then some state
        else some ((state.write sei { ses with toSesImpl := written.1 }).push [.netTrySendAll sei]) := by
  rw [LoopState.netSend, held]
  rfl

theorem netSend_turned (kept : Kept sei origin state) (alive : (state.standing sei).Alive sei ses)
    {data : List UInt8} (fits : data.length < 2 ^ 31) :
    Turned sei origin (state.netSend sei data) := by
  have held : state.sessions sei = some ses := alive.held
  by_cases refused : data.length ≤ 0 ∨ ses.state ≠ .normal
  · exact ⟨state, by rw [netSend_held held, if_pos refused], kept, .alive ses alive⟩
  · obtain ⟨impl, rslt, written, bounded, same⟩ := writeSendBuf_bounded alive.bounded fits
    by_cases full : rslt < 0
    · exact ⟨state, by rw [netSend_held held, if_neg refused, written]; exact if_pos full, kept,
        .alive ses alive⟩
    · have accepted := @Standing.Alive.write _ _ _ { ses with toSesImpl := impl } alive bounded
        (same ▸ alive.running) (fun still => same ▸ still)
      refine ⟨_, by rw [netSend_held held, if_neg refused, written]; exact if_neg full,
        kept.write.push (by simp [Frame.ref]), ?_⟩
      exact .alive _ (accepted.push (by simp))

/-- Data that the closing session refuses leaves everything as it is. -/
theorem netSend_refused {data : List UInt8} (held : state.sessions sei = some ses)
    (refused : data.length ≤ 0 ∨ ses.state ≠ .normal ∨
      ∃ written ∈ writeSendBuf ses.toSesImpl data, written.2 < 0) :
    state.netSend sei data = some state := by
  by_cases early : data.length ≤ 0 ∨ ses.state ≠ .normal
  · rw [netSend_held held, if_pos early]
  · rw [← or_assoc] at refused
    obtain ⟨⟨impl, rslt⟩, written, full⟩ := refused.resolve_left early
    rw [netSend_held held, if_neg early, Option.mem_def.mp written]
    exact if_pos full

theorem netDisconnect_turned (kept : Kept sei origin state)
    (alive : (state.standing sei).Alive sei ses) : Turned sei origin (state.netDisconnect sei) := by
  have held : state.sessions sei = some ses := alive.held
  by_cases refused : ses.state ≠ .normal ∧ ses.state ≠ .establishing
  · exact ⟨state, by simp [LoopState.netDisconnect, held, refused], kept, .alive ses alive⟩
  · have bounded := alive.bounded.setState .closing
    have closing := @Standing.Alive.write _ _ _ { ses with state := .closing } alive bounded
      ⟨by simp, by simp⟩ (by simp)
    refine ⟨_, by rw [LoopState.netDisconnect, held]; simp [refused]; rfl,
      kept.write.push (by simp [Frame.ref]), ?_⟩
    exact .alive _ (closing.push (by simp))

theorem netDisconnect_ending (kept : Kept sei origin state)
    (ending : (state.standing sei).Ending sei) :
    Turned sei origin (state.netDisconnect sei) := by
  obtain ⟨ses, held⟩ := ending.held
  have found : state.sessions sei = some ses := held
  by_cases refused : ses.state ≠ .normal ∧ ses.state ≠ .establishing
  · exact ⟨state, by simp [LoopState.netDisconnect, found, refused], kept, .ending ending⟩
  · refine ⟨_, by rw [LoopState.netDisconnect, found]; simp [refused]; rfl,
      kept.write.push (by simp [Frame.ref]), ?_⟩
    exact .ending (ending.write.push (Or.inl rfl))

/-- A new session is alive and has seen no callback. -/
theorem create_turned (kept : Kept sei origin state)
    (unknown : state.standing sei = ⟨none, 0, 0, [], [], 0⟩) (establishing : ses.state = .establishing)
    (bounded : ses.toSesImpl.Bounded) :
    Kept sei origin (state.create sei ses) ∧
      ((state.create sei ses).standing sei).Alive sei ses := by
  constructor
  · intro other distinct
    rw [← kept other distinct]
    simp [LoopState.standing, LoopState.create, LoopState.write, LoopState.calls, distinct,
      Ne.symm distinct]
  · simp only [LoopState.standing, Standing.mk.injEq] at unknown
    obtain ⟨-, listed, released, calls, own, -⟩ := unknown
    have fresh : (state.create sei ses).calls sei = [] := calls
    refine ⟨?_, ?_, released, ?_, bounded, ⟨by simp [establishing], by simp [establishing]⟩,
      ?_, fun _ => fresh⟩
    · simp [LoopState.standing, LoopState.create, LoopState.write]
    · simp [LoopState.standing, LoopState.create, LoopState.write, listed]
    · simp only [LoopState.standing, LoopState.create, LoopState.write, own]
      exact List.not_mem_nil
    · exact ⟨0, Or.inl fresh⟩

end Functions

section Steps

variable {sei : Nat} {state : LoopState}

theorem LoopState.Sound.turned {result : Option LoopState} (sound : state.Sound)
    (turned : Turned sei state result) : ∃ next, result = some next ∧ next.Sound := by
  obtain ⟨next, taken, kept, here⟩ := turned
  exact ⟨next, taken, sound.turn kept here⟩

/-- A session that is listed or still in use has its memory. -/
theorem Standing.Sound.used {standing : Standing} (sound : standing.Sound sei)
    (used : standing.listed ≠ 0 ∨ standing.own ≠ [] ∨ standing.waiting ≠ 0) :
    (∃ ses, standing.Alive sei ses) ∨ standing.Ending sei := by
  cases sound with
  | unknown same =>
      subst same
      simp at used
  | alive ses alive => exact Or.inl ⟨ses, alive⟩
  | ending ending => exact Or.inr ending
  | gone calls ended same =>
      subst same
      simp at used

/-- A closing session has only the rest of its close, or a function that its own callback called. -/
theorem Standing.Ending.top {standing : Standing} {frame : Frame} {rest : List Frame}
    (ending : standing.Ending sei) (top : standing.own = frame :: rest) :
    (frame = .netCloseRest sei ∧ rest = []) ∨
      ((frame = .netTrySendAll sei ∨ frame = .netClose sei) ∧
        ∃ above, rest = above ++ [.netCloseRest sei] ∧
          ∀ other ∈ above, other = .netTrySendAll sei ∨ other = .netClose sei) := by
  obtain ⟨above, split, others⟩ := ending.last
  rw [top] at split
  cases above with
  | nil =>
      obtain ⟨same, empty⟩ := List.cons.inj split
      exact Or.inl ⟨same, empty⟩
  | cons first above =>
      obtain ⟨rfl, same⟩ := List.cons.inj split
      exact Or.inr ⟨others frame List.mem_cons_self, above, same,
        fun other member => others other (List.mem_cons_of_mem frame member)⟩

/-- A frame that no disconnect callback leads to belongs to a session that is alive. -/
theorem LoopState.Sound.alive_of_top (sound : state.Sound) {frame : Frame} {frames : List Frame}
    (top : state.frames = frame :: frames) (used : frame.ref = some sei)
    (other : frame ≠ .netCloseRest sei ∧ frame ≠ .netTrySendAll sei ∧ frame ≠ .netClose sei) :
    ∃ ses, (state.standing sei).Alive sei ses := by
  have own := LoopState.standing_pop top used
  rcases (sound sei).used (Or.inr (Or.inl (by simp [own]))) with alive | ending
  · exact alive
  · rcases ending.top own with ⟨rest, -⟩ | ⟨called | called, -⟩
    · exact absurd rest other.1
    · exact absurd called other.2.1
    · exact absurd called other.2.2

/-- While no function runs, no session is closing. -/
theorem LoopState.Sound.alive_of_idle (sound : state.Sound) (idle : state.frames = [])
    (used : (state.standing sei).listed ≠ 0 ∨ (state.standing sei).waiting ≠ 0) :
    ∃ ses, (state.standing sei).Alive sei ses := by
  rcases (sound sei).used (used.imp_right Or.inr) with alive | ending
  · exact alive
  · obtain ⟨above, split, -⟩ := ending.last
    simp [LoopState.standing, idle] at split

theorem LoopState.Sound.unknown (sound : state.Sound)
    (fresh : state.sessions sei = none ∧ sei ∉ state.released) :
    state.standing sei = ⟨none, 0, 0, [], [], 0⟩ := by
  cases sound sei with
  | unknown same => exact same
  | alive ses alive =>
      have held : state.sessions sei = some ses := alive.held
      simp [fresh.1] at held
  | ending ending =>
      obtain ⟨ses, held⟩ := ending.held
      have held : state.sessions sei = some ses := held
      simp [fresh.1] at held
  | gone calls ended same =>
      have once : state.released.count sei = 1 := congrArg Standing.released same
      rw [List.count_eq_zero.mpr fresh.2] at once
      omega

theorem create_sound (sound : state.Sound) {ses : LoopSession} (new : Newborn state sei ses) :
    (state.create sei ses).Sound := by
  obtain ⟨kept, alive⟩ := create_turned (Kept.refl sei state) (sound.unknown new.unknown)
    new.establishing new.bounded
  exact sound.turn kept (.alive ses alive)

/-- A session without a sound change keeps its standing when the user's function is called. -/
theorem LoopState.Sound.pushCallback (sound : state.Sound) : (state.push [.callback]).Sound := by
  intro sei
  rw [LoopState.standing_push]
  exact sound sei

theorem netOnAcc_sound (sound : state.Sound) {accepted : Option (Nat × LoopSession)}
    (fresh : ∀ new ∈ accepted, Newborn state new.1 new.2) : (state.netOnAcc accepted).Sound := by
  cases accepted with
  | none => exact sound
  | some new => exact (create_sound sound (fresh new rfl)).pushCallback

/-- Without running functions the entries left in the batch may be any entries of listed sessions. -/
theorem LoopState.Sound.rebatch (sound : state.Sound) (idle : state.frames = [])
    (batch : List (Target × EventBits))
    (listed : ∀ entry ∈ batch, ∀ sei ∈ entry.1.ref, ∃ ses, (state.standing sei).Alive sei ses) :
    ({ state with batch } : LoopState).Sound := by
  intro sei
  have unused : ((batch.filterMap fun entry => entry.1.ref).count sei = 0) ∨
      ∃ ses, (state.standing sei).Alive sei ses := by
    by_cases member : sei ∈ batch.filterMap fun entry => entry.1.ref
    · obtain ⟨entry, inside, same⟩ := List.mem_filterMap.mp member
      exact Or.inr (listed entry inside sei same)
    · exact Or.inl (List.count_eq_zero.mpr member)
  have revised : ({ state with batch } : LoopState).standing sei = { state.standing sei with
      waiting := (batch.filterMap fun entry => entry.1.ref).count sei } := rfl
  have stays : ∀ ses, (state.standing sei).Alive sei ses →
      (({ state with batch } : LoopState).standing sei).Sound sei := fun ses alive =>
    .alive ses ⟨alive.held, alive.listed, alive.kept, alive.whole, alive.bounded, alive.running,
      alive.order, alive.early⟩
  rcases unused with zero | ⟨ses, alive⟩
  · rw [zero] at revised
    cases sound sei with
    | alive ses alive => exact stays ses alive
    | unknown same => exact .unknown (by rw [revised, same])
    | gone calls ended same => exact .gone calls ended (by rw [revised, same])
    | ending ending =>
        obtain ⟨above, split, -⟩ := ending.last
        simp [LoopState.standing, idle] at split
  · exact stays ses alive

theorem pushHandlers_sound (sound : state.Sound) {ses : LoopSession}
    (alive : (state.standing sei).Alive sei ses) (bits : EventBits) :
    (state.push [.handlers sei bits]).Sound := by
  exact sound.turn ((Kept.refl sei state).push (handlers_own sei bits))
    (.alive ses (alive.push (by simp)))

/-- The next entry of the batch goes to a session that is alive, or to an acceptor. -/
theorem dispatch_sound (sound : state.Sound) (idle : state.frames = []) {target : Target}
    {bits : EventBits} {batch : List (Target × EventBits)}
    (first : state.batch = (target, bits) :: batch) {answered : Answered}
    (fresh : ∀ new ∈ answered.accepted, Newborn state new.1 new.2) :
    ∃ next, ({ state with batch } : LoopState).dispatch answered target bits = some next ∧
      next.Sound := by
  have waits : ∀ entry ∈ state.batch, ∀ sei ∈ entry.1.ref,
      ∃ ses, (state.standing sei).Alive sei ses := by
    intro entry member sei used
    apply sound.alive_of_idle idle
    right
    have counted : sei ∈ state.batch.filterMap fun entry => entry.1.ref :=
      List.mem_filterMap.mpr ⟨entry, member, used⟩
    exact (List.count_pos_iff.mpr counted).ne'
  rw [first] at waits
  have shorter : ({ state with batch } : LoopState).Sound :=
    sound.rebatch idle batch fun entry member =>
      waits entry (List.mem_cons_of_mem _ member)
  have accepts : (({ state with batch } : LoopState).netOnAcc answered.accepted).Sound := by
    refine netOnAcc_sound shorter ?_
    intro new member
    exact ⟨(fresh new member).unknown, (fresh new member).establishing, (fresh new member).bounded⟩
  cases target with
  | acceptor => exact ⟨_, rfl, accepts⟩
  | session sei =>
      obtain ⟨ses, alive⟩ := waits _ List.mem_cons_self sei rfl
      have held : state.sessions sei = some ses := alive.held
      have still : (({ state with batch } : LoopState).standing sei).Alive sei ses :=
        ⟨alive.held, alive.listed, alive.kept, alive.whole, alive.bounded, alive.running,
          alive.order, alive.early⟩
      exact ⟨_, by simp [LoopState.dispatch, held], pushHandlers_sound shorter still bits⟩
  | descriptor fd =>
      by_cases acceptor : fd ∈ state.acceptors
      · exact ⟨_, if_pos acceptor, accepts⟩
      · cases found : ({ state with batch } : LoopState).holderOf fd with
        | none =>
            have stops : ({ state with batch } : LoopState).dispatch answered (.descriptor fd) bits =
                some { state with batch := [] } := by
              simp [LoopState.dispatch, acceptor, found]
            exact ⟨_, stops, sound.rebatch idle [] (by simp)⟩
        | some sei =>
            have goes : ({ state with batch } : LoopState).dispatch answered (.descriptor fd) bits =
                some (({ state with batch } : LoopState).push [.handlers sei bits]) := by
              simp [LoopState.dispatch, acceptor, found]
            have member : sei ∈ state.sesList := List.mem_of_find?_eq_some found
            obtain ⟨ses, alive⟩ :=
              @LoopState.Sound.alive_of_idle sei { state with batch } shorter idle
                (Or.inl (List.count_pos_iff.mpr member).ne')
            exact ⟨_, goes, pushHandlers_sound shorter alive bits⟩

/-- The topmost function takes its next step. -/
theorem proceed_sound (sound : state.Sound) {answered : Answered}
    (possible : (LoopInput.proceed answered).Possible state)
    (careful : (LoopInput.proceed answered).Careful state) :
    ∃ next, state.proceed answered = some next ∧ next.Sound := by
  cases top : state.frames with
  | nil =>
      cases first : state.batch with
      | nil => exact ⟨state, by simp [LoopState.proceed, top, first], sound⟩
      | cons entry batch =>
          have goes : state.proceed answered =
              ({ state with batch } : LoopState).dispatch answered entry.1 entry.2 := by
            rw [LoopState.proceed, top]
            simp only [first]
          rw [goes]
          exact dispatch_sound sound top first possible
  | cons frame frames =>
      have popped : ∀ {sei}, frame.ref = some sei → Kept sei state { state with frames } :=
        fun used => Kept.pop top fun other same => by
          rw [used] at same
          exact (Option.mem_some_iff.mp same).symm
      cases frame with
      | callback => exact ⟨state, by simp [LoopState.proceed, top], sound⟩
      | handlers sei bits =>
          have goes : state.proceed answered =
              ({ state with frames } : LoopState).handle sei bits := by
            simp [LoopState.proceed, top]
          rw [goes]
          by_cases some_left : bits.output ∨ bits.input ∨ bits.error
          · have used : (Frame.handlers sei bits).ref = some sei := if_pos some_left
            obtain ⟨ses, alive⟩ := sound.alive_of_top top used (by simp)
            exact sound.turned (handle_turned (popped used) (alive.pop top used) bits)
          · have used : (Frame.handlers sei bits).ref = none := if_neg some_left
            refine ⟨{ state with frames }, ?_, ?_⟩
            · simp only [not_or, Bool.not_eq_true] at some_left
              simp [LoopState.handle, some_left]
            · intro other
              have same : ({ state with frames } : LoopState).standing other = state.standing other := by
                simp [LoopState.standing, LoopState.calls, top, used]
              rw [same]
              exact sound other
      | netTrySendAll sei =>
          have used : (Frame.netTrySendAll sei).ref = some sei := rfl
          have goes : state.proceed answered =
              ({ state with frames } : LoopState).trySendAll sei answered.sends := by
            simp [LoopState.proceed, top]
          have own := LoopState.standing_pop top used
          rw [goes]
          rcases (sound sei).used (Or.inr (Or.inl (by simp [own]))) with ⟨ses, alive⟩ | ending
          · exact sound.turned (trySendAll_turned (popped used) (alive.pop top used) _)
          · rcases ending.top own with ⟨rest, -⟩ | ⟨-, last⟩
            · cases rest
            · have still : (({ state with frames } : LoopState).standing sei).Ending sei :=
                ⟨ending.held, ending.listed, ending.kept, last, ending.passed, ending.order⟩
              exact sound.turned (trySendAll_ending (popped used) still _)
      | netClose sei =>
          have used : (Frame.netClose sei).ref = some sei := rfl
          have goes : state.proceed answered = ({ state with frames } : LoopState).netClose sei := by
            simp [LoopState.proceed, top]
          have alone : sei ∉ refs frames state.batch := by
            simpa only [LoopInput.Careful, top] using careful
          have own := LoopState.standing_pop top used
          rw [goes]
          rcases (sound sei).used (Or.inr (Or.inl (by simp [own]))) with ⟨ses, alive⟩ | ending
          · exact sound.turned (netClose_turned (popped used) (alive.pop top used) alone)
          · rcases ending.top own with ⟨rest, -⟩ | ⟨-, above, split, -⟩
            · cases rest
            · have later : Frame.netCloseRest sei ∈ frames := by
                have inside : Frame.netCloseRest sei ∈
                    (({ state with frames } : LoopState).standing sei).own := by simp [split]
                exact (List.mem_filter.mp inside).1
              refine absurd ?_ alone
              exact List.mem_append_left _ (List.mem_filterMap.mpr ⟨_, later, rfl⟩)
      | netCloseRest sei =>
          have used : (Frame.netCloseRest sei).ref = some sei := rfl
          have goes : state.proceed answered =
              ({ state with frames } : LoopState).netCloseRest sei := by
            simp [LoopState.proceed, top]
          have own := LoopState.standing_pop top used
          rw [goes]
          rcases (sound sei).used (Or.inr (Or.inl (by simp [own]))) with ⟨ses, alive⟩ | ending
          · exact absurd (by simp [own]) alive.whole
          · obtain ⟨ses, held⟩ := ending.held
            rcases ending.top own with ⟨-, unused⟩ | ⟨called | called, -⟩
            · exact sound.turned (netCloseRest_turned (popped used) held ending.listed ending.kept
                unused ending.passed ending.order)
            · cases called
            · cases called
      | recvRound sei =>
          have used : (Frame.recvRound sei).ref = some sei := rfl
          have goes : state.proceed answered =
              ({ state with frames } : LoopState).recvRound sei answered.recv answered.stale := by
            simp [LoopState.proceed, top]
          obtain ⟨ses, alive⟩ := sound.alive_of_top top used (by simp)
          have ready : Passes ses answered.recv answered.stale → ses.state ≠ .establishing := by
            simp only [LoopInput.Careful, top] at careful
            exact fun passes new => careful ses alive.held new passes
          rw [goes]
          exact sound.turned (recvRound_turned (popped used) (alive.pop top used) ready)
      | recvReset sei =>
          have used : (Frame.recvReset sei).ref = some sei := rfl
          have goes : state.proceed answered = ({ state with frames } : LoopState).recvReset sei := by
            simp [LoopState.proceed, top]
          obtain ⟨ses, alive⟩ := sound.alive_of_top top used (by simp)
          rw [goes]
          exact sound.turned (recvReset_turned (popped used) (alive.pop top used))

theorem loopStep_sound (input : LoopInput) (state : LoopState) (sound : state.Sound)
    (allowed : input.Possible state ∧ input.Careful state) :
    ∃ next, loopStep input state = some next ∧ next.Sound := by
  obtain ⟨possible, careful⟩ := allowed
  cases input with
  | connect sei ses =>
      by_cases idle : state.Idle
      · exact ⟨_, if_pos idle, create_sound sound possible⟩
      · exact ⟨state, if_neg idle, sound⟩
  | run entries =>
      by_cases idle : state.Idle
      · refine ⟨_, if_pos idle, sound.rebatch idle.1 entries ?_⟩
        intro entry member sei used
        exact sound.alive_of_idle idle.1
          (Or.inl (List.count_pos_iff.mpr (possible entry member sei used)).ne')
      · exact ⟨state, if_neg idle, sound⟩
  | proceed answered => exact proceed_sound sound possible careful
  | netSend sei data =>
      by_cases runs : state.UserRuns
      · rw [loopStep, if_pos runs]
        rcases (sound sei).used (Or.inl (List.count_pos_iff.mpr possible.1).ne') with
          ⟨ses, alive⟩ | ending
        · exact sound.turned (netSend_turned (Kept.refl sei state) alive possible.2)
        · obtain ⟨ses, held⟩ := ending.held
          obtain ⟨frames, top⟩ := List.head?_eq_some_iff.mp runs
          obtain ⟨above, split, -⟩ := ending.last
          have later : Frame.netCloseRest sei ∈ frames := by
            have inside : Frame.netCloseRest sei ∈ (state.standing sei).own := by simp [split]
            have member := (List.mem_filter.mp inside).1
            rw [top] at member
            exact (List.mem_cons.mp member).resolve_left nofun
          simp only [LoopInput.Careful, top] at careful
          exact ⟨state, netSend_refused held (careful later ses held), sound⟩
      · exact ⟨state, if_neg runs, sound⟩
  | netDisconnect sei =>
      by_cases runs : state.UserRuns
      · rw [loopStep, if_pos runs]
        rcases (sound sei).used (Or.inl (List.count_pos_iff.mpr possible).ne') with
          ⟨ses, alive⟩ | ending
        · exact sound.turned (netDisconnect_turned (Kept.refl sei state) alive)
        · exact sound.turned (netDisconnect_ending (Kept.refl sei state) ending)
      · exact ⟨state, if_neg runs, sound⟩
  | finish =>
      by_cases runs : state.UserRuns
      · obtain ⟨frames, top⟩ := List.head?_eq_some_iff.mp runs
        refine ⟨_, if_pos runs, ?_⟩
        intro other
        have same : ({ state with frames := state.frames.tail } : LoopState).standing other =
            state.standing other := by
          simp [LoopState.standing, LoopState.calls, top]
        rw [same]
        exact sound other
      · exact ⟨state, if_neg runs, sound⟩

end Steps

theorem LoopState.Sound.orderly {state : LoopState} (sound : state.Sound) : state.Orderly := by
  intro sei
  have released : sei ∈ state.released → (state.standing sei).released ≠ 0 := fun member =>
    (List.count_pos_iff.mpr member).ne'
  cases sound sei with
  | unknown same =>
      have calls : state.calls sei = [] := congrArg Standing.calls same
      rw [calls]
      exact ⟨Or.inl ⟨0, Or.inl rfl⟩, fun member => absurd (by rw [same]) (released member)⟩
  | alive ses alive =>
      exact ⟨Or.inl alive.order, fun member => absurd alive.kept (released member)⟩
  | ending ending => exact ⟨Or.inr ending.order, fun _ => ending.order⟩
  | gone calls ended same =>
      have seen : state.calls sei = calls := congrArg Standing.calls same
      rw [seen]
      exact ⟨Or.inr ended, fun _ => ended⟩

/-- No function uses a session after its release, and every session sees its callbacks in order. -/
theorem loop_orderly (acceptors : List Nat) (inputs : List LoopInput)
    (possible : Meets loopStep LoopInput.Possible inputs (loopStart acceptors))
    (careful : Meets loopStep LoopInput.Careful inputs (loopStart acceptors)) :
    ∃ final, exec loopStep inputs (loopStart acceptors) = some final ∧ final.Orderly := by
  have start : (loopStart acceptors).Sound := fun sei => .unknown rfl
  obtain ⟨final, run, sound⟩ := exec_invariant loopStep_sound inputs _ start (possible.both careful)
  exact ⟨final, run, sound.orderly⟩

/-- A connection comes with a ring and a receive buffer of 8 bytes. -/
def connection : LoopSession where
  toSesImpl := { freshSession 8 fun _ => 0 with state := .establishing }
  sockFd := 5
  recvBuf := true
  recvBufLen := 8
  bytesRecv := 0

/-- The system gives no answer but `EAGAIN`. -/
def quiet : LoopInput := .proceed ⟨[], .fails eagain, eagain, none⟩

/-- The connect callback sends a byte, three bytes are received, and then the peer resets the connection. -/
def visit : List LoopInput :=
  [.connect 0 connection, .run [(.session 0, ⟨true, true, false⟩)], quiet, quiet, .netSend 0 [7], quiet,
    .finish, quiet, quiet, .proceed ⟨[], .data 2, eagain, none⟩, quiet, .finish, quiet,
    .run [(.session 0, ⟨false, true, false⟩)], quiet, quiet, .proceed ⟨[], .fails 104, eagain, none⟩,
    quiet, .netDisconnect 0, .proceed ⟨[.fails eagain], .fails eagain, eagain, none⟩, .finish, quiet,
    quiet]

theorem loop_orderly_visit :
    ∃ final, exec loopStep visit (loopStart []) = some final ∧ final.Orderly :=
  loop_orderly [] visit (by decide +kernel) (by decide +kernel)

/-- The connect callback disconnects the session that is being served. -/
def disconnecting : List LoopInput :=
  [.connect 0 connection, .run [(.session 0, ⟨true, false, false⟩)], quiet, quiet, .netDisconnect 0,
    quiet, quiet, .finish, quiet, .finish, quiet]

/-- The peer's bytes arrive in an event that does not report the descriptor writable. -/
def hasty : List LoopInput :=
  [.connect 0 connection, .run [(.session 0, ⟨false, true, false⟩)], quiet, quiet,
    .proceed ⟨[], .data 2, eagain, none⟩, quiet, .finish, quiet,
    .run [(.session 0, ⟨true, false, false⟩)], quiet, quiet]

/-- The first run goes on to use a released session, and the second one calls back in the wrong order. -/
theorem loop_disorderly :
    (Meets loopStep LoopInput.Possible disconnecting (loopStart []) ∧
      (exec loopStep disconnecting (loopStart [])).isNone) ∧
    Meets loopStep LoopInput.Possible hasty (loopStart []) ∧
      ∃ final ∈ exec loopStep hasty (loopStart []), final.calls 0 = [.recv, .conn] := by
  decide +kernel

end Syslib.Net
