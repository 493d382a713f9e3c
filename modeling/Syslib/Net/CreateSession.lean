import Syslib.Net.PollTree
import Syslib.Net.Session

namespace Syslib.Net.Creation

open Rbtree ColoredTree

inductive NetType where
  | internet
  | intranet
  deriving DecidableEq, Repr

inductive Caller where
  | netOnAcc
  | netConnect
  deriving DecidableEq, Repr

/-- The net object fixes its type and the callbacks of `ops`. -/
structure Setting where
  netType : NetType
  onAcc : Bool
  onDisconn : Bool
  deriving DecidableEq, Repr

/-- These are the calls that release something, and the calls of the user's functions. -/
inductive Effect where
  | freeSession (sei : Nat)
  | freeBuffer (buf : Nat)
  | freePollObj (obj : Nat)
  | close (fd : Nat)
  | acc (sei : Nat)
  | disconn (sei : Nat)
  deriving DecidableEq, Repr

/-- An allocation that fails answers with the null pointer. -/
structure Answers where
  sei : Nat
  recvBuf : Nat
  sendBuf : Nat
  epollCtl : Bool
  pollObj : Nat
  connects : Bool
  deriving DecidableEq, Repr

/-- The constructor leaves `_send_buf` and `_obj` as they were, and the local `poll_obj` is not set. -/
structure Stale where
  sendBuf : Nat
  obj : Nat
  pollObj : Nat
  deriving DecidableEq, Repr

/-- The new session's own fields stand beside the net object, and the log has the effects in their order. -/
structure Setup where
  inet : InetImpl
  recvBuf : Nat
  sendBuf : Nat
  state : SesState
  log : List Effect

def Setup.record (setup : Setup) (effects : List Effect) : Setup :=
  { setup with log := setup.log ++ effects }

/-- The function frees the buffers that are set. -/
def seiFreeBuf (setup : Setup) : Setup :=
  { setup.record
      ((if setup.recvBuf = 0 then [] else [.freeBuffer setup.recvBuf]) ++
        if setup.sendBuf = 0 then [] else [.freeBuffer setup.sendBuf]) with
    recvBuf := 0
    sendBuf := 0 }

/-- A session without a poll object is read through the null pointer. -/
def intranetDisconn (fuel : Nat) (setup : Setup) (sei : Nat) : Option Setup :=
  let obj := setup.inet.objOf sei
  if obj = 0 then none
  else do
    let (poRbt, rbn) ← rbRemove fuel setup.inet.poRbt (setup.inet.poRbt.heap obj).key
    if rbn = 0 then some { setup with inet := { setup.inet with poRbt } }
    else some { setup.record [.freePollObj obj] with
      inet := { setup.inet with poRbt, objOf := Function.update setup.inet.objOf sei 0 } }

/-- The internet function only leaves the epoll set, and its failure is not looked at. -/
def disconnFunc (fuel : Nat) : NetType → Setup → Nat → Option Setup
  | .internet, setup, _ => some setup
  | .intranet, setup, sei => intranetDisconn fuel setup sei

/-- A session whose descriptor is zero is not taken out of the tree. -/
def closeSocket (fuel : Nat) (setting : Setting) (setup : Setup) (sei : Nat) : Option Setup :=
  if setup.inet.sockFd sei = 0 then some setup
  else do
    let setup ← disconnFunc fuel setting.netType setup sei
    some { setup.record [.close (setup.inet.sockFd sei)] with
      inet := { setup.inet with sockFd := Function.update setup.inet.sockFd sei 0 } }

/-- A session that is on no list loses its buffers, and nothing more is released. -/
def netClose (fuel : Nat) (setting : Setting) (setup : Setup) (sei : Nat) :
    Option (Setup × Int) :=
  let setup := seiFreeBuf setup
  let setup := setup.record <|
    if setup.state ≠ .invalid ∧ setup.state ≠ .closed ∧ setting.onDisconn then [.disconn sei]
    else []
  if sei ∉ setup.inet.sesList then some (setup, -1)
  else do
    let inet := { setup.inet with sesList := setup.inet.sesList.erase sei }
    let setup ← closeSocket fuel setting { setup with inet } sei
    -- the destructor looks at the buffers again
    some ((seiFreeBuf { setup with state := .closed }).record [.freeSession sei], 0)

/-- The session is on the list only after both buffers are there. -/
def netCreateSession (fuel : Nat) (setting : Setting) (answers : Answers) (stale : Stale)
    (setup : Setup) (fd : Nat) : Option (Setup × Nat) :=
  let sei := answers.sei
  if sei = 0 then some (setup, 0)
  else
    let inet := { setup.inet with
      sockFd := Function.update setup.inet.sockFd sei fd
      objOf := Function.update setup.inet.objOf sei stale.obj }
    let setup := { setup with
      inet
      recvBuf := answers.recvBuf
      sendBuf := stale.sendBuf
      state := .invalid }
    if answers.recvBuf = 0 then (netClose fuel setting setup sei).map fun (setup, _) => (setup, 0)
    else
      let setup := { setup with sendBuf := answers.sendBuf }
      if answers.sendBuf = 0 then (netClose fuel setting setup sei).map fun (setup, _) => (setup, 0)
      else
        let inet := { setup.inet with sesList := setup.inet.sesList ++ [sei] }
        some ({ setup with inet, state := .establishing }, sei)

/-- A session that was created is closed again. -/
def dropSession (fuel : Nat) (setting : Setting) (setup : Setup) (sei : Nat) :
    Option (Setup × Nat) :=
  if sei = 0 then some (setup, 0)
  else (netClose fuel setting setup sei).map fun (setup, _) => (setup, 0)

def internetCreateSession (fuel : Nat) (setting : Setting) (answers : Answers) (stale : Stale)
    (setup : Setup) (fd : Nat) : Option (Setup × Nat) := do
  let (setup, sei) ← netCreateSession fuel setting answers stale setup fd
  if sei = 0 then dropSession fuel setting setup sei
  else if answers.epollCtl then some (setup, sei)
  else dropSession fuel setting setup sei

/-- The entry of the descriptor is read before the poll object is freed. -/
def dropPollObj (fuel : Nat) (setup : Setup) (fd pollObj : Nat) : Option Setup :=
  if pollObj = 0 then some setup
  else do
    let (rbn, _) ← rbSearch fuel setup.inet.poRbt fd
    if rbn = 0 then none else some (setup.record [.freePollObj pollObj])

def intranetCreateSession (fuel : Nat) (setting : Setting) (answers : Answers) (stale : Stale)
    (setup : Setup) (fd : Nat) : Option (Setup × Nat) := do
  let (setup, sei) ← netCreateSession fuel setting answers stale setup fd
  if sei = 0 then do
    let setup ← dropPollObj fuel setup fd stale.pollObj
    dropSession fuel setting setup sei
  else if answers.pollObj = 0 then do
    let setup ← dropPollObj fuel setup fd answers.pollObj
    dropSession fuel setting setup sei
  else do
    let (inet, rslt) ← insertPollObj fuel setup.inet sei answers.pollObj
    let setup := { setup with inet }
    if rslt < 0 then do
      let setup ← dropPollObj fuel setup fd answers.pollObj
      dropSession fuel setting setup sei
    else some (setup, sei)

def createSes (fuel : Nat) (setting : Setting) (answers : Answers) (stale : Stale)
    (setup : Setup) (fd : Nat) : Option (Setup × Nat) :=
  match setting.netType with
  | .internet => internetCreateSession fuel setting answers stale setup fd
  | .intranet => intranetCreateSession fuel setting answers stale setup fd

/-- The accepted descriptor is closed when there is no session for it. -/
def netOnAcc (fuel : Nat) (setting : Setting) (answers : Answers) (stale : Stale)
    (setup : Setup) (fd : Nat) : Option (Setup × Nat) := do
  let (setup, sei) ← createSes fuel setting answers stale setup fd
  if sei = 0 then some (if 0 < fd then setup.record [.close fd] else setup, 0)
  else some (if setting.onAcc then setup.record [.acc sei] else setup, sei)

/-- The descriptor is left alone when there is no session for it. -/
def netConnect (fuel : Nat) (setting : Setting) (answers : Answers) (stale : Stale)
    (setup : Setup) (fd : Nat) : Option (Setup × Nat) := do
  let (setup, sei) ← createSes fuel setting answers stale setup fd
  if sei = 0 then some (setup, 0)
  else if answers.connects then some (setup, sei)
  else dropSession fuel setting setup sei

def callRun (fuel : Nat) (setting : Setting) (answers : Answers) (stale : Stale) (setup : Setup)
    (fd : Nat) : Caller → Option (Setup × Nat)
  | .netOnAcc => netOnAcc fuel setting answers stale setup fd
  | .netConnect => netConnect fuel setting answers stale setup fd

/-- Before the call there is no session yet, and nothing has been released. -/
def start (inet : InetImpl) : Setup := ⟨inet, 0, 0, .invalid, []⟩

/-- The memory that a failed creation had allocated, with the call that releases each part. -/
def Answers.owed (answers : Answers) (netType : NetType) : List Effect :=
  if answers.sei = 0 then []
  else .freeSession answers.sei ::
    if answers.recvBuf = 0 then []
    else .freeBuffer answers.recvBuf ::
      if answers.sendBuf = 0 then []
      else .freeBuffer answers.sendBuf ::
        if netType = .intranet ∧ answers.pollObj ≠ 0 then [.freePollObj answers.pollObj] else []

/-- The tree refuses a descriptor that it has already. -/
def Answers.Fails (answers : Answers) (netType : NetType) (entries : Entries) (fd : Nat) : Prop :=
  answers.sei = 0 ∨ answers.recvBuf = 0 ∨ answers.sendBuf = 0 ∨
    match netType with
    | .internet => answers.epollCtl = false
    | .intranet => answers.pollObj = 0 ∨ fd ∈ entries.map Prod.fst

/-- The poll set of an intranet object is a tree with these entries. -/
structure Holds (fuel : Nat) (netType : NetType) (t : RbTree) (entries : Entries) : Prop where
  tree : netType = .intranet → ∃ shape, Refines (· < ·) t shape entries
  default : t.cfunc = none
  counted : entries.length < 2 ^ 31
  enough : entries.length + 3 ≤ fuel

/-- The memory that is handed out is not in use. -/
structure Ready (fuel : Nat) (netType : NetType) (answers : Answers) (inet : InetImpl)
    (entries : Entries) : Prop extends Holds fuel netType inet.poRbt entries where
  session : answers.sei ∉ inet.sesList
  pollObj : answers.pollObj % 4 = 0 ∧ answers.pollObj ∉ entries.map Prod.snd

/-- Everything that was allocated is released once, the descriptor is closed once, and nothing else happens. -/
def Undone (netType : NetType) (answers : Answers) (entries : Entries) (fd : Nat)
    (result : Option (Setup × Nat)) : Prop :=
  ∃ setup, result = some (setup, 0) ∧
    setup.log.Perm (.close fd :: answers.owed netType) ∧ answers.sei ∉ setup.inet.sesList ∧
    (netType = .intranet → ∃ shape, Refines (· < ·) setup.inet.poRbt shape entries)

/-- The failing step, the caller and what the memory held before fit together. -/
def Undoes (setting : Setting) (caller : Caller) (answers : Answers) (stale : Stale)
    (inet : InetImpl) (entries : Entries) (fd : Nat) : Prop :=
  match caller with
  | .netOnAcc => 0 < fd ∧ answers.sei = 0 ∧ (setting.netType = .intranet → stale.pollObj = 0)
  | .netConnect =>
      0 < fd ∧ setting.onDisconn = false ∧
        answers.sei ≠ 0 ∧ answers.recvBuf ≠ 0 ∧ answers.sendBuf ≠ 0 ∧
        (setting.netType = .intranet →
          answers.pollObj = 0 ∧ stale.obj ≠ 0 ∧
            (inet.poRbt.heap stale.obj).key ∉ entries.map Prod.fst)

variable {fuel : Nat} {setting : Setting} {caller : Caller} {answers : Answers} {stale : Stale}
  {setup : Setup} {inet : InetImpl} {entries : Entries} {sei fd : Nat}

@[simp] theorem Setup.record_log (effects : List Effect) :
    (setup.record effects).log = setup.log ++ effects := rfl

@[simp] theorem Setup.record_inet (effects : List Effect) :
    (setup.record effects).inet = setup.inet := rfl

/-- The poll objects that leaving the poll set frees; a null `_obj` has no outcome. -/
def pollEffects (netType : NetType) (inet : InetImpl) (entries : Entries) (sei : Nat) :
    Option (List Effect) :=
  match netType with
  | .internet => some []
  | .intranet =>
      if inet.objOf sei = 0 then none
      else if (inet.poRbt.heap (inet.objOf sei)).key ∉ entries.map Prod.fst then some []
      else some [.freePollObj (inet.objOf sei)]

def socketEffects (netType : NetType) (inet : InetImpl) (entries : Entries) (sei : Nat) :
    Option (List Effect) :=
  if inet.sockFd sei = 0 then some []
  else (pollEffects netType inet entries sei).map (· ++ [.close (inet.sockFd sei)])

/-- A call that touches none but its own fields, and the tree only when it frees a poll object. -/
structure Leaves (effects : List Effect) (setup next : Setup) : Prop where
  log : next.log = setup.log ++ effects
  sesList : next.inet.sesList = setup.inet.sesList
  buffers : next.recvBuf = setup.recvBuf ∧ next.sendBuf = setup.sendBuf
  tree : (∀ obj, Effect.freePollObj obj ∉ effects) → next.inet.poRbt = setup.inet.poRbt

theorem rbSearch_found {t : RbTree} {shape : ColorTree Nat}
    (refines : Refines (· < ·) t shape entries) (default : t.cfunc = none)
    (enough : entries.length + 1 < fuel) (key : Nat) :
    ∃ rbn hot, rbSearch fuel t key = some (rbn, hot) ∧ (rbn = 0 ↔ key ∉ entries.map Prod.fst) := by
  have orders : Orders t.cfunc (· < ·) := by
    rw [default]
    exact orders_default
  have length := refines.length
  obtain ⟨hot, run⟩ := search_find key orders refines (by omega : shape.nodes.length + 1 < fuel)
  exact ⟨_, hot, run, refines.getD_eq_zero orders.order⟩

theorem rbRemove_found {t : RbTree} {shape : ColorTree Nat}
    (refines : Refines (· < ·) t shape entries) (default : t.cfunc = none)
    (counted : entries.length < 2 ^ 31) (enough : entries.length + 3 ≤ fuel) (key : Nat) :
    ∃ u rbn, rbRemove fuel t key = some (u, rbn) ∧ (rbn = 0 ↔ key ∉ entries.map Prod.fst) ∧
      (key ∉ entries.map Prod.fst → u = t) := by
  have orders : Orders t.cfunc (· < ·) := by
    rw [default]
    exact orders_default
  have length := refines.length
  obtain ⟨u, result, run, -, -, effect⟩ := @call_remove t _ shape entries fuel key orders refines
    (by omega) (by omega)
  simp only [rbCall, mapCall, Option.bind_eq_bind, Option.bind_eq_some_iff, Option.some.injEq,
    Prod.mk.injEq, Prod.exists] at run
  obtain ⟨v, rbn, removed, rfl, answer⟩ := run
  obtain rfl : rbn = (find key entries).getD 0 := by simpa using answer
  refine ⟨v, _, removed, refines.getD_eq_zero orders.order, ?_⟩
  intro absent
  exact effect.1 (Rbtree.find_eq_none.mpr absent)

theorem disconnFunc_spec (holds : Holds fuel setting.netType setup.inet.poRbt entries) (sei : Nat) :
    match pollEffects setting.netType setup.inet entries sei with
    | none => disconnFunc fuel setting.netType setup sei = none
    | some effects => ∃ next, disconnFunc fuel setting.netType setup sei = some next ∧
        Leaves effects setup next ∧ next.inet.sockFd = setup.inet.sockFd := by
  cases type : setting.netType with
  | internet => exact ⟨setup, rfl, ⟨by simp, rfl, ⟨rfl, rfl⟩, fun _ => rfl⟩, rfl⟩
  | intranet =>
      obtain ⟨shape, refines⟩ := holds.tree type
      let obj := setup.inet.objOf sei
      obtain ⟨u, rbn, removed, found, kept⟩ := rbRemove_found refines holds.default holds.counted
        holds.enough (setup.inet.poRbt.heap obj).key
      simp only [pollEffects, disconnFunc, intranetDisconn]
      by_cases null : setup.inet.objOf sei = 0
      · simp [null]
      · rw [if_neg null, if_neg null, removed]
        by_cases absent : (setup.inet.poRbt.heap obj).key ∉ entries.map Prod.fst
        · rw [if_pos absent]
          refine ⟨_, if_pos (found.mpr absent), ⟨by simp, rfl, ⟨rfl, rfl⟩, ?_⟩, rfl⟩
          exact fun _ => kept absent
        · rw [if_neg absent]
          refine ⟨_, if_neg (fun zero => absent (found.mp zero)), ⟨rfl, rfl, ⟨rfl, rfl⟩, ?_⟩, rfl⟩
          exact fun none_ => absurd (List.mem_singleton_self _) (none_ obj)

theorem closeSocket_spec (holds : Holds fuel setting.netType setup.inet.poRbt entries) (sei : Nat) :
    match socketEffects setting.netType setup.inet entries sei with
    | none => closeSocket fuel setting setup sei = none
    | some effects => ∃ next, closeSocket fuel setting setup sei = some next ∧
        Leaves effects setup next := by
  have left := disconnFunc_spec holds sei
  simp only [socketEffects, closeSocket]
  by_cases unset : setup.inet.sockFd sei = 0
  · rw [if_pos unset, if_pos unset]
    exact ⟨setup, rfl, ⟨by simp, rfl, ⟨rfl, rfl⟩, fun _ => rfl⟩⟩
  · rw [if_neg unset, if_neg unset]
    cases outcome : pollEffects setting.netType setup.inet entries sei with
    | none =>
        rw [outcome] at left
        simp [left]
    | some effects =>
        rw [outcome] at left
        obtain ⟨next, run, leaves, sockets⟩ := left
        refine ⟨_, by rw [run]; rfl, ?_⟩
        refine ⟨?_, leaves.sesList, leaves.buffers, ?_⟩
        · simp [leaves.log, sockets]
        · intro none_
          exact leaves.tree fun obj member => none_ obj (List.mem_append_left _ member)

/-- A session is created when it has its buffers and stands at the end of the list. -/
structure Created (answers : Answers) (inet : InetImpl) (setup : Setup) : Prop where
  buffers : setup.recvBuf = answers.recvBuf ∧ setup.sendBuf = answers.sendBuf
  state : setup.state = .establishing
  sesList : setup.inet.sesList = inet.sesList ++ [answers.sei]

/-- The calls with which `_net_close` ends a session that was created. -/
def dropEffects (setting : Setting) (answers : Answers) (inet : InetImpl) (entries : Entries) :
    Option (List Effect) :=
  (socketEffects setting.netType inet entries answers.sei).map fun socket =>
    [.freeBuffer answers.recvBuf, .freeBuffer answers.sendBuf] ++
      (if setting.onDisconn then [.disconn answers.sei] else []) ++ socket ++
      [.freeSession answers.sei]

theorem dropSession_spec (holds : Holds fuel setting.netType setup.inet.poRbt entries)
    (created : Created answers inet setup) (outside : answers.sei ∉ inet.sesList)
    (allocated : answers.sei ≠ 0 ∧ answers.recvBuf ≠ 0 ∧ answers.sendBuf ≠ 0) :
    match dropEffects setting answers setup.inet entries with
    | none => dropSession fuel setting setup answers.sei = none
    | some effects => ∃ next, dropSession fuel setting setup answers.sei = some (next, 0) ∧
        next.log = setup.log ++ effects ∧ next.inet.sesList = inet.sesList ∧
        ((∀ obj, Effect.freePollObj obj ∉ effects) → next.inet.poRbt = setup.inet.poRbt) := by
  obtain ⟨session, recv, send⟩ := allocated
  have listed : answers.sei ∈ setup.inet.sesList := by simp [created.sesList]
  have erased : setup.inet.sesList.erase answers.sei = inet.sesList := by
    rw [created.sesList, List.erase_append_right _ outside]
    simp
  let emptied : Setup :=
    { inet := { setup.inet with sesList := setup.inet.sesList.erase answers.sei }
      recvBuf := 0
      sendBuf := 0
      state := .establishing
      log := setup.log ++ [.freeBuffer answers.recvBuf, .freeBuffer answers.sendBuf] ++
        if setting.onDisconn then [.disconn answers.sei] else [] }
  have start : netClose fuel setting setup answers.sei =
      (closeSocket fuel setting emptied answers.sei).bind fun setup =>
        some ((seiFreeBuf { setup with state := .closed }).record [.freeSession answers.sei], 0) := by
    simp [netClose, seiFreeBuf, Setup.record, created.buffers.1, created.buffers.2, created.state,
      recv, send, listed, emptied]
  have closes := @closeSocket_spec fuel setting emptied entries holds answers.sei
  have same : socketEffects setting.netType emptied.inet entries answers.sei =
      socketEffects setting.netType setup.inet entries answers.sei := rfl
  rw [same] at closes
  simp only [dropEffects, dropSession, if_neg session, start]
  cases outcome : socketEffects setting.netType setup.inet entries answers.sei with
  | none =>
      rw [outcome] at closes
      simp [closes]
  | some socket =>
      rw [outcome] at closes
      obtain ⟨next, run, leaves⟩ := closes
      refine ⟨_, by rw [run]; rfl, ?_⟩
      refine ⟨?_, leaves.sesList.trans erased, ?_⟩
      · simp [seiFreeBuf, leaves.buffers.1, leaves.buffers.2, leaves.log, emptied]
      · intro none_
        apply leaves.tree
        intro obj member
        exact none_ obj (by simp [member])

/-- The close of a session that is on no list releases buffers at most. -/
theorem netClose_unlisted (outside : sei ∉ setup.inet.sesList) (invalid : setup.state = .invalid) :
    ∃ next, netClose fuel setting setup sei = some (next, -1) ∧
      ∀ x, Effect.freeSession x ∈ next.log → Effect.freeSession x ∈ setup.log := by
  refine ⟨seiFreeBuf setup, by simp [netClose, seiFreeBuf, Setup.record, outside, invalid], ?_⟩
  intro x member
  simp only [seiFreeBuf, Setup.record_log, List.mem_append] at member
  rcases member with old | recv | send
  · exact old
  · split_ifs at recv <;> simp at recv
  · split_ifs at send <;> simp at send

theorem netCreateSession_refused (missing : answers.sei = 0) :
    netCreateSession fuel setting answers stale setup fd = some (setup, 0) := by
  simp [netCreateSession, missing]

theorem netCreateSession_unbuffered (session : answers.sei ≠ 0)
    (missing : answers.recvBuf = 0 ∨ answers.sendBuf = 0)
    (outside : answers.sei ∉ setup.inet.sesList) :
    ∃ next, netCreateSession fuel setting answers stale setup fd = some (next, 0) ∧
      ∀ x, Effect.freeSession x ∈ next.log → Effect.freeSession x ∈ setup.log := by
  have closes : ∀ half : Setup, half.inet.sesList = setup.inet.sesList → half.state = .invalid →
      half.log = setup.log →
      ∃ next, (netClose fuel setting half answers.sei).map (fun result => (result.1, 0)) =
        some (next, 0) ∧
          ∀ x, Effect.freeSession x ∈ next.log → Effect.freeSession x ∈ setup.log := by
    intro half sesList invalid log
    obtain ⟨next, run, kept⟩ := @netClose_unlisted fuel setting half answers.sei
      (sesList ▸ outside) invalid
    exact ⟨next, by rw [run]; rfl, fun x member => log ▸ kept x member⟩
  simp only [netCreateSession, if_neg session]
  split_ifs with recv send
  · exact closes _ rfl rfl rfl
  · exact closes _ rfl rfl rfl
  · exact absurd missing (not_or.mpr ⟨recv, send⟩)

/-- The setup of a session that has its buffers. -/
def established (answers : Answers) (stale : Stale) (inet : InetImpl) (fd : Nat) : Setup where
  inet := { inet with
    sesList := inet.sesList ++ [answers.sei]
    sockFd := Function.update inet.sockFd answers.sei fd
    objOf := Function.update inet.objOf answers.sei stale.obj }
  recvBuf := answers.recvBuf
  sendBuf := answers.sendBuf
  state := .establishing
  log := []

theorem netCreateSession_established
    (allocated : answers.sei ≠ 0 ∧ answers.recvBuf ≠ 0 ∧ answers.sendBuf ≠ 0) :
    netCreateSession fuel setting answers stale (start inet) fd =
      some (established answers stale inet fd, answers.sei) := by
  simp [netCreateSession, allocated, established, start]

/-- Without a session only the unset local can reach the tree. -/
theorem createSes_refused (holds : Holds fuel setting.netType inet.poRbt entries)
    (missing : answers.sei = 0) :
    ((setting.netType = .intranet → stale.pollObj = 0) →
        createSes fuel setting answers stale (start inet) fd = some (start inet, 0)) ∧
      (¬(setting.netType = .intranet → stale.pollObj = 0) →
        ∀ next code, createSes fuel setting answers stale (start inet) fd = some (next, code) →
          code = 0 ∧ Effect.freePollObj stale.pollObj ∈ next.log) := by
  have refused : netCreateSession fuel setting answers stale (start inet) fd = some (start inet, 0) :=
    netCreateSession_refused missing
  cases type : setting.netType with
  | internet => simp [createSes, type, internetCreateSession, refused, dropSession]
  | intranet =>
      obtain ⟨shape, refines⟩ := holds.tree type
      obtain ⟨rbn, hot, run, found⟩ := rbSearch_found refines holds.default
        (by have := holds.enough; omega : entries.length + 1 < fuel) fd
      have search : rbSearch fuel (start inet).inet.poRbt fd = some (rbn, hot) := run
      simp only [createSes, type, intranetCreateSession, refused, dropPollObj, true_imp_iff]
      constructor
      · intro unset
        simp [unset, dropSession]
      · intro used next code created
        simp only [if_neg used, search, dropSession, Option.bind_eq_bind, Option.bind_some,
          if_true] at created
        split_ifs at created with zero
        · cases created
        · simp only [Option.bind_some, Option.some.injEq, Prod.mk.injEq] at created
          obtain ⟨rfl, rfl⟩ := created
          simp

theorem createSes_unbuffered (session : answers.sei ≠ 0)
    (missing : answers.recvBuf = 0 ∨ answers.sendBuf = 0) (outside : answers.sei ∉ inet.sesList)
    {next : Setup} {code : Nat}
    (created : createSes fuel setting answers stale (start inet) fd = some (next, code)) :
    code = 0 ∧ Effect.freeSession answers.sei ∉ next.log := by
  obtain ⟨half, run, log⟩ := @netCreateSession_unbuffered fuel setting answers stale (start inet) fd
    session missing outside
  have kept : Effect.freeSession answers.sei ∉ half.log := fun member => by
    simpa [start] using log _ member
  cases type : setting.netType with
  | internet =>
      simp only [createSes, type, internetCreateSession, run, dropSession, Option.bind_eq_bind,
        Option.bind_some, if_true, Option.some.injEq, Prod.mk.injEq] at created
      obtain ⟨rfl, rfl⟩ := created
      exact ⟨rfl, kept⟩
  | intranet =>
      simp only [createSes, type, intranetCreateSession, run, dropPollObj, dropSession,
        Option.bind_eq_bind, Option.bind_some, if_true, Option.bind_eq_some_iff, Option.some.injEq,
        Prod.mk.injEq] at created
      obtain ⟨dropped, search, rfl, rfl⟩ := created
      split_ifs at search with unset
      · obtain rfl := Option.some.inj search
        exact ⟨rfl, kept⟩
      · simp only [Option.bind_eq_some_iff, Prod.exists] at search
        obtain ⟨rbn, hot, -, chosen⟩ := search
        split_ifs at chosen
        obtain rfl := Option.some.inj chosen
        simpa using kept

/-- A descriptor that the tree has already keeps the new poll object out of it. -/
theorem insertPollObj_refused {shape : ColorTree Nat} {owner poll : Nat}
    (refines : Refines (· < ·) inet.poRbt shape entries) (default : inet.poRbt.cfunc = none)
    (present : inet.sockFd owner ∈ entries.map Prod.fst)
    (fresh : poll ≠ 0 ∧ poll % 4 = 0 ∧ poll ∉ entries.map Prod.snd)
    (enough : entries.length + 1 < fuel) :
    ∃ u result, insertPollObj fuel inet owner poll =
        some ({ inet with
          poRbt := u
          objOf := Function.update inet.objOf owner poll
          pollObj := Function.update inet.pollObj poll owner }, -1) ∧
      Refines (· < ·) u result entries ∧ u.cfunc = none ∧ (u.heap poll).key = inet.sockFd owner := by
  let cleared := inet.poRbt.write poll ⟨0, 0, 0, 0⟩
  have same : Refines (· < ·) cleared shape entries := refines_write refines fresh.2.2 _
  have orders : Orders cleared.cfunc (· < ·) := by
    rw [show cleared.cfunc = none from default]
    exact orders_default
  have found : find (inet.sockFd owner) entries ≠ none := fun absent =>
    Rbtree.find_eq_none.mp absent present
  have length := refines.length
  obtain ⟨u, result, run, kept, cfunc, effect⟩ := @call_insert cleared _ shape entries fuel poll
    (inet.sockFd owner) orders same fresh (by omega : shape.nodes.length + 1 < fuel)
  simp only [rbCall, mapCall, if_neg found, Option.bind_eq_bind, Option.bind_eq_some_iff,
    Option.some.injEq, Prod.mk.injEq, Prod.exists] at run
  obtain ⟨v, code, inserted, rfl, answer⟩ := run
  obtain rfl : code = -1 := by simpa using answer
  refine ⟨v, result, ?_, ?_, cfunc.trans default, ?_⟩
  · simp only [insertPollObj]
    rw [inserted]
    rfl
  · simpa [mapCall, found] using kept
  · rw [effect found]
    simp [setKey, RbTree.write]

/-- The last failing step has a session that is complete but for its poll object. -/
theorem createSes_established (ready : Ready fuel setting.netType answers inet entries)
    (allocated : answers.sei ≠ 0 ∧ answers.recvBuf ≠ 0 ∧ answers.sendBuf ≠ 0)
    (fails : answers.Fails setting.netType entries fd) :
    (setting.netType = .internet ∨ answers.pollObj = 0) ∧
        createSes fuel setting answers stale (start inet) fd =
          dropSession fuel setting (established answers stale inet fd) answers.sei ∨
      setting.netType = .intranet ∧ answers.pollObj ≠ 0 ∧ ∃ half,
        createSes fuel setting answers stale (start inet) fd =
          dropSession fuel setting half answers.sei ∧
        insertPollObj fuel (established answers stale inet fd).inet answers.sei answers.pollObj =
          some (half.inet, -1) ∧
        Created answers inet half ∧ Holds fuel setting.netType half.inet.poRbt entries ∧
        half.log = [.freePollObj answers.pollObj] ∧
        half.inet.sockFd answers.sei = fd ∧ half.inet.objOf answers.sei = answers.pollObj ∧
        fd ∈ entries.map Prod.fst ∧ (half.inet.poRbt.heap answers.pollObj).key = fd := by
  have run := @netCreateSession_established fuel setting answers stale inet fd allocated
  cases type : setting.netType with
  | internet =>
      have refused : answers.epollCtl = false := by simpa [Answers.Fails, type, allocated] using fails
      left
      simp [createSes, type, internetCreateSession, run, refused]
  | intranet =>
      by_cases none_ : answers.pollObj = 0
      · left
        simp [createSes, type, intranetCreateSession, run, allocated, none_, dropPollObj]
      · right
        have present : fd ∈ entries.map Prod.fst := by
          simpa [Answers.Fails, type, allocated, none_] using fails
        obtain ⟨shape, refines⟩ := ready.tree type
        have enough := ready.enough
        have keyed : (established answers stale inet fd).inet.sockFd answers.sei = fd :=
          Function.update_self _ _ _
        obtain ⟨u, result, inserted, kept, cfunc, key⟩ := @insertPollObj_refused fuel
          (established answers stale inet fd).inet entries shape answers.sei answers.pollObj
          refines ready.default (by rw [keyed]; exact present)
          ⟨none_, ready.pollObj⟩ (by omega)
        obtain ⟨rbn, hot, search, found⟩ := rbSearch_found kept cfunc
          (by omega : entries.length + 1 < fuel) fd
        have real : rbn ≠ 0 := fun zero => found.mp zero present
        refine ⟨rfl, none_, { established answers stale inet fd with
          inet := { (established answers stale inet fd).inet with
            poRbt := u
            objOf := Function.update (established answers stale inet fd).inet.objOf answers.sei
              answers.pollObj
            pollObj := Function.update inet.pollObj answers.pollObj answers.sei }
          log := [.freePollObj answers.pollObj] }, ?_, inserted, ⟨⟨rfl, rfl⟩, rfl, rfl⟩,
          ⟨fun _ => ⟨result, kept⟩, cfunc, ready.counted, ready.enough⟩, rfl, keyed,
          Function.update_self _ _ _, present, key.trans keyed⟩
        simp only [createSes, type, intranetCreateSession, run, inserted, dropPollObj,
          Option.bind_eq_bind, Option.bind_some, if_neg allocated.1, if_neg none_, search,
          if_neg real]
        rfl

/-- Without the log the poll tree sees the same removal. -/
theorem intranetDisconn_erased (setup : Setup) (sei : Nat) :
    (intranetDisconn fuel setup sei).map Setup.inet = Net.intranetDisconn fuel setup.inet sei := by
  simp only [intranetDisconn, Net.intranetDisconn]
  split_ifs with null
  · rfl
  · cases rbRemove fuel setup.inet.poRbt (setup.inet.poRbt.heap (setup.inet.objOf sei)).key with
    | none => rfl
    | some result =>
        obtain ⟨t, rbn⟩ := result
        by_cases missing : rbn = 0
        · simp [missing]
        · simp [missing]

theorem netClose_erased (type : setting.netType = .intranet) (setup : Setup) (sei : Nat) :
    (netClose fuel setting setup sei).map (fun result => (result.1.inet, result.2)) =
      Net.netClose fuel setup.inet sei := by
  by_cases listed : sei ∈ setup.inet.sesList
  · by_cases unset : setup.inet.sockFd sei = 0
    · simp [netClose, Net.netClose, closeSocket, seiFreeBuf, listed, unset]
    · have erased : ∀ prepared : Setup,
          ((intranetDisconn fuel prepared sei).bind fun next =>
            some ({ next.inet with sockFd := Function.update next.inet.sockFd sei 0 }, (0 : Int))) =
          (Net.intranetDisconn fuel prepared.inet sei).bind fun inet =>
            some ({ inet with sockFd := Function.update inet.sockFd sei 0 }, 0) := by
        intro prepared
        rw [← intranetDisconn_erased]
        cases intranetDisconn fuel prepared sei with
        | none => rfl
        | some next => rfl
      simp [netClose, Net.netClose, closeSocket, disconnFunc, type, seiFreeBuf, listed, unset,
        Setup.record, Option.bind_assoc, Option.map_bind, erased]
  · simp [netClose, Net.netClose, seiFreeBuf, listed]

/-- What the poll tree sees of a creation: an allocation that fails has no address. -/
def Answers.news (answers : Answers) (stale : Stale) (fd : Nat) : NewSession where
  sei := if answers.sei = 0 then none else some answers.sei
  buffers := answers.recvBuf ≠ 0 ∧ answers.sendBuf ≠ 0
  fd := fd
  poll := if answers.pollObj = 0 then none else some answers.pollObj
  staleObj := stale.obj
  stalePoll := stale.pollObj

theorem dropSession_erased (type : setting.netType = .intranet) (setup : Setup) (real : sei ≠ 0) :
    (dropSession fuel setting setup sei).map
        (fun result => (result.1.inet, if result.2 = 0 then (-1 : Int) else 0)) =
      (Net.netClose fuel setup.inet sei).bind fun result => some (result.1, -1) := by
  rw [dropSession, if_neg real, ← netClose_erased type]
  cases netClose fuel setting setup sei <;> rfl

/-- Without the effects the creation is the one that the poll tree goes through. -/
theorem createSes_erased (ready : Ready fuel setting.netType answers inet entries)
    (type : setting.netType = .intranet)
    (allocated : answers.sei ≠ 0 → answers.recvBuf ≠ 0 ∧ answers.sendBuf ≠ 0) :
    (createSes fuel setting answers stale (start inet) fd).map
        (fun result => (result.1.inet, if result.2 = 0 then (-1 : Int) else 0)) =
      Net.intranetCreateSession fuel inet (answers.news stale fd) := by
  obtain ⟨shape, refines⟩ := ready.tree type
  have enough := ready.enough
  by_cases session : answers.sei = 0
  · have refused : netCreateSession fuel setting answers stale (start inet) fd = some (start inet, 0) :=
      netCreateSession_refused session
    obtain ⟨rbn, hot, search, -⟩ := rbSearch_found refines ready.default
      (by omega : entries.length + 1 < fuel) fd
    have same : rbSearch fuel (start inet).inet.poRbt fd = some (rbn, hot) := search
    simp only [createSes, type, intranetCreateSession, refused, Net.intranetCreateSession,
      Answers.news, if_pos session, refuseSession, dropPollObj, dropSession, Option.bind_eq_bind,
      Option.bind_some, if_true, same, search]
    split_ifs <;> rfl
  · have run := @netCreateSession_established fuel setting answers stale inet fd
      ⟨session, allocated session⟩
    have buffered : decide (answers.recvBuf ≠ 0 ∧ answers.sendBuf ≠ 0) = true :=
      decide_eq_true (allocated session)
    let half := established answers stale inet fd
    by_cases unset : answers.pollObj = 0
    · have created : createSes fuel setting answers stale (start inet) fd =
          dropSession fuel setting half answers.sei := by
        simp [createSes, type, intranetCreateSession, run, session, unset, dropPollObj, half]
      have other : Net.intranetCreateSession fuel inet (answers.news stale fd) =
          (Net.netClose fuel half.inet answers.sei).bind fun result => some (result.1, -1) := by
        simp [Net.intranetCreateSession, Answers.news, session, unset, buffered, half, established]
      rw [created, other]
      exact dropSession_erased type half session
    · have keyed : half.inet.sockFd answers.sei = fd := Function.update_self _ _ _
      by_cases present : fd ∈ entries.map Prod.fst
      · have fails : answers.Fails setting.netType entries fd := by
          simp [Answers.Fails, type, present]
        rcases @createSes_established fuel setting answers stale inet entries fd ready
          ⟨session, allocated session⟩ fails with ⟨last, -⟩ | ⟨-, -, refused, created, inserted, -⟩
        · simp [type, unset] at last
        · have other : Net.intranetCreateSession fuel inet (answers.news stale fd) =
              (Net.netClose fuel refused.inet answers.sei).bind fun result =>
                some (result.1, -1) := by
            simp only [established] at inserted
            simp [Net.intranetCreateSession, Answers.news, session, unset, buffered, inserted]
          rw [created, other]
          exact dropSession_erased type refused session
      · obtain ⟨u, result, inserted, -⟩ := @insertPollObj_fresh fuel half.inet shape entries
          refines ready.default answers.sei answers.pollObj (by rw [keyed]; exact present)
          ready.pollObj.2 ⟨unset, ready.pollObj.1⟩ (by omega)
        simp only [half, established] at inserted
        simp [createSes, type, intranetCreateSession, run, session, unset,
          Net.intranetCreateSession, Answers.news, buffered, inserted, established]

/-- What the caller does about the descriptor of a creation that failed. -/
def closing (fd : Nat) : Caller → List Effect
  | .netOnAcc => if 0 < fd then [.close fd] else []
  | .netConnect => []

/-- The outcome of the call is the outcome of the creation with the caller's own close. -/
theorem undone_iff {start : Setup}
    (failed : ∀ next code, createSes fuel setting answers stale start fd = some (next, code) →
      code = 0) :
    Undone setting.netType answers entries fd (callRun fuel setting answers stale start fd caller) ↔
      ∃ next, createSes fuel setting answers stale start fd = some (next, 0) ∧
        (next.log ++ closing fd caller).Perm (.close fd :: answers.owed setting.netType) ∧
        answers.sei ∉ next.inet.sesList ∧
        (setting.netType = .intranet → ∃ shape, Refines (· < ·) next.inet.poRbt shape entries) := by
  cases run : createSes fuel setting answers stale start fd with
  | none => cases caller <;> simp [Undone, callRun, netOnAcc, netConnect, run]
  | some result =>
      obtain ⟨next, code⟩ := result
      obtain rfl := failed next code run
      cases caller with
      | netConnect => simp [Undone, callRun, netConnect, run, closing]
      | netOnAcc =>
          by_cases positive : 0 < fd
          · simp [Undone, callRun, netOnAcc, run, closing, positive]
          · simp [Undone, callRun, netOnAcc, run, closing, positive]

theorem owed_allocated (allocated : answers.sei ≠ 0 ∧ answers.recvBuf ≠ 0 ∧ answers.sendBuf ≠ 0)
    (netType : NetType) :
    answers.owed netType =
      [.freeSession answers.sei, .freeBuffer answers.recvBuf, .freeBuffer answers.sendBuf] ++
        if netType = .intranet ∧ answers.pollObj ≠ 0 then [.freePollObj answers.pollObj] else [] := by
  simp [Answers.owed, allocated]

theorem pollEffects_cases {netType : NetType} {effects : List Effect}
    (outcome : pollEffects netType inet entries sei = some effects) :
    effects = [] ∧
        (netType = .intranet → (inet.poRbt.heap (inet.objOf sei)).key ∉ entries.map Prod.fst) ∨
      effects = [.freePollObj (inet.objOf sei)] ∧ netType = .intranet ∧
        (inet.poRbt.heap (inet.objOf sei)).key ∈ entries.map Prod.fst := by
  cases netType with
  | internet => exact Or.inl ⟨(Option.some.inj outcome).symm, by simp⟩
  | intranet =>
      simp only [pollEffects] at outcome
      split_ifs at outcome with null present
      · exact Or.inr ⟨(Option.some.inj outcome).symm, rfl, present⟩
      · exact Or.inl ⟨(Option.some.inj outcome).symm, fun _ => present⟩

theorem pollEffects_eq_none {netType : NetType} :
    pollEffects netType inet entries sei = none ↔ netType = .intranet ∧ inet.objOf sei = 0 := by
  cases netType with
  | internet => simp [pollEffects]
  | intranet =>
      simp only [pollEffects]
      split_ifs with null <;> simp [null]

theorem dropEffects_eq_none :
    dropEffects setting answers inet entries = none ↔
      inet.sockFd answers.sei ≠ 0 ∧ setting.netType = .intranet ∧ inet.objOf answers.sei = 0 := by
  simp only [dropEffects, socketEffects, Option.map_eq_none_iff]
  split_ifs with unset
  · simp [unset]
  · simp [unset, pollEffects_eq_none]

/-- The closes of a session count its descriptor once unless it is zero. -/
theorem dropEffects_close {effects : List Effect}
    (outcome : dropEffects setting answers inet entries = some effects) :
    effects.count (.close (inet.sockFd answers.sei)) = if inet.sockFd answers.sei = 0 then 0 else 1 := by
  simp only [dropEffects, socketEffects, Option.map_eq_some_iff] at outcome
  obtain ⟨socket, sockets, rfl⟩ := outcome
  split_ifs at sockets with unset
  · obtain rfl := Option.some.inj sockets
    rw [if_pos unset]
    split_ifs <;> simp
  · rw [if_neg unset]
    obtain ⟨polls, left, rfl⟩ := Option.map_eq_some_iff.mp sockets
    have none_ : polls.count (.close (inet.sockFd answers.sei)) = 0 := by
      rcases pollEffects_cases left with ⟨rfl, -⟩ | ⟨rfl, -⟩ <;> simp
    split_ifs <;> simp [none_]

/-- An accepted descriptor is closed twice or not at all once the session had its buffers. -/
theorem not_undone_onAcc {half next : Setup} {effects : List Effect}
    (allocated : answers.sei ≠ 0 ∧ answers.recvBuf ≠ 0 ∧ answers.sendBuf ≠ 0)
    (keyed : half.inet.sockFd answers.sei = fd) (before : half.log.count (.close fd) = 0)
    (outcome : dropEffects setting answers half.inet entries = some effects)
    (log : next.log = half.log ++ effects) :
    ¬ (next.log ++ closing fd .netOnAcc).Perm (.close fd :: answers.owed setting.netType) := by
  intro perm
  have closes := dropEffects_close outcome
  rw [keyed] at closes
  have counted := perm.count_eq (.close fd)
  have once : (Effect.close fd :: answers.owed setting.netType).count (.close fd) = 1 := by
    rw [owed_allocated allocated]
    split_ifs <;> simp
  rw [once, log, List.count_append, List.count_append, before, closes, closing] at counted
  by_cases positive : 0 < fd
  · rw [if_pos positive, if_neg (by omega)] at counted
    simp at counted
  · rw [if_neg positive, if_pos (by omega)] at counted
    simp at counted

/-- A connection is undone when its session only lacked a place in the poll set. -/
theorem undone_established (allocated : answers.sei ≠ 0 ∧ answers.recvBuf ≠ 0 ∧ answers.sendBuf ≠ 0)
    (last : setting.netType = .internet ∨ answers.pollObj = 0) {effects : List Effect}
    (outcome : dropEffects setting answers (established answers stale inet fd).inet entries =
      some effects) :
    effects.Perm (.close fd :: answers.owed setting.netType) ↔
      0 < fd ∧ setting.onDisconn = false ∧
        (setting.netType = .intranet →
          (inet.poRbt.heap stale.obj).key ∉ entries.map Prod.fst) := by
  have keyed : (established answers stale inet fd).inet.sockFd answers.sei = fd :=
    Function.update_self _ _ _
  have object : (established answers stale inet fd).inet.objOf answers.sei = stale.obj :=
    Function.update_self _ _ _
  have owed : answers.owed setting.netType =
      [.freeSession answers.sei, .freeBuffer answers.recvBuf, .freeBuffer answers.sendBuf] := by
    rw [owed_allocated allocated, if_neg, List.append_nil]
    rintro ⟨intranet, set⟩
    rcases last with internet | unset
    · rw [intranet] at internet
      cases internet
    · exact set unset
  have closes := dropEffects_close outcome
  rw [keyed] at closes
  simp only [dropEffects, socketEffects, keyed, Option.map_eq_some_iff] at outcome
  obtain ⟨socket, sockets, rfl⟩ := outcome
  rw [owed]
  constructor
  · intro perm
    have once := perm.count_eq (.close fd)
    rw [closes] at once
    have positive : fd ≠ 0 := by
      rintro rfl
      simp at once
    have silent : setting.onDisconn = false := by
      by_contra set
      have member : Effect.disconn answers.sei ∈ Effect.close fd :: [.freeSession answers.sei,
          .freeBuffer answers.recvBuf, .freeBuffer answers.sendBuf] :=
        perm.mem_iff.mp (by simp [set])
      simp at member
    refine ⟨Nat.pos_of_ne_zero positive, silent, fun intranet present => ?_⟩
    rw [if_neg positive] at sockets
    obtain ⟨polls, left, rfl⟩ := Option.map_eq_some_iff.mp sockets
    rcases pollEffects_cases left with ⟨rfl, absent⟩ | ⟨rfl, -, -⟩
    · rw [object] at absent
      exact absent intranet present
    · have member : Effect.freePollObj
          ((established answers stale inet fd).inet.objOf answers.sei) ∈
            Effect.close fd :: [.freeSession answers.sei, .freeBuffer answers.recvBuf,
              .freeBuffer answers.sendBuf] :=
        perm.mem_iff.mp (by simp)
      simp at member
  · rintro ⟨positive, silent, absent⟩
    have alone : socket = [.close fd] := by
      rw [if_neg (by omega)] at sockets
      obtain ⟨polls, left, rfl⟩ := Option.map_eq_some_iff.mp sockets
      rcases pollEffects_cases left with ⟨rfl, -⟩ | ⟨rfl, intranet, present⟩
      · rfl
      · rw [object] at present
        exact absurd present (absent intranet)
    subst alone
    simp only [silent, Bool.false_eq_true, if_false, List.append_nil]
    exact @List.perm_append_comm Effect [.freeBuffer answers.recvBuf, .freeBuffer answers.sendBuf]
      [.close fd, .freeSession answers.sei]

/-- A session that the tree refused has its poll object freed twice, or its descriptor left open. -/
theorem not_undone_refused {half next : Setup} {effects : List Effect}
    (allocated : answers.sei ≠ 0 ∧ answers.recvBuf ≠ 0 ∧ answers.sendBuf ≠ 0)
    (keyed : half.inet.sockFd answers.sei = fd)
    (object : half.inet.objOf answers.sei = answers.pollObj)
    (present : (half.inet.poRbt.heap answers.pollObj).key ∈ entries.map Prod.fst)
    (type : setting.netType = .intranet)
    (before : half.log = [.freePollObj answers.pollObj])
    (outcome : dropEffects setting answers half.inet entries = some effects)
    (log : next.log = half.log ++ effects) :
    ¬ next.log.Perm (.close fd :: answers.owed setting.netType) := by
  intro perm
  have closes := dropEffects_close outcome
  rw [keyed] at closes
  have owed := owed_allocated allocated setting.netType
  have once := perm.count_eq (.close fd)
  have twice := perm.count_eq (.freePollObj answers.pollObj)
  simp only [dropEffects, socketEffects, keyed, Option.map_eq_some_iff] at outcome
  obtain ⟨socket, sockets, rfl⟩ := outcome
  by_cases unset : fd = 0
  · rw [log, before, List.count_append, closes, if_pos unset, owed] at once
    split_ifs at once <;> simp at once
  · rw [if_neg unset] at sockets
    obtain ⟨polls, left, rfl⟩ := Option.map_eq_some_iff.mp sockets
    rcases pollEffects_cases left with ⟨-, absent⟩ | ⟨rfl, -, -⟩
    · rw [object] at absent
      exact absent type present
    · rw [log, before, object, owed] at twice
      split_ifs at twice <;> simp at twice

section Undone

variable (ready : Ready fuel setting.netType answers inet entries)
include ready

/-- Without a session the caller must close the descriptor, and the unset local must be null. -/
theorem callRun_refused (missing : answers.sei = 0) :
    Undone setting.netType answers entries fd
        (callRun fuel setting answers stale (start inet) fd caller) ↔
      Undoes setting caller answers stale inet entries fd := by
  obtain ⟨quiet, used⟩ := @createSes_refused fuel setting answers stale inet entries fd
    ready.toHolds missing
  have owed : answers.owed setting.netType = [] := if_pos missing
  by_cases unset : setting.netType = .intranet → stale.pollObj = 0
  · have run := quiet unset
    rw [undone_iff (by rw [run]; rintro next code ⟨⟩; rfl), run, owed]
    constructor
    · rintro ⟨next, found, perm, -⟩
      obtain rfl : start inet = next := by simpa using found
      cases caller with
      | netConnect => exact absurd perm (by simp [start, closing])
      | netOnAcc =>
          refine ⟨?_, missing, unset⟩
          by_contra small
          simp [start, closing, small] at perm
    · intro undoes
      cases caller with
      | netConnect => exact absurd missing undoes.2.2.1
      | netOnAcc =>
          exact ⟨start inet, rfl, by simp [start, closing, undoes.1], ready.session, ready.tree⟩
  · rw [undone_iff (fun next code run => (used unset next code run).1), owed]
    constructor
    · rintro ⟨next, run, perm, -⟩
      have member := perm.mem_iff.mp (List.mem_append_left _ (used unset next 0 run).2)
      simp at member
    · intro undoes
      cases caller with
      | netConnect => exact absurd missing undoes.2.2.1
      | netOnAcc => exact absurd undoes.2.2 unset

/-- A session that lacks a buffer is never released. -/
theorem callRun_unbuffered (session : answers.sei ≠ 0)
    (buffers : answers.recvBuf = 0 ∨ answers.sendBuf = 0) :
    ¬ Undone setting.netType answers entries fd
      (callRun fuel setting answers stale (start inet) fd caller) := by
  rw [undone_iff fun next code run => (createSes_unbuffered session buffers ready.session run).1]
  rintro ⟨next, run, perm, -⟩
  have owed : Effect.freeSession answers.sei ∈ Effect.close fd :: answers.owed setting.netType := by
    simp [Answers.owed, session]
  rcases List.mem_append.mp (perm.mem_iff.mpr owed) with inside | last
  · exact (createSes_unbuffered session buffers ready.session run).2 inside
  · cases caller with
    | netConnect => cases last
    | netOnAcc =>
        simp only [closing] at last
        split_ifs at last <;> simp at last

/-- A complete session that finds no place in the poll set is closed by `_net_close`. -/
theorem callRun_established
    (allocated : answers.sei ≠ 0 ∧ answers.recvBuf ≠ 0 ∧ answers.sendBuf ≠ 0)
    (last : setting.netType = .internet ∨ answers.pollObj = 0)
    (run : createSes fuel setting answers stale (start inet) fd =
      dropSession fuel setting (established answers stale inet fd) answers.sei) :
    Undone setting.netType answers entries fd
        (callRun fuel setting answers stale (start inet) fd caller) ↔
      Undoes setting caller answers stale inet entries fd := by
  let half := established answers stale inet fd
  have keyed : half.inet.sockFd answers.sei = fd := Function.update_self _ _ _
  have object : half.inet.objOf answers.sei = stale.obj := Function.update_self _ _ _
  have closes := @dropSession_spec fuel setting answers half inet entries ready.toHolds
    ⟨⟨rfl, rfl⟩, rfl, rfl⟩ ready.session allocated
  cases outcome : dropEffects setting answers half.inet entries with
  | none =>
      rw [outcome] at closes
      obtain ⟨open_, intranet, null⟩ := dropEffects_eq_none.mp outcome
      rw [undone_iff (by rw [run, closes]; rintro next code ⟨⟩), run, closes]
      constructor
      · rintro ⟨next, none_, -⟩
        cases none_
      · intro undoes
        cases caller with
        | netOnAcc => exact absurd undoes.2.1 allocated.1
        | netConnect => exact absurd (object ▸ null) (undoes.2.2.2.2.2 intranet).2.1
  | some effects =>
      rw [outcome] at closes
      obtain ⟨next, closed, log, sesList, tree⟩ := closes
      rw [undone_iff (by rw [run, closed]; rintro next code ⟨⟩; rfl), run, closed]
      have perm_iff := undone_established allocated last outcome
      cases caller with
      | netOnAcc =>
          constructor
          · rintro ⟨other, same, perm, -⟩
            obtain rfl : next = other := by simpa using same
            exact absurd perm (not_undone_onAcc allocated keyed rfl outcome log)
          · intro undoes
            exact absurd undoes.2.1 allocated.1
      | netConnect =>
          constructor
          · rintro ⟨other, same, perm, -⟩
            obtain rfl : next = other := by simpa using same
            rw [closing, List.append_nil, log] at perm
            obtain ⟨positive, silent, absent⟩ := perm_iff.mp perm
            refine ⟨positive, silent, allocated.1, allocated.2.1, allocated.2.2, fun intranet => ?_⟩
            refine ⟨by simpa [intranet] using last, fun null => ?_, absent intranet⟩
            have nothing : dropEffects setting answers half.inet entries = none :=
              dropEffects_eq_none.mpr ⟨by rw [keyed]; omega, intranet, object.trans null⟩
            rw [outcome] at nothing
            cases nothing
          · rintro ⟨positive, silent, -, -, -, intranet⟩
            have perm := perm_iff.mpr ⟨positive, silent, fun type => (intranet type).2.2⟩
            refine ⟨next, rfl, ?_, sesList ▸ ready.session, fun type => ?_⟩
            · rw [closing, List.append_nil, log]
              exact perm
            · have same : next.inet.poRbt = inet.poRbt := by
                apply tree
                intro obj member
                have owed := perm.mem_iff.mp member
                rw [owed_allocated allocated, (intranet type).1] at owed
                simp at owed
              rw [same]
              exact ready.tree type

/-- A session that the tree turned down is closed with a poll object that is already free. -/
theorem callRun_turnedDown {half : Setup}
    (allocated : answers.sei ≠ 0 ∧ answers.recvBuf ≠ 0 ∧ answers.sendBuf ≠ 0)
    (type : setting.netType = .intranet)
    (run : createSes fuel setting answers stale (start inet) fd =
      dropSession fuel setting half answers.sei)
    (created : Created answers inet half)
    (holds : Holds fuel setting.netType half.inet.poRbt entries)
    (log : half.log = [.freePollObj answers.pollObj])
    (keyed : half.inet.sockFd answers.sei = fd)
    (object : half.inet.objOf answers.sei = answers.pollObj)
    (present : (half.inet.poRbt.heap answers.pollObj).key ∈ entries.map Prod.fst) :
    ¬ Undone setting.netType answers entries fd
      (callRun fuel setting answers stale (start inet) fd caller) := by
  have closes := dropSession_spec holds created ready.session allocated
  cases outcome : dropEffects setting answers half.inet entries with
  | none =>
      rw [outcome] at closes
      rw [undone_iff (by rw [run, closes]; rintro next code ⟨⟩), run, closes]
      rintro ⟨next, nothing, -⟩
      cases nothing
  | some effects =>
      rw [outcome] at closes
      obtain ⟨next, closed, extended, -⟩ := closes
      rw [undone_iff (by rw [run, closed]; rintro next code ⟨⟩; rfl), run, closed]
      rintro ⟨other, same, perm, -⟩
      obtain rfl : next = other := by simpa using same
      cases caller with
      | netOnAcc =>
          exact not_undone_onAcc allocated keyed (by rw [log]; rfl) outcome extended perm
      | netConnect =>
          rw [closing, List.append_nil] at perm
          exact not_undone_refused allocated keyed object present type log outcome extended perm

/-- A failed creation is undone exactly when the failing step fits the caller. -/
theorem callRun_undone (fails : answers.Fails setting.netType entries fd) :
    Undone setting.netType answers entries fd
        (callRun fuel setting answers stale (start inet) fd caller) ↔
      Undoes setting caller answers stale inet entries fd := by
  by_cases session : answers.sei = 0
  · exact callRun_refused ready session
  by_cases buffers : answers.recvBuf = 0 ∨ answers.sendBuf = 0
  · refine iff_of_false (callRun_unbuffered ready session buffers) fun undoes => ?_
    cases caller with
    | netConnect => exact not_or.mpr ⟨undoes.2.2.2.1, undoes.2.2.2.2.1⟩ buffers
    | netOnAcc => exact session undoes.2.1
  have allocated := And.intro session (not_or.mp buffers)
  rcases @createSes_established fuel setting answers stale inet entries fd ready allocated fails
    with ⟨last, run⟩ | ⟨type, set, half, run, -, created, holds, log, keyed, object, present, key⟩
  · exact callRun_established ready allocated last run
  · refine iff_of_false (callRun_turnedDown ready allocated type run created holds log keyed object
      (key ▸ present)) fun undoes => ?_
    cases caller with
    | netConnect => exact set (undoes.2.2.2.2.2 type).1
    | netOnAcc => exact session undoes.2.1

end Undone

/-- On an empty net each caller has one failing step that it undoes. -/
theorem callRun_undone_both :
    Undone .intranet ⟨0, 0, 0, true, 0, true⟩ [] 5
        (callRun 8 ⟨.intranet, true, true⟩ ⟨0, 0, 0, true, 0, true⟩ ⟨0, 0, 0⟩
          (start (intranetInit fun _ => ⟨0, 0, 0, 0⟩).inet) 5 .netOnAcc) ∧
      Undone .intranet ⟨4096, 8192, 12288, true, 0, true⟩ [] 5
        (callRun 8 ⟨.intranet, true, false⟩ ⟨4096, 8192, 12288, true, 0, true⟩ ⟨0, 16384, 0⟩
          (start (intranetInit fun _ => ⟨0, 0, 0, 0⟩).inet) 5 .netConnect) := by
  have empty : ∃ shape, Refines (· < ·) (intranetInit fun _ => ⟨0, 0, 0, 0⟩).inet.poRbt shape [] := by
    obtain ⟨state, run, invariant⟩ := @pollCalls_invariant 8 (fun _ => ⟨0, 0, 0, 0⟩) [] trivial
      (by decide)
    obtain rfl := Option.some.inj run
    exact invariant.law.tree
  have holds : Holds 8 .intranet (intranetInit fun _ => ⟨0, 0, 0, 0⟩).inet.poRbt [] :=
    ⟨fun _ => empty, rfl, by decide, by decide⟩
  constructor
  · exact (callRun_undone ⟨holds, by decide, by decide⟩ (Or.inl rfl)).mpr
      ⟨by decide, rfl, fun _ => rfl⟩
  · exact (callRun_undone ⟨holds, by decide, by decide⟩
      (Or.inr (Or.inr (Or.inr (Or.inl rfl))))).mpr
        ⟨by decide, rfl, by decide, by decide, by decide, fun _ => ⟨rfl, by decide, by decide⟩⟩

/-- An accepted descriptor is closed twice, and a connected session without buffers is lost. -/
theorem callRun_closed_twice :
    let inet := (intranetInit fun _ => ⟨0, 0, 0, 0⟩).inet
    (Ready 8 .internet ⟨4096, 8192, 12288, false, 0, true⟩ inet [] ∧
      (⟨4096, 8192, 12288, false, 0, true⟩ : Answers).Fails .internet [] 5 ∧
      (∃ result ∈ callRun 8 ⟨.internet, true, true⟩ ⟨4096, 8192, 12288, false, 0, true⟩ ⟨0, 0, 0⟩
          (start inet) 5 .netOnAcc,
        result.1.log = [.freeBuffer 8192, .freeBuffer 12288, .disconn 4096, .close 5,
          .freeSession 4096, .close 5]) ∧
      ¬ Undone .internet ⟨4096, 8192, 12288, false, 0, true⟩ [] 5
        (callRun 8 ⟨.internet, true, true⟩ ⟨4096, 8192, 12288, false, 0, true⟩ ⟨0, 0, 0⟩
          (start inet) 5 .netOnAcc)) ∧
      (∃ result ∈ callRun 8 ⟨.internet, true, true⟩ ⟨4096, 0, 0, true, 0, true⟩ ⟨0, 0, 0⟩
          (start inet) 5 .netConnect, result.2 = 0 ∧ result.1.log = []) := by
  intro inet
  have twice : ∃ result ∈ callRun 8 ⟨.internet, true, true⟩ ⟨4096, 8192, 12288, false, 0, true⟩
      ⟨0, 0, 0⟩ (start inet) 5 .netOnAcc,
      result.1.log = [.freeBuffer 8192, .freeBuffer 12288, .disconn 4096, .close 5,
        .freeSession 4096, .close 5] := by
    decide +kernel
  refine ⟨⟨⟨⟨nofun, rfl, by decide, by decide⟩, by decide, by decide⟩,
    Or.inr (Or.inr (Or.inr rfl)), twice, ?_⟩, by decide +kernel⟩
  rintro ⟨setup, run, perm, -⟩
  obtain ⟨result, found, log⟩ := twice
  rw [run] at found
  obtain rfl := Option.some.inj found
  rw [log] at perm
  exact absurd (perm.count_eq (.close 5)) (by decide)

end Syslib.Net.Creation
