import Syslib.Net.PollTree

namespace Syslib.Net

open Rbtree ColoredTree Runs

structure PollFd where
  fd : Nat
  events : Nat
  revents : Nat
  deriving DecidableEq, Repr

def pollIn : Nat := 1

def pollOut : Nat := 4

def pollErr : Nat := 8

def pollRdhup : Nat := 8192

inductive Handler where
  | onAcc
  | onSend
  | onRecv
  | onError
  deriving DecidableEq, Repr

/-- The three tests of a session's events. -/
def sessionHandlers (revents : Nat) : List Handler :=
  (if revents &&& pollOut ≠ 0 then [.onSend] else []) ++
    (if revents &&& pollIn ≠ 0 then [.onRecv] else []) ++
    (if revents &&& pollErr ≠ 0 then [.onError] else [])

/-- An acceptor is called whatever its events are. -/
def handlersOf (inet : InetImpl) (obj revents : Nat) : List Handler :=
  if obj ∈ inet.accList then [.onAcc] else sessionHandlers revents

/-- The array has the acceptors first, and `poll` has filled in the events. -/
def pofds (inet : InetImpl) (revents : Nat → Nat) (i : Nat) : PollFd :=
  let owner := inet.owners.getD i 0
  { fd := inet.sockFd owner
    events := if i < inet.accList.length then pollIn
      else pollIn ||| pollOut ||| pollRdhup ||| pollErr
    revents := revents i }

/-- The loop has found this object for a position, and it calls these handlers for it. -/
structure Dispatch where
  index : Nat
  obj : Nat
  handlers : List Handler
  deriving DecidableEq, Repr

/-- The handlers of one position leave the state in which the next position is looked up. -/
def pollScan (fuel : Nat) (states : Nat → InetImpl) (pofds : Nat → PollFd) :
    Nat → Nat → Option (Int × List Dispatch)
  | 0, _ => some (0, [])
  | left + 1, i => do
      let (rbn, _) ← rbSearch fuel (states i).poRbt (pofds i).fd
      if rbn = 0 then some (-1, [])
      else
        let obj := (states i).pollObj rbn
        let (rslt, log) ← pollScan fuel states pofds left (i + 1)
        some (rslt, ⟨i, obj, handlersOf (states i) obj (pofds i).revents⟩ :: log)

/-- The loop runs up to the result of `poll`, which is a number of descriptors. -/
def intranetRun (fuel : Nat) (states : Nat → InetImpl) (revents : Nat → Nat) (cnt : Int) :
    Option (Int × List Dispatch) :=
  if (states 0).poCnt < (states 0).owners.length then some (-1, [])
  else if cnt < 0 then some (-1, [])
  else pollScan fuel states (pofds (states 0) revents) cnt.toNat 0

/-- The call of `poll` counts the descriptors with events. -/
def readyCount (inet : InetImpl) (revents : Nat → Nat) : Nat :=
  (List.range inet.owners.length).countP fun i => revents i ≠ 0

/-- The tree has the poll object of each acceptor and session under its descriptor. -/
structure Polled (fuel : Nat) (inet : InetImpl) : Prop where
  tree : ∃ shape, Refines (· < ·) inet.poRbt shape inet.expected
  default : inet.poRbt.cfunc = none
  points : ∀ owner ∈ inet.owners, inet.pollObj (inet.objOf owner) = owner
  enough : inet.owners.length + 1 < fuel

/-- The handlers of a position keep every object that they do not close. -/
structure Turns (fuel : Nat) (states : Nat → InetImpl) (closed : Nat → List Nat) : Prop where
  polled : ∀ i, Polled fuel (states i)
  counted : (states 0).owners.length ≤ (states 0).poCnt
  keeps : ∀ i, ∀ owner ∈ (states i).owners, owner ∉ closed i →
    owner ∈ (states (i + 1)).owners ∧ (states (i + 1)).sockFd owner = (states i).sockFd owner ∧
      (owner ∈ (states (i + 1)).accList ↔ owner ∈ (states i).accList)

def InetImpl.holder (inet : InetImpl) (fd : Nat) : Option Nat :=
  inet.owners.find? fun owner => inet.sockFd owner = fd

/-- The objects that the loop dispatched at this position. -/
def dispatchedAt (log : List Dispatch) (k : Nat) : List Nat :=
  (log.filter fun dispatch => dispatch.index = k ∧ dispatch.handlers ≠ []).map Dispatch.obj

section Scan

variable {fuel : Nat} {inet : InetImpl} {states : Nat → InetImpl} {closed : Nat → List Nat}

theorem Polled.fds_nodup (polled : Polled fuel inet) : (inet.owners.map inet.sockFd).Nodup := by
  obtain ⟨shape, refines⟩ := polled.tree
  rw [← expected_fst]
  exact refines.keys_nodup inferInstance

theorem Polled.holder_eq_some (polled : Polled fuel inet) {owner fd : Nat} :
    inet.holder fd = some owner ↔ owner ∈ inet.owners ∧ inet.sockFd owner = fd := by
  constructor
  · intro found
    exact ⟨List.mem_of_find?_eq_some found, by simpa using List.find?_some found⟩
  · rintro ⟨inside, rfl⟩
    cases found : inet.holder (inet.sockFd owner) with
    | none => exact absurd (List.find?_eq_none.mp found owner inside) (by simp)
    | some other =>
        have member := List.mem_of_find?_eq_some found
        have same : inet.sockFd other = inet.sockFd owner := by simpa using List.find?_some found
        rw [List.inj_on_of_nodup_map polled.fds_nodup member inside same]

/-- The search finds the poll object of the holder. -/
theorem Polled.search (polled : Polled fuel inet) (fd : Nat) :
    (inet.holder fd = none → ∃ hot, rbSearch fuel inet.poRbt fd = some (0, hot)) ∧
      ∀ owner, inet.holder fd = some owner → ∃ rbn hot, rbn ≠ 0 ∧ inet.pollObj rbn = owner ∧
        rbSearch fuel inet.poRbt fd = some (rbn, hot) := by
  obtain ⟨shape, refines⟩ := polled.tree
  have orders : Orders inet.poRbt.cfunc (· < ·) := by
    rw [polled.default]
    exact orders_default
  have length := refines.length
  rw [InetImpl.expected, List.length_map] at length
  obtain ⟨hot, run⟩ := search_find fd orders refines (by have := polled.enough; omega : shape.nodes.length + 1 < fuel)
  constructor
  · intro none_
    have absent : find fd inet.expected = none := by
      rw [Rbtree.find_eq_none, expected_fst]
      intro member
      obtain ⟨owner, inside, same⟩ := List.mem_map.mp member
      rw [polled.holder_eq_some.mpr ⟨inside, same⟩] at none_
      cases none_
    exact ⟨hot, by rw [run, absent]; rfl⟩
  · intro owner found
    obtain ⟨inside, same⟩ := polled.holder_eq_some.mp found
    have entry : (fd, inet.objOf owner) ∈ inet.expected := by
      rw [← same]
      exact List.mem_map_of_mem inside
    have present : find fd inet.expected = some (inet.objOf owner) :=
      (Rbtree.find_eq_some (refines.keys_nodup inferInstance)).mpr entry
    have linked : inet.objOf owner ∈ shape.nodes :=
      refines.linked_iff.mp (List.mem_map.mpr ⟨_, entry, rfl⟩)
    refine ⟨inet.objOf owner, hot, ?_, polled.points owner inside, by rw [run, present]; rfl⟩
    exact (refines.wellFormed.linked.aligned _ linked).1

/-- The descriptor of the position is in the tree when its turn comes. -/
def Present (states : Nat → InetImpl) (pofds : Nat → PollFd) (i : Nat) : Prop :=
  ((states i).holder (pofds i).fd).isSome

instance (states : Nat → InetImpl) (pofds : Nat → PollFd) : DecidablePred (Present states pofds) :=
  fun _ => inferInstanceAs (Decidable (_ = true))

/-- The position is before the end of the loop, and no earlier descriptor had vanished. -/
def Visited (states : Nat → InetImpl) (pofds : Nat → PollFd) (cnt k : Nat) : Prop :=
  k < cnt ∧ ∀ i < k, Present states pofds i

instance (states : Nat → InetImpl) (pofds : Nat → PollFd) (cnt k : Nat) :
    Decidable (Visited states pofds cnt k) :=
  inferInstanceAs (Decidable (_ ∧ ∀ i < k, _))

/-- A visited position dispatches the object that then holds its descriptor, if this object has a handler. -/
def servedAt (states : Nat → InetImpl) (pofds : Nat → PollFd) (k : Nat) : List Nat :=
  ((states k).holder (pofds k).fd).toList.filter fun obj =>
    handlersOf (states k) obj (pofds k).revents ≠ []

theorem pollScan_served (polled : ∀ i, Polled fuel (states i)) (pofds : Nat → PollFd) (left i : Nat) :
    ∃ rslt log, pollScan fuel states pofds left i = some (rslt, log) ∧ ∀ k, dispatchedAt log k =
      if i ≤ k ∧ k < i + left ∧ ∀ j, i ≤ j → j < k → Present states pofds j then servedAt states pofds k
      else [] := by
  induction left generalizing i with
  | zero =>
      refine ⟨0, [], rfl, fun k => ?_⟩
      rw [if_neg (by omega)]
      rfl
  | succ left ih =>
      obtain ⟨absent, present⟩ := (polled i).search (pofds i).fd
      cases found : (states i).holder (pofds i).fd with
      | none =>
          obtain ⟨hot, run⟩ := absent found
          refine ⟨-1, [], by simp [pollScan, run], fun k => ?_⟩
          have nothing : dispatchedAt [] k = [] := rfl
          rw [nothing]
          split_ifs with within
          · by_cases here : k = i
            · rw [here, servedAt, found]
              rfl
            · have gone := within.2.2 i (le_refl i) (by omega)
              rw [Present, found] at gone
              cases gone
          · rfl
      | some obj =>
          obtain ⟨rbn, hot, real, points, run⟩ := present obj found
          obtain ⟨rslt, log, later, serves⟩ := ih (i + 1)
          refine ⟨rslt, ⟨i, obj, handlersOf (states i) obj (pofds i).revents⟩ :: log, ?_, fun k => ?_⟩
          · simp [pollScan, run, real, points, later]
          · have split : dispatchedAt
                (⟨i, obj, handlersOf (states i) obj (pofds i).revents⟩ :: log) k =
                (if k = i then servedAt states pofds i else []) ++ dispatchedAt log k := by
              by_cases here : k = i
              · subst here
                by_cases handled : handlersOf (states k) obj (pofds k).revents = []
                · simp [dispatchedAt, servedAt, found, handled]
                · simp [dispatchedAt, servedAt, found, handled]
              · have other : i ≠ k := fun same => here same.symm
                simp [dispatchedAt, here, other]
            rw [split, serves]
            by_cases here : k = i
            · subst here
              have first : k ≤ k ∧ k < k + (left + 1) ∧ ∀ j, k ≤ j → j < k → Present states pofds j :=
                ⟨le_refl k, by omega, fun j above below => by omega⟩
              rw [if_pos rfl, if_pos first, if_neg (by omega), List.append_nil]
            · have same : (i + 1 ≤ k ∧ k < i + 1 + left ∧ ∀ j, i + 1 ≤ j → j < k → Present states pofds j) ↔
                  (i ≤ k ∧ k < i + (left + 1) ∧ ∀ j, i ≤ j → j < k → Present states pofds j) := by
                constructor
                · rintro ⟨above, below, all⟩
                  refine ⟨by omega, by omega, fun j least less => ?_⟩
                  by_cases first : j = i
                  · rw [first, Present, found]
                    rfl
                  · exact all j (by omega) less
                · rintro ⟨above, below, all⟩
                  exact ⟨by omega, by omega, fun j least less => all j (by omega) less⟩
              rw [if_neg here, List.nil_append]
              exact if_congr same rfl rfl

end Scan

/-- No visited turn before this position has closed its object. -/
def StillOpen (states : Nat → InetImpl) (pofds : Nat → PollFd) (closed : Nat → List Nat) (cnt k : Nat) : Prop :=
  ∀ i < k, Visited states pofds cnt i → (states 0).owners.getD k 0 ∉ closed i

/-- Each ready position whose object is still open is dispatched once, for this object, and no other one. -/
def DispatchesReady (fuel : Nat) (states : Nat → InetImpl) (closed : Nat → List Nat) (revents : Nat → Nat) :
    Prop :=
  let cnt := readyCount (states 0) revents
  ∃ rslt log, intranetRun fuel states revents cnt = some (rslt, log) ∧
    ∀ k < (states 0).owners.length,
      (revents k ≠ 0 ∧ StillOpen states (pofds (states 0) revents) closed cnt k →
        dispatchedAt log k = [(states 0).owners.getD k 0]) ∧
      (¬ (revents k ≠ 0 ∧ StillOpen states (pofds (states 0) revents) closed cnt k) →
        dispatchedAt log k = [])

/-- The ready open positions are visited and have a handler; the others find no object with one. -/
def ScanFits (states : Nat → InetImpl) (closed : Nat → List Nat) (revents : Nat → Nat) : Prop :=
  let cnt := readyCount (states 0) revents
  ∀ k < (states 0).owners.length,
    (revents k ≠ 0 ∧ StillOpen states (pofds (states 0) revents) closed cnt k →
      Visited states (pofds (states 0) revents) cnt k ∧
        ((states 0).owners.getD k 0 ∈ (states 0).accList ∨ sessionHandlers (revents k) ≠ [])) ∧
    (¬ (revents k ≠ 0 ∧ StillOpen states (pofds (states 0) revents) closed cnt k) →
      Visited states (pofds (states 0) revents) cnt k →
        ∀ obj ∈ (states k).holder (pofds (states 0) revents k).fd,
          obj ∉ (states k).accList ∧ sessionHandlers (revents k) = [])

section Ready

variable {fuel : Nat} {states : Nat → InetImpl} {closed : Nat → List Nat} {revents : Nat → Nat} {cnt k : Nat}

/-- An open object still holds its descriptor when its turn comes. -/
theorem Turns.holder (turns : Turns fuel states closed) (inside : k < (states 0).owners.length)
    (visited : Visited states (pofds (states 0) revents) cnt k)
    (still : StillOpen states (pofds (states 0) revents) closed cnt k) :
    (states k).holder (pofds (states 0) revents k).fd = some ((states 0).owners.getD k 0) ∧
      ((states 0).owners.getD k 0 ∈ (states k).accList ↔ (states 0).owners.getD k 0 ∈ (states 0).accList) := by
  have kept : ∀ i ≤ k, (states 0).owners.getD k 0 ∈ (states i).owners ∧
      (states i).sockFd ((states 0).owners.getD k 0) = (states 0).sockFd ((states 0).owners.getD k 0) ∧
      ((states 0).owners.getD k 0 ∈ (states i).accList ↔
        (states 0).owners.getD k 0 ∈ (states 0).accList) := by
    intro i
    induction i with
    | zero =>
        intro _
        refine ⟨?_, rfl, Iff.rfl⟩
        rw [List.getD_eq_getElem?_getD, List.getElem?_eq_getElem inside]
        exact List.getElem_mem inside
    | succ i ih =>
        intro less
        obtain ⟨member, fd, kind⟩ := ih (by omega)
        have before : Visited states (pofds (states 0) revents) cnt i :=
          ⟨by have := visited.1; omega, fun j below => visited.2 j (by omega)⟩
        obtain ⟨later, sameFd, sameKind⟩ := turns.keeps i _ member (still i (by omega) before)
        exact ⟨later, sameFd.trans fd, sameKind.trans kind⟩
  obtain ⟨member, fd, kind⟩ := kept k (le_refl k)
  exact ⟨(turns.polled k).holder_eq_some.mpr ⟨member, fd⟩, kind⟩

/-- The loop dispatches the ready descriptors exactly when they lie where it looks. -/
theorem intranetRun_ready (fuel : Nat) (states : Nat → InetImpl) (closed : Nat → List Nat) (revents : Nat → Nat)
    (turns : Turns fuel states closed) :
    DispatchesReady fuel states closed revents ↔ ScanFits states closed revents := by
  let cnt := readyCount (states 0) revents
  let array := pofds (states 0) revents
  obtain ⟨rslt, log, scan, serves⟩ := pollScan_served turns.polled array cnt 0
  have run : intranetRun fuel states revents cnt = some (rslt, log) := by
    rw [intranetRun, if_neg (Int.not_lt.mpr turns.counted), if_neg (Int.not_lt.mpr (Int.natCast_nonneg cnt)),
      Int.toNat_natCast]
    exact scan
  have dispatched : ∀ k, dispatchedAt log k =
      if Visited states array cnt k then servedAt states array k else [] := by
    intro k
    rw [serves]
    refine if_congr ?_ rfl rfl
    simp [Visited]
  have position : ∀ k < (states 0).owners.length,
      ((revents k ≠ 0 ∧ StillOpen states array closed cnt k →
        dispatchedAt log k = [(states 0).owners.getD k 0]) ↔
        (revents k ≠ 0 ∧ StillOpen states array closed cnt k → Visited states array cnt k ∧
          ((states 0).owners.getD k 0 ∈ (states 0).accList ∨ sessionHandlers (revents k) ≠ []))) ∧
      ((¬ (revents k ≠ 0 ∧ StillOpen states array closed cnt k) → dispatchedAt log k = []) ↔
        (¬ (revents k ≠ 0 ∧ StillOpen states array closed cnt k) → Visited states array cnt k →
          ∀ obj ∈ (states k).holder (array k).fd,
            obj ∉ (states k).accList ∧ sessionHandlers (revents k) = [])) := by
    intro k inside
    have handled : ∀ obj, handlersOf (states k) obj (array k).revents ≠ [] ↔
        obj ∈ (states k).accList ∨ sessionHandlers (revents k) ≠ [] := by
      intro obj
      rw [handlersOf]
      split_ifs with acceptor
      · simp [acceptor]
      · simp [acceptor, array, pofds]
    rw [dispatched]
    constructor
    · refine imp_congr_right fun ⟨ready, still⟩ => ?_
      by_cases visited : Visited states array cnt k
      · obtain ⟨own, kind⟩ := turns.holder inside visited still
        rw [if_pos visited, servedAt, own, ← kind, and_iff_right visited, ← handled]
        simp
      · simp [visited]
    · refine imp_congr_right fun _ => ?_
      by_cases visited : Visited states array cnt k
      · rw [if_pos visited, servedAt, forall_prop_of_true visited]
        cases found : (states k).holder (array k).fd with
        | none => simp
        | some obj =>
            have quiet := not_congr (handled obj)
            rw [not_or, not_not, not_not] at quiet
            simp only [Option.toList_some, Option.mem_def, Option.some.injEq, forall_eq']
            rw [← quiet]
            simp
      · simp [visited]
  constructor
  · rintro ⟨code, found, same, all⟩ k inside
    obtain ⟨-, rfl⟩ := Prod.mk.inj (Option.some.inj (run.symm.trans same))
    exact ⟨(position k inside).1.mp (all k inside).1, (position k inside).2.mp (all k inside).2⟩
  · intro fits
    exact ⟨rslt, log, run, fun k inside => ⟨(position k inside).1.mpr (fits k inside).1,
      (position k inside).2.mpr (fits k inside).2⟩⟩

end Ready

/-- An acceptor and a session that is connected to it. -/
def acceptCalls : List PollCall :=
  [.createAcceptor ⟨some 4096, some 3, true, some 8192, 0⟩,
    .createSession ⟨some 4608, true, 4, some 8256, 0, 0⟩]

theorem acceptCalls_polled :
    ∃ state, exec (pollStep 8) acceptCalls (intranetInit fun _ => ⟨0, 0, 0, 0⟩) = some state ∧
      Polled 8 state.inet := by
  obtain ⟨state, run, invariant⟩ := pollCalls_invariant (fun _ => ⟨0, 0, 0, 0⟩) acceptCalls
    (by decide +kernel : Meets (pollStep 8) PollCall.Allowed acceptCalls _) (by decide)
  have shape : ∃ state ∈ exec (pollStep 8) acceptCalls (intranetInit fun _ => ⟨0, 0, 0, 0⟩),
      state.inet.owners.length = 2 := by
    decide +kernel
  obtain ⟨same, run', length⟩ := shape
  obtain rfl := Option.some.inj (run.symm.trans run')
  exact ⟨state, run, invariant.law.tree, invariant.default, invariant.law.points, by omega⟩

theorem intranetRun_ready_both :
    ∃ state, exec (pollStep 8) acceptCalls (intranetInit fun _ => ⟨0, 0, 0, 0⟩) = some state ∧
      (DispatchesReady 8 (fun _ => state.inet) (fun _ => []) (fun _ => pollIn) ↔
        ScanFits (fun _ => state.inet) (fun _ => []) fun _ => pollIn) := by
  obtain ⟨state, run, polled⟩ := acceptCalls_polled
  have shape : ∃ state ∈ exec (pollStep 8) acceptCalls (intranetInit fun _ => ⟨0, 0, 0, 0⟩),
      (state.inet.owners.length : Int) ≤ state.inet.poCnt := by
    decide +kernel
  obtain ⟨same, run', counted⟩ := shape
  obtain rfl := Option.some.inj (run.symm.trans run')
  exact ⟨state, run, intranetRun_ready 8 _ _ _
    ⟨fun _ => polled, counted, fun _ owner inside _ => ⟨inside, rfl, Iff.rfl⟩⟩⟩

/-- Only the session is ready; the loop stops behind the acceptor, which it calls. -/
theorem intranetRun_starved :
    ∃ state ∈ exec (pollStep 8) acceptCalls (intranetInit fun _ => ⟨0, 0, 0, 0⟩),
      state.inet.owners = [4096, 4608] ∧
      intranetRun 8 (fun _ => state.inet) (fun i => if i = 1 then pollIn else 0) 1 =
        some (0, [⟨0, 4096, [.onAcc]⟩]) ∧
      ¬ DispatchesReady 8 (fun _ => state.inet) (fun _ => []) fun i => if i = 1 then pollIn else 0 := by
  have shape : ∃ state ∈ exec (pollStep 8) acceptCalls (intranetInit fun _ => ⟨0, 0, 0, 0⟩),
      state.inet.owners = [4096, 4608] ∧
      readyCount state.inet (fun i => if i = 1 then pollIn else 0) = 1 ∧
      intranetRun 8 (fun _ => state.inet) (fun i => if i = 1 then pollIn else 0) 1 =
        some (0, [⟨0, 4096, [.onAcc]⟩]) := by
    decide +kernel
  obtain ⟨state, run, owners, count, scanned⟩ := shape
  refine ⟨state, run, owners, scanned, ?_⟩
  rintro ⟨rslt, log, again, all⟩
  rw [count] at again
  obtain ⟨-, rfl⟩ := Prod.mk.inj (Option.some.inj (again.symm.trans scanned))
  have session := (all 1 (by simp [owners])).1 ⟨by decide, fun _ _ _ => List.not_mem_nil⟩
  exact absurd session (by simp [dispatchedAt])

end Syslib.Net
