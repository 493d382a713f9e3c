import Syslib.Rbtree.Map

namespace Syslib.Net

open Rbtree ColoredTree Runs

/-- This is the part of `struct _inet_impl` that the poll objects belong to, with the fields that they join. -/
structure InetImpl where
  accList : List Nat
  sesList : List Nat
  poRbt : RbTree
  poCnt : Int
  sockFd : Nat → Nat
  objOf : Nat → Nat
  pollObj : Nat → Nat

/-- Both lists together hold the owners of the poll objects. -/
def InetImpl.owners (inet : InetImpl) : List Nat := inet.accList ++ inet.sesList

/-- The constructor clears the poll object before its three fields are set. -/
def insertPollObj (fuel : Nat) (inet : InetImpl) (owner poll : Nat) : Option (InetImpl × Int) := do
  let t := setKey (inet.poRbt.write poll ⟨0, 0, 0, 0⟩) poll (inet.sockFd owner)
  let (poRbt, rslt) ← rbInsert fuel t poll
  let inet := { inet with
    poRbt
    objOf := Function.update inet.objOf owner poll
    pollObj := Function.update inet.pollObj poll owner }
  if rslt < 0 then some (inet, rslt) else some ({ inet with poCnt := Rbtree.toInt (inet.poCnt + 1) }, rslt)

/-- The key of the removal is the address of the table node, and the list keeps the acceptor. -/
def intranetDestroyAcceptor (fuel : Nat) (inet : InetImpl) (aci : Nat) : Option (InetImpl × Int) := do
  let (poRbt, rbn) ← rbRemove fuel inet.poRbt (inet.objOf aci)
  if rbn = 0 then some ({ inet with poRbt }, -1)
  else some ({ inet with poRbt, objOf := Function.update inet.objOf aci 0 }, 0)

/-- A session without a poll object is read through the null pointer. -/
def intranetDisconn (fuel : Nat) (inet : InetImpl) (sei : Nat) : Option InetImpl :=
  if inet.objOf sei = 0 then none
  else do
    let (poRbt, rbn) ← rbRemove fuel inet.poRbt (inet.poRbt.heap (inet.objOf sei)).key
    if rbn = 0 then some { inet with poRbt }
    else some { inet with poRbt, objOf := Function.update inet.objOf sei 0 }

/-- A session that is on no list is not released. -/
def netClose (fuel : Nat) (inet : InetImpl) (sei : Nat) : Option (InetImpl × Int) :=
  if sei ∉ inet.sesList then some (inet, -1)
  else
    let inet := { inet with sesList := inet.sesList.erase sei }
    if inet.sockFd sei = 0 then some (inet, 0)
    else do
      let inet ← intranetDisconn fuel inet sei
      some ({ inet with sockFd := Function.update inet.sockFd sei 0 }, 0)

/-- The acceptor's memory, its descriptor and its binding come from outside, and so does its old `_obj`. -/
structure NewAcceptor where
  aci : Option Nat
  fd : Option Nat
  listens : Bool
  poll : Option Nat
  staleObj : Nat
  deriving DecidableEq, Repr

/-- A refused acceptor is destroyed through the null pointer. -/
def intranetCreateAcceptor (fuel : Nat) (inet : InetImpl) (new : NewAcceptor) :
    Option (InetImpl × Int) := do
  let aci ← new.aci
  let fd ← new.fd
  if new.listens = false then none
  else
    let inet := { inet with
      accList := inet.accList ++ [aci]
      sockFd := Function.update inet.sockFd aci fd
      objOf := Function.update inet.objOf aci new.staleObj }
    match new.poll with
    | none => do
        let (inet, _) ← intranetDestroyAcceptor fuel inet aci
        some (inet, -1)
    | some poll => do
        let (inet, rslt) ← insertPollObj fuel inet aci poll
        if rslt < 0 then do
          let (inet, _) ← intranetDestroyAcceptor fuel inet aci
          some (inet, -1)
        else some (inet, 0)

/-- The words `staleObj` and `stalePoll` are the old `_obj` field and the unset local `poll_obj`. -/
structure NewSession where
  sei : Option Nat
  buffers : Bool
  fd : Nat
  poll : Option Nat
  staleObj : Nat
  stalePoll : Nat
  deriving DecidableEq, Repr

/-- The error path of a missing session searches its descriptor only for a set `poll_obj`. -/
def refuseSession (fuel : Nat) (inet : InetImpl) (new : NewSession) : Option (InetImpl × Int) :=
  if new.stalePoll = 0 then some (inet, -1)
  else do
    let (rbn, _) ← rbSearch fuel inet.poRbt new.fd
    if rbn = 0 then none else some (inet, -1)

def intranetCreateSession (fuel : Nat) (inet : InetImpl) (new : NewSession) :
    Option (InetImpl × Int) :=
  match new.sei with
  | none => refuseSession fuel inet new
  | some sei =>
      -- a session without buffers is on no list, so that its close changes nothing
      if new.buffers = false then refuseSession fuel inet new
      else
        let inet := { inet with
          sesList := inet.sesList ++ [sei]
          sockFd := Function.update inet.sockFd sei new.fd
          objOf := Function.update inet.objOf sei new.staleObj }
        match new.poll with
        | none => do
            let (inet, _) ← netClose fuel inet sei
            some (inet, -1)
        | some poll => do
            let (inet, rslt) ← insertPollObj fuel inet sei poll
            if rslt < 0 then do
              let (inet, _) ← netClose fuel inet sei
              some (inet, -1)
            else some (inet, 0)

inductive PollCall where
  | createAcceptor (new : NewAcceptor)
  | destroyAcceptor (aci : Nat)
  | createSession (new : NewSession)
  | close (sei : Nat)
  deriving DecidableEq, Repr

def pollCall (fuel : Nat) (inet : InetImpl) : PollCall → Option (InetImpl × Int)
  | .createAcceptor new => intranetCreateAcceptor fuel inet new
  | .destroyAcceptor aci => intranetDestroyAcceptor fuel inet aci
  | .createSession new => intranetCreateSession fuel inet new
  | .close sei => netClose fuel inet sei

/-- The state remembers the acceptor that the last call was to destroy. -/
structure PollState where
  inet : InetImpl
  destroyed : Option Nat

def pollStep (fuel : Nat) (call : PollCall) (state : PollState) : Option PollState := do
  let (inet, _) ← pollCall fuel state.inet call
  match call with
  | .destroyAcceptor aci => some ⟨inet, some aci⟩
  | _ => some ⟨inet, none⟩

/-- `_intranet_init` starts with an empty tree over the default order. -/
def intranetInit (heap : Nat → RbNode) : PollState where
  inet :=
    { accList := [], sesList := [], poRbt := rbInit heap none, poCnt := 0, sockFd := fun _ => 0,
      objOf := fun _ => 0, pollObj := fun _ => 0 }
  destroyed := none

/-- The entries that the owners on both lists ought to have. -/
def InetImpl.expected (inet : InetImpl) : Entries :=
  inet.owners.map fun owner => (inet.sockFd owner, inet.objOf owner)

/-- The tree has one entry for each owner under its descriptor, and the counter counts them. -/
structure PollLaw (state : PollState) : Prop where
  tree : ∃ shape, Refines (· < ·) state.inet.poRbt shape state.inet.expected
  points : ∀ owner ∈ state.inet.owners, state.inet.pollObj (state.inet.objOf owner) = owner
  count : state.inet.poCnt = state.inet.owners.length
  destroyed : ∀ aci ∈ state.destroyed, aci ∉ state.inet.owners

/-- Memory and descriptors that are handed out are not in use. -/
structure Fresh (inet : InetImpl) (owner fd poll : Nat) : Prop where
  owner : owner ∉ inet.owners
  fd : fd ∉ inet.owners.map inet.sockFd ∧ fd + 1 < 2 ^ 31
  poll : poll ∉ inet.owners.map inet.objOf ∧ poll ≠ 0 ∧ poll % 4 = 0

instance (inet : InetImpl) (owner fd poll : Nat) : Decidable (Fresh inet owner fd poll) :=
  decidable_of_iff (owner ∉ inet.owners ∧ (fd ∉ inet.owners.map inet.sockFd ∧ fd + 1 < 2 ^ 31) ∧
    poll ∉ inet.owners.map inet.objOf ∧ poll ≠ 0 ∧ poll % 4 = 0)
    ⟨fun ⟨owner, fd, poll⟩ => ⟨owner, fd, poll⟩, fun ⟨owner, fd, poll⟩ => ⟨owner, fd, poll⟩⟩

/-- Acceptors and sessions are only created, and a session that fails has neither memory nor a set local. -/
def PollCall.Allowed (call : PollCall) (state : PollState) : Prop :=
  match call with
  | .createAcceptor new =>
      new.listens = true ∧ ∃ aci ∈ new.aci, ∃ fd ∈ new.fd, ∃ poll ∈ new.poll,
        Fresh state.inet aci fd poll
  | .createSession new =>
      if new.sei.isNone ∨ new.buffers = false then new.stalePoll = 0
      else ∃ sei ∈ new.sei, ∃ poll ∈ new.poll, Fresh state.inet sei new.fd poll
  | .destroyAcceptor _ => False
  | .close _ => False

instance PollCall.decidableAllowed (call : PollCall) (state : PollState) :
    Decidable (call.Allowed state) := by
  cases call <;> unfold PollCall.Allowed <;> infer_instance

variable {fuel : Nat} {inet : InetImpl}

/-- The tree depends only on the memory of its own nodes. -/
theorem refines_agree {t updated : RbTree} {shape : ColorTree Nat} {entries : Entries}
    (refines : Refines (· < ·) t shape entries) (root : updated.root = t.root)
    (size : updated.size = t.size) (heap : ∀ a ∈ shape.nodes, updated.heap a = t.heap a) :
    Refines (· < ·) updated shape entries := by
  have same : updated.entries shape = t.entries shape :=
    List.map_congr_left fun a member => by rw [heap a member]
  exact ⟨refines.wellFormed.agree root size heap, same ▸ refines.perm⟩

/-- The descriptors of a process are different small numbers. -/
theorem length_lt_of_descriptors {fds : List Nat} (nodup : fds.Nodup)
    (small : ∀ fd ∈ fds, fd + 1 < 2 ^ 31) : fds.length < 2 ^ 31 := by
  have inside : fds ⊆ List.range (2 ^ 31 - 1) := by
    intro fd member
    have bound := small fd member
    rw [List.mem_range]
    omega
  have bound := (List.subperm_of_subset nodup inside).length_le
  rw [List.length_range] at bound
  omega

/-- A node outside of the tree may get any word. -/
theorem refines_write {t : RbTree} {shape : ColorTree Nat} {entries : Entries} {poll : Nat}
    (refines : Refines (· < ·) t shape entries) (unlinked : poll ∉ entries.map Prod.snd)
    (node : RbNode) : Refines (· < ·) (t.write poll node) shape entries := by
  refine refines_agree refines rfl rfl ?_
  intro a member
  have other : a ≠ poll := fun equal => unlinked (refines.linked_iff.mpr (equal ▸ member))
  simp [RbTree.write, other]

/-- A fresh poll object enters the tree under the descriptor of its owner. -/
theorem insertPollObj_fresh {shape : ColorTree Nat} {entries : Entries}
    (refines : Refines (· < ·) inet.poRbt shape entries) (default : inet.poRbt.cfunc = none)
    (owner : Nat) {poll : Nat} (absent : inet.sockFd owner ∉ entries.map Prod.fst)
    (unlinked : poll ∉ entries.map Prod.snd) (aligned : poll ≠ 0 ∧ poll % 4 = 0)
    (enough : entries.length + 1 < fuel) :
    ∃ t result, insertPollObj fuel inet owner poll =
        some ({ inet with
          poRbt := t
          objOf := Function.update inet.objOf owner poll
          pollObj := Function.update inet.pollObj poll owner
          poCnt := Rbtree.toInt (inet.poCnt + 1) }, 0) ∧
      Refines (· < ·) t result ((inet.sockFd owner, poll) :: entries) ∧ t.cfunc = none := by
  let cleared := inet.poRbt.write poll ⟨0, 0, 0, 0⟩
  have same : Refines (· < ·) cleared shape entries := refines_write refines unlinked _
  have orders : Orders cleared.cfunc (· < ·) := by
    rw [show cleared.cfunc = none from default]
    exact orders_default
  have missing : find (inet.sockFd owner) entries = none := Rbtree.find_eq_none.mpr absent
  have length := refines.length
  obtain ⟨t, result, run, kept, cfunc, -⟩ := @call_insert cleared _ shape entries fuel poll
    (inet.sockFd owner) orders same ⟨aligned.1, aligned.2, unlinked⟩ (by omega : shape.nodes.length + 1 < fuel)
  simp only [rbCall, mapCall, missing, if_true, Option.bind_eq_bind, Option.bind_eq_some_iff,
    Option.some.injEq, Prod.mk.injEq, Prod.exists] at run
  obtain ⟨u, code, inserted, rfl, answer⟩ := run
  obtain rfl : code = 0 := by simpa using answer
  refine ⟨u, result, ?_, ?_, cfunc.trans default⟩
  · simp only [insertPollObj]
    rw [inserted]
    rfl
  · simpa [mapCall, missing] using kept

/-- The law with the facts that its own proof needs. -/
structure PollInvariant (state : PollState) : Prop where
  law : PollLaw state
  default : state.inet.poRbt.cfunc = none
  small : ∀ owner ∈ state.inet.owners, state.inet.sockFd owner + 1 < 2 ^ 31

theorem expected_fst (inet : InetImpl) : inet.expected.map Prod.fst = inet.owners.map inet.sockFd := by
  rw [InetImpl.expected, List.map_map]
  rfl

theorem expected_snd (inet : InetImpl) : inet.expected.map Prod.snd = inet.owners.map inet.objOf := by
  rw [InetImpl.expected, List.map_map]
  rfl

/-- A new owner on one of the lists with its own entry keeps the law. -/
theorem PollInvariant.grow {state : PollState} (invariant : PollInvariant state) {owner fd poll : Nat}
    (fresh : Fresh state.inet owner fd poll) {next : InetImpl} {result : ColorTree Nat}
    (refines : Refines (· < ·) next.poRbt result ((fd, poll) :: state.inet.expected))
    (default : next.poRbt.cfunc = none)
    (owners : next.owners.Perm (owner :: state.inet.owners))
    (sockFd : next.sockFd = Function.update state.inet.sockFd owner fd)
    (objOf : next.objOf = Function.update state.inet.objOf owner poll)
    (pollObj : next.pollObj = Function.update state.inet.pollObj poll owner)
    (count : next.poCnt = Rbtree.toInt (state.inet.poCnt + 1)) : PollInvariant ⟨next, none⟩ := by
  have others : ∀ other ∈ state.inet.owners, other ≠ owner := fun other member same =>
    fresh.owner (same ▸ member)
  have expected : next.expected.Perm ((fd, poll) :: state.inet.expected) := by
    have first := owners.map fun owner => (next.sockFd owner, next.objOf owner)
    have kept : state.inet.owners.map (fun owner => (next.sockFd owner, next.objOf owner)) =
        state.inet.expected := by
      apply List.map_congr_left
      intro other member
      rw [sockFd, objOf, Function.update_of_ne (others other member),
        Function.update_of_ne (others other member)]
    have own : (next.sockFd owner, next.objOf owner) = (fd, poll) := by
      rw [sockFd, objOf, Function.update_self, Function.update_self]
    rw [List.map_cons, kept, own] at first
    exact first
  have small : ∀ other ∈ next.owners, next.sockFd other + 1 < 2 ^ 31 := by
    intro other member
    rw [sockFd]
    rcases List.mem_cons.mp (owners.mem_iff.mp member) with rfl | old
    · rw [Function.update_self]
      exact fresh.fd.2
    · rw [Function.update_of_ne (others other old)]
      exact invariant.small other old
  have law : Refines (· < ·) next.poRbt result next.expected :=
    ⟨refines.wellFormed, expected.trans refines.perm⟩
  have bound : next.owners.length < 2 ^ 31 := by
    have keys := law.keys_nodup inferInstance
    rw [expected_fst] at keys
    have counted := length_lt_of_descriptors keys (by
      intro key member
      obtain ⟨other, inside, rfl⟩ := List.mem_map.mp member
      exact small other inside)
    simpa using counted
  refine ⟨⟨⟨result, law⟩, ?_, ?_, by simp⟩, default, small⟩
  · intro other member
    rcases List.mem_cons.mp (owners.mem_iff.mp member) with rfl | old
    · simp [objOf, pollObj]
    · have used : state.inet.objOf other ≠ poll := fun same =>
        fresh.poll.1 (same ▸ List.mem_map_of_mem old)
      simp only [objOf, pollObj, Function.update_of_ne (others other old), Function.update_of_ne used]
      exact invariant.law.points other old
  · have length := owners.length_eq
    rw [List.length_cons] at length
    simp only [count, invariant.law.count]
    rw [Rbtree.toInt, Int.bmod_eq_of_le (by omega) (by omega), length]
    push_cast
    rfl

/-- Each allowed call returns and keeps the law. -/
theorem pollStep_invariant (call : PollCall) (state : PollState) (invariant : PollInvariant state)
    (allowed : call.Allowed state) (enough : state.inet.owners.length + 1 < fuel) :
    ∃ next, pollStep fuel call state = some next ∧ PollInvariant next ∧
      next.inet.owners.length ≤ state.inet.owners.length + 1 := by
  obtain ⟨shape, refines⟩ := invariant.law.tree
  have length : state.inet.expected.length = state.inet.owners.length := List.length_map _
  cases call with
  | destroyAcceptor aci => exact absurd allowed id
  | close sei => exact absurd allowed id
  | createAcceptor new =>
      obtain ⟨memory, socket, listens, object, staleObj⟩ := new
      obtain ⟨works, aci, rfl, fd, rfl, poll, rfl, fresh⟩ := allowed
      simp only at works
      subst works
      let added : InetImpl := { state.inet with
        accList := state.inet.accList ++ [aci]
        sockFd := Function.update state.inet.sockFd aci fd
        objOf := Function.update state.inet.objOf aci staleObj }
      have keyed : added.sockFd aci = fd := Function.update_self _ _ _
      obtain ⟨t, result, run, kept, default⟩ := @insertPollObj_fresh fuel added _ _ refines
        invariant.default aci poll (by rw [keyed, expected_fst]; exact fresh.fd.1)
        (by rw [expected_snd]; exact fresh.poll.1) fresh.poll.2
        (by rw [length]; exact enough)
      rw [keyed] at kept
      let grown : InetImpl := { added with
        poRbt := t
        objOf := Function.update added.objOf aci poll
        pollObj := Function.update added.pollObj poll aci
        poCnt := Rbtree.toInt (added.poCnt + 1) }
      refine ⟨⟨grown, none⟩, by simp [pollStep, pollCall, intranetCreateAcceptor, added, grown, run], ?_, ?_⟩
      · refine invariant.grow fresh kept default ?_ rfl (Function.update_idem _ _ _) rfl rfl
        simp only [InetImpl.owners, grown, added, List.append_assoc, List.singleton_append]
        exact List.perm_middle
      · simp only [InetImpl.owners, grown, added, List.length_append, List.length_singleton]
        omega
  | createSession new =>
      obtain ⟨memory, buffers, fd, object, staleObj, stalePoll⟩ := new
      simp only [PollCall.Allowed] at allowed
      split_ifs at allowed with refused
      · have run : intranetCreateSession fuel state.inet
            ⟨memory, buffers, fd, object, staleObj, stalePoll⟩ = some (state.inet, -1) := by
          subst allowed
          cases memory with
          | none => simp [intranetCreateSession, refuseSession]
          | some sei =>
              have unbuffered : buffers = false := by simpa using refused
              simp [intranetCreateSession, refuseSession, unbuffered]
        refine ⟨⟨state.inet, none⟩, by simp [pollStep, pollCall, run], ?_, Nat.le_succ _⟩
        exact ⟨⟨invariant.law.tree, invariant.law.points, invariant.law.count, by simp⟩,
          invariant.default, invariant.small⟩
      · obtain ⟨sei, rfl, poll, rfl, fresh⟩ := allowed
        have buffered : buffers = true := by simpa using refused
        subst buffered
        let added : InetImpl := { state.inet with
          sesList := state.inet.sesList ++ [sei]
          sockFd := Function.update state.inet.sockFd sei fd
          objOf := Function.update state.inet.objOf sei staleObj }
        have keyed : added.sockFd sei = fd := Function.update_self _ _ _
        obtain ⟨t, result, run, kept, default⟩ := @insertPollObj_fresh fuel added _ _ refines
          invariant.default sei poll (by rw [keyed, expected_fst]; exact fresh.fd.1)
          (by rw [expected_snd]; exact fresh.poll.1) fresh.poll.2
          (by rw [length]; exact enough)
        rw [keyed] at kept
        let grown : InetImpl := { added with
          poRbt := t
          objOf := Function.update added.objOf sei poll
          pollObj := Function.update added.pollObj poll sei
          poCnt := Rbtree.toInt (added.poCnt + 1) }
        refine ⟨⟨grown, none⟩, by simp [pollStep, pollCall, intranetCreateSession, added, grown, run], ?_, ?_⟩
        · refine invariant.grow fresh kept default ?_ rfl (Function.update_idem _ _ _) rfl rfl
          simp only [InetImpl.owners, grown, added]
          rw [← List.append_assoc]
          exact List.perm_append_singleton _ _
        · simp only [InetImpl.owners, grown, added, List.length_append, List.length_singleton]
          omega

theorem pollCalls_invariant (heap : Nat → RbNode) (calls : List PollCall)
    (meets : Meets (pollStep fuel) PollCall.Allowed calls (intranetInit heap))
    (enough : calls.length + 1 < fuel) :
    ∃ state, exec (pollStep fuel) calls (intranetInit heap) = some state ∧ PollInvariant state := by
  have start : PollInvariant (intranetInit heap) := by
    refine ⟨⟨⟨.leaf, ⟨⟨⟨rfl, trivial, List.nodup_nil, by simp⟩, ⟨0, by simp, rfl⟩, List.Pairwise.nil,
      rfl⟩, List.Perm.refl _⟩⟩, ?_, rfl, ?_⟩, rfl, ?_⟩
    · simp [InetImpl.owners, intranetInit]
    · simp [intranetInit]
    · simp [InetImpl.owners, intranetInit]
  obtain ⟨state, run, invariant, -⟩ := @exec_countdown _ _ (pollStep fuel) PollCall.Allowed
    (fun left state => PollInvariant state ∧ state.inet.owners.length + left + 1 < fuel) (by
      rintro call left state ⟨invariant, room⟩ allowed
      obtain ⟨next, stepped, kept, grown⟩ := pollStep_invariant call state invariant allowed
        (by omega : state.inet.owners.length + 1 < fuel)
      exact ⟨next, stepped, kept, by omega⟩) calls 0 (intranetInit heap)
    ⟨start, by simpa [InetImpl.owners, intranetInit] using enough⟩ meets
  exact ⟨state, run, invariant⟩

/-- Runs that only create acceptors and sessions keep the tree, the lists and the counter together. -/
theorem pollCalls_law (heap : Nat → RbNode) (calls : List PollCall)
    (meets : Meets (pollStep fuel) PollCall.Allowed calls (intranetInit heap))
    (enough : calls.length + 1 < fuel) :
    ∃ state, exec (pollStep fuel) calls (intranetInit heap) = some state ∧ PollLaw state := by
  obtain ⟨state, run, invariant⟩ := pollCalls_invariant heap calls meets enough
  exact ⟨state, run, invariant.law⟩

/-- The close of a listed session leaves the counter one too high. -/
theorem pollStep_close_breaks {state next : PollState} (law : PollLaw state) {sei : Nat}
    (listed : sei ∈ state.inet.sesList) (run : pollStep fuel (.close sei) state = some next) :
    ¬ PollLaw next := by
  intro after
  have shorter : next.inet.poCnt = state.inet.poCnt ∧ next.inet.accList = state.inet.accList ∧
      next.inet.sesList = state.inet.sesList.erase sei := by
    simp only [pollStep, pollCall, netClose, intranetDisconn, listed, not_true_eq_false, if_false,
      Option.bind_eq_bind, Option.bind_eq_some_iff, Option.some.injEq, Prod.exists] at run
    obtain ⟨inet, rslt, closed, rfl⟩ := run
    split_ifs at closed
    · obtain ⟨rfl, rfl⟩ := Prod.mk.inj (Option.some.inj closed)
      exact ⟨rfl, rfl, rfl⟩
    · simp at closed
    · simp only [Option.bind_eq_some_iff, Prod.exists, Option.some.injEq, Prod.mk.injEq] at closed
      obtain ⟨middle, ⟨t, rbn, -, chosen⟩, rfl, -⟩ := closed
      split_ifs at chosen <;> obtain rfl := Option.some.inj chosen <;> exact ⟨rfl, rfl, rfl⟩
  obtain ⟨count, accs, sess⟩ := shorter
  have before := law.count
  have now := after.count
  have positive := List.length_pos_of_mem listed
  rw [InetImpl.owners, List.length_append] at before now
  rw [count, before, accs, sess, List.length_erase_of_mem listed] at now
  omega

/-- The destroyed acceptor stays on its list, whatever the removal from the tree does. -/
theorem pollStep_destroy_breaks {state next : PollState} {aci : Nat}
    (listed : aci ∈ state.inet.accList) (run : pollStep fuel (.destroyAcceptor aci) state = some next) :
    ¬ PollLaw next := by
  intro after
  simp only [pollStep, pollCall, intranetDestroyAcceptor, Option.bind_eq_bind, Option.bind_eq_some_iff,
    Option.some.injEq, Prod.exists] at run
  obtain ⟨inet, rslt, ⟨t, rbn, -, chosen⟩, rfl⟩ := run
  have gone := after.destroyed aci rfl
  have kept : inet.accList = state.inet.accList := by
    split_ifs at chosen <;> obtain ⟨rfl, rfl⟩ := Prod.mk.inj (Option.some.inj chosen) <;> rfl
  apply gone
  simp only [InetImpl.owners, kept]
  exact List.mem_append_left _ listed

/-- An acceptor and two sessions; the second session finds no memory. -/
theorem pollCalls_law_three :
    ∃ state, exec (pollStep 8) [.createAcceptor ⟨some 4096, some 3, true, some 8192, 0⟩,
        .createSession ⟨some 4608, true, 4, some 8256, 0, 0⟩,
        .createSession ⟨none, true, 5, none, 0, 0⟩] (intranetInit fun _ => ⟨0, 0, 0, 0⟩) =
          some state ∧
      PollLaw state :=
  pollCalls_law (fun _ => ⟨0, 0, 0, 0⟩) _ (by decide +kernel) (by decide)

/-- The counter still counts the closed session, and the destroyed acceptor is still on its list. -/
theorem pollCalls_left :
    (∃ state ∈ exec (pollStep 8) [.createSession ⟨some 4608, true, 4, some 8256, 0, 0⟩, .close 4608]
        (intranetInit fun _ => ⟨0, 0, 0, 0⟩), state.inet.poCnt = 1 ∧ state.inet.owners = [] ∧
          ¬ PollLaw state) ∧
      ∃ state ∈ exec (pollStep 8) [.createAcceptor ⟨some 4096, some 3, true, some 8192, 0⟩,
          .destroyAcceptor 4096] (intranetInit fun _ => ⟨0, 0, 0, 0⟩),
        state.destroyed = some 4096 ∧ state.inet.accList = [4096] ∧ ¬ PollLaw state := by
  have closed : ∃ state ∈ exec (pollStep 8)
      [.createSession ⟨some 4608, true, 4, some 8256, 0, 0⟩, .close 4608]
      (intranetInit fun _ => ⟨0, 0, 0, 0⟩), state.inet.poCnt = 1 ∧ state.inet.owners = [] := by
    decide +kernel
  have destroyed : ∃ state ∈ exec (pollStep 8)
      [.createAcceptor ⟨some 4096, some 3, true, some 8192, 0⟩, .destroyAcceptor 4096]
      (intranetInit fun _ => ⟨0, 0, 0, 0⟩),
      state.destroyed = some 4096 ∧ state.inet.accList = [4096] := by
    decide +kernel
  constructor
  · obtain ⟨state, run, count, empty⟩ := closed
    refine ⟨state, run, count, empty, fun law => ?_⟩
    have counted := law.count
    rw [count, empty] at counted
    exact absurd counted (by decide)
  · obtain ⟨state, run, gone, listed⟩ := destroyed
    refine ⟨state, run, gone, listed, fun law => ?_⟩
    apply law.destroyed 4096 gone
    rw [InetImpl.owners, listed]
    exact List.mem_cons_self

end Syslib.Net
