import Syslib.Dlist.Sequences
import Syslib.Library.Runs

namespace Syslib.Dlist

open IntrusiveLists Runs

/-- The calls name a list by its handle and a node by its address. -/
inductive DlCall (Lst : Type) where
  | pushFront (lst : Lst) (node : Ptr)
  | pushBack (lst : Lst) (node : Ptr)
  | insertBefore (lst : Lst) (suc node : Ptr)
  | insertAfter (lst : Lst) (prv node : Ptr)
  | popFront (lst : Lst)
  | popBack (lst : Lst)
  | remove (lst : Lst) (node : Ptr)
  | removeNode (node : Ptr)
  deriving DecidableEq, Repr

inductive Answer where
  | rslt (value : Int)
  | node (pointer : Ptr)
  deriving DecidableEq, Repr

def Answer.Failed (answer : Answer) : Prop := answer = .rslt (-1) ∨ answer = .node 0

/-- A trace has the memory and the sequences that the lists in it should hold. -/
structure DlTrace (Lst : Type) where
  heap : DlHeap
  lists : Lst → List Ptr

section Calls

variable {Lst : Type} (base : Lst → Ptr)

def dlCall (heap : DlHeap) : DlCall Lst → Option (DlHeap × Answer)
  | .pushFront lst node => (lstPushFront heap (base lst) node).map (Prod.map id .rslt)
  | .pushBack lst node => (lstPushBack heap (base lst) node).map (Prod.map id .rslt)
  | .insertBefore lst suc node => (lstInsertBefore heap (base lst) suc node).map (Prod.map id .rslt)
  | .insertAfter lst prv node => (lstInsertAfter heap (base lst) prv node).map (Prod.map id .rslt)
  | .popFront lst => (lstPopFront heap (base lst)).map (Prod.map id .node)
  | .popBack lst => (lstPopBack heap (base lst)).map (Prod.map id .node)
  | .remove lst node => (lstRemove heap (base lst) node).map (Prod.map id .rslt)
  | .removeNode node => (lstRemoveNode heap node).map (Prod.map id .rslt)

/-- The removal from a list that is not empty takes the node out of the list that has it. -/
def DlCall.after [DecidableEq Lst] (lists : Lst → List Ptr) : DlCall Lst → Lst → List Ptr
  | .pushFront lst node => IntrusiveLists.pushFront lists lst node
  | .pushBack lst node => IntrusiveLists.pushBack lists lst node
  | .insertBefore lst suc node =>
      if suc = lstHead (base lst) then lists
      else Function.update lists lst ((lists lst).insertIdx ((lists lst).idxOf suc) node)
  | .insertAfter lst prv node =>
      if prv = lstTail (base lst) then lists
      else Function.update lists lst
        ((lists lst).insertIdx ((lstHead (base lst) :: lists lst).idxOf prv) node)
  | .popFront lst => Function.update lists lst (lists lst).tail
  | .popBack lst => Function.update lists lst (lists lst).dropLast
  | .remove lst node => if lists lst = [] then lists else IntrusiveLists.removeNode lists node
  | .removeNode node => IntrusiveLists.removeNode lists node

/-- The result says whether the condition held. -/
def Reported (held : Prop) (answer : Answer) : Prop :=
  held ∧ answer = .rslt 0 ∨ ¬ held ∧ answer = .rslt (-1)

def DlCall.Answers (lists : Lst → List Ptr) : DlCall Lst → Answer → Prop
  | .pushFront _ _, answer => answer = .rslt 0
  | .pushBack _ _, answer => answer = .rslt 0
  | .insertBefore lst suc _, answer => Reported (suc ≠ lstHead (base lst)) answer
  | .insertAfter lst prv _, answer => Reported (prv ≠ lstTail (base lst)) answer
  | .popFront lst, answer => answer = .node ((lists lst).head?.getD 0)
  | .popBack lst, answer => answer = .node ((lists lst).getLast?.getD 0)
  | .remove lst node, answer => Reported (lists lst ≠ [] ∧ ∃ other, node ∈ lists other) answer
  | .removeNode node, answer => Reported (∃ other, node ∈ lists other) answer

/-- The node is neither a member nor a sentinel of a list. -/
def Unlinked (lists : Lst → List Ptr) (node : Ptr) : Prop :=
  node ≠ 0 ∧ ∀ lst, node ∉ path (base lst) (lists lst)

/-- A node outside of the lists lacks a link. -/
def Removable (trace : DlTrace Lst) (node : Ptr) : Prop :=
  (∃ lst, node ∈ trace.lists lst) ∨ node = 0 ∨ (trace.heap node).prev = 0 ∨ (trace.heap node).next = 0

/-- Insertions take an unlinked node and a place in the list; removals take any node but one with stale links. -/
def DlCall.Allowed : DlCall Lst → DlTrace Lst → Prop
  | .pushFront _ node, trace => Unlinked base trace.lists node
  | .pushBack _ node, trace => Unlinked base trace.lists node
  | .insertBefore lst suc node, trace =>
      suc ∈ path (base lst) (trace.lists lst) ∧ Unlinked base trace.lists node
  | .insertAfter lst prv node, trace =>
      prv ∈ path (base lst) (trace.lists lst) ∧ Unlinked base trace.lists node
  | .popFront _, _ => True
  | .popBack _, _ => True
  | .remove _ node, trace => Removable trace node
  | .removeNode node, trace => Removable trace node

/-- The list that the call changes. -/
def DlCall.Touches (lists : Lst → List Ptr) : DlCall Lst → Lst → Prop
  | .pushFront lst _, other => other = lst
  | .pushBack lst _, other => other = lst
  | .insertBefore lst _ _, other => other = lst
  | .insertAfter lst _ _, other => other = lst
  | .popFront lst, other => other = lst
  | .popBack lst, other => other = lst
  | .remove lst node, other => lists lst ≠ [] ∧ node ∈ lists other
  | .removeNode node, other => node ∈ lists other

instance [Fintype Lst] (lists : Lst → List Ptr) (node : Ptr) : Decidable (Unlinked base lists node) :=
  inferInstanceAs (Decidable (_ ∧ _))

instance [Fintype Lst] (trace : DlTrace Lst) (node : Ptr) : Decidable (Removable trace node) :=
  inferInstanceAs (Decidable (_ ∨ _))

instance DlCall.Allowed.decidable [Fintype Lst] :
    (call : DlCall Lst) → (trace : DlTrace Lst) → Decidable (call.Allowed base trace)
  | .pushFront _ node, trace => inferInstanceAs (Decidable (Unlinked base trace.lists node))
  | .pushBack _ node, trace => inferInstanceAs (Decidable (Unlinked base trace.lists node))
  | .insertBefore lst suc node, trace =>
      inferInstanceAs (Decidable (suc ∈ path (base lst) (trace.lists lst) ∧ Unlinked base trace.lists node))
  | .insertAfter lst prv node, trace =>
      inferInstanceAs (Decidable (prv ∈ path (base lst) (trace.lists lst) ∧ Unlinked base trace.lists node))
  | .popFront _, _ => inferInstanceAs (Decidable True)
  | .popBack _, _ => inferInstanceAs (Decidable True)
  | .remove _ node, trace => inferInstanceAs (Decidable (Removable trace node))
  | .removeNode node, trace => inferInstanceAs (Decidable (Removable trace node))

variable [DecidableEq Lst]

/-- A call acts as its operation on the sequences; a failure changes nothing, and neither does it
reach into another list. -/
structure Performed (call : DlCall Lst) (trace : DlTrace Lst) (heap : DlHeap) (answer : Answer) : Prop where
  holds : Holds base heap (call.after base trace.lists)
  answers : call.Answers base trace.lists answer
  failed : answer.Failed → heap = trace.heap
  spared : ∀ other, ¬ call.Touches trace.lists other →
    call.after base trace.lists other = trace.lists other ∧
      ∀ a ∈ path (base other) (trace.lists other), heap a = trace.heap a

/-- The call has a result, and it performs with this result. -/
def DlCall.Performs (call : DlCall Lst) (trace : DlTrace Lst) : Prop :=
  ∃ heap answer, dlCall base trace.heap call = some (heap, answer) ∧ Performed base call trace heap answer

def dlStep (call : DlCall Lst) (trace : DlTrace Lst) : Option (DlTrace Lst) :=
  (dlCall base trace.heap call).map fun result => ⟨result.1, call.after base trace.lists⟩

end Calls

section Removals

variable {Lst : Type} {base : Lst → Ptr} {heap changed : DlHeap} {lists : Lst → List Ptr} {lst other : Lst}
  {node : Ptr}

/-- The sentinels of an empty list point at each other. -/
theorem lstRemove_empty (holds : Holds base heap lists) (empty : lists lst = []) (node : Ptr) :
    lstRemove heap (base lst) node = some (heap, -1) := by
  have formed := holds.wellFormed lst
  obtain ⟨head, tail⟩ := formed.sentinels
  have behind : (heap (lstTail (base lst))).prev = lstHead (base lst) := by
    rw [formed.behind, empty]
    rfl
  rw [lstRemove]
  by_cases null : base lst = 0 ∨ node = 0
  · exact if_pos null
  · rw [if_neg null]
    by_cases links : (heap node).prev = 0 ∨ (heap node).next = 0
    · exact if_pos links
    · rw [if_neg links]
      simp only [DlHeap.getPrev, DlHeap.getNext, if_neg tail, if_neg head, Option.bind_eq_bind, Option.bind_some]
      exact if_pos (Or.inl behind)

theorem lstRemove_outside (lst : Ptr) (outside : node = 0 ∨ (heap node).prev = 0 ∨ (heap node).next = 0) :
    lstRemove heap lst node = some (heap, -1) := by
  rw [lstRemove]
  by_cases null : lst = 0 ∨ node = 0
  · exact if_pos null
  · rw [if_neg null]
    exact if_pos (outside.resolve_left (not_or.mp null).2)

theorem lstRemoveNode_outside (outside : node = 0 ∨ (heap node).prev = 0 ∨ (heap node).next = 0) :
    lstRemoveNode heap node = some (heap, -1) := by
  rw [lstRemoveNode]
  by_cases null : node = 0
  · exact if_pos null
  · rw [if_neg null]
    exact if_pos (outside.resolve_left null)

/-- The list of the call must have some member, but it need not be the one that has the node. -/
theorem lstRemove_member (holds : Holds base heap lists) (inside : node ∈ lists other) (filled : lists lst ≠ [])
    (unlinked : unlink heap node = some changed) : lstRemove heap (base lst) node = some (changed, 0) := by
  obtain ⟨real, prev, next⟩ := holds.member inside
  have formed := holds.wellFormed lst
  obtain ⟨head, tail⟩ := formed.sentinels
  have notHead : node ≠ lstHead (base lst) := by
    rintro rfl
    exact prev formed.first
  have notTail : node ≠ lstTail (base lst) := by
    rintro rfl
    exact next formed.last
  have last : (heap (lstTail (base lst))).prev ≠ lstHead (base lst) := by
    rw [formed.behind, List.getLast?_eq_some_getLast filled, Option.getD_some]
    exact fun same => formed.outer.1 (same ▸ List.getLast_mem filled)
  have first : (heap (lstHead (base lst))).next ≠ lstTail (base lst) := by
    rw [formed.ahead, List.head?_eq_some_head filled, Option.getD_some]
    exact fun same => formed.outer.2 (same ▸ List.head_mem filled)
  rw [lstRemove, if_neg (not_or.mpr ⟨holds.list lst, real⟩), if_neg (not_or.mpr ⟨prev, next⟩)]
  simp only [DlHeap.getPrev, DlHeap.getNext, if_neg tail, if_neg head, Option.bind_eq_bind, Option.bind_some,
    if_neg (not_or.mpr ⟨last, first⟩), if_neg (not_or.mpr ⟨notHead, notTail⟩), unlinked]

theorem lstRemoveNode_member (holds : Holds base heap lists) (inside : node ∈ lists other)
    (unlinked : unlink heap node = some changed) : lstRemoveNode heap node = some (changed, 0) := by
  obtain ⟨real, prev, next⟩ := holds.member inside
  rw [lstRemoveNode, if_neg real, if_neg (not_or.mpr ⟨prev, next⟩), unlinked]
  rfl

end Removals

section Performs

variable {Lst : Type} [DecidableEq Lst] {base : Lst → Ptr} {trace : DlTrace Lst} {call : DlCall Lst}
  {changed : DlHeap} {answer : Answer} {lst : Lst} {node : Ptr} {updated : List Ptr}

/-- A refused call leaves the memory and the sequences as they are. -/
theorem performed_refused (holds : Holds base trace.heap trace.lists)
    (after : call.after base trace.lists = trace.lists) (answers : call.Answers base trace.lists answer) :
    Performed base call trace trace.heap answer where
  holds := by rw [after]; exact holds
  answers := answers
  failed _ := rfl
  spared _ _ := ⟨by rw [after], fun _ _ => rfl⟩

/-- A call that changes one list performs when the heap has the new list and spares the others. -/
theorem performed_change (after : call.after base trace.lists = Function.update trace.lists lst updated)
    (touches : call.Touches trace.lists lst)
    (result : Holds base changed (Function.update trace.lists lst updated) ∧
      ∀ other ≠ lst, ∀ a ∈ path (base other) (trace.lists other), changed a = trace.heap a)
    (answers : call.Answers base trace.lists answer) (succeeded : ¬ answer.Failed) :
    Performed base call trace changed answer := by
  refine ⟨after ▸ result.1, answers, fun failed => absurd failed succeeded, ?_⟩
  intro other untouched
  have differs : other ≠ lst := by
    rintro rfl
    exact untouched touches
  exact ⟨by rw [after, Function.update_of_ne differs], result.2 other differs⟩

/-- Both insertions write the same links for a gap. -/
theorem inserted_at {front back : List Ptr} {p s : Ptr} (holds : Holds base trace.heap trace.lists)
    (split : path (base lst) (trace.lists lst) = front ++ p :: s :: back)
    (filled : path (base lst) updated = front ++ p :: node :: s :: back)
    (unlinked : Unlinked base trace.lists node) :
    ∃ changed, lstInsertBefore trace.heap (base lst) s node = some (changed, 0) ∧
      lstInsertAfter trace.heap (base lst) p node = some (changed, 0) ∧
      Holds base changed (Function.update trace.lists lst updated) ∧
      ∀ other ≠ lst, ∀ a ∈ path (base other) (trace.lists other), changed a = trace.heap a := by
  obtain ⟨real, fresh⟩ := unlinked
  have gap := (holds.wellFormed lst).gap split
  have near : p ≠ node := by
    rintro rfl
    exact fresh lst (by simp [split])
  have far : s ≠ node := by
    rintro rfl
    exact fresh lst (by simp [split])
  exact ⟨linkBetween trace.heap p node s, lstInsertBefore_eq (holds.list lst) gap real near far,
    lstInsertAfter_eq (holds.list lst) gap real near far, holds.insert split filled real fresh⟩

theorem insertBefore_performed {suc : Ptr} (holds : Holds base trace.heap trace.lists)
    (place : suc ∈ path (base lst) (trace.lists lst)) (unlinked : Unlinked base trace.lists node) :
    DlCall.Performs base (.insertBefore lst suc node) trace := by
  by_cases head : suc = lstHead (base lst)
  · have real : suc ≠ 0 := (holds.wellFormed lst).real place
    have present := not_or.mpr ⟨holds.list lst, not_or.mpr ⟨real, unlinked.1⟩⟩
    refine ⟨trace.heap, .rslt (-1), ?_, performed_refused holds (if_pos head) (Or.inr ⟨not_not.mpr head, rfl⟩)⟩
    rw [dlCall, lstInsertBefore, if_neg present, if_pos head]
    rfl
  · have inside : suc ∈ trace.lists lst ++ [lstTail (base lst)] := (List.mem_cons.mp place).resolve_left head
    obtain ⟨front, p, back, split, filled⟩ := @path_insertBefore (base lst) node (trace.lists lst) suc inside
    obtain ⟨changed, ran, -, result⟩ := inserted_at holds split filled unlinked
    refine ⟨changed, .rslt 0, by rw [dlCall, ran]; rfl, ?_⟩
    exact performed_change (if_neg head) rfl result (Or.inl ⟨head, rfl⟩) (by simp [Answer.Failed])

theorem insertAfter_performed {prv : Ptr} (holds : Holds base trace.heap trace.lists)
    (place : prv ∈ path (base lst) (trace.lists lst)) (unlinked : Unlinked base trace.lists node) :
    DlCall.Performs base (.insertAfter lst prv node) trace := by
  by_cases tail : prv = lstTail (base lst)
  · have real : prv ≠ 0 := (holds.wellFormed lst).real place
    have present := not_or.mpr ⟨holds.list lst, not_or.mpr ⟨real, unlinked.1⟩⟩
    refine ⟨trace.heap, .rslt (-1), ?_, performed_refused holds (if_pos tail) (Or.inr ⟨not_not.mpr tail, rfl⟩)⟩
    rw [dlCall, lstInsertAfter, if_neg present, if_pos tail]
    rfl
  · have inside : prv ∈ lstHead (base lst) :: trace.lists lst := by
      rcases mem_path.mp place with head | member | last
      · exact head ▸ List.mem_cons_self
      · exact List.mem_cons_of_mem _ member
      · exact absurd last tail
    obtain ⟨front, s, back, split, filled⟩ := @path_insertAfter (base lst) node (trace.lists lst) prv inside
    obtain ⟨changed, -, ran, result⟩ := inserted_at holds split filled unlinked
    refine ⟨changed, .rslt 0, by rw [dlCall, ran]; rfl, ?_⟩
    exact performed_change (if_neg tail) rfl result (Or.inl ⟨tail, rfl⟩) (by simp [Answer.Failed])

theorem pushBack_performed (lst : Lst) (holds : Holds base trace.heap trace.lists)
    (unlinked : Unlinked base trace.lists node) :
    DlCall.Performs base (.pushBack lst node) trace := by
  obtain ⟨front, p, split, filled⟩ := path_pushBack (base lst) node (trace.lists lst)
  obtain ⟨changed, ran, -, result⟩ := inserted_at holds split filled unlinked
  refine ⟨changed, .rslt 0, by rw [dlCall, lstPushBack, ran]; rfl, ?_⟩
  exact performed_change rfl rfl result rfl (by simp [Answer.Failed])

theorem pushFront_performed (lst : Lst) (holds : Holds base trace.heap trace.lists)
    (unlinked : Unlinked base trace.lists node) :
    DlCall.Performs base (.pushFront lst node) trace := by
  obtain ⟨s, back, split, filled⟩ := path_pushFront (base lst) node (trace.lists lst)
  obtain ⟨changed, -, ran, result⟩ := inserted_at holds split filled unlinked
  refine ⟨changed, .rslt 0, by rw [dlCall, lstPushFront, ran]; rfl, ?_⟩
  exact performed_change rfl rfl result rfl (by simp [Answer.Failed])

/-- A pop acts on the node that it reads at its end of the list. -/
theorem pop_performed (holds : Holds base trace.heap trace.lists) (touches : call.Touches trace.lists lst)
    (runs : dlCall base trace.heap call =
      (lstPop trace.heap (base lst) (some node)).map (Prod.map id Answer.node))
    (empty : trace.lists lst = [] →
      call.after base trace.lists = trace.lists ∧ call.Answers base trace.lists (.node 0))
    (filled : trace.lists lst ≠ [] → node ∈ trace.lists lst ∧
      call.after base trace.lists = Function.update trace.lists lst ((trace.lists lst).erase node) ∧
      call.Answers base trace.lists (.node node)) :
    call.Performs base trace := by
  by_cases none_ : trace.lists lst = []
  · obtain ⟨same, answers⟩ := empty none_
    refine ⟨trace.heap, .node 0, ?_, performed_refused holds same answers⟩
    rw [runs, lstPop, if_neg (holds.list lst)]
    simp only [Option.bind_eq_bind, Option.bind_some, lstRemove_empty holds none_]
    rfl
  · obtain ⟨inside, after, answers⟩ := filled none_
    obtain ⟨changed, unlinked, result⟩ := holds.unlink inside
    rw [holds.apart.removeNode_eq inside] at result
    have real : ¬ (Answer.node node).Failed := by
      rintro (status | null)
      · cases status
      · exact (holds.member inside).1 (Answer.node.inj null)
    refine ⟨changed, .node node, ?_, performed_change after touches result answers real⟩
    rw [runs, lstPop, if_neg (holds.list lst)]
    simp only [Option.bind_eq_bind, Option.bind_some, lstRemove_member holds inside none_ unlinked]
    rfl

theorem popFront_performed (lst : Lst) (holds : Holds base trace.heap trace.lists) :
    DlCall.Performs base (.popFront lst) trace := by
  have formed := holds.wellFormed lst
  refine pop_performed holds rfl (by rw [dlCall, lstPopFront, DlHeap.getNext, if_neg formed.sentinels.1]) ?_ ?_
  · intro none_
    rw [DlCall.after, DlCall.Answers, none_]
    exact ⟨Function.update_eq_self_iff.mpr none_.symm, rfl⟩
  · intro some_
    rw [DlCall.after, DlCall.Answers, formed.ahead]
    cases members : trace.lists lst with
    | nil => exact absurd members some_
    | cons first rest =>
        rw [List.head?_cons, Option.getD_some, List.erase_cons_head, List.tail_cons]
        exact ⟨List.mem_cons_self, rfl, rfl⟩

theorem popBack_performed (lst : Lst) (holds : Holds base trace.heap trace.lists) :
    DlCall.Performs base (.popBack lst) trace := by
  have formed := holds.wellFormed lst
  have nodup := holds.apart.nodup lst
  refine pop_performed holds rfl (by rw [dlCall, lstPopBack, DlHeap.getPrev, if_neg formed.sentinels.2]) ?_ ?_
  · intro none_
    rw [DlCall.after, DlCall.Answers, none_]
    exact ⟨Function.update_eq_self_iff.mpr none_.symm, rfl⟩
  · intro some_
    rw [DlCall.after, DlCall.Answers, formed.behind]
    obtain ⟨rest, last, members⟩ : ∃ rest last, trace.lists lst = rest ++ [last] :=
      ⟨_, _, (List.dropLast_concat_getLast some_).symm⟩
    rw [members] at nodup ⊢
    have fresh : last ∉ rest := fun inside =>
      (List.nodup_append.mp nodup).2.2 last inside last (List.mem_singleton_self last) rfl
    rw [List.getLast?_concat, Option.getD_some, List.dropLast_concat, List.erase_append_right _ fresh,
      List.erase_cons_head, List.append_nil]
    exact ⟨by simp, rfl, rfl⟩

/-- A removal that acts takes the node out of the one list that has it. -/
theorem removal_performed (holds : Holds base trace.heap trace.lists) (inside : node ∈ trace.lists lst)
    (after : call.after base trace.lists = removeNode trace.lists node) (touches : call.Touches trace.lists lst)
    (runs : ∀ changed, unlink trace.heap node = some changed →
      dlCall base trace.heap call = some (changed, .rslt 0))
    (answers : call.Answers base trace.lists (.rslt 0)) :
    call.Performs base trace := by
  obtain ⟨changed, unlinked, result⟩ := holds.unlink inside
  rw [holds.apart.removeNode_eq inside] at after result
  exact ⟨changed, .rslt 0, runs changed unlinked,
    performed_change after touches result answers (by simp [Answer.Failed])⟩

theorem remove_performed (lst : Lst) (holds : Holds base trace.heap trace.lists)
    (removable : Removable trace node) :
    DlCall.Performs base (.remove lst node) trace := by
  by_cases empty : trace.lists lst = []
  · refine ⟨trace.heap, .rslt (-1), by rw [dlCall, lstRemove_empty holds empty]; rfl,
      performed_refused holds (if_pos empty) (Or.inr ⟨fun held => held.1 empty, rfl⟩)⟩
  by_cases member : ∃ other, node ∈ trace.lists other
  · obtain ⟨other, inside⟩ := member
    exact removal_performed holds inside (if_neg empty) ⟨empty, inside⟩
      (fun changed unlinked => by rw [dlCall, lstRemove_member holds inside empty unlinked]; rfl)
      (Or.inl ⟨⟨empty, other, inside⟩, rfl⟩)
  · have outside := removable.resolve_left member
    refine ⟨trace.heap, .rslt (-1), ?_, performed_refused holds ?_ ?_⟩
    · rw [dlCall, lstRemove_outside _ outside]
      rfl
    · rw [DlCall.after, if_neg empty]
      exact removeNode_unlinked (not_exists.mp member)
    · exact Or.inr ⟨fun held => member held.2, rfl⟩

theorem removeNode_performed (holds : Holds base trace.heap trace.lists) (removable : Removable trace node) :
    DlCall.Performs base (.removeNode node) trace := by
  by_cases member : ∃ other, node ∈ trace.lists other
  · obtain ⟨other, inside⟩ := member
    exact removal_performed holds inside rfl inside
      (fun changed unlinked => by rw [dlCall, lstRemoveNode_member holds inside unlinked]; rfl)
      (Or.inl ⟨⟨other, inside⟩, rfl⟩)
  · have outside := removable.resolve_left member
    exact ⟨trace.heap, .rslt (-1), by rw [dlCall, lstRemoveNode_outside outside]; rfl,
      performed_refused holds (removeNode_unlinked (not_exists.mp member)) (Or.inr ⟨member, rfl⟩)⟩

theorem dlCall_performed (holds : Holds base trace.heap trace.lists) (call : DlCall Lst)
    (allowed : call.Allowed base trace) :
    call.Performs base trace := by
  cases call with
  | pushFront lst node => exact pushFront_performed lst holds allowed
  | pushBack lst node => exact pushBack_performed lst holds allowed
  | insertBefore lst suc node => exact insertBefore_performed holds allowed.1 allowed.2
  | insertAfter lst prv node => exact insertAfter_performed holds allowed.1 allowed.2
  | popFront lst => exact popFront_performed lst holds
  | popBack lst => exact popBack_performed lst holds
  | remove lst node => exact remove_performed lst holds allowed
  | removeNode node => exact removeNode_performed holds allowed

end Performs

/-- After every run the lists hold their sequences, and every further call acts as its operation on them. -/
theorem dlCalls_sequences {Lst : Type} [DecidableEq Lst] (base : Lst → Ptr) (heap : DlHeap)
    (lists : Lst → List Ptr) (holds : Holds base heap lists) (calls : List (DlCall Lst))
    (meets : Meets (dlStep base) (DlCall.Allowed base) calls ⟨heap, lists⟩) :
    ∃ trace, exec (dlStep base) calls ⟨heap, lists⟩ = some trace ∧ Holds base trace.heap trace.lists ∧
      ∀ call, DlCall.Allowed base call trace → DlCall.Performs base call trace := by
  have step (call : DlCall Lst) (trace : DlTrace Lst) (held : Holds base trace.heap trace.lists)
      (allowed : call.Allowed base trace) :
      ∃ next, dlStep base call trace = some next ∧ Holds base next.heap next.lists := by
    obtain ⟨next, answer, ran, performed⟩ := dlCall_performed held call allowed
    exact ⟨⟨next, call.after base trace.lists⟩, by rw [dlStep, ran]; rfl, performed.holds⟩
  obtain ⟨trace, run, held⟩ := exec_invariant step calls ⟨heap, lists⟩ holds meets
  exact ⟨trace, run, held, fun call allowed => dlCall_performed held call allowed⟩

/-- Each of the two lists has one member, and the node at 160 has stale links into the first list. -/
def twoBase : Bool → Ptr
  | false => 32
  | true => 96

def twoLists : Bool → List Ptr
  | false => [64]
  | true => [128]

def twoHeap : DlHeap :=
  .ofNodes [(32, ⟨0, 64⟩), (64, ⟨32, 48⟩), (48, ⟨64, 0⟩), (96, ⟨0, 128⟩), (128, ⟨96, 112⟩), (112, ⟨128, 0⟩),
    (160, ⟨32, 48⟩)]

theorem dlCalls_sequences_two :
    ∃ trace, exec (dlStep twoBase)
        [.insertAfter true 128 160, .popFront false, .remove true 128, .removeNode 64, .pushBack false 64]
        ⟨twoHeap, twoLists⟩ = some trace ∧ Holds twoBase trace.heap trace.lists ∧
      ∀ call, DlCall.Allowed twoBase call trace → DlCall.Performs twoBase call trace :=
  dlCalls_sequences twoBase twoHeap twoLists (by decide +kernel)
    [.insertAfter true 128 160, .popFront false, .remove true 128, .removeNode 64, .pushBack false 64]
    (by decide +kernel)

/-- A removal from one list takes the member of the other, and stale links pass for a membership. -/
theorem lstRemove_unchecked :
    Holds twoBase twoHeap twoLists ∧
      (∃ result ∈ dlCall twoBase twoHeap (.remove false 128), result.2 = .rslt 0 ∧
        Holds twoBase result.1 (Function.update twoLists true [])) ∧
      (∀ lst, 160 ∉ path (twoBase lst) (twoLists lst)) ∧
      ∃ result ∈ dlCall twoBase twoHeap (.removeNode 160), result.2 = .rslt 0 ∧
        Holds twoBase result.1 (Function.update twoLists false []) := by
  decide +kernel

end Syslib.Dlist
