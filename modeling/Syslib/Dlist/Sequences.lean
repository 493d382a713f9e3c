import Mathlib.Data.Fintype.Basic
import Syslib.Dlist.Model
import Syslib.Library.IntrusiveLists
import Syslib.Library.LinkedPaths

namespace Syslib.Dlist

open IntrusiveLists LinkedPaths

/-- The chain of a list runs from its head over the members to its tail. -/
def path (lst : Ptr) (members : List Ptr) : List Ptr := lstHead lst :: (members ++ [lstTail lst])

/-- The links in both directions give the members, and the outer links of the sentinels are null. -/
structure WellFormed (heap : DlHeap) (lst : Ptr) (members : List Ptr) : Prop where
  linked : Linked (fun node => (heap node).next) (fun node => (heap node).prev) (path lst members)
  first : (heap (lstHead lst)).prev = 0
  last : (heap (lstTail lst)).next = 0
  noNull : 0 ∉ path lst members
  nodup : (path lst members).Nodup

instance (heap : DlHeap) (lst : Ptr) (members : List Ptr) : Decidable (WellFormed heap lst members) :=
  decidable_of_iff
    (Linked (fun node => (heap node).next) (fun node => (heap node).prev) (path lst members) ∧
      (heap (lstHead lst)).prev = 0 ∧ (heap (lstTail lst)).next = 0 ∧
      0 ∉ path lst members ∧ (path lst members).Nodup)
    ⟨fun parts => ⟨parts.1, parts.2.1, parts.2.2.1, parts.2.2.2.1, parts.2.2.2.2⟩,
      fun formed => ⟨formed.linked, formed.first, formed.last, formed.noNull, formed.nodup⟩⟩

theorem WellFormed.real {heap : DlHeap} {lst node : Ptr} {members : List Ptr}
    (formed : WellFormed heap lst members) (inside : node ∈ path lst members) : node ≠ 0 := by
  rintro rfl
  exact formed.noNull inside

/-- Each handle has a list at its address, and no two lists share a node. -/
structure Holds {Lst : Type} (base : Lst → Ptr) (heap : DlHeap) (lists : Lst → List Ptr) : Prop where
  wellFormed : ∀ lst, WellFormed heap (base lst) (lists lst)
  disjoint : ∀ {first second node}, node ∈ path (base first) (lists first) →
    node ∈ path (base second) (lists second) → first = second

instance {Lst : Type} [Fintype Lst] [DecidableEq Lst] (base : Lst → Ptr) (heap : DlHeap)
    (lists : Lst → List Ptr) : Decidable (Holds base heap lists) :=
  -- the members are tested one by one, and not all pointers
  have : ∀ first second, Decidable (∀ node ∈ path (base first) (lists first),
      node ∈ path (base second) (lists second) → first = second) := fun _ _ => List.decidableBAll _ _
  decidable_of_iff
    ((∀ lst, WellFormed heap (base lst) (lists lst)) ∧
      ∀ first second, ∀ node ∈ path (base first) (lists first),
        node ∈ path (base second) (lists second) → first = second)
    ⟨fun holds => ⟨holds.1, fun {first second node} => holds.2 first second node⟩,
      fun holds => ⟨holds.wellFormed, fun _ _ _ => holds.disjoint⟩⟩

/-- The node gets new links, and each neighbour gets a new link on the side of the node. -/
def retie (heap : DlHeap) (p node s : Ptr) (links : DlNode) (next prev : Ptr) : DlHeap := fun a =>
  if a = node then links
  else if a = p then ⟨(heap p).prev, next⟩
  else if a = s then ⟨prev, (heap s).next⟩
  else heap a

/-- The node is linked between two neighbours. -/
def linkBetween (heap : DlHeap) (p node s : Ptr) : DlHeap := retie heap p node s ⟨p, s⟩ node node

/-- The neighbours are linked with each other, and the links of the node are cleared. -/
def unlinkBetween (heap : DlHeap) (p node s : Ptr) : DlHeap := retie heap p node s ⟨0, 0⟩ s p

/-- The sentinels point at each other, as `lst_new` leaves them. -/
def linkSentinels (heap : DlHeap) (lst : Ptr) : DlHeap :=
  Function.update (Function.update heap (lstHead lst) ⟨0, lstTail lst⟩) (lstTail lst) ⟨lstHead lst, 0⟩

section Paths

variable {lst node : Ptr} {members : List Ptr}

theorem mem_path : node ∈ path lst members ↔ node = lstHead lst ∨ node ∈ members ∨ node = lstTail lst := by
  simp [path]

theorem exists_before (lst : Ptr) (before : List Ptr) : ∃ front p, lstHead lst :: before = front ++ [p] :=
  ⟨_, _, (List.dropLast_concat_getLast (List.cons_ne_nil (lstHead lst) before)).symm⟩

theorem exists_behind (lst : Ptr) (after : List Ptr) : ∃ s back, after ++ [lstTail lst] = s :: back := by
  cases after with
  | nil => exact ⟨_, _, rfl⟩
  | cons first rest => exact ⟨_, _, rfl⟩

theorem insertIdx_before {before after : List Ptr} {last suc : Ptr}
    (split : members ++ [last] = before ++ suc :: after) (fresh : suc ∉ before) :
    members.insertIdx (members.idxOf suc) node ++ [last] = before ++ node :: suc :: after := by
  induction before generalizing members with
  | nil =>
      cases members with
      | nil =>
          obtain ⟨rfl, rfl⟩ := List.cons.inj split
          rfl
      | cons first rest =>
          obtain ⟨rfl, rfl⟩ := List.cons.inj split
          rw [List.idxOf_cons_self, List.insertIdx_zero]
          rfl
  | cons other before ih =>
      have differs : other ≠ suc := fun same => fresh (same ▸ List.mem_cons_self)
      cases members with
      | nil => simp at split
      | cons first rest =>
          obtain ⟨rfl, later⟩ := List.cons.inj split
          rw [List.idxOf_cons_ne _ differs, List.insertIdx_succ_cons, List.cons_append,
            ih later fun inside => fresh (List.mem_cons_of_mem _ inside)]
          rfl

theorem insertIdx_after {front after : List Ptr} {prv : Ptr} (fresh : prv ∉ front) :
    (front ++ prv :: after).insertIdx ((front ++ prv :: after).idxOf prv + 1) node =
      front ++ prv :: node :: after := by
  induction front with
  | nil => simp [List.insertIdx_succ_cons]
  | cons other front ih =>
      have differs : other ≠ prv := fun same => fresh (same ▸ List.mem_cons_self)
      rw [List.cons_append, List.idxOf_cons_ne _ differs, List.insertIdx_succ_cons,
        ih fun inside => fresh (List.mem_cons_of_mem _ inside)]
      rfl

/-- An insertion in front of a node of the path fills the gap in front of it. -/
theorem path_insertBefore {suc : Ptr} (place : suc ∈ members ++ [lstTail lst]) :
    ∃ front p back, path lst members = front ++ p :: suc :: back ∧
      path lst (members.insertIdx (members.idxOf suc) node) = front ++ p :: node :: suc :: back := by
  obtain ⟨before, back, split, fresh⟩ := List.eq_append_cons_of_mem place
  obtain ⟨front, p, start⟩ := exists_before lst before
  refine ⟨front, p, back, ?_, ?_⟩
  · rw [path, split, ← List.cons_append, start, List.append_assoc]
    rfl
  · rw [path, insertIdx_before split fresh, ← List.cons_append, start, List.append_assoc]
    rfl

theorem path_insertAfter {prv : Ptr} (place : prv ∈ lstHead lst :: members) :
    ∃ front s back, path lst members = front ++ prv :: s :: back ∧
      path lst (members.insertIdx ((lstHead lst :: members).idxOf prv) node) =
        front ++ prv :: node :: s :: back := by
  obtain ⟨front, after, split, fresh⟩ := List.eq_append_cons_of_mem place
  obtain ⟨s, back, rest⟩ := exists_behind lst after
  refine ⟨front, s, back, ?_, ?_⟩
  · rw [path, ← List.cons_append, split, List.append_assoc, List.cons_append, rest]
  · rw [path, ← List.cons_append, ← List.insertIdx_succ_cons, split, insertIdx_after fresh,
      List.append_assoc, List.cons_append, List.cons_append, rest]

theorem path_pushBack (lst node : Ptr) (members : List Ptr) :
    ∃ front p, path lst members = front ++ p :: lstTail lst :: [] ∧
      path lst (members ++ [node]) = front ++ p :: node :: lstTail lst :: [] := by
  obtain ⟨front, p, start⟩ := exists_before lst members
  refine ⟨front, p, ?_, ?_⟩
  · rw [path, ← List.cons_append, start, List.append_assoc]
    rfl
  · rw [path, List.append_assoc, ← List.cons_append, start, List.append_assoc]
    rfl

theorem path_pushFront (lst node : Ptr) (members : List Ptr) :
    ∃ s back, path lst members = [] ++ lstHead lst :: s :: back ∧
      path lst (node :: members) = [] ++ lstHead lst :: node :: s :: back := by
  obtain ⟨s, back, rest⟩ := exists_behind lst members
  exact ⟨s, back, by rw [path, rest]; rfl, by rw [path, List.cons_append, rest]; rfl⟩

/-- A removal closes the gap between the two neighbours of the member. -/
theorem path_erase (inside : node ∈ members) :
    ∃ front p s back, path lst members = front ++ p :: node :: s :: back ∧
      path lst (members.erase node) = front ++ p :: s :: back := by
  obtain ⟨before, after, -, split, erased⟩ := List.exists_erase_eq inside
  obtain ⟨front, p, start⟩ := exists_before lst before
  obtain ⟨s, back, rest⟩ := exists_behind lst after
  refine ⟨front, p, s, back, ?_, ?_⟩
  · rw [path, split, List.append_assoc, ← List.cons_append, start, List.cons_append, rest, List.append_assoc]
    rfl
  · rw [path, erased, List.append_assoc, ← List.cons_append, start, rest, List.append_assoc]
    rfl

end Paths

section Links

variable {heap changed : DlHeap} {lst p node s : Ptr} {members front back : List Ptr}

/-- Neighbours on a well-formed path are different and real, and they are not the outer sentinels. -/
structure Gap (heap : DlHeap) (lst p s : Ptr) : Prop where
  next : (heap p).next = s
  prev : (heap s).prev = p
  real : p ≠ 0 ∧ s ≠ 0
  apart : p ≠ s
  inner : p ≠ lstTail lst ∧ s ≠ lstHead lst

theorem WellFormed.gap (formed : WellFormed heap lst members)
    (split : path lst members = front ++ p :: s :: back) : Gap heap lst p s := by
  have linked := formed.linked
  have nodup := formed.nodup
  have nears : p ≠ 0 := formed.real (by simp [split])
  have fars : s ≠ 0 := formed.real (by simp [split])
  rw [split] at linked nodup
  obtain ⟨-, ⟨ahead, behind⟩, -⟩ := linked_split.mp linked
  refine ⟨ahead, behind, ⟨nears, fars⟩, ?_, ?_, ?_⟩
  · rintro rfl
    simp [List.nodup_append] at nodup
  · rintro rfl
    exact fars (ahead.symm.trans formed.last)
  · rintro rfl
    exact nears (behind.symm.trans formed.first)

theorem WellFormed.gaps (formed : WellFormed heap lst members)
    (split : path lst members = front ++ p :: node :: s :: back) :
    Gap heap lst p node ∧ Gap heap lst node s ∧ p ≠ s := by
  refine ⟨formed.gap split, formed.gap (split.trans (List.append_cons front p (node :: s :: back))), ?_⟩
  have nodup := formed.nodup
  rw [split] at nodup
  rintro rfl
  simp [List.nodup_append] at nodup

/-- The head leads to the first member, or to the tail of an empty list. -/
theorem WellFormed.ahead (formed : WellFormed heap lst members) :
    (heap (lstHead lst)).next = members.head?.getD (lstTail lst) := by
  obtain ⟨s, back, rest⟩ := exists_behind lst members
  have split : path lst members = [] ++ lstHead lst :: s :: back := by
    rw [path, rest]
    rfl
  rw [(formed.gap split).next]
  cases members with
  | nil => exact (List.cons.inj rest).1.symm
  | cons first later => exact (List.cons.inj rest).1.symm

theorem WellFormed.behind (formed : WellFormed heap lst members) :
    (heap (lstTail lst)).prev = members.getLast?.getD (lstHead lst) := by
  induction members using List.reverseRecOn with
  | nil => exact (formed.gap (show path lst [] = [] ++ lstHead lst :: lstTail lst :: [] from rfl)).prev
  | append_singleton rest last _ =>
      have split : path lst (rest ++ [last]) = (lstHead lst :: rest) ++ last :: lstTail lst :: [] := by
        rw [path, List.append_assoc]
        rfl
      rw [(formed.gap split).prev, List.getLast?_concat, Option.getD_some]

theorem WellFormed.sentinels (formed : WellFormed heap lst members) : lstHead lst ≠ 0 ∧ lstTail lst ≠ 0 :=
  ⟨formed.real (mem_path.mpr (Or.inl rfl)), formed.real (mem_path.mpr (Or.inr (Or.inr rfl)))⟩

theorem WellFormed.outer (formed : WellFormed heap lst members) :
    lstHead lst ∉ members ∧ lstTail lst ∉ members := by
  have nodup := formed.nodup
  rw [path, List.nodup_cons, List.nodup_append] at nodup
  obtain ⟨head, -, -, apart⟩ := nodup
  exact ⟨fun inside => head (List.mem_append_left _ inside),
    fun inside => apart _ inside _ (List.mem_singleton_self _) rfl⟩

theorem WellFormed.congr (formed : WellFormed heap lst members)
    (same : ∀ node ∈ path lst members, changed node = heap node) : WellFormed changed lst members where
  linked := formed.linked.congr
    (fun node inside => by rw [same node (List.dropLast_subset _ inside)])
    (fun node inside => by rw [same node (List.mem_of_mem_tail inside)])
  first := by rw [same _ (mem_path.mpr (Or.inl rfl))]; exact formed.first
  last := by rw [same _ (mem_path.mpr (Or.inr (Or.inr rfl)))]; exact formed.last
  noNull := formed.noNull
  nodup := formed.nodup

/-- Two heaps differ only in the links of the node and in the links of its neighbours towards it. -/
structure Retied (heap changed : DlHeap) (p node s : Ptr) : Prop where
  next : ∀ {other}, other ≠ p → other ≠ node → (changed other).next = (heap other).next
  prev : ∀ {other}, other ≠ s → other ≠ node → (changed other).prev = (heap other).prev

theorem Retied.same {other : Ptr} (retied : Retied heap changed p node s) (near : other ≠ p)
    (inner : other ≠ node) (far : other ≠ s) : changed other = heap other :=
  DlNode.ext (retied.prev far inner) (retied.next near inner)

theorem retie_retied (heap : DlHeap) (p node s : Ptr) (links : DlNode) (next prev : Ptr) :
    Retied heap (retie heap p node s links next prev) p node s := by
  constructor
  · intro other near inner
    simp only [retie, if_neg near, if_neg inner]
    split_ifs with far
    · rw [far]
    · rfl
  · intro other far inner
    simp only [retie, if_neg far, if_neg inner]
    split_ifs with near
    · rw [near]
    · rfl

theorem linkBetween_retied (heap : DlHeap) (p node s : Ptr) :
    Retied heap (linkBetween heap p node s) p node s := retie_retied ..

theorem unlinkBetween_retied (heap : DlHeap) (p node s : Ptr) :
    Retied heap (unlinkBetween heap p node s) p node s := retie_retied ..

theorem perm_insert : (front ++ p :: node :: s :: back).Perm (node :: (front ++ p :: s :: back)) := by
  rw [List.append_cons front p (node :: s :: back), List.append_cons front p (s :: back)]
  exact List.perm_middle

/-- The new node fills the gap. -/
theorem WellFormed.insert {updated : List Ptr} (formed : WellFormed heap lst members)
    (split : path lst members = front ++ p :: s :: back)
    (filled : path lst updated = front ++ p :: node :: s :: back) (real : node ≠ 0)
    (fresh : node ∉ path lst members) : WellFormed (linkBetween heap p node s) lst updated := by
  have gap := formed.gap split
  have retied := linkBetween_retied heap p node s
  have known : ∀ {other}, other ∈ path lst members → other ≠ node := by
    rintro other inside rfl
    exact fresh inside
  refine ⟨?_, ?_, ?_, ?_, ?_⟩
  · have linked := formed.linked
    have nodup := formed.nodup
    have near : p ≠ node := known (by simp [split])
    have far : s ≠ node := known (by simp [split])
    rw [split] at linked nodup known
    rw [filled]
    refine linked.insert nodup (fun other inside elsewhere => retied.next elsewhere (known inside))
      (fun other inside elsewhere => retied.prev elsewhere (known inside)) ?_ ?_
    · simp [linkBetween, retie, near]
    · simp [linkBetween, retie, far, gap.apart.symm]
  · exact (retied.prev gap.inner.2.symm (known (mem_path.mpr (Or.inl rfl)))).trans formed.first
  · exact (retied.next gap.inner.1.symm (known (mem_path.mpr (Or.inr (Or.inr rfl))))).trans formed.last
  · rw [filled, perm_insert.mem_iff, ← split, List.mem_cons, not_or]
    exact ⟨Ne.symm real, formed.noNull⟩
  · rw [filled, perm_insert.nodup_iff, ← split]
    exact List.nodup_cons.mpr ⟨fresh, formed.nodup⟩

/-- The neighbours of the removed node close the gap. -/
theorem WellFormed.remove {updated : List Ptr} (formed : WellFormed heap lst members)
    (split : path lst members = front ++ p :: node :: s :: back)
    (closed : path lst updated = front ++ p :: s :: back) :
    WellFormed (unlinkBetween heap p node s) lst updated := by
  obtain ⟨near, far, apart⟩ := formed.gaps split
  have retied := unlinkBetween_retied heap p node s
  have nodup := formed.nodup
  rw [split, perm_insert.nodup_iff, List.nodup_cons] at nodup
  obtain ⟨gone, nodup⟩ := nodup
  have known : ∀ {other}, other ∈ front ++ p :: s :: back → other ≠ node := by
    rintro other inside rfl
    exact gone inside
  refine ⟨?_, ?_, ?_, ?_, ?_⟩
  · have linked := formed.linked
    rw [split] at linked
    rw [closed]
    refine linked.remove nodup (fun other inside elsewhere => retied.next elsewhere (known inside))
      (fun other inside elsewhere => retied.prev elsewhere (known inside)) ?_
    simp [unlinkBetween, retie, near.apart, far.apart.symm, apart.symm]
  · exact (retied.prev far.inner.2.symm near.inner.2.symm).trans formed.first
  · exact (retied.next near.inner.1.symm far.inner.1.symm).trans formed.last
  · have clean := formed.noNull
    rw [split, perm_insert.mem_iff, List.mem_cons, not_or] at clean
    rw [closed]
    exact clean.2
  · rw [closed]
    exact nodup

end Links

section Writes

variable {heap : DlHeap} {lst p node s : Ptr}

theorem heap_ext {one other : DlHeap} (p node s : Ptr) (inner : one node = other node) (first : one p = other p)
    (last : one s = other s) (rest : ∀ a, a ≠ node → a ≠ p → a ≠ s → one a = other a) : one = other := by
  funext a
  by_cases here : a = node
  · exact here ▸ inner
  · by_cases near : a = p
    · exact near ▸ first
    · by_cases far : a = s
      · exact far ▸ last
      · exact rest a here near far

/-- Both insertions leave the same heap behind, whichever neighbour they get. -/
theorem lstInsertBefore_eq (list : lst ≠ 0) (gap : Gap heap lst p s) (real : node ≠ 0) (near : p ≠ node)
    (far : s ≠ node) : lstInsertBefore heap lst s node = some (linkBetween heap p node s, 0) := by
  have outer : s ≠ lstHead lst := gap.inner.2
  obtain ⟨nears, fars⟩ := gap.real
  have behind := gap.prev
  rw [lstInsertBefore, if_neg (not_or.mpr ⟨list, not_or.mpr ⟨fars, real⟩⟩), if_neg outer]
  simp only [DlHeap.getPrev, DlHeap.setPrev, DlHeap.setNext, if_neg fars, if_neg real, behind,
    Option.bind_eq_bind, Option.bind_some, Function.update_of_ne far, if_neg nears]
  congr 2
  refine heap_ext p node s ?_ ?_ ?_ fun a inner first last => ?_
  · simp [linkBetween, retie, far.symm, near.symm]
  · simp [linkBetween, retie, near, gap.apart]
  · simp [linkBetween, retie, far, gap.apart.symm]
  · simp [linkBetween, retie, inner, first, last]

theorem lstInsertAfter_eq (list : lst ≠ 0) (gap : Gap heap lst p s) (real : node ≠ 0) (near : p ≠ node)
    (far : s ≠ node) : lstInsertAfter heap lst p node = some (linkBetween heap p node s, 0) := by
  have outer : p ≠ lstTail lst := gap.inner.1
  obtain ⟨nears, fars⟩ := gap.real
  have ahead := gap.next
  rw [lstInsertAfter, if_neg (not_or.mpr ⟨list, not_or.mpr ⟨nears, real⟩⟩), if_neg outer]
  simp only [DlHeap.getNext, DlHeap.setPrev, DlHeap.setNext, if_neg nears, if_neg real,
    Option.bind_eq_bind, Option.bind_some, Function.update_of_ne near, ahead, if_neg fars]
  congr 2
  refine heap_ext p node s ?_ ?_ ?_ fun a inner first last => ?_
  · simp [linkBetween, retie, far.symm, near.symm]
  · simp [linkBetween, retie, near, gap.apart]
  · simp [linkBetween, retie, far, gap.apart.symm]
  · simp [linkBetween, retie, inner, first, last]

theorem unlink_eq (near : Gap heap lst p node) (far : Gap heap lst node s) (apart : p ≠ s) :
    unlink heap node = some (unlinkBetween heap p node s) := by
  obtain ⟨nears, real⟩ := near.real
  obtain ⟨-, fars⟩ := far.real
  have behind := near.prev
  have ahead := far.next
  simp only [unlink, DlHeap.getPrev, DlHeap.getNext, DlHeap.setPrev, DlHeap.setNext, if_neg real,
    Option.bind_eq_bind, Option.bind_some, behind, ahead, if_neg nears, if_neg fars,
    Function.update_of_ne near.apart.symm, Function.update_self]
  congr 1
  refine heap_ext p node s ?_ ?_ ?_ fun a inner first last => ?_
  · simp [unlinkBetween, retie]
  · simp [unlinkBetween, retie, near.apart, apart]
  · simp [unlinkBetween, retie, far.apart.symm, apart.symm]
  · simp [unlinkBetween, retie, inner, first, last]

end Writes

section Lists

variable {Lst : Type} {base : Lst → Ptr} {heap changed : DlHeap} {lists : Lst → List Ptr} {lst : Lst}
  {p node s : Ptr} {front back updated : List Ptr}

theorem Holds.list (holds : Holds base heap lists) (lst : Lst) : base lst ≠ 0 :=
  (holds.wellFormed lst).sentinels.1

theorem Holds.apart (holds : Holds base heap lists) : Apart lists := by
  constructor
  · intro lst
    have nodup := (holds.wellFormed lst).nodup
    rw [path, List.nodup_cons] at nodup
    exact (List.nodup_append.mp nodup.2).1
  · intro first second node one other
    exact holds.disjoint (mem_path.mpr (Or.inr (Or.inl one))) (mem_path.mpr (Or.inr (Or.inl other)))

/-- A list keeps its memory when the change ties a node of another list or of none. -/
theorem Holds.spared (holds : Holds base heap lists) (retied : Retied heap changed p node s)
    (near : p ∈ path (base lst) (lists lst)) (far : s ∈ path (base lst) (lists lst))
    (known : ∀ other, node ∈ path (base other) (lists other) → other = lst) {other : Lst}
    (differs : other ≠ lst) : ∀ a ∈ path (base other) (lists other), changed a = heap a := by
  intro a inside
  refine retied.same ?_ ?_ ?_
  · rintro rfl
    exact differs (holds.disjoint inside near)
  · rintro rfl
    exact differs (known other inside)
  · rintro rfl
    exact differs (holds.disjoint inside far)

/-- The links of a member are never null. -/
theorem Holds.member (holds : Holds base heap lists) (inside : node ∈ lists lst) :
    node ≠ 0 ∧ (heap node).prev ≠ 0 ∧ (heap node).next ≠ 0 := by
  obtain ⟨front, p, s, back, split, -⟩ := path_erase inside
  obtain ⟨near, far, -⟩ := (holds.wellFormed lst).gaps split
  exact ⟨near.real.2, near.prev ▸ near.real.1, far.next ▸ far.real.2⟩

variable [DecidableEq Lst]

/-- A change of one list that spares the others keeps all of them. -/
theorem Holds.change (holds : Holds base heap lists) (formed : WellFormed changed (base lst) updated)
    (fresh : ∀ a ∈ path (base lst) updated,
      ∀ other, a ∈ path (base other) (lists other) → other = lst)
    (spared : ∀ {other}, other ≠ lst → ∀ a ∈ path (base other) (lists other), changed a = heap a) :
    Holds base changed (Function.update lists lst updated) := by
  constructor
  · intro other
    by_cases here : other = lst
    · subst here
      rw [Function.update_self]
      exact formed
    · rw [Function.update_of_ne here]
      exact (holds.wellFormed other).congr (spared here)
  · intro first second a one two
    by_cases here : first = lst
    · subst here
      by_cases there : second = first
      · exact there.symm
      · rw [Function.update_self] at one
        rw [Function.update_of_ne there] at two
        exact (fresh a one second two).symm
    · rw [Function.update_of_ne here] at one
      by_cases there : second = lst
      · subst there
        rw [Function.update_self] at two
        exact fresh a two first one
      · rw [Function.update_of_ne there] at two
        exact holds.disjoint one two

/-- The result of an insertion at a gap of one list. -/
theorem Holds.insert (holds : Holds base heap lists)
    (split : path (base lst) (lists lst) = front ++ p :: s :: back)
    (filled : path (base lst) updated = front ++ p :: node :: s :: back) (real : node ≠ 0)
    (unlinked : ∀ other, node ∉ path (base other) (lists other)) :
    Holds base (linkBetween heap p node s) (Function.update lists lst updated) ∧
      ∀ other ≠ lst, ∀ a ∈ path (base other) (lists other), linkBetween heap p node s a = heap a := by
  have spared : ∀ {other}, other ≠ lst → ∀ a ∈ path (base other) (lists other),
      linkBetween heap p node s a = heap a :=
    fun differs => holds.spared (linkBetween_retied heap p node s) (by simp [split]) (by simp [split])
      (fun other inside => absurd inside (unlinked other)) differs
  refine ⟨holds.change ((holds.wellFormed lst).insert split filled real (unlinked lst)) ?_ spared,
    fun other => spared⟩
  intro a inside other there
  rw [filled, perm_insert.mem_iff, ← split] at inside
  rcases List.mem_cons.mp inside with rfl | old
  · exact absurd there (unlinked other)
  · exact holds.disjoint there old

/-- A member can be unlinked, and the other members of its list keep their order. -/
theorem Holds.unlink (holds : Holds base heap lists) (inside : node ∈ lists lst) :
    ∃ changed, Dlist.unlink heap node = some changed ∧ Holds base changed (removeNode lists node) ∧
      ∀ other ≠ lst, ∀ a ∈ path (base other) (lists other), changed a = heap a := by
  have formed := holds.wellFormed lst
  obtain ⟨front, p, s, back, split, closed⟩ := path_erase inside
  obtain ⟨near, far, apart⟩ := formed.gaps split
  have spared : ∀ {other}, other ≠ lst → ∀ a ∈ path (base other) (lists other),
      unlinkBetween heap p node s a = heap a :=
    fun differs => holds.spared (unlinkBetween_retied heap p node s) (by simp [split]) (by simp [split])
      (fun other there => holds.disjoint there (mem_path.mpr (Or.inr (Or.inl inside)))) differs
  refine ⟨unlinkBetween heap p node s, unlink_eq near far apart, ?_, fun other => spared⟩
  rw [holds.apart.removeNode_eq inside]
  refine holds.change (formed.remove split closed) ?_ spared
  intro a there other elsewhere
  refine holds.disjoint elsewhere ?_
  rw [closed] at there
  rw [split, perm_insert.mem_iff]
  exact List.mem_cons_of_mem node there

end Lists

section Fresh

variable {Lst : Type} {base : Lst → Ptr} {heap changed : DlHeap} {lists : Lst → List Ptr}

/-- A write outside of the lists keeps them. -/
theorem Holds.congr (holds : Holds base heap lists)
    (same : ∀ lst, ∀ a ∈ path (base lst) (lists lst), changed a = heap a) : Holds base changed lists where
  wellFormed lst := (holds.wellFormed lst).congr (same lst)
  disjoint := holds.disjoint

/-- Clearing a node of no list keeps the lists, and the node can no longer be removed. -/
theorem lstClr_holds {node : Ptr} (holds : Holds base heap lists) (real : node ≠ 0)
    (unlinked : ∀ lst, node ∉ path (base lst) (lists lst)) :
    ∃ changed, lstClr heap node = some (changed, 0) ∧ Holds base changed lists ∧
      changed node = ⟨0, 0⟩ ∧ ∀ a ≠ node, changed a = heap a := by
  have others : ∀ a ≠ node, Function.update heap node ⟨0, 0⟩ a = heap a :=
    fun a differs => Function.update_of_ne differs _ _
  refine ⟨Function.update heap node ⟨0, 0⟩, ?_, holds.congr ?_, Function.update_self .., others⟩
  · rw [lstClr, if_neg real]
    simp only [DlHeap.setPrev, DlHeap.setNext, if_neg real, Option.bind_eq_bind, Option.bind_some,
      Function.update_idem, Function.update_self]
  · intro lst a inside
    refine others a ?_
    rintro rfl
    exact unlinked lst inside

theorem head_ne_tail (lst : Ptr) : lstHead lst ≠ lstTail lst := by
  simp [lstHead, lstTail]

theorem linkSentinels_wellFormed (heap : DlHeap) {lst : Ptr} (head : lstHead lst ≠ 0)
    (tail : lstTail lst ≠ 0) : WellFormed (linkSentinels heap lst) lst [] := by
  have first : linkSentinels heap lst (lstHead lst) = ⟨0, lstTail lst⟩ := by
    rw [linkSentinels, Function.update_of_ne (head_ne_tail lst), Function.update_self]
  have last : linkSentinels heap lst (lstTail lst) = ⟨lstHead lst, 0⟩ := Function.update_self ..
  refine ⟨?_, congrArg DlNode.prev first, congrArg DlNode.next last, ?_, ?_⟩
  · exact List.isChain_pair.mpr ⟨congrArg DlNode.next first, congrArg DlNode.prev last⟩
  · rw [mem_path]
    rintro (null | inside | null)
    · exact head null.symm
    · exact List.not_mem_nil inside
    · exact tail null.symm
  · simp [path, head_ne_tail]

/-- A new list is empty, and it joins the lists of the heap when they have neither of its sentinels. -/
theorem lstNew_holds {lst : Ptr} (holds : Holds base heap lists) (head : lstHead lst ≠ 0)
    (tail : lstTail lst ≠ 0)
    (fresh : ∀ other, ∀ a ∈ path lst [], a ∉ path (base other) (lists other)) :
    ∃ changed, lstNew heap lst = some (changed, 0) ∧
      Holds (fun handle : Option Lst => handle.elim lst base) changed fun handle => handle.elim [] lists := by
  refine ⟨linkSentinels heap lst, ?_, ?_, ?_⟩
  · rw [lstNew, if_neg (show lst ≠ 0 from head)]
    simp only [DlHeap.setPrev, DlHeap.setNext, if_neg head, if_neg tail, Option.bind_eq_bind, Option.bind_some,
      Function.update_idem, Function.update_self]
    rfl
  · rintro (_ | other)
    · exact linkSentinels_wellFormed heap head tail
    · refine (holds.wellFormed other).congr fun a inside => ?_
      have outer : ∀ sentinel ∈ path lst [], a ≠ sentinel := by
        rintro sentinel place rfl
        exact fresh other a place inside
      rw [linkSentinels, Function.update_of_ne (outer _ (mem_path.mpr (Or.inr (Or.inr rfl)))),
        Function.update_of_ne (outer _ (mem_path.mpr (Or.inl rfl)))]
  · rintro (_ | one) (_ | two) a inOne inTwo
    · rfl
    · exact absurd inTwo (fresh two a inOne)
    · exact absurd inOne (fresh one a inTwo)
    · exact congrArg some (holds.disjoint inOne inTwo)

end Fresh

end Syslib.Dlist
