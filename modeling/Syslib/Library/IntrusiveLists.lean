import Mathlib.Algebra.Group.Nat.Defs
import Mathlib.Data.List.Nodup
import Mathlib.Logic.Function.Basic

namespace Syslib.IntrusiveLists

variable {Slot Node State : Type*}

/-- A node carries its own links, so at most one list holds it, and only once. -/
structure Apart (lists : Slot → List Node) : Prop where
  nodup : ∀ slot, (lists slot).Nodup
  unique : ∀ {first second node}, node ∈ lists first → node ∈ lists second → first = second

theorem Apart.empty : Apart fun _ : Slot => ([] : List Node) :=
  ⟨fun _ => List.nodup_nil, fun first => absurd first List.not_mem_nil⟩

section Push

variable [DecidableEq Slot] {lists updated : Slot → List Node} {slot place : Slot} {node other : Node}

def pushBack (lists : Slot → List Node) (slot : Slot) (node : Node) : Slot → List Node :=
  Function.update lists slot (lists slot ++ [node])

def pushFront (lists : Slot → List Node) (slot : Slot) (node : Node) : Slot → List Node :=
  Function.update lists slot (node :: lists slot)

/-- One list has the node as well, at whatever place. -/
def Inserted (lists updated : Slot → List Node) (slot : Slot) (node : Node) : Prop :=
  ∀ place, (updated place).Perm (if place = slot then node :: lists place else lists place)

theorem inserted_pushBack : Inserted lists (pushBack lists slot node) slot node := by
  intro place
  by_cases same : place = slot
  · subst same
    simp [pushBack]
  · simp [pushBack, same]

theorem inserted_pushFront : Inserted lists (pushFront lists slot node) slot node := by
  intro place
  by_cases same : place = slot
  · subst same
    simp [pushFront]
  · simp [pushFront, same]

theorem Inserted.mem (inserted : Inserted lists updated slot node) :
    other ∈ updated place ↔ other ∈ lists place ∨ other = node ∧ place = slot := by
  rw [(inserted place).mem_iff]
  by_cases same : place = slot
  · simp [same, or_comm]
  · simp [same]

theorem Inserted.apart (inserted : Inserted lists updated slot node) (apart : Apart lists)
    (unlinked : ∀ place, node ∉ lists place) : Apart updated := by
  constructor
  · intro place
    rw [(inserted place).nodup_iff]
    split_ifs
    · exact List.nodup_cons.mpr ⟨unlinked place, apart.nodup place⟩
    · exact apart.nodup place
  · intro first second other inFirst inSecond
    rcases inserted.mem.mp inFirst with old | ⟨new, here⟩
    · rcases inserted.mem.mp inSecond with same | ⟨new, _⟩
      · exact apart.unique old same
      · exact absurd (new ▸ old) (unlinked first)
    · rcases inserted.mem.mp inSecond with old | ⟨_, same⟩
      · exact absurd (new ▸ old) (unlinked second)
      · rw [here, same]

theorem mem_pushBack :
    other ∈ pushBack lists slot node place ↔ other ∈ lists place ∨ other = node ∧ place = slot :=
  inserted_pushBack.mem

theorem pushBack_elsewhere (node : Node) (elsewhere : place ≠ slot) :
    pushBack lists slot node place = lists place :=
  Function.update_of_ne elsewhere _ _

theorem Apart.pushBack (apart : Apart lists) (slot : Slot) (unlinked : ∀ place, node ∉ lists place) :
    Apart (pushBack lists slot node) :=
  inserted_pushBack.apart apart unlinked

end Push

section Remove

variable [DecidableEq Node] {lists : Slot → List Node} {slot : Slot} {node other : Node}

/-- The node leaves the list that holds it; an unlinked node changes no list. -/
def removeNode (lists : Slot → List Node) (node : Node) : Slot → List Node :=
  fun slot => (lists slot).erase node

theorem Apart.mem_removeNode (apart : Apart lists) :
    other ∈ removeNode lists node slot ↔ other ≠ node ∧ other ∈ lists slot :=
  (apart.nodup slot).mem_erase_iff

theorem Apart.removeNode (apart : Apart lists) (node : Node) : Apart (removeNode lists node) := by
  constructor
  · intro slot
    exact (apart.nodup slot).erase node
  · intro first second other inFirst inSecond
    exact apart.unique (apart.mem_removeNode.mp inFirst).2 (apart.mem_removeNode.mp inSecond).2

theorem removeNode_unlinked (unlinked : ∀ slot, node ∉ lists slot) : removeNode lists node = lists := by
  funext slot
  exact List.erase_of_not_mem (unlinked slot)

/-- Only the list that holds the node changes. -/
theorem Apart.removeNode_eq [DecidableEq Slot] (apart : Apart lists) (inside : node ∈ lists slot) :
    IntrusiveLists.removeNode lists node = Function.update lists slot ((lists slot).erase node) := by
  funext place
  by_cases here : place = slot
  · rw [here, Function.update_self, IntrusiveLists.removeNode]
  · rw [Function.update_of_ne here]
    exact List.erase_of_not_mem fun other => here (apart.unique other inside)

theorem removeNode_head {rest : List Node} (here : lists slot = node :: rest) :
    removeNode lists node slot = rest := by
  simp [removeNode, here]

end Remove

section Walk

variable [DecidableEq Node]

/-- The successor is read from the links of the node. -/
def successor (list : List Node) (node : Node) : Option Node :=
  (list.dropWhile fun other => other ≠ node).tail.head?

@[simp] theorem successor_head (node : Node) (rest : List Node) :
    successor (node :: rest) node = rest.head? := by
  simp [successor]

/-- The walk reads the successor of a node before the body may unlink this node. -/
def walk (list : State → List Node) (body : Node → State → Option State) :
    Nat → Option Node → State → Option State
  | _, none, state => some state
  | 0, some _, _ => none
  | fuel + 1, some node, state =>
      (body node state).bind (walk list body fuel (successor (list state) node))

/-- A walk that ends keeps what every round of the body keeps. -/
theorem walk_keeps {list : State → List Node} {body : Node → State → Option State} {invariant : State → Prop}
    (kept : ∀ node state next, invariant state → body node state = some next → invariant next)
    (fuel : Nat) (node : Option Node) (state final : State) (start : invariant state)
    (walked : walk list body fuel node state = some final) : invariant final := by
  induction fuel generalizing node state with
  | zero =>
      cases node with
      | none => exact Option.some.inj walked ▸ start
      | some node => cases walked
  | succ fuel ih =>
      cases node with
      | none => exact Option.some.inj walked ▸ start
      | some node =>
          obtain ⟨next, taken, rest⟩ := Option.bind_eq_some_iff.mp walked
          exact ih _ next (kept node state next start taken) rest

/-- A body that always unlinks its node makes the walk end with an empty list. -/
theorem walk_drains {list : State → List Node} {body : Node → State → Option State}
    {invariant : List Node → State → Prop}
    (reads : ∀ rest state, invariant rest state → list state = rest)
    (unlinks : ∀ node rest state, invariant (node :: rest) state →
      ∃ next, body node state = some next ∧ invariant rest next)
    (todo : List Node) (fuel : Nat) (state : State) (start : invariant todo state)
    (enough : todo.length ≤ fuel) :
    ∃ final, walk list body fuel todo.head? state = some final ∧ invariant [] final := by
  induction todo generalizing fuel state with
  | nil => exact ⟨state, by rw [List.head?_nil, walk], start⟩
  | cons node rest ih =>
      obtain ⟨fuel, rfl⟩ : ∃ less, fuel = less + 1 := ⟨fuel - 1, by simp at enough; omega⟩
      obtain ⟨next, taken, held⟩ := unlinks node rest state start
      obtain ⟨final, walked, result⟩ := ih fuel next held (by simpa using enough)
      exact ⟨final, by simp [walk, taken, reads _ _ start, walked], result⟩

end Walk

section Rotation

variable {again : Node → Prop} [DecidablePred again]

/-- The list after the visit of its first node. -/
def rotated (again : Node → Prop) [DecidablePred again] (node : Node) (rest : List Node) : List Node :=
  if again node then rest ++ [node] else rest

/-- These nodes are visited by a walk that puts some nodes back at the end of the list. -/
def visits (again : Node → Prop) [DecidablePred again] : Nat → List Node → Option (List Node)
  | _, [] => some []
  | 0, _ :: _ => none
  | fuel + 1, node :: rest =>
      -- the successor of the last node is no node, whatever the body appends
      if rest = [] then some [node]
      else (visits again fuel (rotated again node rest)).map (node :: ·)

theorem mem_rotated {node other : Node} {rest : List Node} (inside : other ∈ rest) :
    other ∈ rotated again node rest := by
  unfold rotated
  split_ifs
  · exact List.mem_append_left _ inside
  · exact inside

theorem visits_cons {fuel : Nat} {node : Node} {rest visited : List Node} (more : rest ≠ [])
    (ran : visits again (fuel + 1) (node :: rest) = some visited) :
    ∃ later, visited = node :: later ∧ visits again fuel (rotated again node rest) = some later := by
  rw [visits, if_neg more] at ran
  obtain ⟨later, walked, rfl⟩ := Option.map_eq_some_iff.mp ran
  exact ⟨later, rfl, walked⟩

/-- A walk that puts back no node before the last one visits the list once. -/
theorem visits_once (fuel : Nat) (todo : List Node) (passes : ∀ node ∈ todo.dropLast, ¬ again node)
    (enough : todo.length ≤ fuel) : visits again fuel todo = some todo := by
  induction todo generalizing fuel with
  | nil => exact visits.eq_1 again fuel
  | cons node rest ih =>
      obtain ⟨fuel, rfl⟩ : ∃ less, fuel = less + 1 := ⟨fuel - 1, by simp at enough; omega⟩
      cases rest with
      | nil => rfl
      | cons other more =>
          have stays : ¬ again node := passes node (by simp)
          have later := ih fuel (fun last inside => passes last (by simp [inside]))
            (by simpa using enough)
          rw [visits, if_neg (by simp), rotated, if_neg stays, later, Option.map_some]

/-- A walk that ends visits each node of its list. -/
theorem mem_visits {fuel : Nat} {todo visited : List Node} {node : Node}
    (inside : node ∈ todo) (ran : visits again fuel todo = some visited) : node ∈ visited := by
  induction fuel generalizing todo visited with
  | zero =>
      cases todo with
      | nil => exact absurd inside List.not_mem_nil
      | cons first rest => cases ran
  | succ fuel ih =>
      cases todo with
      | nil => exact absurd inside List.not_mem_nil
      | cons first rest =>
          by_cases alone : rest = []
          · subst alone
            rw [visits, if_pos rfl] at ran
            exact Option.some.inj ran ▸ inside
          · obtain ⟨later, rfl, walked⟩ := visits_cons alone ran
            rcases List.mem_cons.mp inside with rfl | inside
            · exact List.mem_cons_self
            · exact List.mem_cons_of_mem _ (ih (mem_rotated inside) walked)

/-- A node that is put back while others follow is visited a second time. -/
theorem visits_twice [DecidableEq Node] {fuel : Nat} {front rest visited : List Node} {node : Node}
    (back : again node) (follows : rest ≠ [])
    (ran : visits again fuel (front ++ node :: rest) = some visited) : 2 ≤ visited.count node := by
  induction front generalizing fuel rest visited with
  | nil =>
      cases fuel with
      | zero => cases ran
      | succ fuel =>
          obtain ⟨later, rfl, walked⟩ := visits_cons follows ran
          have again_ : node ∈ rotated again node rest := by
            rw [rotated, if_pos back]
            exact List.mem_append_right _ List.mem_cons_self
          have positive := List.count_pos_iff.mpr (mem_visits again_ walked)
          rw [List.count_cons_self]
          omega
  | cons first front ih =>
      cases fuel with
      | zero => cases ran
      | succ fuel =>
          rw [List.cons_append] at ran
          obtain ⟨later, rfl, walked⟩ := visits_cons (by simp) ran
          have shape : ∃ more, more ≠ [] ∧
              rotated again first (front ++ node :: rest) = front ++ node :: more := by
            unfold rotated
            split_ifs
            · exact ⟨rest ++ [first], by simp, by simp⟩
            · exact ⟨rest, follows, rfl⟩
          obtain ⟨more, some_, equal⟩ := shape
          rw [equal] at walked
          exact Nat.le_trans (ih some_ walked) List.count_le_count_cons

/-- A walk that ends visits the list once exactly when it puts back no node before the last one. -/
theorem visits_once_iff [DecidableEq Node] {todo : List Node} (nodup : todo.Nodup) :
    (∃ fuel visited, visits again fuel todo = some visited ∧ ∀ node ∈ todo, visited.count node = 1) ↔
      ∀ node ∈ todo.dropLast, ¬ again node := by
  constructor
  · rintro ⟨fuel, visited, ran, once⟩ node inside back
    obtain ⟨front, rest, split⟩ := List.append_of_mem inside
    have filled : todo ≠ [] := fun empty => by simp [empty] at inside
    have whole : todo = front ++ node :: (rest ++ [todo.getLast filled]) := by
      rw [← List.cons_append, ← List.append_assoc, ← split, List.dropLast_append_getLast filled]
    have twice := @visits_twice _ again _ _ fuel front (rest ++ [todo.getLast filled]) visited node back
      (by simp) (whole ▸ ran)
    have single := once node (List.dropLast_subset todo inside)
    omega
  · intro passes
    exact ⟨todo.length, todo, visits_once _ todo passes (Nat.le_refl _),
      fun node inside => List.count_eq_one_of_mem nodup inside⟩

theorem visits_mono {fuel more : Nat} {todo visited : List Node}
    (ran : visits again fuel todo = some visited) (enough : fuel ≤ more) :
    visits again more todo = some visited := by
  induction fuel generalizing more todo visited with
  | zero =>
      cases todo with
      | nil => rw [← ran, visits.eq_1, visits.eq_1]
      | cons first rest => cases ran
  | succ fuel ih =>
      obtain ⟨more, rfl⟩ : ∃ less, more = less + 1 := ⟨more - 1, by omega⟩
      cases todo with
      | nil => rw [← ran, visits.eq_1, visits.eq_1]
      | cons first rest =>
          by_cases alone : rest = []
          · rw [← ran, visits, visits, if_pos alone, if_pos alone]
          · obtain ⟨later, rfl, walked⟩ := visits_cons alone ran
            rw [visits, if_neg alone, ih walked (by omega), Option.map_some]

/-- Two nodes that are put back keep the walk from its end. -/
theorem visits_never {fuel : Nat} {todo : List Node} {node other : Node} (different : node ≠ other)
    (back : again node) (backOther : again other) (inside : node ∈ todo) (insideOther : other ∈ todo) :
    visits again fuel todo = none := by
  induction fuel generalizing todo with
  | zero =>
      cases todo with
      | nil => exact absurd inside List.not_mem_nil
      | cons first rest => rfl
  | succ fuel ih =>
      cases todo with
      | nil => exact absurd inside List.not_mem_nil
      | cons first rest =>
          have returns : ∀ known ∈ first :: rest, again known → known ∈ rotated again first rest := by
            intro known member returning
            rcases List.mem_cons.mp member with rfl | member
            · rw [rotated, if_pos returning]
              exact List.mem_append_right _ List.mem_cons_self
            · exact mem_rotated member
          have more : rest ≠ [] := by
            rintro rfl
            exact different ((List.mem_singleton.mp inside).trans (List.mem_singleton.mp insideOther).symm)
          rw [visits, if_neg more, ih (returns node inside back) (returns other insideOther backOther),
            Option.map_none]

/-- The front that is not put back is visited first. -/
theorem visits_front {fuel : Nat} {front rest visited : List Node} (some_ : rest ≠ [])
    (passes : ∀ node ∈ front, ¬ again node) (ran : visits again fuel rest = some visited) :
    visits again (front.length + fuel) (front ++ rest) = some (front ++ visited) := by
  induction front with
  | nil => simpa using ran
  | cons first front ih =>
      have later := ih fun node inside => passes node (List.mem_cons_of_mem _ inside)
      have count : (first :: front).length + fuel = front.length + fuel + 1 := by
        rw [List.length_cons]
        omega
      rw [count, List.cons_append, visits, if_neg (by simp [some_]), rotated,
        if_neg (passes first List.mem_cons_self), later, Option.map_some, List.cons_append]

/-- A walk that ends at all ends after one more visit than the list has nodes. -/
theorem visits_enough {fuel : Nat} {todo visited : List Node} (nodup : todo.Nodup)
    (ran : visits again fuel todo = some visited) : visits again (todo.length + 1) todo = some visited := by
  have ends : ∃ result, visits again (todo.length + 1) todo = some result := by
    by_cases passes : ∀ node ∈ todo.dropLast, ¬ again node
    · exact ⟨todo, visits_once _ todo passes (Nat.le_succ _)⟩
    · simp only [not_forall, not_not] at passes
      obtain ⟨node, inside, back⟩ := passes
      have member := List.dropLast_subset todo inside
      have others : ∀ other ∈ todo, other ≠ node → ¬ again other := by
        intro other here different backOther
        rw [visits_never different backOther back here member] at ran
        cases ran
      obtain ⟨front, rest, rfl⟩ := List.append_of_mem member
      obtain ⟨-, ⟨fresh, -⟩, apart⟩ := by simpa [List.nodup_append] using nodup
      have frontPasses : ∀ other ∈ front, ¬ again other :=
        fun other here => others other (by simp [here]) (apart other here).1
      have restPasses : ∀ other ∈ (rest ++ [node]).dropLast, ¬ again other := by
        intro other here
        rw [List.dropLast_concat] at here
        exact others other (by simp [here]) fun same => fresh (same ▸ here)
      have turn : visits again (rest.length + 1 + 1) (node :: rest) = some (node :: (rest ++ [node])) := by
        by_cases alone : rest = []
        · rw [alone, List.dropLast_concat] at inside
          exact absurd rfl (apart node inside).1
        · rw [visits, if_neg alone, rotated, if_pos back,
            visits_once _ (rest ++ [node]) restPasses (by simp), Option.map_some]
      have whole := visits_front (List.cons_ne_nil node rest) frontPasses turn
      have count : (front ++ node :: rest).length + 1 = front.length + (rest.length + 1 + 1) := by
        rw [List.length_append, List.length_cons]
        omega
      exact ⟨_, count ▸ whole⟩
  obtain ⟨result, done⟩ := ends
  have first := visits_mono ran (Nat.le_max_left fuel (todo.length + 1))
  have second := visits_mono done (Nat.le_max_right fuel (todo.length + 1))
  rw [done, ← second, first]

/-- The walk visits what the rotation of its list says, and it ends exactly when the rotation does. -/
theorem walk_visits [DecidableEq Node] {list : State → List Node} {body : Node → State → Option State}
    {invariant : List Node → List Node → State → Prop}
    (reads : ∀ visited todo state, invariant visited todo state → list state = todo)
    (turns : ∀ visited node rest state, invariant visited (node :: rest) state →
      ∃ next, body node state = some next ∧ invariant (visited ++ [node]) (rotated again node rest) next)
    (fuel : Nat) (visited todo : List Node) (state : State) (start : invariant visited todo state) :
    (visits again fuel todo = none → walk list body fuel todo.head? state = none) ∧
      ∀ more, visits again fuel todo = some more → ∃ final left,
        walk list body fuel todo.head? state = some final ∧ invariant (visited ++ more) left final := by
  induction fuel generalizing visited todo state with
  | zero =>
      cases todo with
      | nil =>
          refine ⟨fun none_ => (nomatch none_), fun more ran => ⟨state, [], walk.eq_1 _ _ _ _, ?_⟩⟩
          rw [← Option.some.inj ran, List.append_nil]
          exact start
      | cons node rest => exact ⟨fun _ => rfl, fun more ran => (nomatch ran)⟩
  | succ fuel ih =>
      cases todo with
      | nil =>
          refine ⟨fun none_ => (nomatch none_), fun more ran => ⟨state, [], walk.eq_1 _ _ _ _, ?_⟩⟩
          rw [← Option.some.inj ran, List.append_nil]
          exact start
      | cons node rest =>
          obtain ⟨next, taken, held⟩ := turns visited node rest state start
          have round : walk list body (fuel + 1) (node :: rest).head? state =
              walk list body fuel rest.head? next := by
            simp [walk, taken, reads _ _ _ start]
          rw [round, visits]
          by_cases alone : rest = []
          · subst alone
            rw [if_pos rfl, List.head?_nil, walk.eq_1]
            refine ⟨fun none_ => (nomatch none_), fun more ran => ⟨next, rotated again node [], rfl, ?_⟩⟩
            rw [← Option.some.inj ran]
            exact held
          · obtain ⟨first, tail, rfl⟩ := List.exists_cons_of_ne_nil alone
            have head : (rotated again node (first :: tail)).head? = (first :: tail).head? := by
              unfold rotated
              split_ifs <;> rfl
            obtain ⟨stuck, ends⟩ := ih (visited ++ [node]) _ next held
            rw [head] at stuck ends
            rw [if_neg alone]
            refine ⟨fun none_ => stuck (Option.map_eq_none_iff.mp none_), ?_⟩
            intro more ran
            obtain ⟨later, walked, rfl⟩ := Option.map_eq_some_iff.mp ran
            obtain ⟨final, left, done, kept⟩ := ends later walked
            exact ⟨final, left, done, by simpa using kept⟩

end Rotation

end Syslib.IntrusiveLists
