import Syslib.Rbtree.Linked

namespace Syslib.Rbtree

open ColoredTree

variable {t u : RbTree} {path : TreePath Nat} {tree spliced : ColorTree Nat} {side : Side}

def Cell.setChildren (cell : Cell) (lc rc : Nat) : Cell := (cell.setChild .left lc).setChild .right rc

theorem cell_link (t : RbTree) {p lc rc : Nat} (real : p ≠ 0) (aligned : p % 4 = 0)
    (apart : p ≠ lc ∧ p ≠ rc) (a : Nat) :
    (link t p lc rc).cell a =
      if a = p then (t.cell p).setChildren lc rc
      else if a ≠ 0 ∧ (a = lc ∨ a = rc) then { t.cell a with parent := p }
      else t.cell a := by
  have open_ : ¬ (p = lc ∨ p = rc) := by tauto
  rw [link, if_neg real, if_neg open_]
  extract_lets t1 t2 t3
  have c1 : t1.cell = _ := t.cell_setChild .left p lc
  have c2 : t2.cell = _ := t1.cell_setChild .right p rc
  have c3 : t3.cell = _ := cell_setParentIf t2 lc aligned
  rw [cell_setParentIf t3 rc aligned]
  by_cases atP : a = p
  · subst atP
    have here : t2.cell a = (t.cell a).setChildren lc rc := by
      rw [c2, Function.update_self, c1, Function.update_self]
      rfl
    have next : t3.cell a = t2.cell a := by
      rw [c3]
      split_ifs <;> simp [apart.1]
    rw [if_pos rfl, ← here, ← next]
    split_ifs <;> simp [apart.2]
  · have here : t2.cell a = t.cell a := by
      rw [c2, Function.update_of_ne atP, c1, Function.update_of_ne atP]
    have next : t3.cell a = if a ≠ 0 ∧ a = lc then { t.cell a with parent := p } else t.cell a := by
      rw [c3, ← here]
      split_ifs with missing both both
      · exact absurd missing (both.2 ▸ both.1)
      · rfl
      · rw [both.2, Function.update_self]
      · rw [Function.update_of_ne (by rintro rfl; exact both ⟨missing, rfl⟩)]
    rw [if_neg atP]
    by_cases atRc : a = rc ∧ a ≠ 0
    · obtain ⟨rfl, inner⟩ := atRc
      have both : a ≠ 0 ∧ (a = lc ∨ a = a) := ⟨inner, Or.inr rfl⟩
      rw [if_neg inner, Function.update_self, next, if_pos both]
      split_ifs <;> rfl
    · have skip : (if rc = 0 then t3.cell else
          Function.update t3.cell rc { t3.cell rc with parent := p }) a = t3.cell a := by
        split_ifs with missing
        · rfl
        · exact Function.update_of_ne (by rintro rfl; exact atRc ⟨rfl, missing⟩) _ _
      rw [skip, next]
      congr 1
      simp only [eq_iff_iff]
      tauto

theorem cell_replaceChild (t : RbTree) {parent old new : Nat} {hole : Side}
    (held : parent ≠ 0 → (t.cell parent).child hole = old)
    (apart : parent ≠ 0 → (t.cell parent).child hole.other ≠ old) :
    (replaceChild t parent old new).cell =
      if parent = 0 then t.cell
      else Function.update t.cell parent ((t.cell parent).setChild hole new) := by
  unfold replaceChild
  split
  · rfl
  · rename_i inner
    rw [t.child_eq, t.child_eq, if_neg inner, if_neg inner]
    cases hole
    · rw [if_pos (held inner).symm, t.cell_setChild]
    · rw [if_neg (fun equal => apart inner equal.symm), if_pos (held inner).symm, t.cell_setChild]

theorem Cell.parent_self {cell : Cell} {p : Nat} (same : cell.parent = p) :
    { cell with parent := p } = cell := by
  subst same
  rfl

theorem Cell.setChildren_side (cell : Cell) (side : Side) (child : Nat) :
    cell.setChild side child =
      (match side with
        | .left => cell.setChildren child (cell.child .right)
        | .right => cell.setChildren (cell.child .left) child) := by
  cases side <;> simp only [setChildren, setChild, Cell.mk.injEq, and_true] <;> funext side <;>
    cases side <;> simp

/-- The parent word of a removed node takes the spliced node; its sibling keeps its cell. -/
theorem cell_spliceChild {t : RbTree} {rm sc p : Nat} {hole : Side}
    (real : p ≠ 0) (aligned : p % 4 = 0) (apart : p ≠ sc)
    (held : (t.cell p).child hole = rm)
    (other : (t.cell p).child hole.other ≠ rm ∧ (t.cell p).child hole.other ≠ p)
    (parent : (t.cell p).child hole.other ≠ 0 →
      (t.cell ((t.cell p).child hole.other)).parent = p) (a : Nat) :
    (spliceChild t rm p sc).cell a =
      if a = p then (t.cell p).setChild hole sc
      else if a ≠ 0 ∧ a = sc then { t.cell a with parent := p }
      else t.cell a := by
  have words : ∀ (u : RbTree) side, u.child side p = (u.cell p).child side := fun u side => by
    rw [u.child_eq, if_neg real]
  have keep : a ≠ 0 → a = (t.cell p).child hole.other → { t.cell a with parent := p } = t.cell a := by
    rintro inner rfl
    exact Cell.parent_self (parent inner)
  unfold spliceChild
  rw [words]
  have side := (t.cell p).setChildren_side hole sc
  cases hole
  · simp only [Side.other] at other keep
    have first := @cell_link t p sc ((t.cell p).child .right) real aligned
      ⟨apart, other.2.symm⟩
    simp only [held, if_true, words, first, side]
    rw [if_neg (by simpa [Cell.setChildren, Cell.setChild] using other.1.symm), first]
    split_ifs <;> grind
  · simp only [Side.other] at other keep
    have first := @cell_link t p ((t.cell p).child .left) sc real aligned
      ⟨other.2.symm, apart⟩
    simp only [if_neg other.1.symm, words, held, if_true, first, side]
    split_ifs <;> grind

namespace Same

theorem replaceChild (same : Same t u) (parent old new : Nat) :
    Same t (replaceChild u parent old new) := by
  unfold Rbtree.replaceChild
  split_ifs
  · exact same
  · exact same.setChild _ _ _
  · exact same.setChild _ _ _
  · exact same

theorem link (same : Same t u) (p lc rc : Nat) : Same t (link u p lc rc) := by
  unfold Rbtree.link
  split_ifs
  · exact same
  · exact same
  · exact ((((same.setChild _ _ _).setChild _ _ _).setParentIf _ _).setParentIf _ _)

theorem spliceChild (same : Same t u) (rm rmP sc : Nat) : Same t (spliceChild u rm rmP sc) := by
  unfold Rbtree.spliceChild
  extract_lets first
  have step : Same t first := by
    by_cases here : rm = u.child .left rmP
    · rw [show first = _ from if_pos here]
      exact same.link _ _ _
    · rw [show first = _ from if_neg here]
      exact same
  split_ifs
  · exact step.link _ _ _
  · exact step

theorem clearNode (same : Same t u) (node : Nat) : Same t (clearNode u node) :=
  ((same.setParent _ _).setChild _ _ _).setChild _ _ _

theorem unhook (same : Same t u) (sc : Nat) : Same t (unhook u sc) := by
  unfold Rbtree.unhook
  split_ifs
  · exact same
  · exact same.replaceChild _ _ _

end Same

/-- The link of a leaf to its missing children changes no cell. -/
theorem cell_link_leaf {leaf : Nat} (aligned : leaf % 4 = 0)
    (children : leaf ≠ 0 → ∀ side, (t.cell leaf).child side = 0) : (link t leaf 0 0).cell = t.cell := by
  by_cases real : leaf = 0
  · rw [link, if_pos real]
  · funext a
    rw [cell_link t real aligned ⟨real, real⟩]
    split_ifs with atLeaf both
    · subst atLeaf
      have left := children real .left
      have right := children real .right
      have word : (t.cell a).child = fun _ => 0 := funext (children real)
      cases here : t.cell a
      rw [here] at word
      simp only at word
      subst word
      simp only [Cell.setChildren, Cell.setChild, Cell.mk.injEq, and_true]
      funext side
      cases side <;> simp
    · exact absurd both (by tauto)
    · rfl

theorem cell_clearNode (t : RbTree) (node : Nat) :
    (clearNode t node).cell = Function.update t.cell node ⟨fun _ => 0, 0, (t.cell node).isblack⟩ := by
  funext a
  rw [clearNode, RbTree.cell_setChild, RbTree.cell_setChild, RbTree.cell_setParent t node rfl]
  by_cases equal : a = node
  · subst equal
    simp only [Function.update_self, Cell.setChild, Cell.mk.injEq, and_true]
    funext side
    cases side <;> simp
  · simp [equal]

@[simp] theorem root_clearNode (t : RbTree) (node : Nat) : (clearNode t node).root = t.root := rfl

@[simp] theorem root_setParentIf (t : RbTree) (node p : Nat) : (setParentIf t node p).root = t.root := by
  unfold setParentIf
  split <;> rfl

@[simp] theorem root_link (t : RbTree) (p lc rc : Nat) : (link t p lc rc).root = t.root := by
  unfold link
  split_ifs
  · rfl
  · rfl
  · simp only [root_setParentIf]
    rfl

@[simp] theorem root_spliceBelow (t : RbTree) (rm p sc : Nat) :
    (spliceBelow t rm p sc).root = t.root := by
  simp only [spliceBelow, root_link, spliceChild]
  split_ifs <;> simp only [root_link]

@[simp] theorem root_unhook (t : RbTree) (sc : Nat) : (unhook t sc).root = t.root := by
  simp only [unhook, replaceChild]
  split_ifs <;> rfl

/-- A spliced leaf becomes the root. -/
theorem cell_spliceRoot {rm sc : Nat} (aligned : sc % 4 = 0)
    (children : sc ≠ 0 → ∀ side, (t.cell sc).child side = 0)
    (empty : ∀ side, t.child side rm = 0) (a : Nat) :
    (spliceRoot t rm sc).cell a =
      if a ≠ 0 ∧ a = sc then { t.cell a with parent := 0 } else t.cell a := by
  have leaf := cell_link_leaf aligned children
  have root : RbTree.cell { link t sc 0 0 with root := sc } = t.cell := leaf
  rw [spliceRoot, empty, empty, cell_setParentIf _ _ rfl, root]
  split_ifs with missing both both
  · exact absurd missing (both.2 ▸ both.1)
  · rfl
  · rw [both.2, Function.update_self]
  · exact Function.update_of_ne (by rintro rfl; exact both ⟨missing, rfl⟩) _ _

/-- A spliced leaf takes the child word of the parent of the removed node. -/
theorem cell_spliceBelow {rm sc p : Nat} {hole : Side} (aligned : p ≠ 0 ∧ p % 4 = 0 ∧ sc % 4 = 0)
    (distinct : p ≠ sc ∧ rm ≠ p ∧ rm ≠ sc ∧ rm ≠ 0) (held : (t.cell p).child hole = rm)
    (other : (t.cell p).child hole.other ≠ rm ∧ (t.cell p).child hole.other ≠ p)
    (parent : (t.cell p).child hole.other ≠ 0 →
      (t.cell ((t.cell p).child hole.other)).parent = p)
    (children : sc ≠ 0 → ∀ side, (t.cell sc).child side = 0)
    (empty : ∀ side, (t.cell rm).child side = 0) (a : Nat) :
    (spliceBelow t rm p sc).cell a =
      if a = p then (t.cell p).setChild hole sc
      else if a ≠ 0 ∧ a = sc then { t.cell a with parent := p }
      else t.cell a := by
  have spliced := cell_spliceChild aligned.1 aligned.2.1 distinct.1 held other parent
  have leaf : sc ≠ 0 → ∀ side, ((spliceChild t rm p sc).cell sc).child side = 0 := by
    intro real side
    rw [spliced, if_neg distinct.1.symm, if_pos ⟨real, rfl⟩]
    exact children real side
  have near : (spliceChild t rm p sc).child .left rm = 0 := by
    rw [RbTree.child_eq, if_neg distinct.2.2.2, spliced, if_neg distinct.2.1,
      if_neg (fun both => distinct.2.2.1 both.2)]
    exact empty .left
  rw [spliceBelow, near, cell_link_leaf aligned.2.2 leaf, spliced]

theorem cell_unhook {rm sc : Nat} {side : Side} (real : rm ≠ 0)
    (near : (t.cell rm).child side = 0) (far : (t.cell rm).child side.other = sc)
    (above : sc ≠ 0 → (t.cell sc).parent = rm) :
    (unhook t sc).cell = Function.update t.cell rm { t.cell rm with child := fun _ => 0 } := by
  have word : ∀ child : Side → Nat, child side = 0 → child side.other = 0 → child = fun _ => 0 := by
    intro child first second
    funext other
    cases side <;> cases other <;> assumption
  by_cases missing : sc = 0
  · rw [unhook, if_pos missing]
    have same : { t.cell rm with child := fun _ => 0 } = t.cell rm := by
      rw [← word (t.cell rm).child near (far.trans missing)]
    rw [same, Function.update_eq_self]
  · rw [unhook, if_neg missing, t.getParent_eq, if_neg missing, above missing,
      @cell_replaceChild t rm sc 0 side.other (fun _ => far)
        (fun _ => by rw [Side.other_other, near]; exact Ne.symm missing), if_neg real]
    congr 1
    simp only [Cell.setChild, Cell.mk.injEq, and_true]
    apply word
    · simp [near]
    · simp

/-- The splice of a missing or single node into the place of its parent. -/
theorem transplant_linked {rm : Nat} {color : Bool}
    (linked : Linked t (TreePath.plug path (.join side .leaf rm color spliced)))
    (single : spliced = .leaf ∨ ∃ sc black, spliced = .node .leaf sc black .leaf) :
    ∃ u, transplant t rm (ptr spliced) = some u ∧ Linked u (TreePath.plug path spliced) ∧
      Same t u := by
  obtain ⟨nearLink, farLink, above, -, -, splicedCells⟩ := represents_join.mp linked.represents_focus
  obtain ⟨-, splicedUnique, -, rmFresh, -⟩ := ColorTree.nodup_join.mp linked.nodup_focus
  have rmMember : rm ∈ (ColorTree.join side .leaf rm color spliced).nodes :=
    ColorTree.mem_nodes_join.mpr (Or.inr (Or.inl rfl))
  have splicedMember : ∀ a ∈ spliced.nodes, a ∈ (ColorTree.join side .leaf rm color spliced).nodes :=
    fun a place => ColorTree.mem_nodes_join.mpr (Or.inr (Or.inr place))
  have rmAligned := linked.aligned_focus rmMember
  have scMember : ptr spliced ≠ 0 → ptr spliced ∈ spliced.nodes := fun real => ptr_mem (ptr_ne real)
  have scAligned : ptr spliced % 4 = 0 := by
    by_cases real : ptr spliced = 0
    · rw [real]
    · exact (linked.aligned_focus (splicedMember _ (scMember real))).2
  have scRm : rm ≠ ptr spliced := by
    intro equal
    exact rmFresh (equal ▸ scMember (equal ▸ rmAligned.1))
  have scCell : ptr spliced ≠ 0 → (t.cell (ptr spliced)).parent = rm ∧
      ∀ side, (t.cell (ptr spliced)).child side = 0 := by
    intro real
    rcases single with rfl | ⟨sc, black, rfl⟩
    · exact absurd rfl real
    · obtain ⟨left, right, up, -, -, -⟩ := splicedCells
      exact ⟨up, fun side => by cases side; exacts [left, right]⟩
  have unhooked := cell_unhook rmAligned.1 nearLink farLink fun real => (scCell real).1
  have onlySc : ∀ a ∈ spliced.nodes, a = ptr spliced := by
    intro a place
    rcases single with rfl | ⟨sc, black, rfl⟩
    · simp at place
    · simpa [ptr] using place
  obtain ⟨u, run, same, root, cells⟩ : ∃ u, transplant t rm (ptr spliced) = some u ∧ Same t u ∧
      u.root = (if TreePath.top path = 0 then ptr spliced else t.root) ∧
      ∀ a, a ≠ rm → u.cell a =
        if TreePath.top path ≠ 0 ∧ a = TreePath.top path then
          (t.cell (TreePath.top path)).setChild (path.head?.elim .left Frame.side) (ptr spliced)
        else if a ≠ 0 ∧ a = ptr spliced then { t.cell a with parent := TreePath.top path }
        else t.cell a := by
    have valid : ¬ (ptr spliced ≠ 0 ∧ t.getParent (ptr spliced) = 0) := by
      rintro ⟨real, missing⟩
      rw [t.getParent_eq, if_neg real, (scCell real).1] at missing
      exact rmAligned.1 missing
    have parent : t.getParent rm = TreePath.top path := by
      rw [t.getParent_eq, if_neg rmAligned.1, above]
    have children : ptr spliced ≠ 0 → ∀ side, ((unhook t (ptr spliced)).cell (ptr spliced)).child side = 0 := by
      intro real
      rw [unhooked, Function.update_of_ne scRm.symm]
      exact (scCell real).2
    have empty : ∀ side, ((unhook t (ptr spliced)).cell rm).child side = 0 := by
      intro side
      rw [unhooked, Function.update_self]
    have unhookSame := (Same.refl t).unhook (ptr spliced)
    rw [transplant, if_neg rmAligned.1, if_neg valid, parent]
    refine ⟨_, rfl, ?_, ?_, ?_⟩
    · apply Same.clearNode
      split_ifs
      · exact ((unhookSame.link _ _ _).setRoot _).setParentIf _ _
      · exact (unhookSame.spliceChild _ _ _).link _ _ _
    · rw [root_clearNode]
      split_ifs
      · exact root_setParentIf _ _ _
      · rw [root_spliceBelow, root_unhook]
    · intro a notRm
      rw [cell_clearNode, Function.update_of_ne notRm]
      cases path with
      | nil =>
          simp only [TreePath.top, if_true]
          rw [cell_spliceRoot scAligned children
            (fun side => by rw [RbTree.child_eq, if_neg rmAligned.1, empty]), unhooked,
            Function.update_of_ne notRm]
          simp
      | cons frame rest =>
          have place : frame.root ∈ TreePath.around (frame :: rest) :=
            TreePath.mem_around_cons.mpr (Or.inl rfl)
          have topRm : frame.root ≠ rm := by
            rintro equal
            exact linked.apart rmMember (equal ▸ place)
          obtain ⟨hole, siblingLink, -, -, siblingCells, -⟩ := linked.represents_path
          rw [ptr_join] at hole
          have topAligned := linked.aligned_path place
          have above : Linked t (TreePath.plug rest
              (.join frame.side (.join side .leaf rm color spliced) frame.root frame.black
                frame.sibling)) := linked
          obtain ⟨-, -, -, topFresh, -⟩ := ColorTree.nodup_join.mp above.nodup_focus
          have siblingMember : ptr frame.sibling ≠ 0 → ptr frame.sibling ∈ frame.sibling.nodes :=
            fun real => ptr_mem (ptr_ne real)
          have siblingRm : ptr frame.sibling ≠ rm := by
            intro equal
            apply linked.apart rmMember
            rw [← equal]
            exact TreePath.mem_around_cons.mpr (Or.inr (Or.inl (siblingMember (equal ▸ rmAligned.1))))
          have siblingTop : ptr frame.sibling ≠ frame.root := by
            intro equal
            exact topFresh (equal ▸ siblingMember (equal ▸ topAligned.1))
          have topSc : frame.root ≠ ptr spliced := by
            intro equal
            exact linked.apart (splicedMember _ (scMember (equal ▸ topAligned.1))) (equal ▸ place)
          have below := @cell_spliceBelow (unhook t (ptr spliced)) rm (ptr spliced) frame.root frame.side
            ⟨topAligned.1, topAligned.2, scAligned⟩ ⟨topSc, topRm.symm, scRm, rmAligned.1⟩
          rw [unhooked, Function.update_of_ne topRm, ← unhooked] at below
          have next := below hole (by rw [siblingLink]; exact ⟨siblingRm, siblingTop⟩) (by
            intro real
            rw [siblingLink] at real ⊢
            rw [unhooked, Function.update_of_ne siblingRm]
            exact siblingCells.parent_ptr real) children empty a
          rw [TreePath.top, if_neg topAligned.1, next, unhooked, Function.update_of_ne notRm]
          simp [topAligned.1]
  refine ⟨u, run, ?_, same⟩
  apply linked.refocus
  · apply splicedCells.reparent splicedUnique
    · intro a place other
      exact absurd (onlySc a place) other
    · intro real
      have inner := (linked.aligned_focus (splicedMember _ (ptr_mem real))).1
      have notTop := linked.ne_top (splicedMember _ (ptr_mem real))
      rw [cells _ scRm.symm, if_neg (fun both => notTop both.2), if_pos ⟨inner, rfl⟩]
  · exact splicedUnique
  · intro a place
    exact ⟨linked.aligned_focus (splicedMember a place), linked.apart (splicedMember a place)⟩
  · intro a place notTop
    have notRm : a ≠ rm := by
      rintro rfl
      exact linked.apart rmMember place
    rw [cells a notRm, if_neg (fun both => notTop both.2), if_neg]
    rintro ⟨inner, rfl⟩
    exact linked.apart (splicedMember _ (scMember inner)) place
  · rintro frame rest rfl
    have place : frame.root ∈ TreePath.around (frame :: rest) :=
      TreePath.mem_around_cons.mpr (Or.inl rfl)
    have real := (linked.aligned_path place).1
    have notRm : frame.root ≠ rm := by
      rintro rfl
      exact linked.apart rmMember place
    rw [cells _ notRm, TreePath.top, if_pos ⟨real, rfl⟩]
    rfl
  · exact root

end Syslib.Rbtree
