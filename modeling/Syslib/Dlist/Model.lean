import Mathlib.Data.BitVec
import Mathlib.Logic.Function.Basic
import Syslib.Library.TwoSpeed

namespace Syslib.Dlist

/-- A pointer is the address of a node, and zero is the null pointer. -/
abbrev Ptr := BitVec 64

/-- This is `struct dlnode`. -/
@[ext] structure DlNode where
  prev : Ptr
  next : Ptr
  deriving DecidableEq, Repr

/-- The memory has a list node at every address but null. -/
abbrev DlHeap := Ptr → DlNode

/-- A `struct dlist` starts with its head, and its tail lies behind it. -/
def lstHead (lst : Ptr) : Ptr := lst

def lstTail (lst : Ptr) : Ptr := lst + 16

namespace DlHeap

/-- All nodes but these are cleared. -/
def ofNodes (nodes : List (Ptr × DlNode)) : DlHeap := fun node => (nodes.lookup node).getD ⟨0, 0⟩

/-- A null pointer has no node, so its fields can neither be read nor be written. -/
def getPrev (heap : DlHeap) (node : Ptr) : Option Ptr := if node = 0 then none else some (heap node).prev

def getNext (heap : DlHeap) (node : Ptr) : Option Ptr := if node = 0 then none else some (heap node).next

def setPrev (heap : DlHeap) (node prev : Ptr) : Option DlHeap :=
  if node = 0 then none else some (Function.update heap node { heap node with prev })

def setNext (heap : DlHeap) (node next : Ptr) : Option DlHeap :=
  if node = 0 then none else some (Function.update heap node { heap node with next })

end DlHeap

def lstNew (heap : DlHeap) (lst : Ptr) : Option (DlHeap × Int) :=
  if lst = 0 then some (heap, -1)
  else do
    let heap ← heap.setPrev (lstHead lst) 0
    let heap ← heap.setNext (lstHead lst) (lstTail lst)
    let heap ← heap.setPrev (lstTail lst) (lstHead lst)
    let heap ← heap.setNext (lstTail lst) 0
    some (heap, 0)

def lstClr (heap : DlHeap) (node : Ptr) : Option (DlHeap × Int) :=
  if node = 0 then some (heap, -1)
  else do
    let heap ← heap.setPrev node 0
    let heap ← heap.setNext node 0
    some (heap, 0)

def lstInsertBefore (heap : DlHeap) (lst suc node : Ptr) : Option (DlHeap × Int) :=
  if lst = 0 ∨ suc = 0 ∨ node = 0 then some (heap, -1)
  else if suc = lstHead lst then some (heap, -1)
  else do
    let heap ← heap.setPrev node (← heap.getPrev suc)
    let heap ← heap.setNext node suc
    let heap ← heap.setNext (← heap.getPrev suc) node
    let heap ← heap.setPrev suc node
    some (heap, 0)

def lstInsertAfter (heap : DlHeap) (lst prv node : Ptr) : Option (DlHeap × Int) :=
  if lst = 0 ∨ prv = 0 ∨ node = 0 then some (heap, -1)
  else if prv = lstTail lst then some (heap, -1)
  else do
    let heap ← heap.setPrev node prv
    let heap ← heap.setNext node (← heap.getNext prv)
    let heap ← heap.setPrev (← heap.getNext prv) node
    let heap ← heap.setNext prv node
    some (heap, 0)

/-- Both removals end with these writes. -/
def unlink (heap : DlHeap) (node : Ptr) : Option DlHeap := do
  let heap ← heap.setNext (← heap.getPrev node) (← heap.getNext node)
  let heap ← heap.setPrev (← heap.getNext node) (← heap.getPrev node)
  let heap ← heap.setPrev node 0
  heap.setNext node 0

def lstRemove (heap : DlHeap) (lst node : Ptr) : Option (DlHeap × Int) :=
  if lst = 0 ∨ node = 0 then some (heap, -1)
  else if (heap node).prev = 0 ∨ (heap node).next = 0 then some (heap, -1)
  else do
    if (← heap.getPrev (lstTail lst)) = lstHead lst ∨ (← heap.getNext (lstHead lst)) = lstTail lst then
      some (heap, -1)
    else if node = lstHead lst ∨ node = lstTail lst then some (heap, -1)
    else
      let heap ← unlink heap node
      some (heap, 0)

def lstRemoveNode (heap : DlHeap) (node : Ptr) : Option (DlHeap × Int) :=
  if node = 0 then some (heap, -1)
  else if (heap node).prev = 0 ∨ (heap node).next = 0 then some (heap, -1)
  else do
    let heap ← unlink heap node
    some (heap, 0)

def lstPushBack (heap : DlHeap) (lst node : Ptr) : Option (DlHeap × Int) :=
  lstInsertBefore heap lst (lstTail lst) node

def lstPushFront (heap : DlHeap) (lst node : Ptr) : Option (DlHeap × Int) :=
  lstInsertAfter heap lst (lstHead lst) node

/-- Both pops return null when the removal of the node that they read fails. -/
def lstPop (heap : DlHeap) (lst : Ptr) (read : Option Ptr) : Option (DlHeap × Ptr) :=
  if lst = 0 then some (heap, 0)
  else do
    let node ← read
    let (heap, rslt) ← lstRemove heap lst node
    some (heap, if rslt < 0 then 0 else node)

def lstPopBack (heap : DlHeap) (lst : Ptr) : Option (DlHeap × Ptr) :=
  lstPop heap lst (heap.getPrev (lstTail lst))

def lstPopFront (heap : DlHeap) (lst : Ptr) : Option (DlHeap × Ptr) :=
  lstPop heap lst (heap.getNext (lstHead lst))

/-- This is `_lst_check_loop`; both its loops let two cursors run to the opposite end of the list. -/
def lstCheckLoop (heap : DlHeap) (lst : Ptr) (fuel : Nat) : Option Int := do
  let first ← heap.getNext (lstHead lst)
  if ← TwoSpeed.chase heap.getNext (lstTail lst) fuel first first then some (-1)
  else
    let last ← heap.getPrev (lstTail lst)
    if ← TwoSpeed.chase heap.getPrev (lstHead lst) fuel last last then some (-1) else some 0

def lstCheck (heap : DlHeap) (lst : Ptr) (fuel : Nat) : Option Int := lstCheckLoop heap lst fuel

end Syslib.Dlist
