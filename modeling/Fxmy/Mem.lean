import Fxmy.Lib.Machine
import Mathlib.Data.Finset.Card

/-!
# The heap (`fxmy_mem.c`)

Each function calls the heap, and then counts up or down; other threads may go on in between. An action
is what one thread does before another may; an action that is not its thread's turn, or for which the
heap has no such block, leaves everything as it is. A block is its address, and the heap raises an
exception rather than return NULL, so a call that gives out a block comes back.
-/

namespace Fxmy

/-- The process's heap and `num_allocations`. -/
structure Heap where
  blocks : Finset Nat
  /-- The threads that have got a block and have not counted it. -/
  allocating : List Nat
  /-- The threads that have given back a block and have not counted it. -/
  freeing : List Nat
  numAllocations : Int32

/-- What one thread does next. -/
inductive HeapAction where
  /-- `HeapAlloc` gives out a block, in `fxmy_malloc` or `fxmy_calloc`. -/
  | alloc (thread block : Nat)
  /-- `fxmy_realloc`, up to its call of the heap; the block may stay where it is. -/
  | realloc (thread : Nat) (ptr : Option Nat) (block : Nat)
  /-- `fxmy_free`, up to its call of the heap. -/
  | free (thread : Nat) (ptr : Option Nat)
  /-- `InterlockedIncrement` or `InterlockedDecrement`, with which the thread's call comes back. -/
  | count (thread : Nat)

namespace Heap

def initial : Heap := ⟨∅, [], [], 0⟩

/-- The thread is between its two steps. -/
def busy (heap : Heap) (thread : Nat) : Bool :=
  heap.allocating.contains thread || heap.freeing.contains thread

/-- The first step of `fxmy_malloc` and `fxmy_calloc`. -/
def alloc (thread block : Nat) (heap : Heap) : Heap :=
  if heap.busy thread || decide (block ∈ heap.blocks) then heap
  else { heap with
    blocks := insert block heap.blocks
    allocating := thread :: heap.allocating }

/-- `fxmy_realloc`: `HeapReAlloc` is not counted. It fails for what is not a block. -/
def realloc (thread : Nat) (ptr : Option Nat) (block : Nat) (heap : Heap) : Except Nat Heap :=
  match ptr with
  | none => .ok (heap.alloc thread block)
  | some p =>
    if heap.busy thread then .ok heap
    else if p ∈ heap.blocks then
      if block ∈ heap.blocks.erase p then .ok heap
      else .ok { heap with blocks := insert block (heap.blocks.erase p) }
    else .error p

/-- The first step of `fxmy_free`. NULL is not freed; what is not a block must not be. -/
def free (thread : Nat) (ptr : Option Nat) (heap : Heap) : Except Nat Heap :=
  match ptr with
  | none => .ok heap
  | some p =>
    if heap.busy thread then .ok heap
    else if p ∈ heap.blocks then
      .ok { heap with blocks := heap.blocks.erase p, freeing := thread :: heap.freeing }
    else .error p

/-- The second step. -/
def count (thread : Nat) (heap : Heap) : Heap :=
  if heap.allocating.contains thread then
    { heap with
      allocating := heap.allocating.erase thread
      numAllocations := heap.numAllocations + 1 }
  else if heap.freeing.contains thread then
    { heap with
      freeing := heap.freeing.erase thread
      numAllocations := heap.numAllocations - 1 }
  else heap

/-- One action. What is given back and is not a block ends the process. -/
def step (heap : Heap) : HeapAction → Except Nat Heap
  | .alloc thread block => .ok (heap.alloc thread block)
  | .realloc thread ptr block => heap.realloc thread ptr block
  | .free thread ptr => heap.free thread ptr
  | .count thread => .ok (heap.count thread)

/-- An interleaving. -/
def run (actions : List HeapAction) : Except Nat Heap := Machine.run step initial actions

/-- `fxmy_get_num_allocations`. -/
def getNumAllocations (heap : Heap) : Int := heap.numAllocations.toInt

end Heap

end Fxmy
