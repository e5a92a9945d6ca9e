import MemoryGovernor.Lib.LinkedHeap
import MemoryGovernor.Lib.Recency

/-!
# The LRU cache, pointer by pointer

`LRUCache` of `include/client/governed_cache.h` as it is written: nodes on a heap, linked both ways
between `head` and `tail`, a hash map from keys to nodes, and a size counter of its own. `new` takes
its addresses from an allocator that may reuse the freed ones, and a field access through an address
that is not live is `none`.

`evictTo` is a `while` loop. It is given as many rounds as the counter could need and one more for
the last test, and is `none` when they run out: each round either lowers the counter or, on an empty
list, changes nothing, and then the source's loop never ends. So a result other than `none` says
both that no dead node was accessed and that the loop ended. The loop of the destructor is bounded
in the same way.

Counters are natural numbers: a cache of `2^64` nodes does not fit the memory, and neither count
reaches `2^64` in the life of a process.
-/

namespace MemoryGovernor

open LinkedHeap

/-- A node of the cache. Its data are the source's `key` and `value`. -/
abbrev CacheNode (Key Value : Type*) := LinkedHeap.Node (Key × Value)

/-- The cache: its fields in the source, the heap with its nodes, and the number of allocations
made so far. -/
structure LRUCache (Key Value : Type*) where
  capacity : ℕ
  size : ℕ
  head : Option Ptr
  tail : Option Ptr
  /-- `map_`, from keys to the addresses of their nodes. -/
  map : AList (fun _ : Key => Ptr)
  hits : ℕ
  misses : ℕ
  heap : Heap (Key × Value)
  allocs : ℕ

namespace LRUCache

variable {Key Value : Type*}

/-- The constructor `LRUCache(max_capacity)`. -/
def new (Key Value : Type*) (max_capacity : ℕ) : LRUCache Key Value :=
  ⟨max_capacity, 0, none, none, ∅, 0, 0, ∅, 0⟩

/-- `add_to_front`. -/
def addToFront (c : LRUCache Key Value) (node : Ptr) : Option (LRUCache Key Value) := do
  -- The node's own links, and then the old head's.
  let heap ← setNext c.heap node c.head
  let heap ← setPrev heap node none
  let heap ← setPrevIf heap c.head (some node)
  return { c with
    heap := heap
    head := some node
    tail := if c.tail.isNone then some node else c.tail }

/-- `move_to_front`. After the node is taken out of its position the source repeats the body of
`add_to_front`. -/
def moveToFront (c : LRUCache Key Value) (node : Ptr) : Option (LRUCache Key Value) :=
  if some node = c.head then some c
  else do
    -- The links are read again before each write, as the source reads them through `node`.
    let n ← c.heap.lookup node
    let heap ← setNextIf c.heap n.prev n.next
    let n ← heap.lookup node
    let heap ← setPrevIf heap n.next n.prev
    let n ← heap.lookup node
    addToFront { c with heap := heap, tail := if some node = c.tail then n.prev else c.tail } node

section Keys

variable [DecidableEq Key]

/-- `evict_lru`. It does nothing when there is no last node. -/
def evictLru (c : LRUCache Key Value) : Option (LRUCache Key Value) :=
  match c.tail with
  | none => some c
  | some to_remove => do
    let n ← c.heap.lookup to_remove
    -- `tail_ = tail_->prev`, and the new last node is the end of the list.
    let heap ← setNextIf c.heap n.prev none
    return { c with
      map := c.map.erase n.data.1
      tail := n.prev
      head := if n.prev.isNone then none else c.head
      heap := heap.erase to_remove
      size := c.size - 1 }

/-- The loop of `evict_to`, for at most the given number of rounds. -/
def evictLoop : ℕ → LRUCache Key Value → ℕ → Option (LRUCache Key Value)
  | 0, _, _ => none
  | rounds + 1, c, new_capacity =>
    if new_capacity < c.size ∧ 0 < c.size then do
      let c ← evictLru c
      evictLoop rounds c new_capacity
    else some c

/-- `evict_to`. -/
def evictTo (c : LRUCache Key Value) (new_capacity : ℕ) : Option (LRUCache Key Value) :=
  evictLoop (c.size + 1) c new_capacity

/-- `resize`. -/
def resize (c : LRUCache Key Value) (new_capacity : ℕ) : Option (LRUCache Key Value) :=
  evictTo { c with capacity := new_capacity } new_capacity

/-- `get`: the value of the key or a miss, and the cache after it. -/
def get (c : LRUCache Key Value) (key : Key) : Option (Option Value × LRUCache Key Value) :=
  match c.map.lookup key with
  | none => some (none, { c with misses := c.misses + 1 })
  | some node => do
    -- The value is read after the node has been moved.
    let c ← moveToFront { c with hits := c.hits + 1 } node
    let n ← c.heap.lookup node
    return (some n.data.2, c)

/-- The test of `put` on a new key: `if (size_ == capacity_) evict_lru()`. -/
def evictIfFull (c : LRUCache Key Value) : Option (LRUCache Key Value) :=
  if c.size = c.capacity then evictLru c else some c

/-- The rest of `put` on a new key: `new Node(key, value)`, `map_[key] = new_node`, `add_to_front`
and `size_++`. -/
def insertNew (A : Allocator) (c : LRUCache Key Value) (key : Key) (value : Value) :
    Option (LRUCache Key Value) := do
  let new_node := A.fresh c.allocs c.heap.keys
  -- The constructor of `Node` leaves both links null.
  let c ← addToFront { c with
    heap := c.heap.insert new_node ⟨(key, value), none, none⟩
    allocs := c.allocs + 1
    map := c.map.insert key new_node } new_node
  return { c with size := c.size + 1 }

/-- `put`. -/
def put (A : Allocator) (c : LRUCache Key Value) (key : Key) (value : Value) :
    Option (LRUCache Key Value) :=
  match c.map.lookup key with
  | some node => do
    -- A known key: the capacity plays no part.
    let n ← c.heap.lookup node
    moveToFront { c with heap := c.heap.insert node { n with data := (n.data.1, value) } } node
  | none => do
    let c ← evictIfFull c
    insertNew A c key value

/-- `reset_stats`. -/
def resetStats (c : LRUCache Key Value) : LRUCache Key Value := { c with hits := 0, misses := 0 }

/-- The loop of `~LRUCache`, for at most the given number of rounds: the addresses it deletes, in
order, and the heap that is left. -/
def destroyLoop : ℕ → Heap (Key × Value) → Option Ptr → Option (List Ptr × Heap (Key × Value))
  | 0, _, _ => none
  | _ + 1, heap, none => some ([], heap)
  | rounds + 1, heap, some curr => do
    -- `next` is read before the node is deleted.
    let n ← heap.lookup curr
    let (deleted, heap) ← destroyLoop rounds (heap.erase curr) n.next
    return (curr :: deleted, heap)

/-- The destructor `~LRUCache`. -/
def destroy (c : LRUCache Key Value) : Option (List Ptr × Heap (Key × Value)) :=
  destroyLoop (c.size + 1) c.heap c.head

/-- What a caller sees of the cache after an operation with answer `a`, through `size()`,
`capacity()`, `get_hits()` and `get_misses()`. -/
def observe (a : Option (Option Value)) (c : LRUCache Key Value) : Recency.Observation Value :=
  ⟨a, c.size, c.capacity, c.hits, c.misses⟩

/-- One call of a public operation. -/
def step (A : Allocator) (c : LRUCache Key Value) :
    Recency.Op Key Value → Option (Recency.Observation Value × LRUCache Key Value)
  | .get key => (c.get key).map fun r => (observe (some r.1) r.2, r.2)
  | .put key value => (c.put A key value).map fun c => (observe none c, c)
  | .resize n => (c.resize n).map fun c => (observe none c, c)
  | .evictTo n => (c.evictTo n).map fun c => (observe none c, c)
  | .resetStats => some (observe none c.resetStats, c.resetStats)

end Keys

end LRUCache

end MemoryGovernor
