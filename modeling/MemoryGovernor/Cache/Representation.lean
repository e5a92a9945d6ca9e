import MemoryGovernor.Cache.LRUCache

/-!
# What the pointers of the LRU cache represent

`Rep c cells` says that the cache `c` represents the list `cells`, of addresses with their key and
value, most recently used first: the nodes are linked in this order between `head` and `tail`, the
map has exactly the listed keys, each with its own address, the counter is their number, and no
other node is live. Every operation is specified by the list before and after it. The pointer
surgery is that of `LinkedHeap`; here the head, the tail, the map and the counter follow it.
-/

namespace MemoryGovernor.LRUCache

open LinkedHeap
open Recency (keys mem_keys)

variable {Key Value : Type*}

/-- The nodes of `cells` are linked in order between `head` and `tail`. -/
structure Linked (c : LRUCache Key Value) (cells : List (Ptr × Key × Value)) : Prop where
  seg : Seg c.heap none cells none
  head : c.head = firstOr none cells
  tail : c.tail = lastOr none cells
  nodup : (ptrs cells).Nodup

/-- `c'` differs from `c` only in its links. -/
structure Relinked (c c' : LRUCache Key Value) : Prop where
  capacity : c'.capacity = c.capacity
  size : c'.size = c.size
  map : c'.map = c.map
  hits : c'.hits = c.hits
  misses : c'.misses = c.misses
  live : ∀ p, p ∈ c'.heap ↔ p ∈ c.heap

theorem Relinked.refl (c : LRUCache Key Value) : Relinked c c :=
  ⟨rfl, rfl, rfl, rfl, rfl, fun _ => Iff.rfl⟩

/-- The last address of a list that is not empty does not depend on what comes before. -/
theorem lastOr_eq_of_ne_nil {cells : List (Ptr × Key × Value)} (h : cells ≠ [])
    (a b : Option Ptr) : lastOr a cells = lastOr b cells := by
  cases cells with
  | nil => exact absurd rfl h
  | cons _ _ => rfl

/-- The last address is one of the list. -/
theorem lastOr_mem {cells : List (Ptr × Key × Value)} {a : Option Ptr} (h : cells ≠ []) :
    ∃ p ∈ ptrs cells, lastOr a cells = some p := by
  rcases List.eq_nil_or_concat' cells with rfl | ⟨l, e, rfl⟩
  · exact absurd rfl h
  · exact ⟨e.1, by simp, by simp⟩

/-! ## The private operations -/

/-- `add_to_front` links a live node that is not in the list in front of it. -/
theorem addToFront_spec {c : LRUCache Key Value} {cells : List (Ptr × Key × Value)}
    (h : Linked c cells) {p : Ptr} {n : CacheNode Key Value} (hp : p ∉ ptrs cells)
    (hn : c.heap.lookup p = some n) :
    ∃ c', addToFront c p = some c' ∧ Linked c' ((p, n.data) :: cells) ∧ Relinked c c' := by
  obtain ⟨h₁, h₂, h₃, hw₁, hw₂, hw₃, hseg, hlive⟩ := seg_linkFront h.seg h.nodup hp hn
  rw [← h.head] at hw₁ hw₃
  refine ⟨{ c with
      heap := h₃
      head := some p
      tail := if c.tail.isNone then some p else c.tail }, ?_, ⟨hseg, rfl, ?_, ?_⟩,
    ⟨rfl, rfl, rfl, rfl, rfl, hlive⟩⟩
  · simp [addToFront, hw₁, hw₂, hw₃]
  · -- The tail was null exactly when the list was empty.
    rw [h.tail, lastOr_cons]
    by_cases hnil : cells = []
    · simp [hnil]
    · obtain ⟨q, -, hq⟩ := lastOr_mem (a := none) hnil
      rw [lastOr_eq_of_ne_nil hnil (some p) none, hq]
      rfl
  · exact List.nodup_cons.2 ⟨hp, h.nodup⟩

/-- `move_to_front` moves a node of the list to its front. -/
theorem moveToFront_spec {c : LRUCache Key Value} {l r : List (Ptr × Key × Value)} {p : Ptr}
    {x : Key × Value} (h : Linked c (l ++ (p, x) :: r)) :
    ∃ c', moveToFront c p = some c' ∧ Linked c' ((p, x) :: (l ++ r)) ∧ Relinked c c' := by
  by_cases hl : l = []
  · -- The node is the head, and nothing is done.
    subst hl
    refine ⟨c, ?_, h, Relinked.refl c⟩
    rw [moveToFront, if_pos (by simp [h.head])]
  · have hn := h.nodup
    rw [ptrs_append, ptrs_cons, List.nodup_append, List.nodup_cons] at hn
    obtain ⟨hnl, ⟨hpr, hnr⟩, hdisj⟩ := hn
    have hpl : p ∉ ptrs l := fun hmem => hdisj p hmem p (by simp) rfl
    -- The head is in front of the node, so it stays while the node is out.
    have hhead : firstOr none (l ++ (p, x) :: r) = firstOr none (l ++ r) := by
      obtain ⟨e, l', rfl⟩ := List.exists_cons_of_ne_nil hl
      rfl
    have hne : some p ≠ c.head := by
      intro e
      rw [h.head, hhead] at e
      have hmem := firstOr_mem e.symm
      rw [ptrs_append, List.mem_append] at hmem
      exact hmem.elim hpl hpr
    obtain ⟨h₁, h₂, hnode, hw₁, hnode₁, hw₂, hnode₂, hseg, hlive⟩ := seg_unlink h.seg h.nodup
    -- The tail moves back exactly when the node was the last.
    have htail : (if some p = c.tail then lastOr none l else c.tail) = lastOr none (l ++ r) := by
      rw [h.tail, lastOr_append, lastOr_cons, lastOr_append]
      by_cases hr : r = []
      · simp [hr]
      · obtain ⟨q, hq, hlast⟩ := lastOr_mem (a := some p) hr
        rw [lastOr_eq_of_ne_nil hr (lastOr none l) (some p), hlast, if_neg]
        rintro ⟨rfl⟩
        exact hpr hq
    -- The list without the node is linked, and the node is linked in front of it.
    have hlinked : Linked { c with
        heap := h₂
        tail := if some p = c.tail then lastOr none l else c.tail } (l ++ r) := by
      refine ⟨hseg, h.head.trans hhead, htail, ?_⟩
      rw [ptrs_append, List.nodup_append]
      exact ⟨hnl, hnr, fun q hq q' hq' => hdisj q hq q' (by simp [hq'])⟩
    have hnot : p ∉ ptrs (l ++ r) := by
      rw [ptrs_append, List.mem_append]
      exact fun hmem => hmem.elim hpl hpr
    obtain ⟨c', hrun, hlinked', hrel⟩ := addToFront_spec hlinked hnot hnode₂
    refine ⟨c', ?_, hlinked', ⟨hrel.capacity, hrel.size, hrel.map, hrel.hits, hrel.misses,
      fun q => (hrel.live q).trans (hlive q)⟩⟩
    rw [moveToFront, if_neg hne]
    simp [hnode, hw₁, hnode₁, hw₂, hnode₂, hrun]

/-- The loop of the destructor deletes the cells in order, each while it is live. The induction is
on the cells: what is left after the first is linked as it was. -/
theorem seg_destroyLoop {heap : Heap (Key × Value)} {b : Option Ptr}
    {cells : List (Ptr × Key × Value)} (hs : Seg heap b cells none) (hn : (ptrs cells).Nodup)
    (rounds : ℕ) (hrounds : cells.length < rounds) :
    ∃ heap', destroyLoop rounds heap (firstOr none cells) = some (ptrs cells, heap') ∧
      ∀ p, p ∈ heap' ↔ p ∈ heap ∧ p ∉ ptrs cells := by
  induction cells generalizing heap b rounds with
  | nil =>
    obtain ⟨rounds, rfl⟩ := Nat.exists_eq_succ_of_ne_zero (Nat.ne_of_gt hrounds)
    exact ⟨heap, rfl, fun p => by simp⟩
  | cons c cells ih =>
    obtain ⟨rounds, rfl⟩ := Nat.exists_eq_succ_of_ne_zero (Nat.ne_of_gt (Nat.zero_lt_of_lt hrounds))
    obtain ⟨hc, hcells⟩ := hs
    obtain ⟨hnot, hn'⟩ := List.nodup_cons.1 hn
    have hrest : Seg (heap.erase c.1) (some c.1) cells none :=
      seg_congr (fun q hq => AList.lookup_erase_ne fun e => hnot (e ▸ hq)) hcells
    obtain ⟨heap', hrun, hlive⟩ := ih hrest hn' rounds (Nat.lt_of_succ_lt_succ hrounds)
    refine ⟨heap', ?_, fun p => ?_⟩
    · simp [destroyLoop, hc, hrun]
    · rw [hlive, AList.mem_erase, ptrs_cons, List.mem_cons]
      tauto

section Keys

variable [DecidableEq Key]

/-- `evict_lru` on an empty list does nothing. -/
theorem evictLru_nil {c : LRUCache Key Value} (h : Linked c []) : evictLru c = some c := by
  rw [evictLru, h.tail]
  rfl

/-- `evict_lru` takes the last node out of the list and of the map, and frees it. -/
theorem evictLru_spec {c : LRUCache Key Value} {l : List (Ptr × Key × Value)} {p : Ptr} {k : Key}
    {v : Value} (h : Linked c (l ++ [(p, k, v)])) :
    ∃ c', evictLru c = some c' ∧ Linked c' l ∧ c'.capacity = c.capacity ∧
      c'.size = c.size - 1 ∧ c'.map = c.map.erase k ∧ c'.hits = c.hits ∧ c'.misses = c.misses ∧
      ∀ q, q ∈ c'.heap ↔ q ≠ p ∧ q ∈ c.heap := by
  obtain ⟨h₁, hnode, hw, hseg, hlive⟩ := seg_unlinkLast h.seg h.nodup
  have htail : c.tail = some p := by simp [h.tail]
  refine ⟨{ c with
      map := c.map.erase k
      tail := lastOr none l
      head := if (lastOr none l).isNone then none else c.head
      heap := h₁.erase p
      size := c.size - 1 }, ?_, ⟨hseg, ?_, rfl, ?_⟩, rfl, rfl, rfl, rfl, rfl, hlive⟩
  · rw [evictLru, htail]
    simp [hnode, hw]
  · -- The head stays unless the list is now empty.
    rw [h.head]
    by_cases hl : l = []
    · simp [hl]
    · obtain ⟨e, l', rfl⟩ := List.exists_cons_of_ne_nil hl
      obtain ⟨q, -, hq⟩ := lastOr_mem (a := none) hl
      rw [hq]
      rfl
  · exact (List.nodup_append.1 (by simpa using h.nodup)).1

end Keys

/-! ## The whole cache -/

/-- The keys and values of a list of cells. -/
def contents (cells : List (Ptr × Key × Value)) : List (Key × Value) := cells.map Prod.snd

@[simp] theorem contents_nil : contents ([] : List (Ptr × Key × Value)) = [] := rfl

@[simp] theorem contents_cons (e : Ptr × Key × Value) (cells : List (Ptr × Key × Value)) :
    contents (e :: cells) = e.2 :: contents cells := rfl

@[simp] theorem contents_append (l r : List (Ptr × Key × Value)) :
    contents (l ++ r) = contents l ++ contents r := by
  simp [contents]

@[simp] theorem contents_length (cells : List (Ptr × Key × Value)) :
    (contents cells).length = cells.length := by
  simp [contents]

/-- A key of the contents is the key of some cell. -/
theorem mem_keys_contents {k : Key} {cells : List (Ptr × Key × Value)} :
    k ∈ keys (contents cells) ↔ ∃ p v, (p, k, v) ∈ cells := by
  rw [mem_keys, exists_comm]
  simp [contents]

section Keys

variable [DecidableEq Key]

/-- The cache represents the list `cells`. -/
structure Rep (c : LRUCache Key Value) (cells : List (Ptr × Key × Value)) : Prop
    extends Linked c cells where
  keys_nodup : (keys (contents cells)).Nodup
  map : ∀ k p, c.map.lookup k = some p ↔ ∃ v, (p, k, v) ∈ cells
  size : c.size = cells.length
  live : ∀ p, p ∈ c.heap ↔ p ∈ ptrs cells

/-- A new cache represents the empty list. -/
theorem rep_new (max_capacity : ℕ) : Rep (new Key Value max_capacity) [] where
  seg := trivial
  head := rfl
  tail := rfl
  nodup := List.nodup_nil
  keys_nodup := List.nodup_nil
  map k p := by simp [new]
  size := rfl
  live p := by simp [new]

/-- The map has no address for a key exactly when no cell has it. -/
theorem Rep.lookup_eq_none {c : LRUCache Key Value} {cells : List (Ptr × Key × Value)}
    (h : Rep c cells) (k : Key) : c.map.lookup k = none ↔ k ∉ keys (contents cells) := by
  rw [mem_keys_contents, Option.eq_none_iff_forall_ne_some]
  simp only [ne_eq, h.map]
  exact ⟨fun hnone ⟨p, hv⟩ => hnone p hv, fun hnot p hv => hnot ⟨p, hv⟩⟩

/-- Fields that an operation on the links does not touch may change under the representation. -/
theorem Rep.congr {c c' : LRUCache Key Value} {cells : List (Ptr × Key × Value)} (h : Rep c cells)
    (hsize : c'.size = c.size) (hhead : c'.head = c.head) (htail : c'.tail = c.tail)
    (hmap : c'.map = c.map) (hheap : c'.heap = c.heap) : Rep c' cells where
  seg := by rw [hheap]; exact h.seg
  head := hhead.trans h.head
  tail := htail.trans h.tail
  nodup := h.nodup
  keys_nodup := h.keys_nodup
  map := by rw [hmap]; exact h.map
  size := hsize.trans h.size
  live := by rw [hheap]; exact h.live

/-- `move_to_front` on a represented list. -/
theorem rep_moveToFront {c : LRUCache Key Value} {l r : List (Ptr × Key × Value)} {p : Ptr}
    {x : Key × Value} (h : Rep c (l ++ (p, x) :: r)) :
    ∃ c', moveToFront c p = some c' ∧ Rep c' ((p, x) :: (l ++ r)) ∧ Relinked c c' := by
  obtain ⟨c', hrun, hlinked, hrel⟩ := moveToFront_spec h.toLinked
  -- The cells are the same in another order, and only the order is in the links.
  have hperm : ((p, x) :: (l ++ r)).Perm (l ++ (p, x) :: r) := List.perm_middle.symm
  refine ⟨c', hrun, ⟨hlinked, ?_, fun k q => ?_, ?_, fun q => ?_⟩, hrel⟩
  · exact ((hperm.map Prod.snd).map Prod.fst).nodup_iff.2 h.keys_nodup
  · rw [hrel.map, h.map]
    exact exists_congr fun v => hperm.mem_iff.symm
  · rw [hrel.size, h.size, hperm.length_eq]
  · rw [hrel.live, h.live]
    exact (hperm.map Prod.fst).mem_iff.symm

/-- `evict_lru` on a represented list drops its last cell. -/
theorem rep_evictLru {c : LRUCache Key Value} {l : List (Ptr × Key × Value)}
    {e : Ptr × Key × Value} (h : Rep c (l ++ [e])) :
    ∃ c', evictLru c = some c' ∧ Rep c' l ∧ c'.capacity = c.capacity ∧ c'.hits = c.hits ∧
      c'.misses = c.misses := by
  obtain ⟨p, k, v⟩ := e
  obtain ⟨c', hrun, hlinked, hcap, hsize, hmap, hhits, hmisses, hlive⟩ := evictLru_spec h.toLinked
  have hkeys := h.keys_nodup
  rw [contents_append, Recency.keys_append, List.nodup_append] at hkeys
  obtain ⟨hkl, -, hkdisj⟩ := hkeys
  -- Neither the key nor the address of the last cell occurs before it.
  have hk : k ∉ keys (contents l) := fun hmem => hkdisj k hmem k (by simp) rfl
  have hp : p ∉ ptrs l := by
    have hn := h.nodup
    rw [ptrs_append, List.nodup_append] at hn
    exact fun hmem => hn.2.2 p hmem p (by simp) rfl
  refine ⟨c', hrun, ⟨hlinked, hkl, fun k' q => ?_, ?_, fun q => ?_⟩, hcap, hhits, hmisses⟩
  · rw [hmap]
    by_cases hkk : k' = k
    · subst hkk
      rw [AList.lookup_erase]
      simp only [reduceCtorEq, false_iff, not_exists]
      exact fun v' hv' => hk (mem_keys_contents.2 ⟨q, v', hv'⟩)
    · rw [AList.lookup_erase_ne hkk, h.map]
      refine exists_congr fun v' => ?_
      simp [hkk]
  · rw [hsize, h.size]
    simp
  · rw [hlive, h.live, ptrs_append, List.mem_append]
    constructor
    · rintro ⟨hne, hmem | hmem⟩
      · exact hmem
      · exact absurd (List.mem_singleton.1 hmem) hne
    · exact fun hmem => ⟨fun heq => hp (heq ▸ hmem), Or.inl hmem⟩

/-- The loop of `evict_to` ends, for as many rounds as there are cells and one more, and keeps the
front of the list. The induction is on the rounds, and each takes the last cell out. -/
theorem rep_evictLoop (n rounds : ℕ) {c : LRUCache Key Value} {cells : List (Ptr × Key × Value)}
    (h : Rep c cells) (hrounds : cells.length < rounds) :
    ∃ c', evictLoop rounds c n = some c' ∧ Rep c' (cells.take n) ∧ c'.capacity = c.capacity ∧
      c'.hits = c.hits ∧ c'.misses = c.misses := by
  induction rounds generalizing c cells with
  | zero => omega
  | succ rounds ih =>
    by_cases htest : n < c.size ∧ 0 < c.size
    · -- The test sees a counter above zero, so there is a last cell to take.
      have hne : cells ≠ [] := by
        rintro rfl
        exact absurd htest.2 (by simp [h.size])
      obtain ⟨l, e, rfl⟩ := (List.eq_nil_or_concat' cells).resolve_left hne
      have hlen : n ≤ l.length := by
        have := h.size
        rw [List.length_append, List.length_singleton] at this
        omega
      obtain ⟨c₁, hrun₁, hrep₁, hcap₁, hhits₁, hmisses₁⟩ := rep_evictLru h
      obtain ⟨c₂, hrun₂, hrep₂, hcap₂, hhits₂, hmisses₂⟩ := ih hrep₁ (by simp at hrounds; omega)
      refine ⟨c₂, ?_, ?_, hcap₂.trans hcap₁, hhits₂.trans hhits₁, hmisses₂.trans hmisses₁⟩
      · rw [evictLoop, if_pos htest, hrun₁]
        exact hrun₂
      · rwa [List.take_append_of_le_length hlen]
    · -- The loop ends with the list no longer than `n`.
      refine ⟨c, by rw [evictLoop, if_neg htest], ?_, rfl, rfl, rfl⟩
      have hsize := h.size
      rwa [List.take_of_length_le (by omega)]

/-- `evict_to` on a represented list ends and keeps its front. -/
theorem rep_evictTo {c : LRUCache Key Value} {cells : List (Ptr × Key × Value)} (h : Rep c cells)
    (n : ℕ) :
    ∃ c', evictTo c n = some c' ∧ Rep c' (cells.take n) ∧ c'.capacity = c.capacity ∧
      c'.hits = c.hits ∧ c'.misses = c.misses :=
  rep_evictLoop n (c.size + 1) h (by rw [h.size]; omega)

/-- The destructor of a represented list deletes its cells, and nothing stays live. -/
theorem rep_destroy {c : LRUCache Key Value} {cells : List (Ptr × Key × Value)} (h : Rep c cells) :
    ∃ heap', c.destroy = some (ptrs cells, heap') ∧ ∀ p, p ∉ heap' := by
  obtain ⟨heap', hrun, hlive⟩ := seg_destroyLoop h.seg h.nodup (c.size + 1) (by rw [h.size]; omega)
  refine ⟨heap', ?_, fun p hp => ?_⟩
  · rw [destroy, h.head, hrun]
  · obtain ⟨hp₁, hp₂⟩ := (hlive p).1 hp
    exact hp₂ ((h.live p).1 hp₁)

/-- Writing the value of a listed key into its node writes it into the list. -/
theorem rep_setValue {c : LRUCache Key Value} {l r : List (Ptr × Key × Value)} {p : Ptr} {k : Key}
    {v : Value} (value : Value) (h : Rep c (l ++ (p, k, v) :: r)) :
    ∃ n, c.heap.lookup p = some n ∧
      Rep { c with heap := c.heap.insert p { n with data := (n.data.1, value) } }
        (l ++ (p, k, value) :: r) := by
  obtain ⟨n, hnode, hseg, hframe⟩ := seg_setData (k, value) h.seg h.nodup
  have hdata : n.data.1 = k := by
    obtain ⟨-, hc, -⟩ := seg_append.1 h.seg
    rw [hc] at hnode
    exact (congrArg (fun m : CacheNode Key Value => m.data.1) (Option.some.inj hnode)).symm
  -- The cells are those of before but for the value at `p`, so each key keeps its address.
  have hcells : ∀ k' q w, (∃ u, (q, k', u) ∈ l ++ (p, k, w) :: r) ↔
      (∃ u, (q, k', u) ∈ l ∨ (q, k', u) ∈ r) ∨ (q = p ∧ k' = k) := by
    intro k' q w
    simp only [List.mem_append, List.mem_cons, Prod.mk.injEq]
    constructor
    · rintro ⟨u, hu | ⟨rfl, rfl, -⟩ | hu⟩
      · exact Or.inl ⟨u, Or.inl hu⟩
      · exact Or.inr ⟨rfl, rfl⟩
      · exact Or.inl ⟨u, Or.inr hu⟩
    · rintro (⟨u, hu | hu⟩ | ⟨rfl, rfl⟩)
      · exact ⟨u, Or.inl hu⟩
      · exact ⟨u, Or.inr (Or.inr hu)⟩
      · exact ⟨w, Or.inr (Or.inl ⟨rfl, rfl, rfl⟩)⟩
  refine ⟨n, hnode, ?_⟩
  rw [hdata]
  refine ⟨⟨hseg, ?_, ?_, ?_⟩, ?_, fun k' q => ?_, ?_, fun q => ?_⟩
  · rw [h.head]
    simp
  · rw [h.tail]
    simp
  · simpa using h.nodup
  · simpa using h.keys_nodup
  · exact (h.map k' q).trans ((hcells k' q v).trans (hcells k' q value).symm)
  · rw [h.size]
    simp
  · rw [hframe.1, h.live]
    simp

/-- The second half of `put`, on a key that the list does not have, puts it in front. -/
theorem rep_insertNew (A : Allocator) {c : LRUCache Key Value} {cells : List (Ptr × Key × Value)}
    (h : Rep c cells) {k : Key} (v : Value) (hk : k ∉ keys (contents cells)) :
    ∃ c' p, insertNew A c k v = some c' ∧ Rep c' ((p, k, v) :: cells) ∧
      c'.capacity = c.capacity ∧ c'.hits = c.hits ∧ c'.misses = c.misses := by
  generalize hp : A.fresh c.allocs c.heap.keys = p
  have hfresh : p ∉ ptrs cells := by
    intro hmem
    exact A.fresh_notMem c.allocs c.heap.keys (hp ▸ AList.mem_keys.1 ((h.live p).2 hmem))
  -- The cache with the new node allocated and mapped but not yet linked.
  generalize hc₁ : ({ c with
    heap := c.heap.insert p ⟨(k, v), none, none⟩
    allocs := c.allocs + 1
    map := c.map.insert k p } : LRUCache Key Value) = c₁
  have hheap : c₁.heap = c.heap.insert p ⟨(k, v), none, none⟩ := by rw [← hc₁]
  have hmap : c₁.map = c.map.insert k p := by rw [← hc₁]
  have hlinked : Linked c₁ cells := by
    refine ⟨?_, by rw [← hc₁]; exact h.head, by rw [← hc₁]; exact h.tail, h.nodup⟩
    rw [hheap]
    exact seg_congr (fun q hq => AList.lookup_insert_ne (fun e => hfresh (e ▸ hq))) h.seg
  have hnode : c₁.heap.lookup p = some ⟨(k, v), none, none⟩ := by
    rw [hheap, AList.lookup_insert]
  obtain ⟨c₂, hrun, hlinked₂, hrel⟩ := addToFront_spec hlinked hfresh hnode
  refine ⟨{ c₂ with size := c₂.size + 1 }, p, ?_,
    ⟨⟨hlinked₂.seg, hlinked₂.head, hlinked₂.tail, hlinked₂.nodup⟩, ?_, fun k' q => ?_, ?_,
      fun q => ?_⟩, ?_, ?_, ?_⟩
  · simp [insertNew, hp, hc₁, hrun]
  · exact List.nodup_cons.2 ⟨hk, h.keys_nodup⟩
  · show c₂.map.lookup k' = some q ↔ _
    rw [hrel.map, hmap]
    by_cases hkk : k' = k
    · subst hkk
      rw [AList.lookup_insert]
      constructor
      · rintro ⟨rfl⟩
        exact ⟨v, List.mem_cons_self⟩
      · rintro ⟨v', hv'⟩
        rcases List.mem_cons.1 hv' with heq | hv'
        · simp only [Prod.mk.injEq] at heq
          rw [heq.1]
        · exact absurd (mem_keys_contents.2 ⟨q, v', hv'⟩) hk
    · rw [AList.lookup_insert_ne hkk, h.map]
      exact exists_congr fun v' => by simp [hkk]
  · show c₂.size + 1 = _
    rw [hrel.size, ← hc₁]
    simp [h.size]
  · show q ∈ c₂.heap ↔ _
    rw [hrel.live, hheap, AList.mem_insert, h.live]
    simp
  · show c₂.capacity = _
    rw [hrel.capacity, ← hc₁]
  · show c₂.hits = _
    rw [hrel.hits, ← hc₁]
  · show c₂.misses = _
    rw [hrel.misses, ← hc₁]

end Keys

end MemoryGovernor.LRUCache
