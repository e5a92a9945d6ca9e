import Mathlib.Data.List.AList
import Mathlib.Data.List.Induction
import Mathlib.Data.List.Nodup
import Mathlib.Order.Nat

/-!
# Doubly linked lists on a heap

A heap is a finite map from addresses to nodes, each with some data and two links. `Seg h b cs a`
says that the cells `cs` (addresses with their data) are linked in order on the heap `h`, the first
one back to `b` and the last one on to `a`. A segment splits at any cell (`seg_append`), so a write
through one link is a write at the end of a segment: `seg_setNext` and `seg_setPrev` say what the
two conditional writes `if (q) q->next = v` and `if (q) q->prev = v` do there, and the three list
operations follow: `seg_unlink`, `seg_linkFront`, `seg_unlinkLast`.

`Follows` is the walk along one link; a segment between nulls is followed forwards and backwards
(`seg_follows_next`, `seg_follows_prev`).
-/

namespace LinkedHeap

/-- An address. The null pointer is `none`. -/
abbrev Ptr := ℕ

/-- A node: some data and the two links. -/
structure Node (α : Type*) where
  data : α
  prev : Option Ptr
  next : Option Ptr
deriving DecidableEq, Repr

/-- The live nodes. -/
abbrev Heap (α : Type*) := AList (fun _ : Ptr => Node α)

/-- An allocator: the address it returns is not live. The choice may depend on how many allocations
came before, so any sequence of addresses that were free at their time is one of these, reuse of
freed addresses included. -/
structure Allocator where
  /-- The address returned by the allocation numbered `t` when `live` are in use. -/
  fresh (t : ℕ) (live : List Ptr) : Ptr
  /-- It is not one of those in use. -/
  fresh_notMem (t : ℕ) (live : List Ptr) : fresh t live ∉ live

/-- The allocator that returns the address above all that are in use. -/
def Allocator.above : Allocator where
  fresh _ live := live.foldr max 0 + 1
  fresh_notMem _ live h := by
    have hle : ∀ (l : List Ptr), ∀ p ∈ l, p ≤ l.foldr max 0 := by
      intro l
      induction l with
      | nil => simp
      | cons q l ih =>
        intro p hp
        rcases List.mem_cons.1 hp with rfl | hp
        · exact Nat.le_max_left _ _
        · exact (ih p hp).trans (Nat.le_max_right _ _)
    exact absurd (hle live _ h) (Nat.not_succ_le_self _)

variable {α : Type*}

/-- `p->next = q`, or `none` when `p` is not live. -/
def setNext (h : Heap α) (p : Ptr) (q : Option Ptr) : Option (Heap α) :=
  (h.lookup p).map fun n => h.insert p { n with next := q }

/-- `p->prev = q`, or `none` when `p` is not live. -/
def setPrev (h : Heap α) (p : Ptr) (q : Option Ptr) : Option (Heap α) :=
  (h.lookup p).map fun n => h.insert p { n with prev := q }

/-- `if (p) p->next = q`. -/
def setNextIf (h : Heap α) (p : Option Ptr) (q : Option Ptr) : Option (Heap α) :=
  match p with
  | none => some h
  | some p => setNext h p q

/-- `if (p) p->prev = q`. -/
def setPrevIf (h : Heap α) (p : Option Ptr) (q : Option Ptr) : Option (Heap α) :=
  match p with
  | none => some h
  | some p => setPrev h p q

/-! ## Segments -/

/-- The address of the first cell, or `a` when there is none. -/
def firstOr (a : Option Ptr) : List (Ptr × α) → Option Ptr
  | [] => a
  | c :: _ => some c.1

/-- The address of the last cell, or `b` when there is none. -/
def lastOr (b : Option Ptr) : List (Ptr × α) → Option Ptr
  | [] => b
  | c :: cs => lastOr (some c.1) cs

/-- The addresses of a list of cells. -/
def ptrs (cs : List (Ptr × α)) : List Ptr := cs.map Prod.fst

/-- The cells `cs` are linked in order on `h`, between the addresses `b` and `a`. -/
def Seg (h : Heap α) : Option Ptr → List (Ptr × α) → Option Ptr → Prop
  | _, [], _ => True
  | b, c :: cs, a => h.lookup c.1 = some ⟨c.2, b, firstOr a cs⟩ ∧ Seg h (some c.1) cs a

@[simp] theorem firstOr_nil (a : Option Ptr) : firstOr a ([] : List (Ptr × α)) = a := rfl

@[simp] theorem firstOr_cons (a : Option Ptr) (c : Ptr × α) (cs : List (Ptr × α)) :
    firstOr a (c :: cs) = some c.1 := rfl

@[simp] theorem lastOr_nil (b : Option Ptr) : lastOr b ([] : List (Ptr × α)) = b := rfl

@[simp] theorem lastOr_cons (b : Option Ptr) (c : Ptr × α) (cs : List (Ptr × α)) :
    lastOr b (c :: cs) = lastOr (some c.1) cs := rfl

@[simp] theorem ptrs_nil : ptrs ([] : List (Ptr × α)) = [] := rfl

@[simp] theorem ptrs_cons (c : Ptr × α) (cs : List (Ptr × α)) :
    ptrs (c :: cs) = c.1 :: ptrs cs := rfl

@[simp] theorem ptrs_append (l r : List (Ptr × α)) : ptrs (l ++ r) = ptrs l ++ ptrs r := by
  simp [ptrs]

@[simp] theorem firstOr_append (a : Option Ptr) (l r : List (Ptr × α)) :
    firstOr a (l ++ r) = firstOr (firstOr a r) l := by
  cases l <;> rfl

@[simp] theorem lastOr_append (b : Option Ptr) (l r : List (Ptr × α)) :
    lastOr b (l ++ r) = lastOr (lastOr b l) r := by
  induction l generalizing b with
  | nil => rfl
  | cons c l ih => exact ih (some c.1)

/-- The last address of a list with no address before it is null exactly when the list is empty. -/
theorem lastOr_none_eq_none {cs : List (Ptr × α)} : lastOr none cs = none ↔ cs = [] := by
  rcases List.eq_nil_or_concat' cs with rfl | ⟨l, c, rfl⟩
  · simp
  · simp

/-- The first address is among the addresses. -/
theorem firstOr_mem {cs : List (Ptr × α)} {p : Ptr} (h : firstOr none cs = some p) :
    p ∈ ptrs cs := by
  cases cs with
  | nil => simp at h
  | cons c cs => simp_all

/-- A segment is its first part and its second, each ending where the other starts. -/
theorem seg_append {h : Heap α} {b a : Option Ptr} {l r : List (Ptr × α)} :
    Seg h b (l ++ r) a ↔ Seg h b l (firstOr a r) ∧ Seg h (lastOr b l) r a := by
  induction l generalizing b with
  | nil => simp [Seg]
  | cons c l ih => simp [Seg, ih, and_assoc]

/-- A segment depends only on the nodes at its own addresses. -/
theorem seg_congr {h h' : Heap α} {b a : Option Ptr} {cs : List (Ptr × α)}
    (hagree : ∀ p ∈ ptrs cs, h'.lookup p = h.lookup p) (hs : Seg h b cs a) : Seg h' b cs a := by
  induction cs generalizing b with
  | nil => trivial
  | cons c cs ih =>
    obtain ⟨hc, hcs⟩ := hs
    exact ⟨(hagree _ (by simp)).trans hc, ih (fun p hp => hagree p (by simp [hp])) hcs⟩

/-- The node at an address of a segment has the data of its cell. -/
theorem seg_data {h : Heap α} {b a : Option Ptr} {cs : List (Ptr × α)} (hs : Seg h b cs a)
    {c : Ptr × α} (hc : c ∈ cs) : (h.lookup c.1).map Node.data = some c.2 := by
  induction cs generalizing b with
  | nil => exact absurd hc List.not_mem_nil
  | cons e cs ih =>
    rcases List.mem_cons.1 hc with rfl | hc
    · simp [hs.1]
    · exact ih hs.2 hc

/-- The data along `next` from an address, for at most `n` nodes. -/
def walk (h : Heap α) : ℕ → Option Ptr → List α
  | n + 1, some p =>
    match h.lookup p with
    | some node => node.data :: walk h n node.next
    | none => []
  | _, _ => []

/-- The walk over a segment that ends at null reads the data of its cells. -/
theorem seg_walk {h : Heap α} {b : Option Ptr} {cs : List (Ptr × α)} (hs : Seg h b cs none) :
    walk h cs.length (firstOr none cs) = cs.map Prod.snd := by
  induction cs generalizing b with
  | nil => rfl
  | cons c cs ih =>
    simp only [List.length_cons, firstOr_cons, walk, hs.1, List.map_cons]
    rw [ih hs.2]

/-! ## Writes at the ends of a segment -/

/-- `h'` has the live addresses of `h`, and its nodes outside `ps`. -/
def FrameOff (ps : List Ptr) (h h' : Heap α) : Prop :=
  (∀ p, p ∈ h' ↔ p ∈ h) ∧ ∀ p ∉ ps, h'.lookup p = h.lookup p

theorem FrameOff.refl (ps : List Ptr) (h : Heap α) : FrameOff ps h h :=
  ⟨fun _ => Iff.rfl, fun _ _ => rfl⟩

/-- Replacing the node at a live address is a write to that address. -/
theorem frameOff_insert {h : Heap α} {p : Ptr} {n n' : Node α} {ps : List Ptr}
    (hn : h.lookup p = some n) (hp : p ∈ ps) : FrameOff ps h (h.insert p n') := by
  have hlive : p ∈ h := AList.lookup_isSome.1 (by simp [hn])
  refine ⟨fun q => ?_, fun q hq => AList.lookup_insert_ne (fun e => hq (e ▸ hp))⟩
  rw [AList.mem_insert]
  exact ⟨fun hq => hq.elim (fun e => e ▸ hlive) id, Or.inr⟩

/-- `if (q) q->next = a'` at the last address of a segment with nothing before it moves the
segment's end to `a'`. -/
theorem seg_setNextIf {h : Heap α} {cs : List (Ptr × α)} {a : Option Ptr} (a' : Option Ptr)
    (hs : Seg h none cs a) (hn : (ptrs cs).Nodup) :
    ∃ h', setNextIf h (lastOr none cs) a' = some h' ∧ Seg h' none cs a' ∧
      FrameOff (ptrs cs) h h' := by
  rcases List.eq_nil_or_concat' cs with rfl | ⟨l, c, rfl⟩
  · exact ⟨h, rfl, trivial, FrameOff.refl _ _⟩
  · obtain ⟨hl, hc, -⟩ := seg_append.1 hs
    have hnot : c.1 ∉ ptrs l := by
      rw [ptrs_append, List.nodup_append] at hn
      exact fun hmem => hn.2.2 c.1 hmem c.1 (by simp) rfl
    refine ⟨h.insert c.1 ⟨c.2, lastOr none l, a'⟩, ?_, ?_, frameOff_insert hc (by simp)⟩
    · simp [setNextIf, setNext, hc]
    · refine seg_append.2 ⟨seg_congr (fun p hp => ?_) hl, ?_, trivial⟩
      · exact AList.lookup_insert_ne (fun e => hnot (e ▸ hp))
      · simp

/-- `if (q) q->prev = b'` at the first address of a segment with nothing after it moves the
segment's start to `b'`. -/
theorem seg_setPrevIf {h : Heap α} {cs : List (Ptr × α)} {b : Option Ptr} (b' : Option Ptr)
    (hs : Seg h b cs none) (hn : (ptrs cs).Nodup) :
    ∃ h', setPrevIf h (firstOr none cs) b' = some h' ∧ Seg h' b' cs none ∧
      FrameOff (ptrs cs) h h' := by
  cases cs with
  | nil => exact ⟨h, rfl, trivial, FrameOff.refl _ _⟩
  | cons c cs =>
    obtain ⟨hc, hcs⟩ := hs
    have hnot : c.1 ∉ ptrs cs := (List.nodup_cons.1 hn).1
    refine ⟨h.insert c.1 ⟨c.2, b', firstOr none cs⟩, ?_, ⟨?_, ?_⟩, frameOff_insert hc (by simp)⟩
    · simp [setPrevIf, setPrev, hc]
    · simp
    · exact seg_congr (fun p hp => AList.lookup_insert_ne (fun e => hnot (e ▸ hp))) hcs

/-! ## The list operations -/

/-- New data at an address of a segment leave its links as they are. -/
theorem seg_setData {h : Heap α} {b a : Option Ptr} {l r : List (Ptr × α)} {p : Ptr} {x : α}
    (y : α) (hs : Seg h b (l ++ (p, x) :: r) a) (hn : (ptrs (l ++ (p, x) :: r)).Nodup) :
    ∃ n, h.lookup p = some n ∧ Seg (h.insert p { n with data := y }) b (l ++ (p, y) :: r) a ∧
      FrameOff [p] h (h.insert p { n with data := y }) := by
  obtain ⟨hl, hc, hr⟩ := seg_append.1 hs
  rw [ptrs_append, ptrs_cons, List.nodup_append, List.nodup_cons] at hn
  -- The write is off both parts, since the addresses are distinct.
  have hne : ∀ q, q ∈ ptrs l ∨ q ∈ ptrs r → q ≠ p := by
    rintro q (hq | hq) rfl
    · exact hn.2.2 q hq q (by simp) rfl
    · exact hn.2.1.1 hq
  refine ⟨_, hc, seg_append.2 ⟨?_, ?_, ?_⟩, frameOff_insert hc (by simp)⟩
  · exact seg_congr (fun q hq => AList.lookup_insert_ne (hne q (.inl hq))) hl
  · simp
  · exact seg_congr (fun q hq => AList.lookup_insert_ne (hne q (.inr hq))) hr

/-- Unlinking a cell: the two conditional writes through its neighbours close the list over it and
leave its own node as it was. -/
theorem seg_unlink {h : Heap α} {l r : List (Ptr × α)} {p : Ptr} {x : α}
    (hs : Seg h none (l ++ (p, x) :: r) none) (hn : (ptrs (l ++ (p, x) :: r)).Nodup) :
    ∃ h₁ h₂, h.lookup p = some ⟨x, lastOr none l, firstOr none r⟩ ∧
      setNextIf h (lastOr none l) (firstOr none r) = some h₁ ∧
      h₁.lookup p = some ⟨x, lastOr none l, firstOr none r⟩ ∧
      setPrevIf h₁ (firstOr none r) (lastOr none l) = some h₂ ∧
      h₂.lookup p = some ⟨x, lastOr none l, firstOr none r⟩ ∧
      Seg h₂ none (l ++ r) none ∧ ∀ q, q ∈ h₂ ↔ q ∈ h := by
  obtain ⟨hl, hc, hr⟩ := seg_append.1 hs
  rw [ptrs_append, ptrs_cons, List.nodup_append, List.nodup_cons] at hn
  obtain ⟨hnl, ⟨hpr, hnr⟩, hdisj⟩ := hn
  have hpl : p ∉ ptrs l := fun hmem => hdisj p hmem p (by simp) rfl
  have hlr : ∀ q ∈ ptrs r, q ∉ ptrs l := fun q hq hmem => hdisj q hmem q (by simp [hq]) rfl
  -- The first write ends the front half at the back half, which it leaves alone.
  obtain ⟨h₁, hset₁, hl₁, hframe₁⟩ := seg_setNextIf (firstOr none r) hl hnl
  have hr₁ : Seg h₁ (some p) r none := seg_congr (fun q hq => hframe₁.2 q (hlr q hq)) hr
  obtain ⟨h₂, hset₂, hr₂, hframe₂⟩ := seg_setPrevIf (lastOr none l) hr₁ hnr
  have hp₁ : h₁.lookup p = h.lookup p := hframe₁.2 p hpl
  have hp₂ : h₂.lookup p = h₁.lookup p := hframe₂.2 p hpr
  -- Neither write touched the node itself, and the two halves now meet.
  refine ⟨h₁, h₂, hc, hset₁, hp₁.trans hc, hset₂, (hp₂.trans hp₁).trans hc, ?_, ?_⟩
  · refine seg_append.2 ⟨seg_congr (fun q hq => hframe₂.2 q ?_) hl₁, hr₂⟩
    exact fun hmem => hlr q hmem hq
  · exact fun q => (hframe₂.1 q).trans (hframe₁.1 q)

/-- Linking a live node in front of a list: its two writes and the one through the old head. -/
theorem seg_linkFront {h : Heap α} {cs : List (Ptr × α)} {p : Ptr} {n : Node α}
    (hs : Seg h none cs none) (hn : (ptrs cs).Nodup) (hp : p ∉ ptrs cs)
    (hnode : h.lookup p = some n) :
    ∃ h₁ h₂ h₃, setNext h p (firstOr none cs) = some h₁ ∧ setPrev h₁ p none = some h₂ ∧
      setPrevIf h₂ (firstOr none cs) (some p) = some h₃ ∧
      Seg h₃ none ((p, n.data) :: cs) none ∧ ∀ q, q ∈ h₃ ↔ q ∈ h := by
  -- The node's own two writes.
  have h₁def : setNext h p (firstOr none cs) =
      some (h.insert p { n with next := firstOr none cs }) := by simp [setNext, hnode]
  generalize hh₁ : h.insert p { n with next := firstOr none cs } = h₁ at h₁def
  have hp₁ : h₁.lookup p = some { n with next := firstOr none cs } := by
    rw [← hh₁, AList.lookup_insert]
  have h₂def : setPrev h₁ p none =
      some (h₁.insert p ⟨n.data, none, firstOr none cs⟩) := by simp [setPrev, hp₁]
  have hframe₁ : FrameOff [p] h h₁ := hh₁ ▸ frameOff_insert hnode (by simp)
  have hframe₂ : FrameOff [p] h₁ (h₁.insert p ⟨n.data, none, firstOr none cs⟩) :=
    frameOff_insert hp₁ (by simp)
  have hp₂ : (h₁.insert p ⟨n.data, none, firstOr none cs⟩).lookup p =
      some ⟨n.data, none, firstOr none cs⟩ := AList.lookup_insert _
  generalize h₁.insert p ⟨n.data, none, firstOr none cs⟩ = h₂ at h₂def hframe₂ hp₂
  -- The write through the old head.
  have hs₂ : Seg h₂ none cs none := by
    refine seg_congr (fun q hq => ?_) hs
    have hqp : q ∉ [p] := fun e => hp (List.mem_singleton.1 e ▸ hq)
    calc h₂.lookup q = h₁.lookup q := hframe₂.2 q hqp
      _ = h.lookup q := hframe₁.2 q hqp
  obtain ⟨h₃, hset₃, hs₃, hframe₃⟩ := seg_setPrevIf (some p) hs₂ hn
  refine ⟨h₁, h₂, h₃, h₁def, h₂def, hset₃, ⟨(hframe₃.2 p hp).trans hp₂, hs₃⟩, fun q => ?_⟩
  exact (hframe₃.1 q).trans ((hframe₂.1 q).trans (hframe₁.1 q))

/-- Unlinking and freeing the last cell: the write through the one before it ends the list there. -/
theorem seg_unlinkLast {h : Heap α} {l : List (Ptr × α)} {p : Ptr} {x : α}
    (hs : Seg h none (l ++ [(p, x)]) none) (hn : (ptrs (l ++ [(p, x)])).Nodup) :
    ∃ h₁, h.lookup p = some ⟨x, lastOr none l, none⟩ ∧
      setNextIf h (lastOr none l) none = some h₁ ∧ Seg (h₁.erase p) none l none ∧
      ∀ q, q ∈ h₁.erase p ↔ q ≠ p ∧ q ∈ h := by
  obtain ⟨hl, hc, -⟩ := seg_append.1 hs
  rw [ptrs_append, List.nodup_append] at hn
  have hpl : p ∉ ptrs l := fun hmem => hn.2.2 p hmem p (by simp) rfl
  -- The freed node is not one of those that stay, so the segment survives the erasure.
  obtain ⟨h₁, hset, hl₁, hframe⟩ := seg_setNextIf none hl hn.1
  refine ⟨h₁, hc, hset, seg_congr (fun q hq => ?_) hl₁, fun q => ?_⟩
  · exact AList.lookup_erase_ne (fun e => hpl (e ▸ hq))
  · rw [AList.mem_erase, hframe.1]

/-! ## Walks along one link -/

/-- Following `link` from `q` visits exactly the addresses `ps`, in order, and ends at null. -/
def Follows (link : Ptr → Option (Option Ptr)) : Option Ptr → List Ptr → Prop
  | q, [] => q = none
  | q, p :: ps => q = some p ∧ ∃ q', link p = some q' ∧ Follows link q' ps

/-- A segment that ends at null is followed along `next`. -/
theorem seg_follows_next {h : Heap α} {b : Option Ptr} {cs : List (Ptr × α)}
    (hs : Seg h b cs none) :
    Follows (fun p => (h.lookup p).map Node.next) (firstOr none cs) (ptrs cs) := by
  induction cs generalizing b with
  | nil => rfl
  | cons c cs ih => exact ⟨rfl, _, by simp [hs.1], ih hs.2⟩

/-- A segment that starts at null is followed backwards along `prev`. -/
theorem seg_follows_prev {h : Heap α} {a : Option Ptr} {cs : List (Ptr × α)}
    (hs : Seg h none cs a) :
    Follows (fun p => (h.lookup p).map Node.prev) (lastOr none cs) (ptrs cs).reverse := by
  -- From the back, since that is the way the walk goes.
  induction cs using List.reverseRecOn generalizing a with
  | nil => rfl
  | append_singleton cs c ih =>
    obtain ⟨hcs, hc, -⟩ := seg_append.1 hs
    rw [ptrs_append, List.reverse_append, lastOr_append]
    exact ⟨rfl, lastOr none cs, by simp [hc], ih hcs⟩

end LinkedHeap
