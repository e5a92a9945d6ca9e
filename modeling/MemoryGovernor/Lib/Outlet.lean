import Mathlib.Algebra.BigOperators.Group.Finset.Basic
import Mathlib.Algebra.Order.BigOperators.Group.Finset
import Mathlib.Order.WellFounded

/-!
# Writing to a peer that takes its time

What a stream socket answers to the writes that a loop makes to it, one after another: it has room
for some bytes, or none yet, or the peer has closed, or the write fails for another reason. A loop
that writes `size` bytes, tries again where there is no room and gives up where a write fails comes
to an end (`Settled`) unless the peer closes or stops taking bytes before it has them all. These are
the only ways (`exists_settled_iff`).
-/

namespace Outlet

/-- What the socket is at a write. -/
inductive Answer
  /-- It takes up to `n` bytes. Where it takes none the write fails with `EAGAIN`. -/
  | room (n : ℕ)
  /-- The peer has closed its end. -/
  | closed
  /-- The write fails for another reason. -/
  | failed
deriving DecidableEq, Repr

/-- The bytes for which there is room. -/
def Answer.bytes : Answer → ℕ
  | room n => n
  | closed | failed => 0

variable {w : ℕ → Answer} {size i k : ℕ}

/-- The bytes for which there was room at the first `k` writes. -/
def accepted (w : ℕ → Answer) (k : ℕ) : ℕ := ∑ i ∈ Finset.range k, (w i).bytes

/-- The first `k` writes do not fail, or only with `EAGAIN`. -/
def Open (w : ℕ → Answer) (k : ℕ) : Prop := ∀ i < k, ∃ n, w i = .room n

/-- The peer goes on reading. -/
def Reads (w : ℕ → Answer) : Prop := (∀ i, ∃ n, w i = .room n) ∧ ∀ k, ∃ i, k ≤ i ∧ w i ≠ .room 0

/-- With a part of the bytes still to write, there is no room any more. -/
def Blocks (w : ℕ → Answer) (size : ℕ) : Prop :=
  ∃ k, Open w k ∧ accepted w k < size ∧ ∀ i, k ≤ i → w i = .room 0

/-- With a part of the bytes still to write, the peer has closed. -/
def Closes (w : ℕ → Answer) (size : ℕ) : Prop :=
  ∃ k, Open w k ∧ accepted w k < size ∧ w k = .closed

/-- A peer with room at every write goes on reading. -/
theorem reads_const {n : ℕ} (hn : n ≠ 0) : Reads fun _ => .room n :=
  ⟨fun _ => ⟨n, rfl⟩, fun k => ⟨k, le_rfl, fun h => hn (Answer.room.inj h)⟩⟩

/-- A peer that goes on reading does neither. -/
theorem Reads.not_stops (h : Reads w) : ¬ Blocks w size ∧ ¬ Closes w size := by
  constructor
  · rintro ⟨k, -, -, hroom⟩
    obtain ⟨i, hi, hne⟩ := h.2 k
    exact hne (hroom i hi)
  · rintro ⟨k, -, -, hclosed⟩
    obtain ⟨n, hn⟩ := h.1 k
    exact Answer.noConfusion (hn.symm.trans hclosed)

/-- After `k` writes there is nothing left to write, or the next one fails. -/
def Settled (w : ℕ → Answer) (size k : ℕ) : Prop :=
  Open w k ∧ (size ≤ accepted w k ∨ w k = .failed)

theorem open_zero (w : ℕ → Answer) : Open w 0 := fun _ h => absurd h (Nat.not_lt_zero _)

theorem Open.succ {n : ℕ} (h : Open w k) (hk : w k = .room n) : Open w (k + 1) := by
  intro i hi
  rcases Nat.lt_succ_iff_lt_or_eq.1 hi with hlt | rfl
  · exact h i hlt
  · exact ⟨n, hk⟩

theorem accepted_succ (w : ℕ → Answer) (k : ℕ) : accepted w (k + 1) = accepted w k + (w k).bytes :=
  Finset.sum_range_succ _ _

theorem accepted_mono (w : ℕ → Answer) : Monotone (accepted w) :=
  monotone_nat_of_le_succ fun k => by
    rw [accepted_succ]
    exact Nat.le_add_right _ _

/-- While there is no room nothing is accepted. -/
theorem accepted_eq (hroom : ∀ i, k ≤ i → w i = .room 0) (h : k ≤ i) :
    accepted w i = accepted w k := by
  induction i, h using Nat.le_induction with
  | base => rfl
  | succ i hi ih => rw [accepted_succ, ih, hroom i hi, Answer.bytes, Nat.add_zero]

/-- A loop that has come to an end was not stopped. -/
theorem Settled.not_blocks (h : Settled w size i) : ¬ Blocks w size := by
  rintro ⟨k, hopen, hlt, hroom⟩
  rcases h.2 with hsize | hfailed
  · rcases le_total i k with hik | hki
    · have hmono := accepted_mono w hik
      omega
    · rw [accepted_eq hroom hki] at hsize
      omega
  · rcases lt_or_ge i k with hik | hki
    · obtain ⟨n, hn⟩ := hopen i hik
      exact Answer.noConfusion (hn.symm.trans hfailed)
    · exact Answer.noConfusion ((hroom i hki).symm.trans hfailed)

/-- Nor did the peer close. -/
theorem Settled.not_closes (h : Settled w size i) : ¬ Closes w size := by
  rintro ⟨k, hopen, hlt, hclosed⟩
  rcases lt_trichotomy i k with hik | rfl | hki
  · rcases h.2 with hsize | hfailed
    · have hmono := accepted_mono w hik.le
      omega
    · obtain ⟨n, hn⟩ := hopen i hik
      exact Answer.noConfusion (hn.symm.trans hfailed)
  · rcases h.2 with hsize | hfailed
    · omega
    · exact Answer.noConfusion (hclosed.symm.trans hfailed)
  · obtain ⟨n, hn⟩ := h.1 k hki
    exact Answer.noConfusion (hn.symm.trans hclosed)

/-- The loop makes no more writes than it needs to come to an end. -/
theorem Settled.le (h : Settled w size k) (hopen : Open w i) (hlt : accepted w i < size) :
    i ≤ k := by
  by_contra hki
  rcases h.2 with hsize | hfailed
  · have hmono := accepted_mono w (not_le.1 hki).le
    omega
  · obtain ⟨n, hn⟩ := hopen k (not_le.1 hki)
    exact Answer.noConfusion (hn.symm.trans hfailed)

/-- The loop comes to an end unless one of the two happens. -/
theorem exists_settled_iff : (∃ k, Settled w size k) ↔ ¬ Blocks w size ∧ ¬ Closes w size := by
  constructor
  · rintro ⟨k, h⟩
    exact ⟨h.not_blocks, h.not_closes⟩
  · rintro ⟨hblocks, hcloses⟩
    by_contra hnot
    -- Otherwise no write fails, and the bytes never suffice.
    have hall : ∀ k, Open w k ∧ accepted w k < size := by
      intro k
      induction k with
      | zero =>
        refine ⟨open_zero w, not_le.1 fun hle => hnot ⟨0, open_zero w, .inl hle⟩⟩
      | succ k ih =>
        obtain ⟨hopen, hlt⟩ := ih
        have hroom : ∃ n, w k = .room n := by
          cases hw : w k with
          | room n => exact ⟨n, rfl⟩
          | closed => exact absurd ⟨k, hopen, hlt, hw⟩ hcloses
          | failed => exact absurd ⟨k, hopen, .inr hw⟩ hnot
        obtain ⟨n, hn⟩ := hroom
        have hopen' := hopen.succ hn
        exact ⟨hopen', not_le.1 fun hle => hnot ⟨k + 1, hopen', .inl hle⟩⟩
    -- Where the most is accepted, there is no more room.
    obtain ⟨k, hk⟩ : ∃ k, ∀ i, accepted w i ≤ accepted w k := by
      refine ⟨Function.argmin fun k => size - accepted w k, fun i => ?_⟩
      have hmin := Function.argmin_le (fun k => size - accepted w k) i
      have hi := (hall i).2
      have hk := (hall (Function.argmin fun k => size - accepted w k)).2
      omega
    refine hblocks ⟨k, (hall k).1, (hall k).2, fun i hi => ?_⟩
    obtain ⟨n, hn⟩ := (hall (i + 1)).1 i (Nat.lt_succ_self i)
    have hle := hk (i + 1)
    have hmono := accepted_mono w hi
    rw [accepted_succ, hn, Answer.bytes] at hle
    obtain rfl : n = 0 := by omega
    exact hn

end Outlet
