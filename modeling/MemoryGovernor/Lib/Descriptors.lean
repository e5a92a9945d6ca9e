import Mathlib.Data.Finset.Basic

/-!
# Descriptors

The kernel's table of open descriptors, as far as one owner goes: those that the owner has opened
and not closed. A new descriptor is one that is not open, and may be one that was closed before.
`close` of a descriptor that is not open fails, or closes another owner's; the table counts these
calls (`stray`). So an owner has closed what it opened, each descriptor once for each time that it
was opened, if in the end none is open and no call was stray.
-/

/-- The descriptors of an owner. -/
@[ext]
structure Descriptors where
  opened : Finset ℕ := ∅
  /-- The number of calls of `close` on a descriptor that was not open. -/
  stray : ℕ := 0
deriving DecidableEq

namespace Descriptors

/-- The kernel opens `fd`. -/
def create (d : Descriptors) (fd : ℕ) : Option Descriptors :=
  if fd ∈ d.opened then none else some { d with opened := insert fd d.opened }

/-- `close`. -/
def close (d : Descriptors) (fd : ℕ) : Descriptors :=
  if fd ∈ d.opened then { d with opened := d.opened.erase fd } else { d with stray := d.stray + 1 }

/-- `close`, where there is a descriptor. -/
def closeIfSome (d : Descriptors) : Option ℕ → Descriptors
  | none => d
  | some fd => d.close fd

/-- `close`, one descriptor after another. -/
def closeAll (d : Descriptors) (fds : List ℕ) : Descriptors := fds.foldl close d

section Rules

variable {d d' : Descriptors} {fd fd' : ℕ} {fds : List ℕ}

theorem create_eq_some : d.create fd = some d' ↔
    fd ∉ d.opened ∧ d' = { d with opened := insert fd d.opened } := by
  unfold create
  split_ifs with h
  · exact iff_of_false (by simp) fun h' => h'.1 h
  · rw [Option.some.injEq, eq_comm]
    exact (and_iff_right h).symm

/-- A descriptor that is open is closed. -/
theorem close_of_mem (h : fd ∈ d.opened) : d.close fd = { d with opened := d.opened.erase fd } :=
  if_pos h

/-- A new descriptor that is closed again leaves the table as it was. -/
theorem close_create (h : d.create fd = some d') : d'.close fd = d := by
  obtain ⟨hnew, rfl⟩ := create_eq_some.1 h
  rw [close_of_mem (Finset.mem_insert_self fd d.opened)]
  exact Descriptors.ext (Finset.erase_insert hnew) rfl

/-- What is open after `close`. -/
theorem mem_close : fd' ∈ (d.close fd).opened ↔ fd' ≠ fd ∧ fd' ∈ d.opened := by
  unfold close
  split_ifs with h
  · exact Finset.mem_erase
  · refine (and_iff_right_of_imp ?_).symm
    rintro hmem rfl
    exact h hmem

/-- Different descriptors that are open are closed in any order. -/
theorem closeAll_of_subset (hnodup : fds.Nodup) (h : ∀ fd ∈ fds, fd ∈ d.opened) :
    d.closeAll fds = { d with opened := d.opened \ fds.toFinset } := by
  induction fds generalizing d with
  | nil => simp [closeAll]
  | cons fd fds ih =>
    obtain ⟨hfd, hfds⟩ := List.forall_mem_cons.1 h
    obtain ⟨hnotMem, hnodup⟩ := List.nodup_cons.1 hnodup
    have hrest : ∀ fd' ∈ fds, fd' ∈ (d.close fd).opened := by
      intro fd' hmem
      refine mem_close.2 ⟨?_, hfds fd' hmem⟩
      rintro rfl
      exact hnotMem hmem
    have hstep : d.closeAll (fd :: fds) = (d.close fd).closeAll fds := rfl
    rw [hstep, ih hnodup hrest, close_of_mem hfd, List.toFinset_cons]
    congr 1
    ext fd'
    simp only [Finset.mem_sdiff, Finset.mem_erase, Finset.mem_insert, not_or]
    tauto

end Rules

end Descriptors
