import MemoryGovernor.Registry.Reader

/-!
# Returning to the event loop

Whether a call of `handle_client_message` returns when the client has sent some bytes, keeps the
connection open and sends nothing more. The outer loop returns when there is nothing to read; the
inner one tries again. So the call returns when every payload that was announced is there, and only
then (`returns_iff`). What is left to read is the measure (`work`); a call in which something
announced is missing has a next read at every point (`wedged_step`), the last ones all failing.
-/

namespace MemoryGovernor

open Framing (Position WholeFrames readBe32 length_append_take)

namespace Reader

variable (client_fd : ℕ)

/-- What `read` returns where the client has sent all of `pending`, keeps the connection open and
sends nothing more: a length that is there is read in one piece, a payload in any pieces, and
`EAGAIN` comes when nothing is left. -/
def Answers (s : Reader) : ReadEvent → Prop
  | .data n => s.position = some .header → n = min 4 s.pending.length
  | .again => s.pending = []
  | .wakeup | .closed => False

/-- The call returns: the number of its reads is bounded, and until it has returned there is a next
one. -/
def Returns (s : Reader) : Prop :=
  Machine.Reaches (step client_fd) Answers (fun t => t.position = none) s

/-- What is missing of a payload is there, and whole frames after it. -/
def Covers (missing : ℕ) (pending : Bytes) : Prop :=
  missing ≤ pending.length ∧ WholeFrames (pending.drop missing)

/-- A length that is there is one of whole frames if what it announces is there. -/
theorem wholeFrames_iff {s : Bytes} (h4 : 4 ≤ s.length) :
    WholeFrames s ↔ Covers (readBe32 (s.take 4)) (s.drop 4) := by
  rw [Covers, List.length_drop, List.drop_drop]
  constructor
  · intro h
    cases h with
    | tail hlt => omega
    | frame hle hrest => exact ⟨by omega, hrest⟩
  · rintro ⟨hle, hrest⟩
    exact .frame (by omega) hrest

/-- Where the handler is, every payload announced to it is there. -/
def Whole (s : Reader) : Prop :=
  match s.position with
  | none => True
  | some .header => WholeFrames s.pending
  | some (.payload msg_len got) =>
    got.length < msg_len ∧ Covers (msg_len - got.length) s.pending

/-- Where the handler is, one of them is not. -/
def Wedged (s : Reader) : Prop :=
  match s.position with
  | none => False
  | some .header => ¬ WholeFrames s.pending
  | some (.payload msg_len got) =>
    got.length < msg_len ∧ ¬ Covers (msg_len - got.length) s.pending

section Returning

variable {client_fd} {s t : Reader} {msg_len : ℕ} {got : Bytes}

/-- A payload that is read to the end leaves the handler before a length. -/
theorem handlePayload_eq (client_fd : ℕ) (s : Reader) (json : Bytes) :
    (s.handlePayload client_fd json).position = some .header ∧
      (s.handlePayload client_fd json).pending = s.pending := by
  unfold handlePayload
  cases Message.deserialize json with
  | ok msg => exact ⟨rfl, rfl⟩
  | error err => exact ⟨rfl, rfl⟩

/-- The condition of the inner loop reads nothing, and goes on where something is missing. -/
theorem readPayload_cases (client_fd : ℕ) (s : Reader) (msg_len : ℕ) (got : Bytes) :
    (s.readPayload client_fd msg_len got).pending = s.pending ∧
      ((s.readPayload client_fd msg_len got).position = some (.payload msg_len got) ∧
          got.length < msg_len ∨
        (s.readPayload client_fd msg_len got).position = some .header ∧ msg_len ≤ got.length) := by
  unfold readPayload
  split_ifs with hlt
  · exact ⟨rfl, .inl ⟨rfl, hlt⟩⟩
  · obtain ⟨hpos, hpending⟩ := handlePayload_eq client_fd s got
    exact ⟨hpending, .inr ⟨hpos, not_lt.1 hlt⟩⟩

/-- Nothing missing, and the rest in whole frames. -/
theorem covers_zero {pending : Bytes} : Covers 0 pending ↔ WholeFrames pending :=
  and_iff_right (Nat.zero_le _)

theorem whole_readPayload :
    (s.readPayload client_fd msg_len got).Whole ↔ Covers (msg_len - got.length) s.pending := by
  obtain ⟨hpending, ⟨hpos, hlt⟩ | ⟨hpos, hle⟩⟩ := readPayload_cases client_fd s msg_len got
  · simp only [Whole, hpos, hpending]
    exact and_iff_right hlt
  · simp only [Whole, hpos, hpending]
    rw [Nat.sub_eq_zero_of_le hle, covers_zero]

theorem wedged_readPayload :
    (s.readPayload client_fd msg_len got).Wedged ↔ ¬ Covers (msg_len - got.length) s.pending := by
  obtain ⟨hpending, ⟨hpos, hlt⟩ | ⟨hpos, hle⟩⟩ := readPayload_cases client_fd s msg_len got
  · simp only [Wedged, hpos, hpending]
    exact and_iff_right hlt
  · simp only [Wedged, hpos, hpending]
    rw [Nat.sub_eq_zero_of_le hle, covers_zero]

/-- A part of what is missing. -/
theorem covers_drop {n missing : ℕ} {pending : Bytes} (h : n ≤ missing) (hn : n ≤ pending.length) :
    Covers (missing - n) (pending.drop n) ↔ Covers missing pending := by
  rw [Covers, Covers, List.length_drop, List.drop_drop, Nat.add_sub_cancel' h]
  exact and_congr_left fun _ => by omega

/-- What is left to do in a call. -/
def work (s : Reader) : ℕ :=
  match s.position with
  | none => 0
  | some _ => s.pending.length + 1

theorem work_readPayload (s : Reader) (msg_len : ℕ) (got : Bytes) :
    (s.readPayload client_fd msg_len got).work = s.pending.length + 1 := by
  obtain ⟨hpending, ⟨hpos, -⟩ | ⟨hpos, -⟩⟩ := readPayload_cases client_fd s msg_len got
  · rw [work, hpos, hpending]
  · rw [work, hpos, hpending]

/-- Where every announced payload is there, a step makes progress and keeps it so. -/
theorem whole_step {e : ReadEvent} {o : Unit} (h : s.Whole) (hans : Answers s e)
    (hstep : step client_fd s e = some (o, t)) : t.Whole ∧ t.work < s.work := by
  cases steps_of_step client_fd hstep with
  | wakeup hpos => exact hans.elim
  | @short n hpos h1 h4 hn =>
    -- Less than four bytes are left, and now none.
    have hmin : n = min 4 s.pending.length := hans hpos
    have hlen : (s.pending.drop n).length = 0 := by
      rw [List.length_drop]
      omega
    simp only [Whole, work, hpos]
    exact ⟨.tail (by omega), by omega⟩
  | length hpos h4 =>
    rw [Whole, hpos] at h
    rw [whole_readPayload, work_readPayload, work, hpos]
    refine ⟨(wholeFrames_iff h4).1 h, ?_⟩
    simp only [List.length_drop]
    omega
  | @part n msg_len got hpos h1 hlen hn =>
    rw [Whole, hpos] at h
    have hgot : (got ++ s.pending.take n).length = got.length + n :=
      length_append_take hn
    rw [whole_readPayload, work_readPayload, work, hpos, hgot, ← Nat.sub_sub]
    refine ⟨(covers_drop (by omega) hn).2 h.2, ?_⟩
    simp only [List.length_drop]
    omega
  | leave hpos =>
    simp only [Whole, work, hpos]
    exact ⟨trivial, Nat.succ_pos _⟩
  | retry hpos =>
    -- Nothing is left, but something is missing.
    have hnil : s.pending = [] := hans
    rw [Whole, hpos, hnil] at h
    have hle : _ ≤ 0 := h.2.1
    omega
  | closed hpos => exact hans.elim

/-- Where one of them is not, there is a step and it is not after it. -/
theorem wedged_step (h : s.Wedged) :
    ∃ e o t, Answers s e ∧ step client_fd s e = some (o, t) ∧ t.Wedged := by
  unfold Wedged at h
  split at h
  next => exact h.elim
  next hpos =>
    have h4 : 4 ≤ s.pending.length := not_lt.1 fun hlt => h (.tail hlt)
    refine ⟨.data 4, (), _, fun _ => (Nat.min_eq_left h4).symm, step_length client_fd hpos h4, ?_⟩
    exact wedged_readPayload.2 (mt (wholeFrames_iff h4).2 h)
  next msg_len got hpos =>
    obtain ⟨hlt, hcovers⟩ := h
    rcases Nat.eq_zero_or_pos s.pending.length with hzero | hsome
    · -- Nothing is left: the inner loop tries again, in the same state.
      refine ⟨.again, (), s, List.eq_nil_of_length_eq_zero hzero, by simp only [step, hpos], ?_⟩
      rw [Wedged, hpos]
      exact ⟨hlt, hcovers⟩
    · obtain ⟨n, hn⟩ : ∃ n, n = min (msg_len - got.length) s.pending.length := ⟨_, rfl⟩
      have hgot : (got ++ s.pending.take n).length = got.length + n :=
        length_append_take (by omega)
      refine ⟨.data n, (), _, fun hpos' => ?_,
        step_part client_fd hpos (by omega) (by omega) (by omega), ?_⟩
      · rw [hpos] at hpos'
        cases hpos'
      · rw [wedged_readPayload, hgot, ← Nat.sub_sub]
        exact mt (covers_drop (by omega) (by omega)).1 hcovers

/-- Until the call returns there is a next read. -/
theorem exists_answer (h : s.Whole) (hpos : s.position ≠ none) :
    ∃ e o t, Answers s e ∧ step client_fd s e = some (o, t) := by
  have hagain : s.pending = [] → ∃ e o t, Answers s e ∧ step client_fd s e = some (o, t) := by
    intro hnil
    obtain ⟨pos, hsome⟩ := Option.ne_none_iff_exists'.1 hpos
    cases pos with
    | header => exact ⟨.again, (), { s with position := none }, hnil, by simp only [step, hsome]⟩
    | payload msg_len got => exact ⟨.again, (), s, hnil, by simp only [step, hsome]⟩
  rcases Nat.eq_zero_or_pos s.pending.length with hzero | hsome
  · exact hagain (List.eq_nil_of_length_eq_zero hzero)
  unfold Whole at h
  split at h
  next hnone => exact absurd hnone hpos
  next hheader =>
    rcases lt_or_ge s.pending.length 4 with hlt | h4
    · refine ⟨.data s.pending.length, (), { s with pending := s.pending.drop s.pending.length },
        fun _ => (Nat.min_eq_right hlt.le).symm, ?_⟩
      simp only [step, hheader]
      rw [if_pos ⟨hsome, hlt.le, le_rfl⟩, if_pos hlt]
    · exact ⟨.data 4, (), _, fun _ => (Nat.min_eq_left h4).symm, step_length client_fd hheader h4⟩
  next msg_len got hpayload =>
    -- What is missing is there, so all of it may come at once.
    obtain ⟨hlt, hle, -⟩ := h
    refine ⟨.data (msg_len - got.length), (), _, fun hheader => ?_,
      step_part client_fd hpayload (by omega) (by omega) hle⟩
    rw [hpayload] at hheader
    cases hheader

/-- The handler returns from reading whole frames. -/
theorem returns_of_wholeFrames {r : ClientRegistry} {bytes : Bytes} (h : WholeFrames bytes) :
    Returns client_fd ⟨r, some .header, bytes⟩ := by
  have hwhole : Whole ⟨r, some .header, bytes⟩ := h
  exact Machine.reaches_of_measure work (fun _ _ _ _ => whole_step)
    (fun t ht => or_iff_not_imp_left.2 (exists_answer ht)) hwhole

/-- It does not where they are not whole. -/
theorem not_returns {r : ClientRegistry} {bytes : Bytes} (h : ¬ WholeFrames bytes) :
    ¬ Returns client_fd ⟨r, some .header, bytes⟩ := by
  have hwedged : Wedged ⟨r, some .header, bytes⟩ := h
  exact fun hreturns => Machine.not_terminates (fun _ => wedged_step) hwedged hreturns.1

/-- It returns from reading any messages of a client that sends each of them to the end. -/
theorem returns_frames (client_fd : ℕ) (r : ClientRegistry) (msgs : List Message) :
    Returns client_fd ⟨r, some .header, msgs.flatMap Message.frame⟩ :=
  returns_of_wholeFrames (Message.stream_toPayload msgs ▸ Framing.wholeFrames_stream _)

/-- What a client has sent is whole frames exactly when the handler returns from reading it. -/
theorem returns_iff (client_fd : ℕ) (r : ClientRegistry) (bytes : Bytes) :
    Returns client_fd ⟨r, some .header, bytes⟩ ↔ WholeFrames bytes := by
  constructor
  · intro h
    by_contra hnot
    exact not_returns hnot h
  · exact returns_of_wholeFrames

/-- Four bytes that announce a payload of ten are enough to keep the thread in the call. -/
theorem not_returns_announcement :
    ¬ Returns 5 ⟨accepted, some .header, Framing.be32 10⟩ := by
  have hnot : ¬ WholeFrames (Framing.be32 10) := fun h =>
    absurd ((wholeFrames_iff le_rfl).1 h).1 (by decide)
  exact not_returns hnot

end Returning

end Reader

end MemoryGovernor
