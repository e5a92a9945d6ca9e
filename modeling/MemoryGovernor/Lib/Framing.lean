import Mathlib.Algebra.Group.Nat.Defs
import MemoryGovernor.Lib.Bytes

/-!
# Frames in a stream of bytes

A frame is a payload after its length, four bytes with the highest one first. A stream has no marks
between its frames, so a reader keeps its position (`Position`): before a length, or in a payload
with what it has read of it. `InStep` says of a position and the bytes still to come that whole
payloads have been read so far. A length that is read in one piece keeps the reader in step
(`InStep.read_length`), and so does a payload that is read in any pieces (`InStep.read_payload`).

A sender need not keep to frames. `WholeFrames` are the streams that do not end inside of a payload
that they have announced.
-/

namespace Framing

/-- Four bytes, the highest first: `htonl` in memory. -/
def be32 (n : ℕ) : Bytes :=
  [UInt8.ofNat (n / 2^24), UInt8.ofNat (n / 2^16), UInt8.ofNat (n / 2^8), UInt8.ofNat n]

/-- The number that bytes stand for, the highest first: `ntohl`. -/
def readBe32 (s : Bytes) : ℕ := s.foldl (fun n b => 2^8 * n + b.toNat) 0

@[simp]
theorem be32_length (n : ℕ) : (be32 n).length = 4 := rfl

/-- A number of 32 bits is read back. -/
theorem readBe32_be32 {n : ℕ} (h : n < 2^32) : readBe32 (be32 n) = n := by
  simp only [be32, readBe32, List.foldl_cons, List.foldl_nil, UInt8.toNat_ofNat']
  omega

/-- A payload that a frame can carry. -/
structure Payload where
  bytes : Bytes
  length_pos : 0 < bytes.length
  length_lt : bytes.length < 2^32

/-- The frame of a payload. -/
def Payload.frame (p : Payload) : Bytes := be32 p.bytes.length ++ p.bytes

/-- Frames one after another. -/
def stream (ps : List Payload) : Bytes := ps.flatMap Payload.frame

@[simp]
theorem stream_nil : stream [] = [] := rfl

@[simp]
theorem stream_cons (p : Payload) (ps : List Payload) :
    stream (p :: ps) = be32 p.bytes.length ++ (p.bytes ++ stream ps) := by
  rw [stream, List.flatMap_cons, Payload.frame, List.append_assoc]
  rfl

/-- Where a reader is. -/
inductive Position
  /-- Before a length. -/
  | header
  /-- In a payload of length `len`, of which it has `got`. -/
  | payload (len : ℕ) (got : Bytes)
deriving DecidableEq, Repr

/-- The reader has read whole payloads so far, `s` is still to come, and `ps` are the payloads that
it has not read to the end. -/
inductive InStep : Position → Bytes → List Payload → Prop
  | header (ps : List Payload) : InStep .header (stream ps) ps
  | payload (p : Payload) (ps : List Payload) {got rest : Bytes} (hp : p.bytes = got ++ rest)
      (hrest : rest ≠ []) : InStep (.payload p.bytes.length got) (rest ++ stream ps) (p :: ps)

section InStep

variable {s got : Bytes} {ps : List Payload} {len k : ℕ} {pos : Position}

/-- A reader in step that has nothing left to read has read every payload. -/
theorem InStep.eq_nil (h : InStep pos [] ps) : pos = .header ∧ ps = [] := by
  generalize hs : ([] : Bytes) = s at h
  cases h with
  | header ps =>
    cases ps with
    | nil => exact ⟨rfl, rfl⟩
    | cons p ps => simp [be32] at hs
  | payload p ps hp hrest => exact absurd (List.append_eq_nil_iff.1 hs.symm).1 hrest

/-- Where something is still to come, a payload is. -/
theorem InStep.ne_nil (h : InStep pos s ps) (hs : s ≠ []) : ps ≠ [] := by
  cases h with
  | header ps =>
    rintro rfl
    exact hs rfl
  | payload p ps hp hrest => exact List.cons_ne_nil p ps

/-- All of the payloads after the next one are still to come, and something of that one. -/
theorem InStep.stream_lt {p : Payload} (h : InStep pos s (p :: ps)) :
    (stream ps).length < s.length := by
  generalize hall : p :: ps = all at h
  cases h with
  | header all =>
    rw [← hall, stream_cons, List.length_append, List.length_append, be32_length]
    omega
  | @payload p' ps' got rest hp hrest =>
    obtain ⟨rfl, rfl⟩ := List.cons.inj hall
    have hpos : 0 < rest.length := List.length_pos_of_ne_nil hrest
    rw [List.length_append]
    omega

/-- Before a length, what is still to come is nothing or has a length. -/
theorem InStep.four_le (h : InStep .header s ps) (hs : s ≠ []) : 4 ≤ s.length := by
  cases h with
  | header ps =>
    cases ps with
    | nil => exact absurd rfl hs
    | cons p ps =>
      rw [stream_cons, List.length_append, be32_length]
      exact Nat.le_add_right _ _

/-- In a payload, something of it is still to come. -/
theorem InStep.payload_lt (h : InStep (.payload len got) s ps) :
    got.length < len ∧ 0 < s.length := by
  cases h with
  | @payload p ps got rest hp hrest =>
    have hpos : 0 < rest.length := List.length_pos_of_ne_nil hrest
    rw [hp, List.length_append, List.length_append]
    omega

/-- Before a length, the next four bytes are that of the next payload. -/
theorem InStep.read_length (h : InStep .header s ps) (hs : 4 ≤ s.length) :
    ∃ p ps', ps = p :: ps' ∧ readBe32 (s.take 4) = p.bytes.length ∧
      InStep (.payload p.bytes.length []) (s.drop 4) ps := by
  cases h with
  | header ps =>
    cases ps with
    | nil => simp at hs
    | cons p ps =>
      have hne : p.bytes ≠ [] := List.ne_nil_of_length_pos p.length_pos
      have htake : (stream (p :: ps)).take 4 = be32 p.bytes.length := by
        rw [stream_cons]
        rfl
      refine ⟨p, ps, rfl, htake ▸ readBe32_be32 p.length_lt, ?_⟩
      rw [stream_cons]
      exact InStep.payload p ps rfl hne

/-- The length of what has been read with `k` bytes more. -/
theorem length_append_take (h : k ≤ s.length) : (got ++ s.take k).length = got.length + k := by
  rw [List.length_append, List.length_take, Nat.min_eq_left h]

/-- In a payload, any part of what is missing of it may be read. -/
theorem InStep.read_payload (h : InStep (.payload len got) s ps) (hk : got.length + k ≤ len) :
    (got.length + k < len → InStep (.payload len (got ++ s.take k)) (s.drop k) ps) ∧
      (got.length + k = len → ∃ p ps', ps = p :: ps' ∧ p.bytes = got ++ s.take k ∧
        InStep .header (s.drop k) ps') := by
  cases h with
  | @payload p ps got rest hp hrest =>
    have hlen : p.bytes.length = got.length + rest.length := by rw [hp, List.length_append]
    have htake : (rest ++ stream ps).take k = rest.take k :=
      List.take_append_of_le_length (by omega)
    have hdrop : (rest ++ stream ps).drop k = rest.drop k ++ stream ps :=
      List.drop_append_of_le_length (by omega)
    rw [htake, hdrop]
    constructor
    · intro hlt
      refine InStep.payload p ps (by rw [List.append_assoc, List.take_append_drop, hp])
        fun hnil => ?_
      have := List.drop_eq_nil_iff.1 hnil
      omega
    · intro heq
      have hall : rest.length ≤ k := by omega
      rw [List.take_of_length_le hall, List.drop_of_length_le hall, List.nil_append]
      exact ⟨p, ps, rfl, hp, InStep.header ps⟩

end InStep

/-! ## Reads from what has come -/

/-- What a reader has after a `read`. -/
inductive Outcome
  /-- It goes on. -/
  | more (position : Position)
  /-- A payload is complete. -/
  | whole (payload : Bytes)
deriving DecidableEq, Repr

/-- A `read` of `n` of the bytes `s` that have come. A length is read in one piece, a payload in any
pieces. -/
def Position.read (s : Bytes) (n : ℕ) : Position → Option Outcome
  | .header =>
    if n = 4 ∧ 4 ≤ s.length then
      let len := readBe32 (s.take 4)
      some (if len = 0 then .whole [] else .more (.payload len []))
    else none
  | .payload len got =>
    if 1 ≤ n ∧ got.length + n ≤ len ∧ n ≤ s.length then
      let got := got ++ s.take n
      some (if got.length < len then .more (.payload len got) else .whole got)
    else none

section Read

variable {s future : Bytes} {ps qs : List Payload} {n : ℕ} {pos : Position} {out : Outcome}

/-- A `read` takes some of the bytes that have come. -/
theorem Position.read_le (h : pos.read s n = some out) : 1 ≤ n ∧ n ≤ s.length := by
  cases pos with
  | header =>
    obtain ⟨⟨rfl, h4⟩, -⟩ := Option.ite_none_right_eq_some.1 h
    exact ⟨by decide, h4⟩
  | payload len got =>
    obtain ⟨⟨h1, -, hn⟩, -⟩ := Option.ite_none_right_eq_some.1 h
    exact ⟨h1, hn⟩

/-- What comes later makes no difference to it. -/
theorem Position.read_append (h : pos.read s n = some out) :
    pos.read (s ++ future) n = some out := by
  have hn := (Position.read_le h).2
  have hlen : s.length ≤ (s ++ future).length := by
    rw [List.length_append]
    exact Nat.le_add_right _ _
  cases pos with
  | header =>
    obtain ⟨⟨rfl, h4⟩, hout⟩ := Option.ite_none_right_eq_some.1 h
    rw [Position.read, if_pos ⟨rfl, h4.trans hlen⟩, List.take_append_of_le_length h4]
    exact hout
  | payload len got =>
    obtain ⟨⟨h1, hle, -⟩, hout⟩ := Option.ite_none_right_eq_some.1 h
    rw [Position.read, if_pos ⟨h1, hle, hn.trans hlen⟩, List.take_append_of_le_length hn]
    exact hout

/-- A reader in step stays in step, or has the next payload. -/
theorem InStep.read (h : InStep pos s ps) (hread : pos.read s n = some out) :
    (∃ pos', out = .more pos' ∧ InStep pos' (s.drop n) ps) ∨
      ∃ p ps', ps = p :: ps' ∧ out = .whole p.bytes ∧ InStep .header (s.drop n) ps' := by
  cases pos with
  | header =>
    obtain ⟨⟨rfl, h4⟩, hout⟩ := Option.ite_none_right_eq_some.1 hread
    obtain ⟨p, ps', rfl, hlen, hin⟩ := h.read_length h4
    rw [hlen] at hout
    simp only [p.length_pos.ne', if_false, Option.some.injEq] at hout
    exact .inl ⟨_, hout.symm, hin⟩
  | payload len got =>
    obtain ⟨⟨-, hle, hn⟩, hout⟩ := Option.ite_none_right_eq_some.1 hread
    obtain ⟨hmore, hwhole⟩ := h.read_payload hle
    simp only [length_append_take hn, Option.some.injEq] at hout
    rcases hle.lt_or_eq with hlt | heq
    · rw [if_pos hlt] at hout
      exact .inl ⟨_, hout.symm, hmore hlt⟩
    · rw [if_neg heq.ge.not_gt] at hout
      obtain ⟨p, ps', hps, hbytes, hin⟩ := hwhole heq
      exact .inr ⟨p, ps', hps, by rw [← hout, hbytes], hin⟩

/-- A reader in step can read what has come, before a length if all of it has. -/
theorem InStep.exists_read (h : InStep pos (s ++ future) ps) (hs : s ≠ [])
    (hheader : pos = .header → 4 ≤ s.length) : ∃ n out, pos.read s n = some out := by
  have hpos : 1 ≤ s.length := List.length_pos_of_ne_nil hs
  cases pos with
  | header => exact ⟨4, _, if_pos ⟨rfl, hheader rfl⟩⟩
  | payload len got => exact ⟨1, _, if_pos ⟨le_rfl, h.payload_lt.1, hpos⟩⟩

/-- More payloads may be sent. -/
theorem InStep.append (h : InStep pos s ps) : InStep pos (s ++ stream qs) (ps ++ qs) := by
  have happend : ∀ ps : List Payload, stream ps ++ stream qs = stream (ps ++ qs) := fun ps =>
    List.flatMap_append.symm
  cases h with
  | header ps =>
    rw [happend]
    exact .header (ps ++ qs)
  | payload p ps hp hrest =>
    rw [List.append_assoc, happend, List.cons_append]
    exact .payload p (ps ++ qs) hp hrest

end Read

/-- The streams that end before or in a length: every payload that they announce is there. -/
inductive WholeFrames : Bytes → Prop
  | tail {s : Bytes} (h : s.length < 4) : WholeFrames s
  | frame {s : Bytes} (h : 4 + readBe32 (s.take 4) ≤ s.length)
      (hrest : WholeFrames (s.drop (4 + readBe32 (s.take 4)))) : WholeFrames s

/-- Frames one after another are whole. -/
theorem wholeFrames_stream (ps : List Payload) : WholeFrames (stream ps) := by
  induction ps with
  | nil => exact .tail (by simp)
  | cons p ps ih =>
    have hread : readBe32 ((stream (p :: ps)).take 4) = p.bytes.length := by
      rw [stream_cons]
      exact readBe32_be32 p.length_lt
    refine .frame ?_ ?_
    · rw [hread]
      simp
    · rw [hread, stream_cons, ← List.drop_drop]
      simpa [be32] using ih

end Framing
