import MemoryGovernor.System.Listener
import MemoryGovernor.Wire.Decoding

/-!
# What ends the listener's thread

Which bytes let an exception leave `listener_loop`. The daemon decodes inside of a `try` block
(`Registry/Malformed.lean`); the client does not, so its thread, and the process with it, ends at
the first payload that does not decode. A payload gets to the decoder if its length passes the
sanity check and all of it is there. Bytes with such a payload among their frames are `Poisoned`.
The listener survives every way of reading all other bytes (`safe_step`), and there is a way of
reading these that it does not survive (`exists_terminated`).
-/

namespace MemoryGovernor

open Bytes (ascii)
open Framing (be32 readBe32 length_append_take)
open Message (Decodable)

namespace Listener

/-- The payload of the first frame and what comes after it, where the length passes the check of the
loop and the payload is all there. -/
def firstFrame (s : Bytes) : Option (Bytes × Bytes) :=
  let len := readBe32 (s.take 4)
  if 1 ≤ len ∧ len ≤ 65536 ∧ 4 + len ≤ s.length then
    some ((s.drop 4).take len, s.drop (4 + len))
  else none

/-- One of the payloads in these bytes does not decode. -/
inductive Poisoned : Bytes → Prop
  | payload {s json rest : Bytes} (h : firstFrame s = some (json, rest))
      (hjson : ¬ Decodable json) : Poisoned s
  | later {s json rest : Bytes} (h : firstFrame s = some (json, rest)) (hrest : Poisoned rest) :
      Poisoned s

variable {c : Callbacks} {s t : Listener}

/-! ## The listener survives -/

/-- Where the thread is in a payload and the rest of it is there, the payload decodes, and what
comes after it is not poisoned. -/
def Clean (missing : ℕ) (got pending : Bytes) : Prop :=
  missing ≤ pending.length →
    Decodable (got ++ pending.take missing) ∧ ¬ Poisoned (pending.drop missing)

/-- The thread is not terminated, and will not be. -/
def Safe (s : Listener) : Prop :=
  match s.control with
  | .top => s.connected = true → ¬ Poisoned s.pending
  | .reading .header => ¬ Poisoned s.pending
  | .reading (.payload len got) => got.length < len ∧ Clean (len - got.length) got s.pending
  | .over => True
  | .terminated => False

/-- A length that passes the check is that of a payload that decodes. -/
theorem clean_of_not_poisoned {pending : Bytes} (h : ¬ Poisoned pending)
    (h4 : 4 ≤ pending.length) (hpos : 1 ≤ readBe32 (pending.take 4))
    (hle : readBe32 (pending.take 4) ≤ 65536) :
    Clean (readBe32 (pending.take 4)) [] (pending.drop 4) := by
  intro hthere
  rw [List.length_drop] at hthere
  have hfirst : firstFrame pending = some ((pending.drop 4).take (readBe32 (pending.take 4)),
      pending.drop (4 + readBe32 (pending.take 4))) := if_pos ⟨hpos, hle, by omega⟩
  rw [List.nil_append, List.drop_drop]
  exact ⟨by_contra fun hjson => h (.payload hfirst hjson), fun hrest => h (.later hfirst hrest)⟩

/-- A part of the payload leaves the rest clean. -/
theorem Clean.read {missing n : ℕ} {got pending : Bytes} (h : Clean missing got pending)
    (hn : n ≤ missing) (hp : n ≤ pending.length) :
    Clean (missing - n) (got ++ pending.take n) (pending.drop n) := by
  intro hthere
  rw [List.length_drop] at hthere
  obtain ⟨hjson, hrest⟩ := h (by omega)
  rw [List.append_assoc, ← List.take_add, List.drop_drop, Nat.add_sub_cancel' hn]
  exact ⟨hjson, hrest⟩

/-- What one step keeps. -/
theorem safe_step {e : ListenerEvent} {o : Option Callback} (h : s.Safe)
    (hstep : step c s e = some (o, t)) : t.Safe := by
  cases steps_of_step c hstep with
  | listen hpos hgo =>
    rw [Safe, hpos] at h
    exact h hgo.2
  | leave hpos hgo => exact trivial
  | short hpos h4 => exact fun hc => absurd hc Bool.false_ne_true
  | badLength hpos h4 hlen => exact fun hc => absurd hc Bool.false_ne_true
  | length hpos h4 h1 hle =>
    rw [Safe, hpos] at h
    exact ⟨h1, clean_of_not_poisoned h h4 h1 hle⟩
  | @part n len got hpos hn hlen =>
    rw [Safe, hpos] at h
    have hgot : (got ++ s.pending.take n).length = got.length + n := length_append_take hn
    have hread := h.2.read (n := n) (by omega) hn
    rw [Nat.sub_sub, ← hgot] at hread
    exact ⟨hgot ▸ hlen, hread⟩
  | @last n len got hpos hn hlen =>
    -- The payload is complete, so it decodes if the loop comes to that.
    rw [Safe, hpos] at h
    obtain rfl : n = len - got.length := by omega
    obtain ⟨hjson, hrest⟩ := h.2 hn
    obtain ⟨msg, hmsg⟩ := Message.exists_deserialize.2 hjson
    rw [handlePayload, hmsg]
    split_ifs
    · exact fun _ => hrest
    · exact fun _ => hrest
  | ended he => exact fun hc => absurd hc Bool.false_ne_true
  | disconnected =>
    unfold Safe at h ⊢
    cases hpos : s.control with
    | top => exact fun hc => absurd hc Bool.false_ne_true
    | reading position =>
      rw [hpos] at h
      cases position with
      | header => exact h
      | payload len got => exact h
    | terminated =>
      rw [hpos] at h
      exact h.elim
    | _ => trivial
  | stopped => exact h

/-! ## The listener does not -/

/-- The reads that take in the first frame. -/
def frameReads (json : Bytes) : List ListenerEvent := [.loop, .data 4, .data json.length]

/-- The first frame is read to the end, and its payload is handled. -/
theorem run_frameReads {bytes json rest : Bytes} (h : firstFrame bytes = some (json, rest)) :
    ∃ outs, Machine.run (step c) (init bytes) (frameReads json) = some (outs,
      (handlePayload c ⟨true, true, .reading (.payload json.length []), rest⟩ json).2) := by
  simp only [firstFrame] at h
  split_ifs at h with hlen
  obtain ⟨rfl, rfl⟩ := Prod.mk.inj (Option.some.inj h)
  obtain ⟨hpos, hle, hthere⟩ := hlen
  generalize hread : readBe32 (bytes.take 4) = len at hpos hle hthere ⊢
  have hlen : ((bytes.drop 4).take len).length = len := by
    rw [List.length_take, List.length_drop]
    omega
  have hlength : step c ⟨true, true, .reading .header, bytes⟩ (.data 4) =
      some (none, ⟨true, true, .reading (.payload len []), bytes.drop 4⟩) := by
    simp only [step, hread]
    rw [if_pos ⟨by decide, le_rfl, by omega⟩, if_neg (by decide), if_neg (by omega)]
  have hpayload : step c ⟨true, true, .reading (.payload len []), bytes.drop 4⟩ (.data len) =
      some (handlePayload c ⟨true, true, .reading (.payload len []), bytes.drop (4 + len)⟩
        ((bytes.drop 4).take len)) := by
    have hall : 1 ≤ len ∧ ([] : Bytes).length + len ≤ len ∧ len ≤ (bytes.drop 4).length := by
      rw [List.length_drop, List.length_nil]
      omega
    simp only [step, if_pos hall, List.nil_append, hlen, if_neg (lt_irrefl len), List.drop_drop]
  rw [frameReads, hlen]
  exact ⟨_, Machine.run_cons_eq_some.2 ⟨none, _, _, rfl, Machine.run_cons_eq_some.2
    ⟨none, _, _, hlength, Machine.run_singleton_eq_some.2 ⟨_, hpayload, rfl⟩, rfl⟩, rfl⟩⟩

/-- Poisoned bytes can be read so that the thread is terminated. -/
theorem exists_terminated {bytes : Bytes} (h : Poisoned bytes) :
    ∃ es outs s, Machine.run (step c) (init bytes) es = some (outs, s) ∧
      s.control = .terminated := by
  have hfails : ∀ {bytes json rest : Bytes}, firstFrame bytes = some (json, rest) →
      ¬ Decodable json → ∃ es outs s, Machine.run (step c) (init bytes) es = some (outs, s) ∧
        s.control = .terminated := by
    intro bytes json rest hfirst hjson
    obtain ⟨outs, hrun⟩ := run_frameReads (c := c) hfirst
    refine ⟨frameReads json, outs, _, hrun, ?_⟩
    cases hmsg : Message.deserialize json with
    | ok msg => exact absurd (Message.exists_deserialize.1 ⟨msg, hmsg⟩) hjson
    | error err =>
      rw [handlePayload, if_pos rfl, hmsg]
  induction h with
  | payload hfirst hjson => exact hfails hfirst hjson
  | @later bytes json rest hfirst hrest ih =>
    by_cases hjson : Decodable json
    · -- This payload decodes, and then the listener is where it was, with the rest of the bytes.
      obtain ⟨msg, hmsg⟩ := Message.exists_deserialize.2 hjson
      obtain ⟨outs, hrun⟩ := run_frameReads (c := c) hfirst
      obtain ⟨es, outs', s, hrun', hterm⟩ := ih
      rw [handlePayload, if_pos rfl, hmsg] at hrun
      exact ⟨frameReads json ++ es, outs ++ outs', s,
        Machine.run_append_eq_some.2 ⟨outs, _, outs', hrun, hrun', rfl⟩, hterm⟩
    · exact hfails hfirst hjson

/-- However the bytes of a connection are cut into reads, and wherever it ends, no exception leaves
the thread, exactly if none of the payloads in these bytes is one that the decoder throws on. -/
theorem survives_iff (c : Callbacks) (bytes : Bytes) :
    (∀ es outs s, Machine.run (step c) (init bytes) es = some (outs, s) →
      s.control ≠ .terminated) ↔ ¬ Poisoned bytes := by
  constructor
  · intro h hpoisoned
    obtain ⟨es, outs, s, hrun, hterm⟩ := exists_terminated (c := c) hpoisoned
    exact h es outs s hrun hterm
  · intro h es outs s hrun hterm
    have hinit : (init bytes).Safe := fun _ => h
    have hsafe : s.Safe :=
      Machine.run_invariant (I := Safe) (fun _ _ _ _ hs => safe_step hs) hinit hrun
    rw [Safe, hterm] at hsafe
    exact hsafe

/-- A pid that is no number. -/
def namedPid : Bytes := ascii "\x7b\"pid\":x\x7d"

/-- Its frame, read whole, terminates the thread. -/
theorem terminated_namedPid :
    ∃ outs s, Machine.run (step ⟨true, true⟩) (init (be32 9 ++ namedPid))
      [.loop, .data 4, .data 9] = some (outs, s) ∧ s.control = .terminated := by
  obtain ⟨outs, hrun⟩ : ∃ outs, Machine.run (step ⟨true, true⟩) (init (be32 9 ++ namedPid))
      [.loop, .data 4, .data 9] = some (outs, Machine.last (step ⟨true, true⟩)
        (init (be32 9 ++ namedPid)) [.loop, .data 4, .data 9]) :=
    Machine.exists_run_eq_last _ _ (by decide +kernel)
  exact ⟨outs, _, hrun, by decide +kernel⟩

end Listener

end MemoryGovernor
