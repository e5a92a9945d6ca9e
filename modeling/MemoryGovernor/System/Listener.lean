import Mathlib.Data.List.ReduceOption
import MemoryGovernor.System.Link
import MemoryGovernor.Wire.Codec

/-!
# The listener of the client

`listener_loop` of `src/client/governor_client.cpp` on one connection, read by read. Anything out of
the ordinary ends the connection: a length that does not come in one piece or that no message has,
an end of file, an error. It also ends when another thread clears `connected_`, which a failing
write and `stop_listening` do; the loop sees this after a payload and at its top. What comes after
the end is another connection, so the machine stops there.

The reader is in step with the daemon's frames as long as the connection lasts (`InStepWith`), so
the callbacks are those of the first few of the daemon's messages, and of all of them if nothing
ends the connection before the stream is read (`run_callbacks`).
-/

namespace MemoryGovernor

open Framing (Position InStep readBe32 length_append_take)

/-- A call of a registered function with its `target_bytes`. -/
inductive Callback
  | shrink (target_bytes : UInt64)
  | grow (target_bytes : UInt64)
deriving DecidableEq, Repr

/-- `shrink_callback_` and `grow_callback_`: whether they are set. -/
structure Callbacks where
  shrink_callback : Bool
  grow_callback : Bool

/-- `process_message`: the callback that it invokes. -/
def Callbacks.processMessage (c : Callbacks) (msg : Message) : Option Callback :=
  if msg.type = .SHRINK ∧ c.shrink_callback then some (.shrink msg.target_bytes)
  else if msg.type = .GROW ∧ c.grow_callback then some (.grow msg.target_bytes)
  else none

/-- The calls that a message of the daemon asks for: a SHRINK and a GROW ask for one call of their
own function, with the target they carry, where it is set. Nothing else asks for any. -/
def Callbacks.asked (c : Callbacks) (msg : Message) : List Callback :=
  match msg.type, c.shrink_callback, c.grow_callback with
  | .SHRINK, true, _ => [.shrink msg.target_bytes]
  | .GROW, _, true => [.grow msg.target_bytes]
  | _, _, _ => []

/-- `process_message` invokes what the message asks for. -/
theorem Callbacks.processMessage_toList (c : Callbacks) (msg : Message) :
    (c.processMessage msg).toList = c.asked msg := by
  unfold processMessage asked
  cases msg.type <;> cases c.shrink_callback <;> cases c.grow_callback <;> rfl

/-- Where the listener's thread is. -/
inductive ListenerControl
  /-- At the top of the loop. -/
  | top
  /-- In `read`. -/
  | reading (position : Position)
  /-- Past this connection. -/
  | over
  /-- Ended by an exception, and the process with it. -/
  | terminated
deriving DecidableEq, Repr

/-- The listener and its connection. -/
structure Listener where
  listening : Bool
  connected : Bool
  control : ListenerControl
  /-- What the daemon has sent or will send, and was not read. -/
  pending : Bytes

/-- What happens next. -/
inductive ListenerEvent
  /-- The loop goes on at its top. -/
  | loop
  /-- `read` returns this number of bytes. -/
  | data (n : ℕ)
  /-- `read` returns 0. -/
  | eof
  /-- `read` returns -1. -/
  | error
  /-- Another thread, or a callback, clears `connected_`. -/
  | disconnected
  /-- Another thread clears `listening_`. -/
  | stopped
deriving DecidableEq, Repr

namespace Listener

/-- The listener of a new connection on which `sent` will come. -/
def init (sent : Bytes) : Listener := ⟨true, true, .top, sent⟩

variable (c : Callbacks)

/-- `connected_ = false` after a `read`, and back to the top. -/
def drop (s : Listener) : Listener := { s with connected := false, control := .top }

/-- The last lines of the loop, after the payload. -/
def handlePayload (s : Listener) (payload : Bytes) : Option Callback × Listener :=
  if s.connected then
    match Message.deserialize payload with
    | .ok msg => (c.processMessage msg, { s with control := .top })
    -- Nothing catches what the decoder throws.
    | .error _ => (none, { s with control := .terminated })
  else (none, { s with control := .top })

/-- `listener_loop`, from one `read` to the next. -/
def step (s : Listener) : ListenerEvent → Option (Option Callback × Listener)
  | .loop =>
    match s.control with
    | .top =>
      -- Where it is not connected, the loop goes on with a new connection or ends.
      if s.listening ∧ s.connected then some (none, { s with control := .reading .header })
      else some (none, { s with control := .over })
    | _ => none
  | .data n =>
    match s.control with
    | .reading .header =>
      if 1 ≤ n ∧ n ≤ 4 ∧ n ≤ s.pending.length then
        let len := readBe32 (s.pending.take 4)
        let t := { s with pending := s.pending.drop n }
        if n ≠ 4 then some (none, t.drop)
        else if len = 0 ∨ len > 65536 then some (none, t.drop)
        else some (none, { t with control := .reading (.payload len []) })
      else none
    | .reading (.payload len got) =>
      if 1 ≤ n ∧ got.length + n ≤ len ∧ n ≤ s.pending.length then
        let t := { s with pending := s.pending.drop n }
        let payload := got ++ s.pending.take n
        if payload.length < len then
          some (none, { t with control := .reading (.payload len payload) })
        else some (t.handlePayload c payload)
      else none
    | _ => none
  | .eof | .error =>
    match s.control with
    | .reading _ => some (none, s.drop)
    | _ => none
  | .disconnected => some (none, { s with connected := false })
  | .stopped => some (none, { s with listening := false })

/-- The ways in which a step goes. -/
inductive Steps (s : Listener) : ListenerEvent → Option Callback → Listener → Prop
  | listen (hpos : s.control = .top) (hgo : s.listening ∧ s.connected) :
      Steps s .loop none { s with control := .reading .header }
  | leave (hpos : s.control = .top) (hgo : ¬ (s.listening ∧ s.connected)) :
      Steps s .loop none { s with control := .over }
  | short {n : ℕ} (hpos : s.control = .reading .header) (h4 : n ≠ 4) :
      Steps s (.data n) none { s with pending := s.pending.drop n }.drop
  | badLength (hpos : s.control = .reading .header) (h4 : 4 ≤ s.pending.length)
      (hlen : readBe32 (s.pending.take 4) = 0 ∨ readBe32 (s.pending.take 4) > 65536) :
      Steps s (.data 4) none { s with pending := s.pending.drop 4 }.drop
  | length (hpos : s.control = .reading .header) (h4 : 4 ≤ s.pending.length)
      (h1 : 1 ≤ readBe32 (s.pending.take 4)) (hle : readBe32 (s.pending.take 4) ≤ 65536) :
      Steps s (.data 4) none { s with
        control := .reading (.payload (readBe32 (s.pending.take 4)) [])
        pending := s.pending.drop 4 }
  | part {n len : ℕ} {got : Bytes} (hpos : s.control = .reading (.payload len got))
      (hn : n ≤ s.pending.length) (hlen : got.length + n < len) :
      Steps s (.data n) none { s with
        control := .reading (.payload len (got ++ s.pending.take n))
        pending := s.pending.drop n }
  | last {n len : ℕ} {got : Bytes} (hpos : s.control = .reading (.payload len got))
      (hn : n ≤ s.pending.length) (hlen : got.length + n = len) :
      Steps s (.data n)
        ({ s with pending := s.pending.drop n }.handlePayload c (got ++ s.pending.take n)).1
        ({ s with pending := s.pending.drop n }.handlePayload c (got ++ s.pending.take n)).2
  | ended {e : ListenerEvent} (he : e = .eof ∨ e = .error) : Steps s e none s.drop
  | disconnected : Steps s .disconnected none { s with connected := false }
  | stopped : Steps s .stopped none { s with listening := false }

/-- A step that is defined goes in one of these ways. -/
theorem steps_of_step {s t : Listener} {e : ListenerEvent} {o : Option Callback}
    (hstep : step c s e = some (o, t)) : Steps c s e o t := by
  cases e with
  | loop =>
    simp only [step] at hstep
    split at hstep
    next hpos =>
      split_ifs at hstep with hgo
      · obtain ⟨rfl, rfl⟩ := Prod.mk.inj (Option.some.inj hstep)
        exact .listen hpos hgo
      · obtain ⟨rfl, rfl⟩ := Prod.mk.inj (Option.some.inj hstep)
        exact .leave hpos hgo
    next => cases hstep
  | data n =>
    simp only [step] at hstep
    split at hstep
    next hpos =>
      split_ifs at hstep with hn h4 hlen
      · obtain ⟨rfl, rfl⟩ := Prod.mk.inj (Option.some.inj hstep)
        exact .short hpos h4
      · obtain ⟨rfl, rfl⟩ := Prod.mk.inj (Option.some.inj hstep)
        obtain rfl : n = 4 := not_not.1 h4
        exact .badLength hpos hn.2.2 hlen
      · obtain ⟨rfl, rfl⟩ := Prod.mk.inj (Option.some.inj hstep)
        obtain rfl : n = 4 := not_not.1 h4
        obtain ⟨hzero, hbig⟩ := not_or.1 hlen
        exact .length hpos hn.2.2 (Nat.pos_of_ne_zero hzero) (not_lt.1 hbig)
    next len got hpos =>
      rw [Option.ite_none_right_eq_some] at hstep
      obtain ⟨hn, hstep⟩ := hstep
      have hgot : (got ++ s.pending.take n).length = got.length + n := length_append_take hn.2.2
      split_ifs at hstep with hmore
      · obtain ⟨rfl, rfl⟩ := Prod.mk.inj (Option.some.inj hstep)
        exact .part hpos hn.2.2 (hgot ▸ hmore)
      · obtain ⟨rfl, rfl⟩ := Prod.mk.inj (Option.some.inj hstep)
        exact .last hpos hn.2.2 (by omega)
    next => cases hstep
  | eof | error =>
    simp only [step] at hstep
    split at hstep
    next =>
      obtain ⟨rfl, rfl⟩ := Prod.mk.inj (Option.some.inj hstep)
      exact .ended (by decide)
    next => cases hstep
  | disconnected =>
    obtain ⟨rfl, rfl⟩ := Prod.mk.inj (Option.some.inj hstep)
    exact .disconnected
  | stopped =>
    obtain ⟨rfl, rfl⟩ := Prod.mk.inj (Option.some.inj hstep)
    exact .stopped

/-! ## Following the frames -/

/-- The reader is in step with the frames of `todo`, unless the connection is about to end. -/
def InStepWith (s : Listener) (todo : List Message) : Prop :=
  match s.control with
  | .top => s.connected = true → InStep .header s.pending (todo.map Message.toPayload)
  | .reading position => InStep position s.pending (todo.map Message.toPayload)
  | .over => True
  | .terminated => False

/-- Nothing has ended the connection. -/
structure Alive (s : Listener) : Prop where
  listening : s.listening = true
  connected : s.connected = true
  not_over : s.control ≠ .over

/-- A length is read in one piece, and nothing ends the connection. -/
def Undisturbed (s : Listener) : ListenerEvent → Prop
  | .loop => True
  | .data n => s.control = .reading .header → n = 4
  | .eof | .error | .disconnected | .stopped => False

instance (s : Listener) : ∀ e, Decidable (Undisturbed s e)
  | .loop => isTrue trivial
  | .data n => inferInstanceAs (Decidable (s.control = .reading .header → n = 4))
  | .eof | .error | .disconnected | .stopped => isFalse id

section Follows

variable {c} {s t : Listener} {todo : List Message} {o : Option Callback}

/-- A length that is read in one piece is that of a message, and the sanity check lets it pass. -/
theorem inStep_length {pending : Bytes} (h : InStep .header pending (todo.map Message.toPayload))
    (h4 : 4 ≤ pending.length) :
    1 ≤ readBe32 (pending.take 4) ∧ readBe32 (pending.take 4) ≤ 65536 ∧
      InStep (.payload (readBe32 (pending.take 4)) []) (pending.drop 4)
        (todo.map Message.toPayload) := by
  obtain ⟨p, ps, htodo, hread, hin⟩ := h.read_length h4
  obtain ⟨msg, rest, rfl, rfl, rfl⟩ := List.map_eq_cons_iff.1 htodo
  obtain ⟨hpos, hle⟩ := Message.payload_length msg
  have hmsg : msg.toPayload.bytes.length = msg.payload.length := rfl
  rw [hread]
  exact ⟨by omega, by omega, hin⟩

/-- The last part of a payload. The message is handled where the connection still lasts. -/
theorem inStepWith_last {n len : ℕ} {got : Bytes} (hpos : s.control = .reading (.payload len got))
    (h : s.InStepWith todo) (hlen : got.length + n = len)
    (ht : { s with pending := s.pending.drop n }.handlePayload c (got ++ s.pending.take n) =
      (o, t)) :
    ∃ done rest, todo = done ++ rest ∧ o.toList = done.flatMap c.asked ∧
      t.InStepWith rest ∧ (s.Alive → t.Alive) := by
  rw [InStepWith, hpos] at h
  obtain ⟨p, ps, htodo, hbytes, hin⟩ := (h.read_payload hlen.le).2 hlen
  obtain ⟨msg, rest, rfl, rfl, rfl⟩ := List.map_eq_cons_iff.1 htodo
  have hpayload : got ++ s.pending.take n = msg.payload := hbytes.symm
  rw [hpayload, handlePayload] at ht
  split_ifs at ht with hc
  · rw [Message.deserialize_payload] at ht
    obtain ⟨rfl, rfl⟩ := Prod.mk.inj ht
    refine ⟨[msg], rest, rfl, ?_, fun _ => hin,
      fun halive => ⟨halive.listening, halive.connected, ListenerControl.noConfusion⟩⟩
    rw [List.flatMap_singleton, c.processMessage_toList]
  · -- The connection has ended, and the message is not handled.
    obtain ⟨rfl, rfl⟩ := Prod.mk.inj ht
    exact ⟨[], msg :: rest, rfl, rfl, fun hc' => absurd hc' hc,
      fun halive => absurd halive.connected hc⟩

/-- What one step keeps: a message more is handled, or none, and the callbacks are its. -/
theorem inStepWith_step {e : ListenerEvent} (h : s.InStepWith todo)
    (hstep : step c s e = some (o, t)) :
    ∃ done rest, todo = done ++ rest ∧ o.toList = done.flatMap c.asked ∧
      t.InStepWith rest ∧ (s.Alive → Undisturbed s e → t.Alive) := by
  cases steps_of_step c hstep with
  | listen hpos hgo =>
    rw [InStepWith, hpos] at h
    exact ⟨[], todo, rfl, rfl, h hgo.2, fun _ _ => ⟨hgo.1, hgo.2, ListenerControl.noConfusion⟩⟩
  | leave hpos hgo =>
    exact ⟨[], todo, rfl, rfl, trivial,
      fun halive _ => absurd ⟨halive.listening, halive.connected⟩ hgo⟩
  | short hpos h4 =>
    exact ⟨[], todo, rfl, rfl, fun hc => absurd hc Bool.false_ne_true,
      fun _ hwhole => absurd (hwhole hpos) h4⟩
  | badLength hpos h4 hlen =>
    rw [InStepWith, hpos] at h
    obtain ⟨h1, hle, -⟩ := inStep_length h h4
    omega
  | length hpos h4 h1 hle =>
    rw [InStepWith, hpos] at h
    exact ⟨[], todo, rfl, rfl, (inStep_length h h4).2.2,
      fun halive _ => ⟨halive.listening, halive.connected, ListenerControl.noConfusion⟩⟩
  | part hpos hn hlen =>
    rw [InStepWith, hpos] at h
    exact ⟨[], todo, rfl, rfl, (h.read_payload hlen.le).1 hlen,
      fun halive _ => ⟨halive.listening, halive.connected, ListenerControl.noConfusion⟩⟩
  | last hpos hn hlen =>
    obtain ⟨done, rest, htodo, ho, ht, halive⟩ := inStepWith_last hpos h hlen rfl
    exact ⟨done, rest, htodo, ho, ht, fun hs _ => halive hs⟩
  | ended he =>
    refine ⟨[], todo, rfl, rfl, fun hc => absurd hc Bool.false_ne_true, fun _ hdist => ?_⟩
    rcases he with rfl | rfl
    · exact hdist.elim
    · exact hdist.elim
  | disconnected =>
    refine ⟨[], todo, rfl, rfl, ?_, fun _ hdist => hdist.elim⟩
    unfold InStepWith at h ⊢
    cases hpos : s.control with
    | top => exact fun hc => absurd hc Bool.false_ne_true
    | reading position => simpa only [hpos] using h
    | terminated =>
      rw [hpos] at h
      exact h.elim
    | _ => trivial
  | stopped => exact ⟨[], todo, rfl, rfl, h, fun _ hdist => hdist.elim⟩

end Follows

/-- The outputs of a run so far are the calls that the messages handled so far ask for. -/
def Outputs (msgs : List Message) (outs : List (Option Callback)) (s : Listener) : Prop :=
  ∃ done rest, msgs = done ++ rest ∧ outs.reduceOption = done.flatMap c.asked ∧
    s.InStepWith rest

section Runs

variable {c} {msgs : List Message} {s t : Listener} {outs : List (Option Callback)}
  {es : List ListenerEvent}

/-- At the start the reader is in step with all of the daemon's messages. -/
theorem outputs_init (msgs : List Message) :
    Outputs c msgs [] (init (msgs.flatMap Message.frame)) :=
  ⟨[], msgs, rfl, rfl, fun _ => Message.stream_toPayload msgs ▸ InStep.header _⟩

/-- What one step keeps. -/
theorem outputs_step {e : ListenerEvent} {o : Option Callback} (h : Outputs c msgs outs s)
    (hstep : step c s e = some (o, t)) :
    Outputs c msgs (outs ++ [o]) t ∧ (s.Alive → Undisturbed s e → t.Alive) := by
  obtain ⟨done, rest, rfl, houts, hin⟩ := h
  obtain ⟨done', rest', rfl, ho, ht, halive⟩ := inStepWith_step hin hstep
  refine ⟨⟨done ++ done', rest', (List.append_assoc _ _ _).symm, ?_, ht⟩, halive⟩
  have hone : [o].reduceOption = o.toList := by cases o <;> rfl
  rw [List.reduceOption_append, houts, hone, ho, List.flatMap_append]

/-- The daemon sends messages on a connection. However the stream is cut into reads, and wherever
the connection ends: the callbacks that the listener invokes are those that the first few messages
ask for, in order and each once, and no exception leaves the thread. They are those that all of the
messages ask for if every length is read in one piece, nothing ends the connection, and every byte
is read. -/
theorem run_callbacks
    (hrun : Machine.run (step c) (init (msgs.flatMap Message.frame)) es = some (outs, s)) :
    (∃ k, outs.reduceOption = (msgs.take k).flatMap c.asked) ∧
    s.control ≠ .terminated ∧
    (Machine.Along (step c) Undisturbed (init (msgs.flatMap Message.frame)) es → s.pending = [] →
      outs.reduceOption = msgs.flatMap c.asked) := by
  obtain ⟨done, rest, hmsgs, houts, hin⟩ : Outputs c msgs outs s :=
    Machine.along_outputs (I := Outputs c msgs)
      (fun _ _ _ _ _ h _ hstep => (outputs_step h hstep).1) (outputs_init msgs)
      (Machine.along_of_forall (C := fun _ => True) (fun _ _ => trivial) _) hrun
  refine ⟨⟨done.length, by rw [houts, hmsgs, List.take_left]⟩, fun hterm => ?_,
    fun hundisturbed hnil => ?_⟩
  · rw [InStepWith, hterm] at hin
    exact hin
  · -- The connection lasts, so nothing is left of the messages when nothing is left of the stream.
    obtain ⟨⟨done, rest, rfl, houts, hin⟩, halive⟩ : Outputs c msgs outs s ∧ s.Alive :=
      Machine.along_outputs (I := fun outs s => Outputs c msgs outs s ∧ s.Alive)
        (fun _ _ _ _ _ h hdist hstep =>
          ⟨(outputs_step h.1 hstep).1, (outputs_step h.1 hstep).2 h.2 hdist⟩)
        ⟨outputs_init msgs, rfl, rfl, ListenerControl.noConfusion⟩ hundisturbed hrun
    have hrest : rest = [] := by
      unfold InStepWith at hin
      rw [hnil] at hin
      split at hin
      next => exact List.map_eq_nil_iff.1 (hin halive.connected).eq_nil.2
      next => exact List.map_eq_nil_iff.1 hin.eq_nil.2
      next hover => exact absurd hover halive.not_over
      next => exact hin.elim
    rw [houts, hrest, List.append_nil]

/-- Two targets on a connection whose payloads, 77 and 75 bytes, come in pieces. -/
def targets : List Message :=
  [{ type := .SHRINK, target_bytes := 500 }, { type := .GROW, target_bytes := 900 }]

/-- The reads. -/
def targetReads : List ListenerEvent :=
  [.loop, .data 4, .data 30, .data 47, .loop, .data 4, .data 1, .data 74, .loop]

/-- Both callbacks are invoked. -/
theorem run_callbacks_targets :
    let s₀ := init (targets.flatMap Message.frame)
    ∃ outs, Machine.run (step ⟨true, true⟩) s₀ targetReads =
        some (outs, Machine.last (step ⟨true, true⟩) s₀ targetReads) ∧
      outs.reduceOption = [.shrink 500, .grow 900] := by
  intro s₀
  obtain ⟨outs, hrun⟩ : ∃ outs, Machine.run (step ⟨true, true⟩) s₀ targetReads =
      some (outs, Machine.last (step ⟨true, true⟩) s₀ targetReads) :=
    Machine.exists_run_eq_last _ _ (by decide +kernel)
  have hall := (run_callbacks hrun).2.2 (by decide +kernel) (by decide +kernel)
  exact ⟨outs, hrun, hall⟩

end Runs

/-- What the client does with a message is what its two callbacks do, which a `GovernedCache`
sets. -/
theorem processMessage_eq_callback (l : Link) (msg : Message) : l.processMessage msg =
    match Callbacks.processMessage ⟨true, true⟩ msg with
    | some (.shrink target_bytes) => (l.client.cache.handleShrink target_bytes).map l.applied
    | some (.grow target_bytes) => (l.client.cache.handleGrow target_bytes).map l.applied
    | none => some l := by
  unfold Link.processMessage Callbacks.processMessage
  cases msg.type <;> rfl

end Listener

end MemoryGovernor
