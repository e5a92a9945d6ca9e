import MemoryGovernor.Registry.EventLoop
import MemoryGovernor.Wire.Codec

/-!
# The reader of the daemon

`handle_client_message` of `src/governor/client_registry.cpp`, read by read. The state of the
machine is where the handler is, and the bytes of the connection that it has not read. A label is
what the next call of `read` returns, or the event by which `epoll_wait` calls the handler again.
The buffer does not outlive a call, but the handler returns only before a length, so nothing is lost
with it.

Two loops read: the outer one a length, the inner one a payload. The inner one goes on after any
part. The outer one throws away a part of a length and takes the next bytes for one. So the reader
follows the frames of a client as long as every length is read in one piece (`run_entry`), and then
it does what the event loop's model says of whole messages (`run_handleClientMessage`).
-/

namespace MemoryGovernor

open Framing (Position InStep readBe32 length_append_take)

/-- The handler and its connection. -/
structure Reader where
  registry : ClientRegistry
  /-- Where in `handle_client_message` the thread is, or none where it is elsewhere. -/
  position : Option Position
  /-- What the client has sent or will send, and was not read. -/
  pending : Bytes

/-- What happens next. -/
inductive ReadEvent
  /-- The event loop calls the handler. -/
  | wakeup
  /-- `read` returns this number of bytes. -/
  | data (n : ℕ)
  /-- `read` fails with `EAGAIN`. -/
  | again
  /-- `read` returns 0 or fails otherwise. -/
  | closed
deriving DecidableEq, Repr

namespace Reader

variable (client_fd : ℕ)

/-- The rest of the outer loop, after the payload is read. -/
def handlePayload (s : Reader) (json : Bytes) : Reader :=
  match Message.deserialize json with
  | .ok msg =>
    { s with registry := s.registry.handleMessage client_fd msg, position := some .header }
  -- A parse error is ignored.
  | .error _ => { s with position := some .header }

/-- The condition of the inner loop, with `got` read of `msg_len` bytes. -/
def readPayload (s : Reader) (msg_len : ℕ) (got : Bytes) : Reader :=
  if got.length < msg_len then { s with position := some (.payload msg_len got) }
  else s.handlePayload client_fd got

/-- `handle_client_message`, from one `read` to the next. -/
def step (s : Reader) : ReadEvent → Option (Unit × Reader)
  | .wakeup =>
    if s.position = none then some ((), { s with position := some .header }) else none
  | .data n =>
    match s.position with
    | none => none
    | some .header =>
      if 1 ≤ n ∧ n ≤ 4 ∧ n ≤ s.pending.length then
        let t := { s with pending := s.pending.drop n }
        -- A part of a length is read and not kept.
        some ((), if n < 4 then t
          else t.readPayload client_fd (readBe32 (s.pending.take 4)) [])
      else none
    | some (.payload msg_len got) =>
      if 1 ≤ n ∧ got.length + n ≤ msg_len ∧ n ≤ s.pending.length then
        let t := { s with pending := s.pending.drop n }
        some ((), t.readPayload client_fd msg_len (got ++ s.pending.take n))
      else none
  | .again =>
    match s.position with
    | none => none
    | some .header => some ((), { s with position := none })
    | some (.payload _ _) => some ((), s)
  | .closed =>
    match s.position with
    | none => none
    | some _ =>
      some ((), { s with registry := s.registry.removeClient client_fd, position := none })

/-- The ways in which a step goes. -/
inductive Steps (s : Reader) : ReadEvent → Reader → Prop
  | wakeup (hpos : s.position = none) : Steps s .wakeup { s with position := some .header }
  | short {n : ℕ} (hpos : s.position = some .header) (h1 : 1 ≤ n) (h4 : n < 4)
      (hn : n ≤ s.pending.length) : Steps s (.data n) { s with pending := s.pending.drop n }
  | length (hpos : s.position = some .header) (h4 : 4 ≤ s.pending.length) :
      Steps s (.data 4) ({ s with pending := s.pending.drop 4 }.readPayload client_fd
        (readBe32 (s.pending.take 4)) [])
  | part {n msg_len : ℕ} {got : Bytes} (hpos : s.position = some (.payload msg_len got))
      (h1 : 1 ≤ n) (hlen : got.length + n ≤ msg_len) (hn : n ≤ s.pending.length) :
      Steps s (.data n) ({ s with pending := s.pending.drop n }.readPayload client_fd msg_len
        (got ++ s.pending.take n))
  | leave (hpos : s.position = some .header) : Steps s .again { s with position := none }
  | retry {msg_len : ℕ} {got : Bytes} (hpos : s.position = some (.payload msg_len got)) :
      Steps s .again s
  | closed (hpos : s.position ≠ none) :
      Steps s .closed { s with
        registry := s.registry.removeClient client_fd
        position := none }

/-- A step that is defined goes in one of these ways. -/
theorem steps_of_step {s t : Reader} {e : ReadEvent} {o : Unit}
    (hstep : step client_fd s e = some (o, t)) : Steps client_fd s e t := by
  cases e with
  | wakeup =>
    simp only [step] at hstep
    split_ifs at hstep with hpos
    obtain rfl := (Prod.mk.inj (Option.some.inj hstep)).2
    exact .wakeup hpos
  | data n =>
    simp only [step] at hstep
    split at hstep
    next => cases hstep
    next hpos =>
      split_ifs at hstep with hn h4
      · obtain rfl := (Prod.mk.inj (Option.some.inj hstep)).2
        exact .short hpos hn.1 h4 hn.2.2
      · obtain rfl := (Prod.mk.inj (Option.some.inj hstep)).2
        obtain rfl : n = 4 := by omega
        exact .length hpos hn.2.2
    next msg_len got hpos =>
      split_ifs at hstep with hn
      obtain rfl := (Prod.mk.inj (Option.some.inj hstep)).2
      exact .part hpos hn.1 hn.2.1 hn.2.2
  | again =>
    simp only [step] at hstep
    split at hstep
    next => cases hstep
    next hpos =>
      obtain rfl := (Prod.mk.inj (Option.some.inj hstep)).2
      exact .leave hpos
    next msg_len got hpos =>
      obtain rfl := (Prod.mk.inj (Option.some.inj hstep)).2
      exact .retry hpos
  | closed =>
    simp only [step] at hstep
    split at hstep
    next => cases hstep
    next hpos =>
      obtain rfl := (Prod.mk.inj (Option.some.inj hstep)).2
      exact .closed (by rw [hpos]; exact Option.some_ne_none _)

/-- A length that is read in one piece. -/
theorem step_length {s : Reader} (hpos : s.position = some .header) (h4 : 4 ≤ s.pending.length) :
    step client_fd s (.data 4) = some ((), { s with pending := s.pending.drop 4 }.readPayload
      client_fd (readBe32 (s.pending.take 4)) []) := by
  simp only [step, hpos]
  rw [if_pos ⟨by decide, le_rfl, h4⟩, if_neg (by decide)]

/-- A part of a payload. -/
theorem step_part {s : Reader} {n msg_len : ℕ} {got : Bytes}
    (hpos : s.position = some (.payload msg_len got)) (h1 : 1 ≤ n) (hlen : got.length + n ≤ msg_len)
    (hn : n ≤ s.pending.length) :
    step client_fd s (.data n) = some ((), { s with pending := s.pending.drop n }.readPayload
      client_fd msg_len (got ++ s.pending.take n)) := by
  simp only [step, hpos]
  rw [if_pos ⟨h1, hlen, hn⟩]

/-! ## Following the frames -/

/-- The messages of a client, handled in order. -/
def handleMessages (r : ClientRegistry) (msgs : List Message) : ClientRegistry :=
  msgs.foldl (fun r msg => r.handleMessage client_fd msg) r

@[simp]
theorem handleMessages_concat (r : ClientRegistry) (msgs : List Message) (msg : Message) :
    handleMessages client_fd r (msgs ++ [msg]) =
      (handleMessages client_fd r msgs).handleMessage client_fd msg := by
  simp [handleMessages]

/-- The client's messages change its entry, one after another, and no other. -/
theorem lookup_handleMessages (fd : ℕ) (r : ClientRegistry) (msgs : List Message) :
    (handleMessages client_fd r msgs).clients.lookup fd =
      if fd = client_fd then
        (r.clients.lookup fd).map fun info => msgs.foldl ClientRegistry.record info
      else r.clients.lookup fd := by
  induction msgs using List.reverseRecOn with
  | nil => simp [handleMessages]
  | append_singleton msgs msg ih =>
    rw [handleMessages_concat, ClientRegistry.lookup_handleMessage, ih]
    split_ifs
    · rw [Option.map_map]
      congr 1
      funext info
      simp
    · rfl

/-- The messages `handled` are handled, and the reader is in step with the frames of `todo`. -/
structure Follows (r : ClientRegistry) (handled todo : List Message) (s : Reader) : Prop where
  registry_eq : s.registry = handleMessages client_fd r handled
  inStep : InStep (s.position.getD .header) s.pending (todo.map Message.toPayload)

/-- A length is read in one piece. -/
def WholeLength (s : Reader) : ReadEvent → Prop
  | .data n => s.position = some .header → n = 4
  | _ => True

instance (s : Reader) : ∀ e, Decidable (WholeLength s e)
  | .data n => inferInstanceAs (Decidable (s.position = some .header → n = 4))
  | .wakeup | .again | .closed => isTrue trivial

section Follows

variable {client_fd} {r : ClientRegistry} {handled todo : List Message} {s t : Reader}

/-- Before the first call. -/
theorem follows_init (r : ClientRegistry) (msgs : List Message) :
    Follows client_fd r [] msgs ⟨r, none, msgs.flatMap Message.frame⟩ :=
  ⟨rfl, Message.stream_toPayload msgs ▸ InStep.header _⟩

/-- The text of a message that is read to the end is handled. -/
theorem handlePayload_payload (s : Reader) (msg : Message) :
    s.handlePayload client_fd msg.payload =
      { s with registry := s.registry.handleMessage client_fd msg, position := some .header } := by
  rw [handlePayload, Message.deserialize_payload]

/-- What one step keeps, where the connection stays open and a length is read in one piece. -/
theorem follows_step {e : ReadEvent} {o : Unit} (h : Follows client_fd r handled todo s)
    (hwhole : WholeLength s e) (hopen : e ≠ .closed) (hstep : step client_fd s e = some (o, t)) :
    ∃ handled' todo', handled' ++ todo' = handled ++ todo ∧
      Follows client_fd r handled' todo' t := by
  obtain ⟨hreg, hin⟩ := h
  cases steps_of_step client_fd hstep with
  | wakeup hpos => exact ⟨handled, todo, rfl, hreg, by rwa [hpos] at hin⟩
  | short hpos h1 h4 hn => exact absurd (hwhole hpos) h4.ne
  | length hpos h4 =>
    rw [hpos] at hin
    obtain ⟨p, ps, -, hlen, hin'⟩ := hin.read_length h4
    have hlt : ([] : Bytes).length < readBe32 (s.pending.take 4) := hlen ▸ p.length_pos
    rw [readPayload, if_pos hlt, hlen]
    exact ⟨handled, todo, rfl, hreg, hin'⟩
  | @part n msg_len got hpos h1 hlen hn =>
    rw [hpos] at hin
    obtain ⟨hmore, hdone⟩ := hin.read_payload hlen
    have hgot : (got ++ s.pending.take n).length = got.length + n :=
      length_append_take hn
    rcases hlen.lt_or_eq with hlt | heq
    · rw [readPayload, if_pos (hgot ▸ hlt)]
      exact ⟨handled, todo, rfl, hreg, hmore hlt⟩
    · -- The payload is complete, and it is the text of the next message.
      obtain ⟨p, ps, htodo, hbytes, hin'⟩ := hdone heq
      obtain ⟨msg, rest, rfl, rfl, rfl⟩ := List.map_eq_cons_iff.1 htodo
      have hpayload : got ++ s.pending.take n = msg.payload := hbytes.symm
      rw [readPayload, if_neg (by omega), hpayload, handlePayload_payload]
      exact ⟨handled ++ [msg], rest, by simp, by rw [handleMessages_concat, ← hreg], hin'⟩
  | leave hpos => exact ⟨handled, todo, rfl, hreg, by rwa [hpos] at hin⟩
  | retry hpos => exact ⟨handled, todo, rfl, hreg, hin⟩
  | closed hpos => exact absurd rfl hopen

/-- What a run keeps. -/
theorem follows_run {msgs : List Message} {es : List ReadEvent} {outs : List Unit}
    (hopen : ReadEvent.closed ∉ es)
    (hwhole : Machine.Along (step client_fd) WholeLength ⟨r, none, msgs.flatMap Message.frame⟩ es)
    (hrun : Machine.run (step client_fd) ⟨r, none, msgs.flatMap Message.frame⟩ es =
      some (outs, s)) :
    ∃ handled todo, handled ++ todo = msgs ∧ Follows client_fd r handled todo s := by
  have hstays : ∀ e ∈ es, e ≠ ReadEvent.closed := fun e he heq => hopen (heq ▸ he)
  refine Machine.along_invariant
    (I := fun s => ∃ handled todo, handled ++ todo = msgs ∧ Follows client_fd r handled todo s)
    (fun s e o t => ?_) ⟨[], msgs, rfl, follows_init r msgs⟩
    (hwhole.and (Machine.along_of_forall hstays _)) hrun
  rintro ⟨handled, todo, rfl, h⟩ ⟨hwhole, hopen⟩ hstep
  exact follows_step h hwhole hopen hstep

/-- A client sends messages, and the connection stays open. However the stream is cut into reads, in
every run in which each length is read in one piece: the entry of the client is made of the first
few of its messages, in order, and of all of them once every byte is read. No other entry
changes. -/
theorem run_entry {info : ClientInfo} {msgs : List Message} {es : List ReadEvent}
    {outs : List Unit} (hentry : r.clients.lookup client_fd = some info)
    (hopen : ReadEvent.closed ∉ es)
    (hwhole : Machine.Along (step client_fd) WholeLength ⟨r, none, msgs.flatMap Message.frame⟩ es)
    (hrun : Machine.run (step client_fd) ⟨r, none, msgs.flatMap Message.frame⟩ es =
      some (outs, s)) :
    (s.pending = [] →
      s.registry.clients.lookup client_fd = some (msgs.foldl ClientRegistry.record info)) ∧
    (∃ k, s.registry.clients.lookup client_fd =
      some ((msgs.take k).foldl ClientRegistry.record info)) ∧
    ∀ fd, fd ≠ client_fd → s.registry.clients.lookup fd = r.clients.lookup fd := by
  obtain ⟨handled, todo, rfl, hreg, hin⟩ := follows_run hopen hwhole hrun
  have hlook := lookup_handleMessages client_fd client_fd r handled
  rw [← hreg, if_pos rfl, hentry, Option.map_some] at hlook
  refine ⟨fun hnil => ?_, ⟨handled.length, by rw [hlook, List.take_left]⟩, fun fd hne => ?_⟩
  · rw [hnil] at hin
    obtain rfl : todo = [] := List.map_eq_nil_iff.1 hin.eq_nil.2
    rw [hlook, List.append_nil]
  · rw [hreg, lookup_handleMessages, if_neg hne]

/-- The client registers 700 bytes. -/
def registration : Message := { type := .REGISTER, pid := 9, current_size_bytes := 700 }

/-- The registry with the client's new connection. -/
def accepted : ClientRegistry := ({} : ClientRegistry).addClient 5

/-- The payload, 79 bytes, comes in two pieces, with a failed read between them. -/
def splitPayload : List ReadEvent := [.wakeup, .data 4, .data 50, .again, .data 29, .again]

/-- The entry is what the client registered. -/
theorem run_entry_splitPayload :
    let s₀ : Reader := ⟨accepted, none, [registration].flatMap Message.frame⟩
    (∃ outs, Machine.run (step 5) s₀ splitPayload =
        some (outs, Machine.last (step 5) s₀ splitPayload)) ∧
      (Machine.last (step 5) s₀ splitPayload).pending = [] ∧
      (Machine.last (step 5) s₀ splitPayload).registry.clients.lookup 5 = some ⟨5, 9, 700, 0⟩ := by
  intro s₀
  obtain ⟨outs, hrun⟩ : ∃ outs, Machine.run (step 5) s₀ splitPayload =
      some (outs, Machine.last (step 5) s₀ splitPayload) :=
    Machine.exists_run_eq_last _ _ (by decide +kernel)
  have hnil : (Machine.last (step 5) s₀ splitPayload).pending = [] := by decide +kernel
  have hnew : accepted.clients.lookup 5 = some ⟨5, 0, 0, 0⟩ := rfl
  have hentry := (run_entry hnew (by decide) (by decide +kernel) hrun).1 hnil
  exact ⟨⟨outs, hrun⟩, hnil, hentry⟩

/-- The same bytes, with the length in two pieces. -/
def splitLength : List ReadEvent := [.wakeup, .data 2, .data 4, .data 77, .again]

/-- All of them are read, and nothing is recorded: the first two bytes are lost, and the next four,
half of the length and the first two bytes of the text, announce a payload that does not come. -/
theorem entry_lost_splitLength :
    let s₀ : Reader := ⟨accepted, none, [registration].flatMap Message.frame⟩
    let s := Machine.last (step 5) s₀ splitLength
    s₀.registry.clients.lookup 5 = some ⟨5, 0, 0, 0⟩ ∧ ReadEvent.closed ∉ splitLength ∧
      (∃ outs, Machine.run (step 5) s₀ splitLength = some (outs, s)) ∧ s.pending = [] ∧
      s.registry.clients.lookup 5 = some ⟨5, 0, 0, 0⟩ ∧
      s.registry.clients.lookup 5 ≠
        some ([registration].foldl ClientRegistry.record ⟨5, 0, 0, 0⟩) := by
  intro s₀ s
  have hrun : ∃ outs, Machine.run (step 5) s₀ splitLength = some (outs, s) :=
    Machine.exists_run_eq_last _ _ (by decide +kernel)
  have hentry : s.registry.clients.lookup 5 = some ⟨5, 0, 0, 0⟩ := by decide +kernel
  refine ⟨rfl, by decide, hrun, by decide +kernel, hentry, ?_⟩
  rw [hentry]
  decide

end Follows

/-- The handler, reading whole messages from an open connection, does what the event loop's model of
it does with these messages. -/
theorem run_handleClientMessage {s : EventLoop} {c : ConnId} (hfd : s.fds client_fd = some c)
    {msgs : List Message} {es : List ReadEvent} {outs : List Unit} {t : Reader}
    (hopen : ReadEvent.closed ∉ es)
    (hwhole : Machine.Along (step client_fd) WholeLength
      ⟨s.registry, none, msgs.flatMap Message.frame⟩ es)
    (hrun : Machine.run (step client_fd) ⟨s.registry, none, msgs.flatMap Message.frame⟩ es =
      some (outs, t)) (hnil : t.pending = []) :
    t.registry = (s.handleClientMessage client_fd msgs .again).registry := by
  have hfold : ∀ (msgs : List Message) (s : EventLoop),
      (msgs.foldl (EventLoop.processMessage client_fd c) s).registry =
        handleMessages client_fd s.registry msgs := by
    intro msgs
    induction msgs with
    | nil => exact fun _ => rfl
    | cons msg msgs ih => exact fun s => ih (EventLoop.processMessage client_fd c s msg)
  obtain ⟨handled, todo, rfl, hreg, hin⟩ := follows_run hopen hwhole hrun
  rw [hnil] at hin
  obtain rfl : todo = [] := List.map_eq_nil_iff.1 hin.eq_nil.2
  rw [hreg, EventLoop.handleClientMessage, hfd, List.append_nil]
  exact (hfold handled s).symm

end Reader

end MemoryGovernor
