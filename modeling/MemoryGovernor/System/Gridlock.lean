import Mathlib.Tactic.Linarith
import MemoryGovernor.System.Exchange

/-!
# Gridlock

Whether the threads of the daemon and of its clients can come to wait for each other. A broadcast
tries again and again where the socket of a client is full, with the registry's mutex held. That
client's listener does not read while it reports, and where its socket is full the other way as
well, it is the event loop that it waits for. The event loop reads on only after it has recorded a
message, under the mutex. So there is a circle of three, and the bytes that the kernel holds decide
whether it closes (`Gridlocked`).

It is the only one: from every state of every run the threads by themselves come to rest or to a
gridlock, which is for ever (`run_rest_or_gridlocked`). The invariant (`Sound`) has every client's
bytes in step with frames of messages on either side, those of the broadcast that are not in the
kernel yet included, so a thread that waits for the rest of a frame waits for one that can send it.
The measure (`work`) counts a byte more dearly the farther it is from being handled. A broadcast
that finds room for its commands in the sockets, as one does whose clients keep up, never gets into
a gridlock (`run_rest`).
-/

namespace MemoryGovernor

open Framing (Position Outcome InStep)

/-! ## One client -/

namespace Peer

/-- Where the listener is in the daemon's frames. -/
def position (p : Peer) : Position :=
  match p.control with
  | .reading position => position
  | .writing _ => .header

/-- What the client has still to write of a frame. -/
def rest (p : Peer) : Bytes :=
  match p.control with
  | .reading _ => []
  | .writing rest => rest

/-- What holds of a client whose socket has room for `down` and `up` bytes. Frames of messages are
on their way to it, of which `future` is not in the kernel yet, and from it to the event loop, which
is at `position` in them. -/
structure Sound (down up : ℕ) (future : Bytes) (position : Position) (p : Peer) : Prop where
  entry_bytes : p.cache.estimated_entry_bytes ≠ 0
  writing : ∀ rest, p.control = .writing rest → rest ≠ []
  down_le : p.down.length ≤ down
  up_le : p.up.length ≤ up
  commands : ∃ msgs : List Message,
    InStep p.position (p.down ++ future) (msgs.map Message.toPayload)
  reports : ∃ msgs : List Message, InStep position (p.up ++ p.rest) (msgs.map Message.toPayload)

/-- What is left to do with a client's bytes. A command may bring a report, of 65540 bytes at
most. -/
def work (p : Peer) : ℕ := 327701 * p.down.length + 5 * p.rest.length + 4 * p.up.length

section Peer

variable {down up n : ℕ} {future : Bytes} {position : Position} {p p' : Peer} {msg : Message}

/-- The frame of a message is short. -/
theorem frame_length (msg : Message) : 0 < msg.frame.length ∧ msg.frame.length ≤ 65540 := by
  have hle := (Message.payload_length msg).2
  rw [Message.frame, List.length_append, Framing.be32_length]
  omega

/-- One more message. -/
theorem inStep_frame {s : Bytes} {msgs : List Message}
    (h : InStep position s (msgs.map Message.toPayload)) (msg : Message) :
    InStep position (s ++ msg.frame) ((msgs ++ [msg]).map Message.toPayload) := by
  have hstream : Framing.stream ([msg].map Message.toPayload) = msg.frame := by
    rw [Message.stream_toPayload, List.flatMap_singleton]
  rw [List.map_append, ← hstream]
  exact h.append

/-- No message is too long for the client. -/
theorem inStep_payload_le {s got : Bytes} {len : ℕ} {msgs : List Message}
    (h : InStep (.payload len got) s (msgs.map Message.toPayload)) : len ≤ 65536 := by
  generalize hps : msgs.map Message.toPayload = ps at h
  cases h with
  | payload q ps hq hrest =>
    obtain ⟨msg, msgs', -, rfl, -⟩ := List.map_eq_cons_iff.1 hps
    exact (Message.payload_length msg).2

/-- After a message the client reads on, or reports. -/
theorem processMessage_spec (hp : p.processMessage msg = some p') :
    p'.cache.estimated_entry_bytes = p.cache.estimated_entry_bytes ∧ p'.down = p.down ∧
      p'.up = p.up ∧ (p'.control = .reading .header ∨
        ∃ report : Message, p'.control = .writing report.frame) := by
  have happlied : ∀ {applies : ℕ → ℕ → Bool} {t : UInt64},
      (GovernedCache.applyTarget applies p.cache t).map p.applied = some p' →
      p'.cache.estimated_entry_bytes = p.cache.estimated_entry_bytes ∧ p'.down = p.down ∧
        p'.up = p.up ∧ (p'.control = .reading .header ∨
          ∃ report : Message, p'.control = .writing report.frame) := by
    intro applies t hmap
    obtain ⟨⟨report, g⟩, happly, rfl⟩ := Option.map_eq_some_iff.1 hmap
    obtain ⟨-, rfl, rfl⟩ | ⟨-, rfl, rfl⟩ := GovernedCache.applyTarget_cases happly
    · exact ⟨rfl, rfl, rfl, .inl rfl⟩
    · exact ⟨rfl, rfl, rfl, .inr ⟨_, rfl⟩⟩
  unfold processMessage at hp
  split at hp
  · exact happlied hp
  · exact happlied hp
  · obtain rfl := Option.some.inj hp
    exact ⟨rfl, rfl, rfl, .inl rfl⟩

/-- It can handle every message. -/
theorem exists_processMessage (h : p.cache.estimated_entry_bytes ≠ 0) (msg : Message) :
    ∃ p', p.processMessage msg = some p' := by
  unfold processMessage
  split
  · obtain ⟨r, hr⟩ := GovernedCache.exists_applyTarget _ h msg.target_bytes
    exact ⟨_, by rw [GovernedCache.handleShrink, hr, Option.map_some]⟩
  · obtain ⟨r, hr⟩ := GovernedCache.exists_applyTarget _ h msg.target_bytes
    exact ⟨_, by rw [GovernedCache.handleGrow, hr, Option.map_some]⟩
  · exact ⟨_, rfl⟩

/-- A `read` of the listener leaves it in a frame, or a message has been processed. -/
theorem Sound.hear_cases (h : p.Sound down up future position) (hp : p.hear n = some p') :
    1 ≤ n ∧ n ≤ p.down.length ∧ p.rest = [] ∧ ∃ msgs : List Message,
      (∃ pos', p' = { p with down := p.down.drop n, control := .reading pos' } ∧
        InStep pos' (p.down.drop n ++ future) (msgs.map Message.toPayload)) ∨
      ∃ msg, { p with down := p.down.drop n }.processMessage msg = some p' ∧
        InStep .header (p.down.drop n ++ future) (msgs.map Message.toPayload) := by
  unfold Peer.hear at hp
  split at hp
  next pos hcontrol =>
    obtain ⟨out, hread, hheard⟩ := Option.bind_eq_some_iff.1 hp
    obtain ⟨h1, hn⟩ := Position.read_le hread
    have hpos : p.position = pos := by rw [Peer.position, hcontrol]
    have hrest : p.rest = [] := by rw [Peer.rest, hcontrol]
    obtain ⟨msgs, hmsgs⟩ := h.commands
    rw [hpos] at hmsgs
    have hout := hmsgs.read (Position.read_append hread)
    rw [List.drop_append_of_le_length hn] at hout
    rcases hout with ⟨pos', rfl, hin⟩ | ⟨q, ps, hmap, rfl, hin⟩
    · refine ⟨h1, hn, hrest, msgs, .inl ⟨pos', ?_, hin⟩⟩
      cases pos' with
      | header => exact (Option.some.inj hheard).symm
      | payload len got => exact (Option.some.inj (Option.ite_none_right_eq_some.1 hheard).2).symm
    · -- The payload is that of the next message.
      obtain ⟨msg, msgs', rfl, rfl, rfl⟩ := List.map_eq_cons_iff.1 hmap
      have hpayload : msg.toPayload.bytes = msg.payload := rfl
      simp only [heard, hpayload, Message.deserialize_payload] at hheard
      obtain ⟨-, hprocess⟩ := Option.ite_none_left_eq_some.1 hheard
      exact ⟨h1, hn, hrest, msgs', .inr ⟨msg, hprocess, hin⟩⟩
  next => cases hp

/-- What the client has read is no longer in the socket. -/
theorem Sound.down_drop_le (h : p.Sound down up future position) (n : ℕ) :
    (p.down.drop n).length ≤ down := by
  rw [List.length_drop]
  exact (Nat.sub_le _ _).trans h.down_le

/-- The client is in a frame. -/
theorem Sound.inFrame (h : p.Sound down up future position) (hrest : p.rest = []) {pos : Position}
    {msgs : List Message}
    (hin : InStep pos (p.down.drop n ++ future) (msgs.map Message.toPayload)) :
    { p with down := p.down.drop n, control := .reading pos }.Sound down up future position := by
  obtain ⟨reports, hreports⟩ := h.reports
  rw [hrest, List.append_nil] at hreports
  refine ⟨h.entry_bytes, fun rest hw => (nomatch hw), h.down_drop_le n, h.up_le, ⟨msgs, hin⟩,
    ⟨reports, ?_⟩⟩
  simpa [Peer.rest] using hreports

/-- The client has processed a message. -/
theorem Sound.processed (h : p.Sound down up future position) (hrest : p.rest = [])
    {msgs : List Message}
    (hin : InStep .header (p.down.drop n ++ future) (msgs.map Message.toPayload))
    (hp : { p with down := p.down.drop n }.processMessage msg = some p') :
    p'.Sound down up future position := by
  obtain ⟨hentry, hdown, hup, hcontrol⟩ := processMessage_spec hp
  obtain ⟨reports, hreports⟩ := h.reports
  rw [hrest, List.append_nil] at hreports
  have hposition : p'.position = .header := by
    rcases hcontrol with hc | ⟨report, hc⟩ <;> rw [Peer.position, hc]
  refine ⟨by rw [hentry]; exact h.entry_bytes, fun rest hw => ?_,
    by rw [hdown]; exact h.down_drop_le n, by rw [hup]; exact h.up_le,
    ⟨msgs, by rw [hposition, hdown]; exact hin⟩, ?_⟩
  · rcases hcontrol with hc | ⟨report, hc⟩
    · rw [hc] at hw
      cases hw
    · rw [hc] at hw
      obtain rfl := PeerControl.writing.inj hw
      exact List.ne_nil_of_length_pos (frame_length report).1
  · rw [hup]
    rcases hcontrol with hc | ⟨report, hc⟩
    · exact ⟨reports, by simpa [Peer.rest, hc] using hreports⟩
    · exact ⟨reports ++ [report], by simpa [Peer.rest, hc] using inStep_frame hreports report⟩

/-- A message that is processed brings a report at most, which is less than what was read of it. -/
theorem work_processed (h1 : 1 ≤ n) (hn : n ≤ p.down.length)
    (hp : { p with down := p.down.drop n }.processMessage msg = some p') : p'.work < p.work := by
  obtain ⟨-, hdown, hup, hcontrol⟩ := processMessage_spec hp
  have hrest : p'.rest.length ≤ 65540 := by
    rcases hcontrol with hc | ⟨report, hc⟩
    · simp [Peer.rest, hc]
    · simpa [Peer.rest, hc] using (frame_length report).2
  unfold work
  simp only [hdown, hup, List.length_drop]
  omega

/-- A `read` of the listener. -/
theorem Sound.hear (h : p.Sound down up future position) (hp : p.hear n = some p') :
    p'.Sound down up future position ∧ p'.work < p.work ∧ p'.down.length ≤ p.down.length ∧
      p'.up = p.up ∧ p.down ≠ [] := by
  obtain ⟨h1, hn, hrest, msgs, hcases⟩ := h.hear_cases hp
  have hle : (p.down.drop n).length ≤ p.down.length := by
    rw [List.length_drop]
    exact Nat.sub_le _ _
  have hne : p.down ≠ [] := List.ne_nil_of_length_pos (Nat.lt_of_lt_of_le h1 hn)
  rcases hcases with ⟨pos', rfl, hin⟩ | ⟨msg, hprocess, hin⟩
  · refine ⟨h.inFrame hrest hin, ?_, hle, rfl, hne⟩
    simp only [work, Peer.rest, List.length_drop, List.length_nil]
    omega
  · obtain ⟨-, hdown, hup, -⟩ := processMessage_spec hprocess
    exact ⟨h.processed hrest hin hprocess, work_processed h1 hn hprocess, by rw [hdown]; exact hle,
      hup, hne⟩

/-- The listener can read what has come, before a length if all of it has. -/
theorem Sound.exists_hear (h : p.Sound down up future position) (hcontrol : p.rest = [])
    (hdown : p.down ≠ []) (hheader : p.position = .header → 4 ≤ p.down.length) :
    ∃ n p', p.hear n = some p' := by
  obtain ⟨msgs, hmsgs⟩ := h.commands
  obtain ⟨n, out, hread⟩ := hmsgs.exists_read hdown hheader
  have hreading : p.control = .reading p.position := by
    unfold Peer.position Peer.rest at *
    split at hcontrol
    next pos hc => rw [hc]
    next rest hc => exact absurd hcontrol (h.writing rest hc)
  have hsome : ∃ p', { p with down := p.down.drop n }.heard out = some p' := by
    rcases hmsgs.read (Position.read_append hread) with ⟨pos', rfl, hin⟩ | ⟨q, ps, hmap, rfl, -⟩
    · cases pos' with
      | header => exact ⟨_, rfl⟩
      | payload len got => exact ⟨_, if_pos (inStep_payload_le hin)⟩
    · obtain ⟨msg, msgs', rfl, rfl, rfl⟩ := List.map_eq_cons_iff.1 hmap
      have hpayload : msg.toPayload.bytes = msg.payload := rfl
      have hne : msg.payload ≠ [] := List.ne_nil_of_length_pos (Message.payload_length msg).1
      simp only [heard, hpayload, Message.deserialize_payload, hne, if_false]
      exact exists_processMessage (p := { p with down := p.down.drop n }) h.entry_bytes msg
  obtain ⟨p', hp'⟩ := hsome
  refine ⟨n, p', ?_⟩
  simp only [Peer.hear, hreading, hread, Option.bind_some]
  exact hp'

/-- A `write` of `send_message`. -/
theorem Sound.send (h : p.Sound down up future position) (hp : p.send up n = some p') :
    p'.Sound down up future position ∧ p'.work < p.work ∧ p'.down = p.down ∧ p.rest ≠ [] ∧
      p'.up ≠ [] := by
  unfold Peer.send at hp
  split at hp
  next rest hcontrol =>
    obtain ⟨⟨h1, hn, hroom⟩, heq⟩ := Option.ite_none_right_eq_some.1 hp
    obtain rfl := Option.some.inj heq
    have hrest : p.rest = rest := by rw [Peer.rest, hcontrol]
    have hpos : p.position = .header := by rw [Peer.position, hcontrol]
    have htake : (rest.take n).length = n := by rw [List.length_take, Nat.min_eq_left hn]
    obtain ⟨msgs, hmsgs⟩ := h.commands
    obtain ⟨reports, hreports⟩ := h.reports
    rw [hrest, ← List.take_append_drop n rest, ← List.append_assoc] at hreports
    rw [hpos] at hmsgs
    have hup : p.up ++ rest.take n ≠ [] := by
      refine List.ne_nil_of_length_pos ?_
      rw [List.length_append, htake]
      omega
    have hup_le : (p.up ++ rest.take n).length ≤ up := by
      rw [List.length_append, htake]
      exact hroom
    rcases hn.lt_or_eq with hlt | rfl
    · rw [if_pos hlt]
      refine ⟨⟨h.entry_bytes, fun rest' hw => ?_, h.down_le, hup_le, ⟨msgs, hmsgs⟩,
        ⟨reports, hreports⟩⟩, ?_, rfl, hrest ▸ h.writing rest hcontrol, hup⟩
      · obtain rfl := PeerControl.writing.inj hw
        exact List.ne_nil_of_length_pos (by rw [List.length_drop]; omega)
      · simp only [work, Peer.rest, hcontrol, List.length_append, List.length_drop, htake]
        omega
    · rw [if_neg (lt_irrefl _)]
      rw [List.drop_length] at hreports
      refine ⟨⟨h.entry_bytes, fun rest' hw => (nomatch hw), h.down_le, hup_le, ⟨msgs, hmsgs⟩,
        ⟨reports, hreports⟩⟩, ?_, rfl, hrest ▸ h.writing rest hcontrol, hup⟩
      simp only [work, Peer.rest, hcontrol, List.length_append, htake, List.length_nil]
      omega
  next => cases hp

/-- The client can go on with its frame where there is room. -/
theorem exists_send (hrest : p.rest ≠ []) (hroom : p.up.length < up) :
    ∃ n p', p.send up n = some p' := by
  unfold Peer.rest at hrest
  split at hrest
  next => exact absurd rfl hrest
  next rest hcontrol =>
    have hpos : 1 ≤ rest.length := List.length_pos_of_ne_nil hrest
    refine ⟨1, ?_⟩
    simp only [Peer.send, hcontrol]
    exact ⟨_, if_pos ⟨le_rfl, hpos, hroom⟩⟩

/-- The application's calls. -/
theorem Sound.use {cache : SoundCache String String} (h : p.Sound down up future position)
    (hp : p.use cache = some p') :
    p'.Sound down up future position ∧ p'.work = p.work ∧ p'.down = p.down ∧ p'.up = p.up ∧
      p'.rest = p.rest ∧ p.rest = [] := by
  unfold Peer.use at hp
  split at hp
  next pos hcontrol =>
    obtain rfl := Option.some.inj hp
    have hrest : p.rest = [] := by rw [Peer.rest, hcontrol]
    exact ⟨⟨h.entry_bytes, h.writing, h.down_le, h.up_le, h.commands, h.reports⟩, rfl, rfl, rfl,
      rfl, hrest⟩
  next => cases hp

/-- The daemon writes the next bytes of a frame to the client. -/
theorem Sound.receive {x : Bytes} (h : p.Sound down up (x ++ future) position)
    (hroom : p.down.length + x.length ≤ down) :
    { p with down := p.down ++ x }.Sound down up future position := by
  obtain ⟨msgs, hmsgs⟩ := h.commands
  refine ⟨h.entry_bytes, h.writing, ?_, h.up_le, ⟨msgs, ?_⟩, h.reports⟩
  · rw [List.length_append]
    exact hroom
  · rw [List.append_assoc]
    exact hmsgs

/-- The event loop reads from the client. -/
theorem Sound.read {out : Outcome} (h : p.Sound down up future position)
    (hread : position.read p.up n = some out) :
    (∃ pos', out = .more pos' ∧ { p with up := p.up.drop n }.Sound down up future pos') ∨
      ∃ msg : Message, out = .whole msg.payload ∧
        { p with up := p.up.drop n }.Sound down up future .header := by
  obtain ⟨reports, hreports⟩ := h.reports
  obtain ⟨h1, hn⟩ := Position.read_le hread
  have hsound : ∀ {pos' : Position} {msgs : List Message},
      InStep pos' (p.up.drop n ++ p.rest) (msgs.map Message.toPayload) →
        { p with up := p.up.drop n }.Sound down up future pos' := fun hin =>
    ⟨h.entry_bytes, h.writing, h.down_le, by
      rw [List.length_drop]
      exact (Nat.sub_le _ _).trans h.up_le, h.commands, ⟨_, hin⟩⟩
  have hout := hreports.read (Position.read_append hread)
  rw [List.drop_append_of_le_length hn] at hout
  rcases hout with ⟨pos', rfl, hin⟩ | ⟨q, ps, hmap, rfl, hin⟩
  · exact .inl ⟨pos', rfl, hsound hin⟩
  · obtain ⟨msg, msgs, -, rfl, rfl⟩ := List.map_eq_cons_iff.1 hmap
    exact .inr ⟨msg, rfl, hsound hin⟩

/-- Where the event loop waits for the rest of a length or of a payload, the client is to send
it. -/
theorem Sound.rest_ne_nil (h : p.Sound down up future position)
    (hread : ∀ n, position.read p.up n = none) (hne : p.up ≠ [] ∨ position ≠ .header) :
    p.rest ≠ [] ∧ p.up.length < 4 := by
  obtain ⟨reports, hreports⟩ := h.reports
  cases position with
  | header =>
    have hup : p.up ≠ [] := hne.resolve_right fun hnot => hnot rfl
    have hlt : p.up.length < 4 := by
      by_contra hge
      exact Option.some_ne_none _ ((if_pos ⟨rfl, not_lt.1 hge⟩).symm.trans (hread 4))
    have hfour := hreports.four_le (List.append_ne_nil_of_left_ne_nil hup _)
    rw [List.length_append] at hfour
    exact ⟨List.ne_nil_of_length_pos (by omega), hlt⟩
  | payload len got =>
    obtain ⟨hgot, hlen⟩ := hreports.payload_lt
    have hup : p.up = [] := by
      by_contra hne
      have hpos : 1 ≤ p.up.length := List.length_pos_of_ne_nil hne
      exact Option.some_ne_none _ ((if_pos ⟨le_rfl, hgot, hpos⟩).symm.trans (hread 1))
    rw [hup, List.nil_append] at hlen
    exact ⟨List.ne_nil_of_length_pos hlen, by rw [hup]; decide⟩

/-- A client with nothing on its way, and nothing more to come, waits for a command. -/
theorem Sound.waits (h : p.Sound down up [] position) (hdown : p.down = []) (hrest : p.rest = []) :
    p.control = .reading .header := by
  obtain ⟨msgs, hmsgs⟩ := h.commands
  rw [hdown, List.nil_append] at hmsgs
  have hpos := hmsgs.eq_nil.1
  unfold Peer.position at hpos
  unfold Peer.rest at hrest
  split at hpos
  next pos hcontrol => rw [hcontrol, hpos]
  next rest hcontrol =>
    rw [hcontrol] at hrest
    exact absurd hrest (h.writing rest hcontrol)

end Peer

end Peer

/-! ## The broadcast -/

namespace Broadcast

/-- What the broadcast has still to write to client `k`. -/
def future (b : Broadcast) (k : ℕ) : Bytes :=
  match b.todo with
  | [] => []
  | (fd, frame) :: rest => (if fd = k then frame.drop b.total_written else []) ++
      (rest.filter fun p => p.1 = k).flatMap Prod.snd

/-- The bytes that it has still to write. -/
def left (b : Broadcast) : ℕ := (b.todo.map fun p => p.2.length).sum - b.total_written

section Broadcast

variable {b : Broadcast} {fd k n : ℕ} {frame : Bytes} {rest : List (ℕ × Bytes)}

theorem future_nil (htodo : b.todo = []) : b.future k = [] := by
  rw [future, htodo]

/-- Before the first write to a client, its whole frame is to come. -/
theorem future_zero (hzero : b.total_written = 0) :
    b.future k = (b.todo.filter fun p => p.1 = k).flatMap Prod.snd := by
  unfold future
  split
  next htodo => rw [htodo]; rfl
  next fd frame rest htodo =>
    rw [htodo, hzero, List.drop_zero, List.filter_cons]
    by_cases hfd : fd = k
    · simp [hfd]
    · simp [hfd]

/-- What a write leaves to write. -/
theorem future_wrote (htodo : b.todo = (fd, frame) :: rest)
    (hle : n ≤ frame.length - b.total_written) :
    b.future fd = (frame.drop b.total_written).take n ++ (b.wrote fd frame n).future fd := by
  simp only [future, wrote, htodo, if_true, Nat.min_eq_left hle, ← List.append_assoc,
    ← List.drop_drop, List.take_append_drop]

theorem future_wrote_of_ne (htodo : b.todo = (fd, frame) :: rest) (hne : k ≠ fd) :
    (b.wrote fd frame n).future k = b.future k := by
  simp only [future, wrote, htodo, if_neg (Ne.symm hne)]

/-- The next client. -/
theorem future_nextClient (htodo : b.todo = (fd, frame) :: rest)
    (hle : frame.length ≤ b.total_written) : b.nextClient.future k = b.future k := by
  rw [future_zero rfl]
  simp only [nextClient, future, htodo, List.tail_cons, List.drop_eq_nil_of_le hle, ite_self,
    List.nil_append]

/-- The messages of a broadcast to one client. -/
def messagesTo (order : List (ℕ × Message)) (k : ℕ) : List Message :=
  (order.filter fun m => m.1 = k).map Prod.snd

theorem future_start (order : List (ℕ × Message)) :
    (start order).future k = (messagesTo order k).flatMap Message.frame := by
  rw [future_zero rfl]
  simp only [start, messagesTo, List.filter_map, List.flatMap_map, Function.comp_def]

end Broadcast

end Broadcast

/-! ## All of them -/

/-- A step of the threads. The others are those of the samples and of the applications. -/
def ExchangeEvent.isThread : ExchangeEvent → Bool
  | .broadcast _ _ _ | .put _ _ _ | .get _ _ => false
  | .write _ | .leave | .wake _ | .read _ | .again | .record | .hear _ _ | .send _ _ => true

namespace Exchange

/-- Where the event loop is in the frames of client `k`. -/
def position (s : Exchange) (k : ℕ) : Position :=
  match s.serve with
  | .reading fd position => if fd = k then position else .header
  | .waiting | .locking _ _ => .header

/-- What holds between the steps, with the clients `fds`. -/
structure Sound (R : Room) (fds : List ℕ) (s : Exchange) : Prop where
  alive : s.poll.alive = true
  unlocked : s.poll.locked = false → s.poll.todo = []
  targets : ∀ p ∈ s.poll.todo, p.1 ∈ fds
  written : ∀ p ∈ s.poll.todo.head?, s.poll.total_written ≤ p.2.length
  clients : ∀ fd ∈ s.registry.clients, fd ∈ fds
  peers : ∀ k, (s.peers k).Sound (R.down k) (R.up k) (s.poll.future k) (s.position k)
  absent : ∀ k, k ∉ fds → (s.peers k).down = [] ∧ (s.peers k).up = [] ∧ (s.peers k).rest = []

/-- Nothing is on its way, and every thread waits for something to come. -/
structure Rest (s : Exchange) : Prop where
  poll : s.poll.locked = false
  serve : s.serve = .waiting
  control : ∀ k, (s.peers k).control = .reading .header
  down : ∀ k, (s.peers k).down = []
  up : ∀ k, (s.peers k).up = []

/-- The broadcast waits for client `k` to read, which waits for the event loop to read, which waits
for the mutex. -/
structure Gridlocked (R : Room) (s : Exchange) (k : ℕ) : Prop where
  poll : s.poll.locked = true ∧
    ∃ frame rest, s.poll.todo = (k, frame) :: rest ∧ s.poll.total_written < frame.length
  down : (s.peers k).down.length = R.down k
  control : ∃ rest, (s.peers k).control = .writing rest
  up : (s.peers k).up.length = R.up k
  serve : ∃ fd msg, s.serve = .locking fd msg

section Steps

variable {R : Room} {A : LinkedHeap.Allocator} {fds : List ℕ} {s t : Exchange} {e : ExchangeEvent}
  {o : Unit} {k : ℕ}

/-- A broadcast goes to the clients. -/
theorem sound_broadcast (h : s.Sound R fds) {cmd : Command} {fraction : ℚ}
    {order cmds : List (ℕ × Message)} (hfree : s.poll.locked = false)
    (hcmds : s.registry.commands cmd fraction = some cmds) (horder : order.Perm cmds) :
    { s with poll := Broadcast.start order }.Sound R fds where
  alive := rfl
  unlocked := fun hlocked => (nomatch hlocked)
  targets := fun p hp => by
    obtain ⟨m, hm, rfl⟩ := List.mem_map.1 hp
    have hkey : m.1 ∈ cmds.map Prod.fst := List.mem_map_of_mem (horder.mem_iff.1 hm)
    rw [(ClientRegistry.commands_spec hcmds).1] at hkey
    exact h.clients m.1 hkey
  written := fun p _ => Nat.zero_le _
  clients := h.clients
  peers := fun k => by
    have hk := h.peers k
    rw [Broadcast.future_nil (h.unlocked hfree)] at hk
    obtain ⟨msgs, hmsgs⟩ := hk.commands
    refine ⟨hk.entry_bytes, hk.writing, hk.down_le, hk.up_le,
      ⟨msgs ++ Broadcast.messagesTo order k, ?_⟩, hk.reports⟩
    rw [List.append_nil] at hmsgs
    rw [Broadcast.future_start, List.map_append, ← Message.stream_toPayload]
    exact hmsgs.append
  absent := h.absent

/-- A step of the daemon that leaves what is on its way to each client, and where the event loop is
in what comes from it. -/
theorem Sound.congr (h : s.Sound R fds) (halive : t.poll.alive = true)
    (hunlocked : t.poll.locked = false → t.poll.todo = [])
    (htargets : ∀ p ∈ t.poll.todo, p.1 ∈ fds)
    (hwritten : ∀ p ∈ t.poll.todo.head?, t.poll.total_written ≤ p.2.length)
    (hclients : ∀ fd ∈ t.registry.clients, fd ∈ fds) (hpeers : t.peers = s.peers)
    (hfuture : ∀ k, t.poll.future k = s.poll.future k)
    (hposition : ∀ k, t.position k = s.position k) : t.Sound R fds where
  alive := halive
  unlocked := hunlocked
  targets := htargets
  written := hwritten
  clients := hclients
  peers := fun k => by
    rw [hpeers, hfuture, hposition]
    exact h.peers k
  absent := by rw [hpeers]; exact h.absent

/-- A step that changes client `k` only, but for what is on its way to it and where the event loop
is in what comes from it. -/
theorem Sound.setPeer (h : s.Sound R fds) {p : Peer} (halive : t.poll.alive = true)
    (hunlocked : t.poll.locked = false → t.poll.todo = [])
    (htargets : ∀ p ∈ t.poll.todo, p.1 ∈ fds)
    (hwritten : ∀ p ∈ t.poll.todo.head?, t.poll.total_written ≤ p.2.length)
    (hclients : t.registry = s.registry) (hpeers : t.peers = Function.update s.peers k p)
    (hfuture : ∀ j, j ≠ k → t.poll.future j = s.poll.future j)
    (hposition : ∀ j, j ≠ k → t.position j = s.position j)
    (hp : p.Sound (R.down k) (R.up k) (t.poll.future k) (t.position k))
    (habsent : k ∉ fds → p.down = [] ∧ p.up = [] ∧ p.rest = []) : t.Sound R fds where
  alive := halive
  unlocked := hunlocked
  targets := htargets
  written := hwritten
  clients := hclients ▸ h.clients
  peers := by
    rw [hpeers]
    refine (Function.forall_update_iff s.peers (p := fun j q =>
      Peer.Sound (R.down j) (R.up j) (t.poll.future j) (t.position j) q)).2 ⟨hp, fun j hj => ?_⟩
    rw [hfuture j hj, hposition j hj]
    exact h.peers j
  absent := by
    rw [hpeers]
    exact (Function.forall_update_iff s.peers (p := fun j q => j ∉ fds →
      q.down = [] ∧ q.up = [] ∧ q.rest = [])).2 ⟨habsent, fun j _ => h.absent j⟩

/-- A client that does something is one of them. -/
theorem Sound.mem (h : s.Sound R fds)
    (hk : (s.peers k).down ≠ [] ∨ (s.peers k).up ≠ [] ∨ (s.peers k).rest ≠ []) : k ∈ fds := by
  by_contra hnot
  obtain ⟨hdown, hup, hrest⟩ := h.absent k hnot
  simp [hdown, hup, hrest] at hk

/-- Every step keeps what holds between the steps. -/
theorem sound_step (h : s.Sound R fds) (hstep : step R A s e = some (o, t)) : t.Sound R fds := by
  cases steps_of_step hstep with
  | broadcast hfree hcmds horder => exact sound_broadcast h hfree hcmds horder
  | @write fd n frame rest htodo h1 hle hroom =>
    have hfd : fd ∈ fds := h.targets (fd, frame) (by rw [htodo]; exact List.mem_cons_self)
    have hlen : ((frame.drop s.poll.total_written).take n).length = n := by
      rw [List.length_take, List.length_drop, Nat.min_eq_left hle]
    refine h.setPeer h.alive h.unlocked h.targets (fun p hp => ?_) rfl rfl
      (fun j hj => Broadcast.future_wrote_of_ne htodo hj) (fun j _ => rfl) ?_
      (fun hnot => absurd hfd hnot)
    · obtain rfl : (fd, frame) = p := by simpa [Exchange.setPeer, Broadcast.wrote, htodo] using hp
      simp only [Exchange.setPeer, Broadcast.wrote]
      have hbefore := h.written (fd, frame) (by rw [htodo]; rfl)
      simp only at hbefore
      omega
    · have hpeer := h.peers fd
      rw [Broadcast.future_wrote htodo hle] at hpeer
      exact hpeer.receive (by rw [hlen]; exact hroom)
  | @nextClient fd frame rest htodo hle =>
    refine h.congr h.alive (fun hfree => ?_) (fun p hp => h.targets p (List.mem_of_mem_tail hp))
      (fun p _ => Nat.zero_le _) h.clients rfl
      (fun k => Broadcast.future_nextClient htodo hle) (fun k => rfl)
    simp only [Broadcast.nextClient, h.unlocked hfree, List.tail_nil]
  | unlock htodo hlocked =>
    exact h.congr h.alive (fun _ => htodo) h.targets h.written h.clients rfl (fun k => rfl)
      fun k => rfl
  | @wake fd hserve hup =>
    refine h.congr h.alive h.unlocked h.targets h.written h.clients rfl (fun k => rfl) fun k => ?_
    simp [Exchange.position, hserve]
  | @read fd n position out hserve hread =>
    have hfd : fd ∈ fds := by
      obtain ⟨h1, hn⟩ := Position.read_le hread
      exact h.mem (.inr (.inl (List.ne_nil_of_length_pos (Nat.lt_of_lt_of_le h1 hn))))
    have hpeer := h.peers fd
    have hposition : s.position fd = position := by simp [Exchange.position, hserve]
    rw [hposition] at hpeer
    rcases hpeer.read hread with ⟨pos', rfl, hsound⟩ | ⟨msg, rfl, hsound⟩
    · refine h.setPeer h.alive h.unlocked h.targets h.written rfl rfl (fun j _ => rfl)
        (fun j hj => ?_) ?_ fun hnot => absurd hfd hnot
      · simp [Exchange.position, received, hserve, Ne.symm hj]
      · simpa [Exchange.position, received, Exchange.setPeer] using hsound
    · simp only [received, Message.deserialize_payload]
      refine h.setPeer h.alive h.unlocked h.targets h.written rfl rfl (fun j _ => rfl)
        (fun j hj => ?_) hsound fun hnot => absurd hfd hnot
      simp [Exchange.position, hserve, Ne.symm hj]
  | @again fd hserve hup =>
    refine h.congr h.alive h.unlocked h.targets h.written h.clients rfl (fun k => rfl) fun k => ?_
    simp [Exchange.position, hserve]
  | @record fd msg hserve hfree =>
    refine h.congr h.alive h.unlocked h.targets h.written (fun fd' hmem => ?_) rfl (fun k => rfl)
      fun k => ?_
    · rw [← AList.lookup_isSome, ClientRegistry.lookup_handleMessage] at hmem
      refine h.clients fd' (AList.lookup_isSome.1 ?_)
      split_ifs at hmem
      · rwa [Option.isSome_map] at hmem
      · exact hmem
    · simp [Exchange.position, hserve]
  | @hear k n p hp =>
    obtain ⟨hsound, -, -, hup, hdown⟩ := (h.peers k).hear hp
    exact h.setPeer h.alive h.unlocked h.targets h.written rfl rfl (fun j _ => rfl)
      (fun j _ => rfl) hsound fun hnot => absurd (h.mem (.inl hdown)) hnot
  | @send k n p hp =>
    obtain ⟨hsound, -, -, hrest, -⟩ := (h.peers k).send hp
    exact h.setPeer h.alive h.unlocked h.targets h.written rfl rfl (fun j _ => rfl)
      (fun j _ => rfl) hsound fun hnot => absurd (h.mem (.inr (.inr hrest))) hnot
  | @use e k cache p he hp =>
    obtain ⟨hsound, -, hdown, hup, hrest, -⟩ := (h.peers k).use hp
    refine h.setPeer h.alive h.unlocked h.targets h.written rfl rfl (fun j _ => rfl)
      (fun j _ => rfl) hsound fun hnot => ?_
    rw [hdown, hup, hrest]
    exact h.absent k hnot

/-! ### What is left to do -/

/-- A `read` of the event loop leaves the broadcast and the clients. -/
theorem received_eq (s : Exchange) (fd : ℕ) (out : Outcome) :
    (s.received fd out).poll = s.poll ∧ (s.received fd out).peers = s.peers := by
  unfold received
  split
  · exact ⟨rfl, rfl⟩
  · split <;> exact ⟨rfl, rfl⟩

/-- What the event loop has left to do before it waits or reads. -/
def serveWork (s : Exchange) : ℕ :=
  match s.serve with
  | .waiting => 1
  | .reading fd .header => if (s.peers fd).up = [] then 2 else 0
  | .reading _ (.payload _ _) => 0
  | .locking _ _ => 3

/-- What the clients have left to do, -/
def clientsWork (fds : List ℕ) (s : Exchange) : ℕ := ∑ k ∈ fds.toFinset, (s.peers k).work

/-- and the broadcast. -/
def pollWork (b : Broadcast) : ℕ := 327702 * b.left + b.todo.length + if b.locked then 1 else 0

/-- What the threads have left to do. -/
def work (fds : List ℕ) (s : Exchange) : ℕ := s.clientsWork fds + pollWork s.poll + s.serveWork

theorem serveWork_le (s : Exchange) : s.serveWork ≤ 3 := by
  unfold serveWork
  split
  · decide
  · split_ifs <;> decide
  · decide
  · decide

/-- The work of the clients, with one of them replaced. -/
theorem clientsWork_setPeer (hk : k ∈ fds) (p : Peer) :
    (s.setPeer k p).clientsWork fds + (s.peers k).work = s.clientsWork fds + p.work := by
  have hmem : k ∈ fds.toFinset := List.mem_toFinset.2 hk
  have hrest : ∑ j ∈ fds.toFinset.erase k, (Function.update s.peers k p j).work =
      ∑ j ∈ fds.toFinset.erase k, (s.peers j).work :=
    Finset.sum_congr rfl fun j hj => by rw [Function.update_of_ne (Finset.ne_of_mem_erase hj)]
  unfold clientsWork Exchange.setPeer
  rw [← Finset.add_sum_erase _ _ hmem, ← Finset.add_sum_erase _ (fun j => (s.peers j).work) hmem,
    hrest]
  simp only [Function.update_self]
  omega

/-- The event loop has no more left to do when a client has more on its way. -/
theorem serveWork_setPeer {p : Peer} (hup : p.up = [] → (s.peers k).up = []) :
    (s.setPeer k p).serveWork ≤ s.serveWork := by
  unfold serveWork
  cases hserve : s.serve with
  | waiting => simp [Exchange.setPeer, hserve]
  | locking fd msg => simp [Exchange.setPeer, hserve]
  | reading fd position =>
    cases position with
    | payload len got => simp [Exchange.setPeer, hserve]
    | header =>
      simp only [Exchange.setPeer, hserve]
      by_cases hfd : fd = k
      · subst hfd
        rw [Function.update_self]
        by_cases hp : p.up = []
        · rw [if_pos hp, if_pos (hup hp)]
        · rw [if_neg hp]
          exact Nat.zero_le _
      · rw [Function.update_of_ne hfd]

/-- The work of all, with one of the clients replaced that has more on its way. -/
theorem work_setPeer (hk : k ∈ fds) {p : Peer} (hup : p.up = [] → (s.peers k).up = []) :
    (s.setPeer k p).work fds + (s.peers k).work ≤ s.work fds + p.work := by
  have hclients := clientsWork_setPeer (s := s) hk p
  have hserve := serveWork_setPeer (s := s) hup
  have hpoll : pollWork (s.setPeer k p).poll = pollWork s.poll := rfl
  unfold work
  omega

/-- The work of all with another broadcast. -/
theorem work_setPoll (s : Exchange) (b : Broadcast) :
    work fds { s with poll := b } = s.clientsWork fds + pollWork b + s.serveWork := rfl

/-- A write leaves less to write. -/
theorem pollWork_wrote {b : Broadcast} {fd n : ℕ} {frame : Bytes} {rest : List (ℕ × Bytes)}
    (htodo : b.todo = (fd, frame) :: rest) (hle : n ≤ frame.length - b.total_written) :
    pollWork (b.wrote fd frame n) + 327702 * n = pollWork b := by
  simp only [pollWork, Broadcast.left, Broadcast.wrote, htodo, List.map_cons, List.sum_cons]
  omega

/-- So does the next client. -/
theorem pollWork_nextClient {b : Broadcast} {fd : ℕ} {frame : Bytes} {rest : List (ℕ × Bytes)}
    (htodo : b.todo = (fd, frame) :: rest) (hwritten : b.total_written = frame.length) :
    pollWork b.nextClient + 1 = pollWork b := by
  simp only [pollWork, Broadcast.left, Broadcast.nextClient, htodo, List.map_cons, List.sum_cons,
    List.tail_cons, List.length_cons]
  omega

/-- Every step of the threads leaves less to do. -/
theorem work_step (h : s.Sound R fds) (he : e.isThread = true)
    (hstep : step R A s e = some (o, t)) : t.work fds < s.work fds := by
  cases steps_of_step hstep with
  | broadcast hfree hcmds horder => cases he
  | @write fd n frame rest htodo h1 hle hroom =>
    have hfd : fd ∈ fds := h.targets (fd, frame) (by rw [htodo]; exact List.mem_cons_self)
    have hlen : ((frame.drop s.poll.total_written).take n).length = n := by
      rw [List.length_take, List.length_drop, Nat.min_eq_left hle]
    have hpeer : Peer.work { s.peers fd with
        down := (s.peers fd).down ++ (frame.drop s.poll.total_written).take n } =
        (s.peers fd).work + 327701 * n := by
      simp only [Peer.work, List.length_append, hlen, Peer.rest]
      omega
    have hup : Peer.up { s.peers fd with
        down := (s.peers fd).down ++ (frame.drop s.poll.total_written).take n } =
        (s.peers fd).up := rfl
    generalize { s.peers fd with
      down := (s.peers fd).down ++ (frame.drop s.poll.total_written).take n } = p at hpeer hup ⊢
    have hset := work_setPeer (s := { s with poll := s.poll.wrote fd frame n }) hfd (p := p)
      fun hp => hup ▸ hp
    have hpoll := pollWork_wrote htodo hle
    have hwork : s.work fds = s.clientsWork fds + pollWork s.poll + s.serveWork := rfl
    simp only [work_setPoll, hpeer] at hset
    omega
  | @nextClient fd frame rest htodo hle =>
    have hwritten := h.written (fd, frame) (by rw [htodo]; rfl)
    have hpoll := pollWork_nextClient htodo (le_antisymm hwritten hle)
    rw [work_setPoll]
    unfold work
    omega
  | unlock htodo hlocked =>
    have hunlock : pollWork { s.poll with locked := false } + 1 = pollWork s.poll := by
      simp [pollWork, Broadcast.left, hlocked]
    rw [work_setPoll]
    unfold work
    omega
  | @wake fd hserve hup =>
    simp [work, clientsWork, serveWork, hserve, hup]
  | @read fd n position out hserve hread =>
    obtain ⟨h1, hn⟩ := Position.read_le hread
    have hfd : fd ∈ fds := h.mem (.inr (.inl (List.ne_nil_of_length_pos
      (Nat.lt_of_lt_of_le h1 hn))))
    have hclients := clientsWork_setPeer (s := s) hfd
      { s.peers fd with up := (s.peers fd).up.drop n }
    have hpeer : Peer.work { s.peers fd with up := (s.peers fd).up.drop n } + 4 * n =
        (s.peers fd).work := by
      simp only [Peer.work, List.length_drop, Peer.rest]
      omega
    generalize { s.peers fd with up := (s.peers fd).up.drop n } = p at hclients hpeer ⊢
    have hle := serveWork_le ((s.setPeer fd p).received fd out)
    obtain ⟨hpoll, hpeers⟩ := received_eq (s.setPeer fd p) fd out
    have hsame : clientsWork fds ((s.setPeer fd p).received fd out) =
        clientsWork fds (s.setPeer fd p) := by rw [clientsWork, hpeers, clientsWork]
    have hpoll' : (s.setPeer fd p).poll = s.poll := rfl
    rw [work, hpoll, hpoll', hsame]
    unfold work
    omega
  | @again fd hserve hup =>
    simp [work, clientsWork, serveWork, hserve, hup]
  | @record fd msg hserve hfree =>
    simp only [work, clientsWork, serveWork, hserve]
    split_ifs <;> omega
  | @hear k n p hp =>
    obtain ⟨-, hlt, -, hup, hdown⟩ := (h.peers k).hear hp
    have hset := work_setPeer (s := s) (h.mem (.inl hdown)) (p := p) fun hp => hup ▸ hp
    omega
  | @send k n p hp =>
    obtain ⟨-, hlt, -, hrest, hup⟩ := (h.peers k).send hp
    have hset := work_setPeer (s := s) (h.mem (.inr (.inr hrest))) (p := p)
      fun hp => absurd hp hup
    omega
  | use he' hp =>
    obtain ⟨key, value, rfl⟩ | ⟨key, rfl⟩ := he'
    · cases he
    · cases he

/-! ### What can be done -/

/-- Some thread has a step. -/
def Next (R : Room) (A : LinkedHeap.Allocator) (s : Exchange) : Prop :=
  ∃ e o t, e.isThread = true ∧ step R A s e = some (o, t)

theorem next_of_isSome (he : e.isThread = true) (h : (step R A s e).isSome) : Next R A s := by
  obtain ⟨⟨o, t⟩, hstep⟩ := Option.isSome_iff_exists.1 h
  exact ⟨e, o, t, he, hstep⟩

theorem next_of_hear {n : ℕ} {p : Peer} (h : (s.peers k).hear n = some p) : Next R A s :=
  next_of_isSome (e := .hear k n) rfl (by rw [step, h]; rfl)

theorem next_of_send {n : ℕ} {p : Peer} (h : (s.peers k).send (R.up k) n = some p) :
    Next R A s :=
  next_of_isSome (e := .send k n) rfl (by rw [step, h]; rfl)

/-- The event loop has a step, or a client that it waits for has, unless it waits for the mutex or
nothing has come. -/
theorem next_of_serve (hR : ∀ k, 4 ≤ R.up k) (h : s.Sound R fds)
    (hlocking : ∀ fd msg, s.serve ≠ .locking fd msg)
    (hwaiting : s.serve = .waiting → ∃ k, (s.peers k).up ≠ []) : Next R A s := by
  cases hserve : s.serve with
  | waiting =>
    obtain ⟨k, hk⟩ := hwaiting hserve
    exact next_of_isSome (e := .wake k) rfl (by rw [step, if_pos ⟨hserve, hk⟩]; rfl)
  | locking fd msg => exact absurd hserve (hlocking fd msg)
  | reading fd position =>
    have hpeer := h.peers fd
    have hposition : s.position fd = position := by simp [Exchange.position, hserve]
    rw [hposition] at hpeer
    by_cases hread : ∃ n out, position.read (s.peers fd).up n = some out
    · obtain ⟨n, out, hread⟩ := hread
      exact next_of_isSome (e := .read n) rfl (by simp only [step, hserve, hread]; rfl)
    · have hnone : ∀ n, position.read (s.peers fd).up n = none := fun n =>
        Option.eq_none_iff_forall_ne_some.2 fun out hout => hread ⟨n, out, hout⟩
      by_cases hagain : position = .header ∧ (s.peers fd).up = []
      · obtain ⟨rfl, hup⟩ := hagain
        exact next_of_isSome (e := .again) rfl (by simp only [step, hserve, if_pos hup]; rfl)
      · -- The client is to send the rest of what the event loop is reading.
        obtain ⟨hrest, hlt⟩ := hpeer.rest_ne_nil hnone (by tauto)
        obtain ⟨n, p, hp⟩ := Peer.exists_send hrest (hlt.trans_le (hR fd))
        exact next_of_send hp

/-- While the mutex is free some thread has a step, or nothing is on its way. -/
theorem rest_or_next (hR : ∀ k, 4 ≤ R.up k) (h : s.Sound R fds)
    (hfree : s.poll.locked = false) : s.Rest ∨ Next R A s := by
  by_cases hlocking : ∃ fd msg, s.serve = .locking fd msg
  · obtain ⟨fd, msg, hserve⟩ := hlocking
    exact .inr (next_of_isSome (e := .record) rfl (by
      simp only [step, hserve, if_pos hfree]; rfl))
  have hlocking : ∀ fd msg, s.serve ≠ .locking fd msg := fun fd msg hserve =>
    hlocking ⟨fd, msg, hserve⟩
  by_cases hidle : s.serve = .waiting ∧ ∀ k, (s.peers k).up = []
  · obtain ⟨hserve, hup⟩ := hidle
    have hfuture : ∀ k, s.poll.future k = [] := fun k =>
      Broadcast.future_nil (h.unlocked hfree)
    by_cases hrest : ∃ k, (s.peers k).rest ≠ []
    · obtain ⟨k, hk⟩ := hrest
      have hroom : (s.peers k).up.length < R.up k := by
        rw [hup k]
        exact Nat.lt_of_lt_of_le (by decide) (hR k)
      obtain ⟨n, p, hp⟩ := Peer.exists_send hk hroom
      exact .inr (next_of_send hp)
    have hrest : ∀ k, (s.peers k).rest = [] := fun k => by
      by_contra hk
      exact hrest ⟨k, hk⟩
    by_cases hdown : ∃ k, (s.peers k).down ≠ []
    · obtain ⟨k, hk⟩ := hdown
      have hpeer := h.peers k
      obtain ⟨msgs, hmsgs⟩ := hpeer.commands
      rw [hfuture, List.append_nil] at hmsgs
      obtain ⟨n, p, hp⟩ := hpeer.exists_hear (hrest k) hk fun hpos => by
        rw [hpos] at hmsgs
        exact hmsgs.four_le hk
      exact .inr (next_of_hear hp)
    · have hdown : ∀ k, (s.peers k).down = [] := fun k => by
        by_contra hk
        exact hdown ⟨k, hk⟩
      refine .inl ⟨hfree, hserve, fun k => ?_, hdown, hup⟩
      have hpeer := h.peers k
      rw [hfuture] at hpeer
      exact hpeer.waits (hdown k) (hrest k)
  · refine .inr (next_of_serve hR h hlocking fun hserve => ?_)
    by_contra hnone
    exact hidle ⟨hserve, fun k => by
      by_contra hk
      exact hnone ⟨k, hk⟩⟩

/-- While a broadcast holds the mutex some thread has a step, or the broadcast is gridlocked at a
client whose socket is full. -/
theorem gridlocked_or_next (hR : ∀ k, 4 ≤ R.down k ∧ 4 ≤ R.up k) (h : s.Sound R fds)
    (hlocked : s.poll.locked = true) : (∃ k, s.Gridlocked R k) ∨ Next R A s := by
  cases htodo : s.poll.todo with
  | nil =>
    refine .inr (next_of_isSome (e := .leave) rfl ?_)
    simp only [step, Broadcast.step, htodo, if_pos (And.intro h.alive hlocked)]
    rfl
  | cons p rest =>
    obtain ⟨k, frame⟩ := p
    by_cases hle : frame.length ≤ s.poll.total_written
    · refine .inr (next_of_isSome (e := .leave) rfl ?_)
      simp only [step, Broadcast.step, htodo, if_pos (And.intro h.alive hle)]
      rfl
    have hlt : s.poll.total_written < frame.length := not_le.1 hle
    by_cases hdown : (s.peers k).down.length < R.down k
    · refine .inr (next_of_isSome (e := .write 1) rfl ?_)
      have hwrite : 1 ≤ 1 ∧ 1 ≤ frame.length - s.poll.total_written ∧
          (s.peers k).down.length + 1 ≤ R.down k := ⟨le_rfl, by omega, hdown⟩
      simp only [step, Broadcast.step, htodo, if_pos hwrite, if_pos (And.intro h.alive hlt)]
      rfl
    have hpeer := h.peers k
    have hfull : (s.peers k).down.length = R.down k := le_antisymm hpeer.down_le (not_lt.1 hdown)
    have hfour := (hR k).1
    by_cases hrest : (s.peers k).rest = []
    · -- The client listens, and something has come.
      have hne : (s.peers k).down ≠ [] := List.ne_nil_of_length_pos (by omega)
      obtain ⟨n, p, hp⟩ := hpeer.exists_hear hrest hne fun _ => by omega
      exact .inr (next_of_hear hp)
    by_cases hup : (s.peers k).up.length < R.up k
    · obtain ⟨n, p, hp⟩ := Peer.exists_send hrest hup
      exact .inr (next_of_send hp)
    have hfullUp : (s.peers k).up.length = R.up k := le_antisymm hpeer.up_le (not_lt.1 hup)
    by_cases hlocking : ∃ fd msg, s.serve = .locking fd msg
    · refine .inl ⟨k, ⟨hlocked, frame, rest, htodo, hlt⟩, hfull, ?_, hfullUp, hlocking⟩
      cases hcontrol : (s.peers k).control with
      | reading position => exact absurd (by rw [Peer.rest, hcontrol]) hrest
      | writing rest => exact ⟨rest, rfl⟩
    · refine .inr (next_of_serve (fun j => (hR j).2) h (fun fd msg hserve =>
        hlocking ⟨fd, msg, hserve⟩) fun _ => ⟨k, List.ne_nil_of_length_pos ?_⟩)
      have hfourUp := (hR k).2
      omega

/-- Nothing gets a gridlocked broadcast on: not the threads, nor the application, whose `put` and
`get` wait for the mutex of the cache. -/
theorem gridlocked_step (h : s.Gridlocked R k) (hstep : step R A s e = some (o, t)) :
    t.Gridlocked R k ∧ t.poll = s.poll ∧ t.registry = s.registry ∧ t.peers k = s.peers k ∧
      (∀ key value, e ≠ .put k key value) ∧ ∀ key, e ≠ .get k key := by
  obtain ⟨⟨hlocked, frame, rest, htodo, hlt⟩, hdown, ⟨unsent, hcontrol⟩, hup, fd, msg, hserve⟩ := h
  have hself : s.Gridlocked R k :=
    ⟨⟨hlocked, frame, rest, htodo, hlt⟩, hdown, ⟨unsent, hcontrol⟩, hup, fd, msg, hserve⟩
  -- Another client's step leaves client `k` as it is.
  have hother : ∀ {j : ℕ} {p : Peer}, j ≠ k → (s.setPeer j p).Gridlocked R k ∧
      (s.setPeer j p).peers k = s.peers k := by
    intro j p hj
    have hpeer : (s.setPeer j p).peers k = s.peers k := setPeer_of_ne (Ne.symm hj)
    exact ⟨⟨hself.poll, by rw [hpeer]; exact hdown, by rw [hpeer]; exact ⟨unsent, hcontrol⟩,
      by rw [hpeer]; exact hup, hself.serve⟩, hpeer⟩
  cases steps_of_step hstep with
  | broadcast hfree hcmds horder => simp [hlocked] at hfree
  | @write fd' n frame' rest' htodo' h1 hle hroom =>
    obtain ⟨heq, -⟩ := List.cons.inj (htodo.symm.trans htodo')
    obtain ⟨rfl, rfl⟩ := Prod.mk.inj heq
    omega
  | @nextClient fd' frame' rest' htodo' hle =>
    obtain ⟨heq, -⟩ := List.cons.inj (htodo.symm.trans htodo')
    obtain ⟨rfl, rfl⟩ := Prod.mk.inj heq
    omega
  | unlock htodo' hlocked' => simp [htodo] at htodo'
  | wake hserve' hup' => simp [hserve] at hserve'
  | read hserve' hread => simp [hserve] at hserve'
  | again hserve' hup' => simp [hserve] at hserve'
  | record hserve' hfree => simp [hlocked] at hfree
  | @hear j n p hp =>
    by_cases hj : j = k
    · subst hj
      simp [Peer.hear, hcontrol] at hp
    · exact ⟨(hother hj).1, rfl, rfl, (hother hj).2, fun _ _ h => (nomatch h),
        fun _ h => (nomatch h)⟩
  | @send j n p hp =>
    by_cases hj : j = k
    · subst hj
      simp only [Peer.send, hcontrol] at hp
      obtain ⟨⟨h1, -, hroom⟩, -⟩ := Option.ite_none_right_eq_some.1 hp
      omega
    · exact ⟨(hother hj).1, rfl, rfl, (hother hj).2, fun _ _ h => (nomatch h),
        fun _ h => (nomatch h)⟩
  | @use e j cache p he hp =>
    by_cases hj : j = k
    · subst hj
      simp [Peer.use, hcontrol] at hp
    · refine ⟨(hother hj).1, rfl, rfl, (hother hj).2, ?_, ?_⟩
      · rintro key value rfl
        obtain ⟨key', value', heq⟩ | ⟨key', heq⟩ := he
        · exact hj (ExchangeEvent.put.inj heq).1.symm
        · cases heq
      · rintro key rfl
        obtain ⟨key', value', heq⟩ | ⟨key', heq⟩ := he
        · cases heq
        · exact hj (ExchangeEvent.get.inj heq).1.symm

/-! ### Whole runs -/

variable {clients : ℕ → Int32 × GovernedCache} {es : List ExchangeEvent} {outs : List Unit}

/-- The table has the clients. -/
theorem mem_foldl_addClient {fd : ℕ} {r : ClientRegistry}
    (h : fd ∈ (fds.foldl ClientRegistry.addClient r).clients) : fd ∈ fds ∨ fd ∈ r.clients := by
  induction fds generalizing r with
  | nil => exact .inr h
  | cons fd' fds ih =>
    rcases ih h with hmem | hmem
    · exact .inl (List.mem_cons_of_mem fd' hmem)
    · rw [← AList.lookup_isSome, ClientRegistry.lookup_addClient] at hmem
      split_ifs at hmem with heq
      · exact .inl (heq ▸ List.mem_cons_self)
      · exact .inr (AList.lookup_isSome.1 hmem)

/-- Before anything has happened. -/
theorem sound_init (hentry : ∀ k, (clients k).2.estimated_entry_bytes ≠ 0) :
    (init fds clients).Sound R fds where
  alive := rfl
  unlocked := fun _ => rfl
  targets := fun p hp => absurd hp List.not_mem_nil
  written := fun p _ => Nat.zero_le _
  clients := fun fd hmem => (mem_foldl_addClient hmem).resolve_right fun h =>
    absurd h (AList.notMem_empty fd)
  peers := fun k => by
    have hnil : ∀ pos : Position, pos = .header → InStep pos [] ([].map Message.toPayload) := by
      rintro pos rfl
      exact InStep.header []
    unfold init
    dsimp only
    split_ifs with hk
    · refine ⟨hentry k, fun rest hw => ?_, Nat.zero_le _, Nat.zero_le _, ⟨[], hnil _ rfl⟩, ?_⟩
      · obtain rfl := PeerControl.writing.inj hw
        exact List.ne_nil_of_length_pos (Peer.frame_length _).1
      · exact ⟨_, Peer.inStep_frame (hnil _ rfl) _⟩
    · exact ⟨hentry k, fun rest hw => PeerControl.noConfusion hw, Nat.zero_le _, Nat.zero_le _,
        ⟨[], hnil _ rfl⟩, ⟨[], hnil _ rfl⟩⟩
  absent := fun k hk => by
    unfold init
    dsimp only
    rw [if_neg hk]
    exact ⟨rfl, rfl, rfl⟩

/-- Some thread has a step, or nothing is on its way, or a broadcast is gridlocked. -/
theorem rest_or_gridlocked_or_next (hR : ∀ k, 4 ≤ R.down k ∧ 4 ≤ R.up k) (h : s.Sound R fds) :
    (s.Rest ∨ ∃ k, s.Gridlocked R k) ∨ Next R A s := by
  cases hlocked : s.poll.locked with
  | false =>
    rcases rest_or_next (A := A) (fun k => (hR k).2) h hlocked with hrest | hnext
    · exact .inl (.inl hrest)
    · exact .inr hnext
  | true =>
    rcases gridlocked_or_next (A := A) hR h hlocked with hgridlocked | hnext
    · exact .inl (.inr hgridlocked)
    · exact .inr hnext

/-- What a gridlock keeps, over a run. -/
theorem gridlocked_run (h : s.Gridlocked R k)
    (hrun : Machine.run (step R A) s es = some (outs, t)) :
    t.Gridlocked R k ∧ t.poll = s.poll ∧ t.registry = s.registry ∧ t.peers k = s.peers k ∧
      (∀ key value, .put k key value ∉ es) ∧ ∀ key, .get k key ∉ es := by
  induction es generalizing s outs with
  | nil =>
    obtain ⟨-, rfl⟩ : [] = outs ∧ s = t := by simpa using hrun
    exact ⟨h, rfl, rfl, rfl, fun _ _ => List.not_mem_nil, fun _ => List.not_mem_nil⟩
  | cons e es ih =>
    obtain ⟨o, u, outs', hstep, hrun', -⟩ := Machine.run_cons_eq_some.1 hrun
    obtain ⟨hu, hpoll, hregistry, hpeer, hput, hget⟩ := gridlocked_step h hstep
    obtain ⟨ht, hpoll', hregistry', hpeer', hput', hget'⟩ := ih hu hrun'
    refine ⟨ht, hpoll'.trans hpoll, hregistry'.trans hregistry, hpeer'.trans hpeer, ?_, ?_⟩
    · intro key value
      exact fun hmem => (List.mem_cons.1 hmem).elim (fun heq => hput key value heq.symm)
        (hput' key value)
    · intro key
      exact fun hmem => (List.mem_cons.1 hmem).elim (fun heq => hget key heq.symm) (hget' key)

/-- Daemon and clients over sockets of any size, in any run: whatever is on its way, the threads by
themselves come to an end after boundedly many steps, and before they do there is always a next one,
unless nothing is on its way any more or a broadcast is gridlocked: it waits for a client whose
socket is full, which waits for the event loop to read its report, which waits for the registry's
mutex. That is for ever. Nothing is recorded any more, the broadcast never returns, and neither does
a `put` or `get` of that client. -/
theorem run_rest_or_gridlocked (hR : ∀ k, 4 ≤ R.down k ∧ 4 ≤ R.up k)
    (hentry : ∀ k, (clients k).2.estimated_entry_bytes ≠ 0)
    (hrun : Machine.run (step R A) (init fds clients) es = some (outs, s)) :
    Machine.Reaches (step R A) (fun _ e => e.isThread = true)
      (fun t => t.Rest ∨ ∃ k, t.Gridlocked R k) s ∧
    ∀ k, s.Gridlocked R k → ∀ fs outs' t, Machine.run (step R A) s fs = some (outs', t) →
      t.Gridlocked R k ∧ t.poll = s.poll ∧ t.registry = s.registry ∧ t.peers k = s.peers k ∧
        (∀ key value, .put k key value ∉ fs) ∧ ∀ key, .get k key ∉ fs := by
  have hsound : s.Sound R fds :=
    Machine.run_invariant (fun _ _ _ _ h hstep => sound_step h hstep) (sound_init hentry) hrun
  constructor
  · exact Machine.reaches_of_measure (work fds)
      (fun _ _ _ _ h he hstep => ⟨sound_step h hstep, work_step h he hstep⟩)
      (fun t ht => rest_or_gridlocked_or_next hR ht) hsound
  · exact fun k hk fs outs' t hfs => gridlocked_run hk hfs

/-! ### With room for the commands -/

/-- A broadcast finds room for the frame of every command. -/
def Fits (R : Room) (s : Exchange) : ExchangeEvent → Prop
  | .broadcast _ _ order =>
    ∀ m ∈ order, (s.peers m.1).down.length + m.2.frame.length ≤ R.down m.1
  | .write _ | .leave | .wake _ | .read _ | .again | .record | .hear _ _ | .send _ _ | .put _ _ _
  | .get _ _ => True

instance (R : Room) (s : Exchange) : ∀ e, Decidable (Fits R s e)
  | .broadcast _ _ order =>
    inferInstanceAs (Decidable (∀ m ∈ order, _ ≤ _))
  | .write _ | .leave | .wake _ | .read _ | .again | .record | .hear _ _ | .send _ _ | .put _ _ _
  | .get _ _ => isTrue trivial

/-- There is room for what the broadcast has still to write. -/
def Spare (R : Room) (s : Exchange) : Prop :=
  ∀ k, (s.peers k).down.length + (s.poll.future k).length ≤ R.down k

/-- One broadcast has at most one message for a client. -/
theorem messagesTo_cases {order : List (ℕ × Message)} (hnodup : (order.map Prod.fst).Nodup)
    (k : ℕ) : Broadcast.messagesTo order k = [] ∨
      ∃ msg, (k, msg) ∈ order ∧ Broadcast.messagesTo order k = [msg] := by
  unfold Broadcast.messagesTo
  induction order with
  | nil => exact .inl rfl
  | cons m order ih =>
    rw [List.map_cons] at hnodup
    obtain ⟨hnotMem, hnodup⟩ := List.nodup_cons.1 hnodup
    by_cases hk : m.1 = k
    · subst hk
      have hnil : order.filter (fun m' => m'.1 = m.1) = [] :=
        List.filter_eq_nil_iff.2 fun m' hm' heq =>
          hnotMem (of_decide_eq_true heq ▸ List.mem_map_of_mem hm')
      exact .inr ⟨m.2, List.mem_cons_self, by simp [hnil]⟩
    · rw [List.filter_cons_of_neg (by simpa using hk)]
      refine (ih hnodup).imp_right ?_
      rintro ⟨msg, hmem, hmsgs⟩
      exact ⟨msg, List.mem_cons_of_mem m hmem, hmsgs⟩

/-- Every step keeps room for it, if a broadcast has found some. -/
theorem spare_step (h : s.Sound R fds) (hs : s.Spare R) (hfits : s.Fits R e)
    (hstep : step R A s e = some (o, t)) : t.Spare R := by
  -- A client replaced that has no more on its way to it.
  have hset : ∀ {k : ℕ} {p : Peer}, p.down.length ≤ (s.peers k).down.length →
      (s.setPeer k p).Spare R := by
    intro k p hle j
    by_cases hj : j = k
    · subst hj
      rw [setPeer_self]
      exact (Nat.add_le_add_right hle _).trans (hs j)
    · rw [setPeer_of_ne hj]
      exact hs j
  cases steps_of_step hstep with
  | @broadcast cmd fraction order cmds hfree hcmds horder =>
    intro k
    have hnodup : (order.map Prod.fst).Nodup := by
      refine ((horder.map Prod.fst).nodup_iff).2 ?_
      rw [(ClientRegistry.commands_spec hcmds).1]
      exact s.registry.clients.keys_nodup
    simp only [Broadcast.future_start]
    rcases messagesTo_cases hnodup k with hnil | ⟨msg, hmem, hmsgs⟩
    · rw [hnil]
      exact (h.peers k).down_le
    · rw [hmsgs, List.flatMap_singleton]
      exact hfits (k, msg) hmem
  | @write fd n frame rest htodo h1 hle hroom =>
    intro k
    by_cases hk : k = fd
    · subst hk
      have hbefore := hs k
      have hlen : ((frame.drop s.poll.total_written).take n).length = n := by
        rw [List.length_take, List.length_drop, Nat.min_eq_left hle]
      rw [Broadcast.future_wrote htodo hle, List.length_append, hlen] at hbefore
      simp only [Exchange.setPeer, Function.update_self, List.length_append, hlen]
      omega
    · simp only [Exchange.setPeer, Function.update_of_ne hk]
      rw [Broadcast.future_wrote_of_ne htodo hk]
      exact hs k
  | nextClient htodo hle =>
    intro k
    simp only [Broadcast.future_nextClient htodo hle]
    exact hs k
  | unlock htodo hlocked => exact hs
  | wake hserve hup => exact hs
  | @read fd n position out hserve hread =>
    intro k
    obtain ⟨hpoll, hpeers⟩ := received_eq
      (s.setPeer fd { s.peers fd with up := (s.peers fd).up.drop n }) fd out
    rw [hpoll, hpeers]
    exact hset (p := { s.peers fd with up := (s.peers fd).up.drop n }) le_rfl k
  | again hserve hup => exact hs
  | record hserve hfree => exact hs
  | @hear k n p hp => exact hset ((h.peers k).hear hp).2.2.1
  | @send k n p hp => exact hset (congrArg List.length ((h.peers k).send hp).2.2.1).le
  | @use e k cache p he hp => exact hset (congrArg List.length ((h.peers k).use hp).2.2.1).le

/-- With room no broadcast is gridlocked. -/
theorem not_gridlocked (hs : s.Spare R) (k : ℕ) : ¬ s.Gridlocked R k := by
  rintro ⟨⟨-, frame, rest, htodo, hlt⟩, hdown, -⟩
  have hk := hs k
  have hfuture : 0 < (s.poll.future k).length := by
    simp only [Broadcast.future, htodo, if_true, List.length_append, List.length_drop]
    omega
  omega

/-- Where every broadcast finds room for its commands in the sockets of all clients, no broadcast is
ever gridlocked, and from every state that is reached the threads by themselves come to rest. -/
theorem run_rest (hR : ∀ k, 4 ≤ R.down k ∧ 4 ≤ R.up k)
    (hentry : ∀ k, (clients k).2.estimated_entry_bytes ≠ 0)
    (hrun : Machine.run (step R A) (init fds clients) es = some (outs, s))
    (hfits : Machine.Along (step R A) (Fits R) (init fds clients) es) :
    (∀ k, ¬ s.Gridlocked R k) ∧
      Machine.Reaches (step R A) (fun _ e => e.isThread = true) Rest s := by
  have hinit : (init fds clients).Sound R fds ∧ (init fds clients).Spare R :=
    ⟨sound_init hentry, fun k => by
      have hsound : (init fds clients).Sound R fds := sound_init hentry
      have hpeer := hsound.peers k
      have hnil : (init fds clients).poll.future k = [] := Broadcast.future_nil rfl
      rw [hnil]
      exact hpeer.down_le⟩
  have hstep : ∀ (u : Exchange) (e : ExchangeEvent) (o : Unit) (v : Exchange),
      u.Sound R fds ∧ u.Spare R → u.Fits R e → step R A u e = some (o, v) →
        v.Sound R fds ∧ v.Spare R := fun u e o v h he hst =>
    ⟨sound_step h.1 hst, spare_step h.1 h.2 he hst⟩
  obtain ⟨hsound, hspare⟩ := Machine.along_invariant hstep hinit hfits hrun
  refine ⟨fun k => not_gridlocked hspare k, ?_⟩
  refine Machine.reaches_of_measure (I := fun u => u.Sound R fds ∧ u.Spare R) (work fds)
    (fun u e o v h he hst => ⟨hstep u e o v h ?_ hst, work_step h.1 he hst⟩) (fun u hu => ?_)
    ⟨hsound, hspare⟩
  · cases e <;> first | exact trivial | cases he
  · rcases rest_or_gridlocked_or_next (A := A) hR hu.1 with (hrest | ⟨k, hk⟩) | hnext
    · exact .inl hrest
    · exact absurd hk (not_gridlocked hu.2 k)
    · exact .inr hnext

end Steps

/-- A socket takes 100 bytes either way, a little more than a frame. -/
def hundred : Room := ⟨fun _ => 100, fun _ => 100⟩

theorem four_le_hundred (k : ℕ) : 4 ≤ hundred.down k ∧ 4 ≤ hundred.up k :=
  ⟨(by decide : 4 ≤ 100), (by decide : 4 ≤ 100)⟩

/-- A client with a full cache of two entries. -/
def twoEntries : GovernedCache where
  cache := ((SoundCache.new String String 2).put .above "a" "1").put .above "b" "2"
  estimated_entry_bytes := 256

/-- A SHRINK and a GROW by one half of two entries, to one client. -/
def shrinkHalf : ExchangeEvent :=
  .broadcast .shrink (1/2) [(5, { type := .SHRINK, target_bytes := 256 })]

def growHalf : ExchangeEvent :=
  .broadcast .grow (1/2) [(5, { type := .GROW, target_bytes := 768 })]

/-- The client registers and is told to shrink and to grow. The event loop has its first report and
does not get the mutex between three more broadcasts; the client reports twice more. -/
def overrun : List ExchangeEvent :=
  [.send 5 84, .wake 5, .read 4, .read 80, .record, .again,
    shrinkHalf, .write 81, .leave, .leave, .hear 5 4, .hear 5 77, .send 5 87,
    growHalf, .write 79, .leave, .wake 5, .read 4, .read 83, .hear 5 4, .hear 5 75, .send 5 87,
    .leave, shrinkHalf, .write 81, .hear 5 4, .hear 5 77, .send 5 13, .leave, .leave,
    shrinkHalf, .write 81, .leave, .leave, shrinkHalf, .write 19]

/-- That is a gridlock, and for ever. -/
theorem run_rest_or_gridlocked_overrun :
    let s := Machine.last (step hundred .above) (init [5] fun _ => (77, twoEntries)) overrun
    s.Gridlocked hundred 5 ∧ ∀ fs outs t, Machine.run (step hundred .above) s fs = some (outs, t) →
      t.Gridlocked hundred 5 ∧ t.poll = s.poll ∧ t.registry = s.registry := by
  intro s
  obtain ⟨outs, hrun⟩ : ∃ outs, Machine.run (step hundred .above)
      (init [5] fun _ => (77, twoEntries)) overrun = some (outs, s) :=
    Machine.exists_run_eq_last _ _ (by decide +kernel)
  let command : Message := { type := .SHRINK, target_bytes := 256 }
  let report : Message := { type := .REPORT_SIZE, pid := 77, current_size_bytes := 256 }
  obtain ⟨hlocked, htodo, hwritten, hdown, hcontrol, hup, hserve⟩ :
      s.poll.locked = true ∧ s.poll.todo = [(5, command.frame)] ∧
        s.poll.total_written < command.frame.length ∧ (s.peers 5).down.length = 100 ∧
        (s.peers 5).control = .writing (report.frame.drop 13) ∧ (s.peers 5).up.length = 100 ∧
        s.serve = .locking 5 report := by
    decide +kernel
  have hgridlocked : s.Gridlocked hundred 5 :=
    ⟨⟨hlocked, command.frame, [], htodo, hwritten⟩, hdown, ⟨_, hcontrol⟩, hup, 5, report, hserve⟩
  have hlater := (run_rest_or_gridlocked four_le_hundred (fun _ => by decide) hrun).2 5
    hgridlocked
  exact ⟨hgridlocked, fun fs outs' t hfs =>
    ⟨(hlater fs outs' t hfs).1, (hlater fs outs' t hfs).2.1, (hlater fs outs' t hfs).2.2.1⟩⟩

/-- The same client, told to shrink and to grow, which reads each command before the next one. -/
def keepingUp : List ExchangeEvent :=
  [.send 5 84, .wake 5, .read 4, .read 80, .record, .again,
    shrinkHalf, .write 81, .leave, .leave, .hear 5 4, .hear 5 77, .send 5 87,
    growHalf, .write 79]

/-- The threads come to rest. -/
theorem run_rest_keepingUp :
    let s := Machine.last (step hundred .above) (init [5] fun _ => (77, twoEntries)) keepingUp
    s.poll.locked = true ∧ Machine.Reaches (step hundred .above) (fun _ e => e.isThread = true)
      Rest s := by
  intro s
  obtain ⟨outs, hrun⟩ : ∃ outs, Machine.run (step hundred .above)
      (init [5] fun _ => (77, twoEntries)) keepingUp = some (outs, s) :=
    Machine.exists_run_eq_last _ _ (by decide +kernel)
  exact ⟨by decide +kernel,
    (run_rest four_le_hundred (fun _ => by decide) hrun (by decide +kernel)).2⟩

end Exchange

end MemoryGovernor
