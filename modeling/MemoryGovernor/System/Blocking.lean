import MemoryGovernor.System.Sending
import MemoryGovernor.System.Stopping

/-!
# What a stop waits for

`stop_listening` closes the socket before the `join`, "to unblock the blocking read in the listener
thread". A `read` that is called after that fails. But one that is under way has its socket already,
and `close` in another thread takes only the descriptor away. So here the listener calls `read`,
with what is in `sock_fd_` then, and the `read` returns what has come on that connection
(`ReadingClient`); the rest is `SendingClient`. `connect`, the sleep after it and the callbacks,
with the reports that they send, return sooner or later, and no signal interrupts a `read`.

While the owner is in the `join`, one thing can then hold the listener up: a read on a connection on
which nothing has come, and which the daemon has open (`exists_next_or_blocked`). And that holds up
both for as long as the daemon neither sends nor closes (`blockedOn_step`).
-/

namespace MemoryGovernor

open Framing (readBe32)

/-- What a `read` returns: a number of bytes, 0, or an error. -/
inductive KernelRead
  | data (n : ℕ)
  | eof
  | error
deriving DecidableEq, Repr

/-- The listener's `read`. -/
inductive ReadCall
  /-- To be called. -/
  | ready
  /-- Under way on a connection, on none where `sock_fd_` was -1. -/
  | called (c : Option ConnId)
deriving DecidableEq, Repr

/-- `GovernorClient` and the kernel's side of what it reads. -/
structure ReadingClient where
  sending : SendingClient := {}
  /-- What the daemon has sent on a connection, and was not read. -/
  inbox : ConnId → Bytes := fun _ => []
  reading : ReadCall := .ready
  /-- How much of the payload is missing. -/
  missing : ℕ := 0

/-- What happens next. -/
inductive ReadingEvent
  /-- A step of any thread but the end of a `read`, or the daemon closes its end. -/
  | sending (e : SendEvent)
  /-- The daemon sends. -/
  | arrive (c : ConnId) (bytes : Bytes)
  /-- The listener calls `read`. -/
  | call
  /-- It returns. -/
  | read (r : KernelRead)
deriving DecidableEq, Repr

/-- The listener's thread goes on. -/
def ReadingEvent.isLoop : ReadingEvent → Bool
  | .sending (.socket e) => e.isLoop
  | .call | .read _ => true
  | _ => false

/-- The daemon does something on the connection. -/
def ReadingEvent.FromDaemon (c : ConnId) : ReadingEvent → Prop
  | .arrive c' _ | .sending (.hangup c') => c' = c
  | _ => False

namespace ReadingClient

/-- The owner's and the listener's threads. -/
abbrev client (s : ReadingClient) : ClientSocket := s.sending.client

/-- Whether a `read` of at most this many bytes can return this. -/
def returns (s : ReadingClient) (request : ℕ) (r : KernelRead) : Bool :=
  match s.reading, r with
  | .called (some c), .data n =>
    s.sending.state c ≠ .unconnected ∧ 1 ≤ n ∧ n ≤ request ∧ n ≤ (s.inbox c).length
  | .called (some c), .eof => s.sending.state c = .closed ∧ s.inbox c = []
  | .called (some c), .error => s.sending.state c ≠ .connected
  | .called none, .error => true
  | .called none, _ | .ready, _ => false

/-- The bytes that the read is to take from. -/
def available (s : ReadingClient) : Bytes :=
  match s.reading with
  | .called (some c) => s.inbox c
  | .called none | .ready => []

/-- What has come, less what a `read` returned. -/
def consume (s : ReadingClient) : KernelRead → ConnId → Bytes
  | .data n =>
    match s.reading with
    | .called (some c) => Function.update s.inbox c ((s.inbox c).drop n)
    | .called none | .ready => s.inbox
  | .eof | .error => s.inbox

/-- What `listener_loop` makes of the `read` of a length. -/
def lengthRead (s : ReadingClient) : KernelRead → LengthRead
  | .data n =>
    let len := readBe32 (s.available.take 4)
    if n ≠ 4 then .short else if len = 0 ∨ len > 65536 then .bad else .good
  | .eof => .eof
  | .error => .short

/-- What it makes of the `read` of a payload. -/
def payloadRead (s : ReadingClient) : KernelRead → PayloadRead
  | .data n => if n < s.missing then .part else .last
  | .eof | .error => .failed

/-- What is missing of the payload after it. -/
def missingAfter (s : ReadingClient) : KernelRead → ℕ
  | .data n => s.missing - n
  | .eof | .error => s.missing

/-- One step. -/
def step (s : ReadingClient) : ReadingEvent → Option (Unit × ReadingClient)
  | .sending e =>
    match e with
    | .socket (.length _) | .socket (.payload _) => none
    | e => (s.sending.step e).map fun r => ((), { s with sending := r.2 })
  | .arrive c bytes =>
    if s.sending.state c = .connected then
      some ((), { s with inbox := Function.update s.inbox c (s.inbox c ++ bytes) })
    else none
  | .call =>
    if (s.client.loop = .length ∨ s.client.loop = .payload) ∧ s.reading = .ready then
      some ((), { s with reading := .called s.sending.current })
    else none
  | .read r =>
    match s.client.loop with
    | .length =>
      if s.returns 4 r then
        (s.sending.step (.socket (.length (s.lengthRead r)))).map fun u => ((), {
          sending := u.2
          inbox := s.consume r
          missing := readBe32 (s.available.take 4) })
      else none
    | .payload =>
      if s.returns s.missing r then
        (s.sending.step (.socket (.payload (s.payloadRead r)))).map fun u => ((), {
          sending := u.2
          inbox := s.consume r
          missing := s.missingAfter r })
      else none
    | _ => none

/-- The listener is in a `read` on the connection, of which nothing has come and which the daemon
has open. -/
structure BlockedOn (s : ReadingClient) (c : ConnId) : Prop where
  loop : s.client.loop = .length ∨ s.client.loop = .payload
  reading : s.reading = .called (some c)
  inbox : s.inbox c = []
  state : s.sending.state c = .connected

/-- How many steps the listener's thread may have left beyond those of `LoopControl.left`: every
`read` is two steps, and a payload may come byte by byte. -/
def reads (s : ReadingClient) : ℕ :=
  match s.client.loop with
  | .payload => 2 * s.missing - 1 - if s.reading = .ready then 0 else 1
  | .length => 131072 - if s.reading = .ready then 0 else 1
  | .reconnect | .connecting => 131072
  | .top | .dispatch | .off => 0

/-- How many it has left at most, once `listening_` is not set. -/
def left (s : ReadingClient) : ℕ := s.client.loop.left + s.reads

/-! ## What a step does -/

/-- The ways in which a step goes. -/
inductive Steps (s : ReadingClient) : ReadingEvent → ReadingClient → Prop
  | sending {e : SendEvent} {o : Option Returned} {u : SendingClient}
      (hlength : ∀ r, e ≠ .socket (.length r)) (hpayload : ∀ r, e ≠ .socket (.payload r))
      (hstep : s.sending.step e = some (o, u)) : Steps s (.sending e) { s with sending := u }
  | arrive {c : ConnId} {bytes : Bytes} (hc : s.sending.state c = .connected) :
      Steps s (.arrive c bytes)
        { s with inbox := Function.update s.inbox c (s.inbox c ++ bytes) }
  | call (hloop : s.client.loop = .length ∨ s.client.loop = .payload)
      (hreading : s.reading = .ready) :
      Steps s .call { s with reading := .called s.sending.current }
  | length {r : KernelRead} {o : Option Returned} {u : SendingClient}
      (hloop : s.client.loop = .length) (hreturns : s.returns 4 r = true)
      (hstep : s.sending.step (.socket (.length (s.lengthRead r))) = some (o, u)) :
      Steps s (.read r) {
        sending := u
        inbox := s.consume r
        missing := readBe32 (s.available.take 4) }
  | payload {r : KernelRead} {o : Option Returned} {u : SendingClient}
      (hloop : s.client.loop = .payload) (hreturns : s.returns s.missing r = true)
      (hstep : s.sending.step (.socket (.payload (s.payloadRead r))) = some (o, u)) :
      Steps s (.read r) {
        sending := u
        inbox := s.consume r
        missing := s.missingAfter r }

variable {s t : ReadingClient} {e : ReadingEvent} {o : Unit}

/-- A step that is defined goes in one of these ways. -/
theorem steps_of_step (hstep : step s e = some (o, t)) : Steps s e t := by
  cases e with
  | sending e =>
    simp only [step] at hstep
    split at hstep
    next => cases hstep
    next => cases hstep
    next hlength hpayload =>
      obtain ⟨⟨o', u⟩, hu, heq⟩ := Option.map_eq_some_iff.1 hstep
      obtain ⟨-, rfl⟩ := Prod.mk.inj heq
      exact .sending hlength hpayload hu
  | arrive c bytes =>
    simp only [step, Option.ite_none_right_eq_some] at hstep
    obtain ⟨hc, hstep⟩ := hstep
    obtain ⟨-, rfl⟩ := Prod.mk.inj (Option.some.inj hstep)
    exact .arrive hc
  | call =>
    simp only [step, Option.ite_none_right_eq_some] at hstep
    obtain ⟨⟨hloop, hreading⟩, hstep⟩ := hstep
    obtain ⟨-, rfl⟩ := Prod.mk.inj (Option.some.inj hstep)
    exact .call hloop hreading
  | read r =>
    simp only [step] at hstep
    split at hstep
    next hloop =>
      rw [Option.ite_none_right_eq_some] at hstep
      obtain ⟨⟨o', u⟩, hu, heq⟩ := Option.map_eq_some_iff.1 hstep.2
      obtain ⟨-, rfl⟩ := Prod.mk.inj heq
      exact .length hloop hstep.1 hu
    next hloop =>
      rw [Option.ite_none_right_eq_some] at hstep
      obtain ⟨⟨o', u⟩, hu, heq⟩ := Option.map_eq_some_iff.1 hstep.2
      obtain ⟨-, rfl⟩ := Prod.mk.inj heq
      exact .payload hloop hstep.1 hu
    next => cases hstep

/-- What the sending threads and the daemon do to the two threads of the socket: nothing. -/
theorem sending_cases {e : SendEvent} {o : Option Returned} {u : SendingClient}
    (h : s.sending.step e = some (o, u)) :
    (∃ e', e = .socket e' ∧ s.client.step e' = some ((), u.client)) ∨
      ((∀ e', e ≠ .socket e') ∧ u.client.owner = s.client.owner ∧
        u.client.loop = s.client.loop ∧ u.client.listening = s.client.listening) := by
  cases SendingClient.steps_of_step h with
  | @socket e t hsend hstep => exact .inl ⟨e, rfl, hstep⟩
  | _ => exact .inr ⟨fun _ heq => SendEvent.noConfusion heq, rfl, rfl, rfl⟩

/-- The threads are as `stop_listening` has them, and a payload that is read has a length that the
loop accepts and is not all there. -/
structure Sound (s : ReadingClient) : Prop where
  threads : s.client.Threads
  missing : s.client.loop = .payload → 1 ≤ s.missing ∧ s.missing ≤ 65536

/-- The end of a `read` is a step of the listener's thread. -/
theorem step_read {u : SendingClient} {o : Option Returned} {e : SocketEvent}
    (h : s.sending.step (.socket e) = some (o, u)) : s.client.step e = some ((), u.client) := by
  rcases sending_cases h with ⟨e', heq, hstep⟩ | ⟨hne, -⟩
  · obtain rfl := SendEvent.socket.inj heq
    exact hstep
  · exact absurd rfl (hne e)

/-- Only the good end of a length leads to a payload. -/
theorem loop_of_lengthRead {r : LengthRead} {u : ClientSocket} (hloop : s.client.loop = .length)
    (h : s.client.step (.length r) = some ((), u)) :
    u.loop = (if r = .good then .payload else .top) ∧ u.owner = s.client.owner := by
  simp only [ClientSocket.step, hloop, if_true] at h
  cases r
  all_goals
    obtain ⟨-, rfl⟩ := Prod.mk.inj (Option.some.inj h)
    exact ⟨rfl, rfl⟩

/-- Only a part of a payload leads to another. -/
theorem loop_of_payloadRead {r : PayloadRead} {u : ClientSocket}
    (hloop : s.client.loop = .payload) (h : s.client.step (.payload r) = some ((), u)) :
    u.loop = (if r = .part then .payload else .dispatch) ∧ u.owner = s.client.owner := by
  simp only [ClientSocket.step, hloop, if_true] at h
  cases r
  all_goals
    obtain ⟨-, rfl⟩ := Prod.mk.inj (Option.some.inj h)
  · exact ⟨hloop, rfl⟩
  · exact ⟨rfl, rfl⟩
  · exact ⟨rfl, rfl⟩

/-- A length that is good is one of a payload. -/
theorem lengthRead_good {r : KernelRead} (h : s.lengthRead r = .good) :
    1 ≤ readBe32 (s.available.take 4) ∧ readBe32 (s.available.take 4) ≤ 65536 := by
  cases r with
  | data n =>
    simp only [lengthRead] at h
    split_ifs at h with hn hlen
    obtain ⟨hzero, hbig⟩ := not_or.1 hlen
    exact ⟨Nat.pos_of_ne_zero hzero, not_lt.1 hbig⟩
  | eof => cases h
  | error => cases h

/-- A part of a payload is some of it, and not all. -/
theorem payloadRead_part {r : KernelRead} (hreturns : s.returns s.missing r = true)
    (h : s.payloadRead r = .part) :
    1 ≤ s.missingAfter r ∧ s.missingAfter r < s.missing := by
  cases r with
  | data n =>
    simp only [payloadRead] at h
    split_ifs at h with hn
    have hpos : 1 ≤ n := by
      unfold returns at hreturns
      split at hreturns <;> simp_all
    simp only [missingAfter]
    omega
  | eof => cases h
  | error => cases h

/-- Only the `read` of a length leads into the loop of the payload. -/
theorem loop_of_payload {s t : ClientSocket} {e : SocketEvent} {o : Unit}
    (hstep : s.step e = some (o, t)) (he : ∀ r, e ≠ .length r) (ht : t.loop = .payload) :
    s.loop = .payload := by
  cases hloop : e.isLoop with
  | false =>
    obtain ⟨-, -, -, -, -, htop⟩ | ⟨-, -, -, -, heq⟩ | ⟨-, -, -, -, -, hoff⟩ | ⟨-, -, heq⟩ :=
      ClientSocket.other_step hloop hstep
    · exact LoopControl.noConfusion (htop.symm.trans ht)
    · exact heq.symm.trans ht
    · exact LoopControl.noConfusion (hoff.symm.trans ht)
    · exact heq.symm.trans ht
  | true =>
    cases e with
    | length r => exact absurd rfl (he r)
    | payload r =>
      simp only [ClientSocket.step, Option.ite_none_right_eq_some] at hstep
      exact hstep.1
    | loop =>
      simp only [ClientSocket.step] at hstep
      split_ifs at hstep
      all_goals obtain ⟨-, rfl⟩ := Prod.mk.inj (Option.some.inj hstep)
      all_goals cases ht
    | reconnect fd =>
      simp only [ClientSocket.step, Option.ite_none_right_eq_some] at hstep
      obtain ⟨-, hstep⟩ := hstep
      by_cases hconn : s.connected = true
      · rw [if_pos hconn] at hstep
        obtain ⟨-, rfl⟩ := Prod.mk.inj (Option.some.inj hstep)
        cases ht
      · rw [if_neg hconn] at hstep
        obtain ⟨u, -, heq⟩ := Option.map_eq_some_iff.1 hstep
        obtain ⟨-, rfl⟩ := Prod.mk.inj heq
        cases fd <;> cases ht
    | reconnected ok =>
      simp only [ClientSocket.step] at hstep
      split_ifs at hstep
      all_goals obtain ⟨-, rfl⟩ := Prod.mk.inj (Option.some.inj hstep)
      all_goals cases ht
    | dispatch =>
      simp only [ClientSocket.step] at hstep
      split_ifs at hstep
      obtain ⟨-, rfl⟩ := Prod.mk.inj (Option.some.inj hstep)
      cases ht
    | _ => cases hloop

/-- Every step keeps the threads as said. -/
theorem sound_step (h : s.Sound) (hstep : step s e = some (o, t)) : t.Sound := by
  cases steps_of_step hstep with
  | @sending e o u hlength hpayload hsend =>
    rcases sending_cases hsend with ⟨e', rfl, hclient⟩ | ⟨-, howner, hloop, hlistening⟩
    · refine ⟨ClientSocket.threads_step h.threads hclient, fun hin => ?_⟩
      have hnot : ∀ r, e' ≠ .length r := fun r heq => hlength r (congrArg _ heq)
      exact h.missing (loop_of_payload hclient hnot hin)
    · refine ⟨⟨fun hne => ?_, fun hjoining => ?_⟩, fun hin => h.missing (hloop.symm.trans hin)⟩
      · rw [hloop, hlistening]
        exact h.threads.loop (howner ▸ hne)
      · rw [hlistening]
        exact h.threads.joining (howner.symm.trans hjoining)
  | arrive hc => exact ⟨h.threads, h.missing⟩
  | call hloop hreading => exact ⟨h.threads, h.missing⟩
  | @length r o u hloop hreturns hread =>
    have hclient := step_read hread
    refine ⟨ClientSocket.threads_step h.threads hclient, fun hin => ?_⟩
    have hnext := (loop_of_lengthRead hloop hclient).1
    by_cases hgood : s.lengthRead r = .good
    · exact lengthRead_good hgood
    · rw [if_neg hgood] at hnext
      exact LoopControl.noConfusion (hnext.symm.trans hin)
  | @payload r o u hloop hreturns hread =>
    have hclient := step_read hread
    refine ⟨ClientSocket.threads_step h.threads hclient, fun hin => ?_⟩
    have hnext := (loop_of_payloadRead hloop hclient).1
    by_cases hpart : s.payloadRead r = .part
    · obtain ⟨hpos, hlt⟩ := payloadRead_part hreturns hpart
      exact ⟨hpos, hlt.le.trans (h.missing hloop).2⟩
    · rw [if_neg hpart] at hnext
      exact LoopControl.noConfusion (hnext.symm.trans hin)

/-! ## Held up -/

/-- A step of the two threads is one of the client with its sending threads, but for a `send`. -/
theorem sending_isSome {e : SocketEvent} (hsend : ∀ ok, e ≠ .send ok)
    (h : (s.client.step e).isSome) : (s.sending.step (.socket e)).isSome := by
  cases e with
  | send ok => exact absurd rfl (hsend ok)
  | _ => simpa only [SendingClient.step, Option.isSome_map] using h

/-- What a `read` may return is what the listener's thread goes on with. -/
theorem read_isSome {r : KernelRead} (h : s.client.loop = .length ∨ s.client.loop = .payload)
    (hmissing : s.client.loop = .payload → 1 ≤ s.missing)
    (hr : ∀ request, 1 ≤ request → s.returns request r = true) : (step s (.read r)).isSome := by
  rcases h with hloop | hloop
  · have hlength : (s.client.step (.length (s.lengthRead r))).isSome := by
      simp only [ClientSocket.step, hloop, if_true]
      cases s.lengthRead r <;> rfl
    simp only [step, hloop, hr 4 (by decide), if_true, Option.isSome_map]
    exact sending_isSome (fun _ heq => SocketEvent.noConfusion heq) hlength
  · have hpayload : (s.client.step (.payload (s.payloadRead r))).isSome := by
      simp only [ClientSocket.step, hloop, if_true]
      cases s.payloadRead r <;> rfl
    simp only [step, hloop, hr s.missing (hmissing hloop), if_true, Option.isSome_map]
    exact sending_isSome (fun _ heq => SocketEvent.noConfusion heq) hpayload

/-- Where the listener can go on at a `read`, unless nothing has come on a connection that is
open. -/
theorem exists_read_or_blocked (h : s.client.loop = .length ∨ s.client.loop = .payload)
    (hmissing : s.client.loop = .payload → 1 ≤ s.missing) :
    (∃ e : ReadingEvent, e.isLoop = true ∧ (step s e).isSome) ∨ ∃ c, s.BlockedOn c := by
  have hgo : ∀ r, (∀ request, 1 ≤ request → s.returns request r = true) →
      ∃ e : ReadingEvent, e.isLoop = true ∧ (step s e).isSome := fun r hr =>
    ⟨.read r, rfl, read_isSome h hmissing hr⟩
  cases hreading : s.reading with
  | ready => exact .inl ⟨.call, rfl, by rw [step, if_pos ⟨h, hreading⟩]; rfl⟩
  | called c =>
    cases c with
    | none => exact .inl (hgo .error fun _ _ => by simp [returns, hreading])
    | some c =>
      cases hstate : s.sending.state c with
      | unconnected => exact .inl (hgo .error fun _ _ => by simp [returns, hreading, hstate])
      | connected =>
        cases hinbox : s.inbox c with
        | nil => exact .inr ⟨c, h, hreading, hinbox, hstate⟩
        | cons b bytes =>
          refine .inl (hgo (.data 1) fun request hpos => ?_)
          simp [returns, hreading, hstate, hinbox, hpos]
      | closed =>
        cases hinbox : s.inbox c with
        | nil => exact .inl (hgo .eof fun _ _ => by simp [returns, hreading, hstate, hinbox])
        | cons b bytes =>
          refine .inl (hgo (.data 1) fun request hpos => ?_)
          simp [returns, hreading, hstate, hinbox, hpos]

/-- Until the listener's thread has returned it can go on, unless a read holds it up, and then the
`join` can return. -/
theorem exists_next_or_blocked (h : s.Sound) (hjoining : s.client.owner = .joining) :
    (s.client.loop = .off ∧ (step s (.sending (.socket .joined))).isSome) ∨
      (∃ e : ReadingEvent, e.isLoop = true ∧ (step s e).isSome) ∨ ∃ c, s.BlockedOn c := by
  by_cases hin : s.client.loop = .length ∨ s.client.loop = .payload
  · exact .inr (exists_read_or_blocked hin fun hpayload => (h.missing hpayload).1)
  · -- The listener is in no `read`, so it goes on as if there were no kernel.
    have hgo : ∀ e : SocketEvent, (∀ ok, e ≠ .send ok) → (s.client.step e).isSome →
        (step s (.sending (.socket e))).isSome := by
      intro e hsend hsome
      have hsending := sending_isSome hsend hsome
      cases e with
      | length r =>
        simp only [ClientSocket.step, if_neg (fun hloop => hin (.inl hloop))] at hsome
        cases hsome
      | payload r =>
        simp only [ClientSocket.step, if_neg (fun hloop => hin (.inr hloop))] at hsome
        cases hsome
      | _ => simpa only [step, Option.isSome_map] using hsending
    rcases ClientSocket.exists_next_joining h.threads hjoining with
      ⟨hoff, hjoined⟩ | ⟨e, he, hsome⟩
    · exact .inl ⟨hoff, hgo _ (fun _ heq => SocketEvent.noConfusion heq) hjoined⟩
    · refine .inr (.inl ⟨.sending (.socket e), he, hgo e (fun ok heq => ?_) hsome⟩)
      rw [heq] at he
      cases he

/-- At the `read` of a length, or before it. -/
theorem before_length {c : LoopControl} (h : 4 ≤ c.left) :
    c = .length ∨ c = .connecting ∨ c = .reconnect := by
  revert h
  cases c <;> decide

/-- Where the loop is no further from its end, and in a payload only if it was, there are no more
reads to come. -/
theorem reads_le (hreading : t.reading = s.reading) (hmissing : t.missing = s.missing)
    (hrank : t.client.loop.left ≤ s.client.loop.left)
    (hpayload : t.client.loop = .payload → s.client.loop = .payload) : t.reads ≤ s.reads := by
  unfold reads
  cases ht : t.client.loop with
  | payload => rw [hpayload ht, hreading, hmissing]
  | length =>
    rw [ht] at hrank
    rcases before_length hrank with hs | hs | hs
    · rw [hs, hreading]
    · simp only [hs]
      exact Nat.sub_le _ _
    · simp only [hs]
      exact Nat.sub_le _ _
  | connecting =>
    rw [ht] at hrank
    rcases before_length ((by decide : 4 ≤ 5).trans hrank) with hs | hs | hs
    · simp [hs, LoopControl.left] at hrank
    · rw [hs]
    · rw [hs]
  | reconnect =>
    rw [ht] at hrank
    rcases before_length ((by decide : 4 ≤ 6).trans hrank) with hs | hs | hs
    · simp [hs, LoopControl.left] at hrank
    · rw [hs]
    · rw [hs]
  | _ => exact Nat.zero_le _

/-- In a payload, where some of it is missing. -/
theorem left_payload (h : s.client.loop = .payload) (hmissing : 1 ≤ s.missing) :
    s.left + (if s.reading = .ready then 0 else 1) = 2 + 2 * s.missing := by
  unfold left reads
  simp only [h, LoopControl.left]
  split_ifs <;> omega

/-- At a length. -/
theorem left_length (h : s.client.loop = .length) :
    s.left + (if s.reading = .ready then 0 else 1) = 131076 := by
  unfold left reads
  simp only [h, LoopControl.left]
  split_ifs <;> omega

/-- After the payload or a length that is none. -/
theorem left_of_after (h : s.client.loop = .dispatch ∨ s.client.loop = .top) : s.left ≤ 2 := by
  rcases h with hloop | hloop <;> simp [left, reads, hloop, LoopControl.left]

/-- A `read` that returns was called. -/
theorem reading_of_returns {request : ℕ} {r : KernelRead} (h : s.returns request r = true) :
    s.reading ≠ .ready := by
  intro hready
  cases r <;> simp [returns, hready] at h

/-- One step while the owner is in the `join`. -/
theorem step_joining (h : s.Sound) (hjoining : s.client.owner = .joining)
    (hstep : step s e = some (o, t)) (he : e ≠ .sending (.socket .joined)) :
    t.client.owner = .joining ∧ (if e.isLoop then 1 else 0) + t.left ≤ s.left := by
  cases steps_of_step hstep with
  | @sending e o u hlength hpayload hsend =>
    rcases sending_cases hsend with ⟨e', rfl, hclient⟩ | ⟨hne, howner, hloop, hlistening⟩
    · have hnot : e' ≠ .joined := fun heq => he (by rw [heq])
      obtain ⟨howner, hcount⟩ := ClientSocket.step_joining h.threads hjoining hclient hnot
      have hin : ∀ r, e' ≠ .length r := fun r heq => hlength r (congrArg _ heq)
      have hreads : reads { s with sending := u } ≤ s.reads :=
        reads_le rfl rfl ((Nat.le_add_left _ _).trans hcount)
          fun ht => loop_of_payload hclient hin ht
      refine ⟨howner, ?_⟩
      calc (if e'.isLoop then 1 else 0) + left { s with sending := u }
          = ((if e'.isLoop then 1 else 0) + u.client.loop.left) +
              reads { s with sending := u } := (Nat.add_assoc _ _ _).symm
        _ ≤ s.client.loop.left + s.reads := Nat.add_le_add hcount hreads
    · have hidle : (ReadingEvent.sending e).isLoop = false := by
        cases e with
        | socket e => exact absurd rfl (hne e)
        | _ => rfl
      have hleft : left { s with sending := u } = s.left := by
        have hclient : client { s with sending := u } = u.client := rfl
        simp only [left, reads, hclient, hloop]
      refine ⟨howner.trans hjoining, ?_⟩
      rw [hidle, hleft]
      exact (Nat.zero_add _).le
  | arrive hc => exact ⟨hjoining, (Nat.zero_add _).le⟩
  | call hloop hreading =>
    have hcalled : ReadCall.called s.sending.current ≠ .ready := ReadCall.noConfusion
    refine ⟨hjoining, ?_⟩
    rcases hloop with hloop | hloop
    · have hs := left_length hloop
      have ht := left_length (s := { s with reading := .called s.sending.current }) hloop
      rw [if_pos hreading] at hs
      rw [if_neg hcalled] at ht
      simp only [ReadingEvent.isLoop, if_true]
      omega
    · have hmissing := (h.missing hloop).1
      have hs := left_payload hloop hmissing
      have ht := left_payload (s := { s with reading := .called s.sending.current }) hloop hmissing
      rw [if_pos hreading] at hs
      rw [if_neg hcalled] at ht
      simp only [ReadingEvent.isLoop, if_true]
      simp only at ht
      omega
  | @length r o u hloop hreturns hread =>
    obtain ⟨hnext, howner⟩ := loop_of_lengthRead hloop (step_read hread)
    have hs := left_length hloop
    rw [if_neg (reading_of_returns hreturns)] at hs
    refine ⟨howner.trans hjoining, ?_⟩
    simp only [ReadingEvent.isLoop, if_true]
    by_cases hgood : s.lengthRead r = .good
    · obtain ⟨hpos, hle⟩ := lengthRead_good hgood
      rw [if_pos hgood] at hnext
      have ht := left_payload (s := {
        sending := u
        inbox := s.consume r
        missing := readBe32 (s.available.take 4) }) hnext hpos
      simp only [if_true] at ht
      omega
    · rw [if_neg hgood] at hnext
      have ht := left_of_after (s := {
        sending := u
        inbox := s.consume r
        missing := readBe32 (s.available.take 4) }) (.inr hnext)
      omega
  | @payload r o u hloop hreturns hread =>
    obtain ⟨hnext, howner⟩ := loop_of_payloadRead hloop (step_read hread)
    have hmissing := (h.missing hloop).1
    have hs := left_payload hloop hmissing
    rw [if_neg (reading_of_returns hreturns)] at hs
    refine ⟨howner.trans hjoining, ?_⟩
    simp only [ReadingEvent.isLoop, if_true]
    by_cases hpart : s.payloadRead r = .part
    · obtain ⟨hmore, hlt⟩ := payloadRead_part hreturns hpart
      rw [if_pos hpart] at hnext
      have ht := left_payload (s := {
        sending := u
        inbox := s.consume r
        missing := s.missingAfter r }) hnext hmore
      simp only [if_true] at ht
      omega
    · rw [if_neg hpart] at hnext
      have ht := left_of_after (s := {
        sending := u
        inbox := s.consume r
        missing := s.missingAfter r }) (.inl hnext)
      omega

/-- While the listener is in a `read` and the owner in the `join`, neither has another step. -/
theorem step_ne_some_of_reading {s : ClientSocket} {e : SocketEvent}
    (h : s.loop = .length ∨ s.loop = .payload) (hjoining : s.owner = .joining)
    (hsend : ∀ ok, e ≠ .send ok) (hlength : ∀ r, e ≠ .length r) (hpayload : ∀ r, e ≠ .payload r)
    (r : Unit × ClientSocket) : s.step e ≠ some r := by
  cases e with
  | send ok => exact absurd rfl (hsend ok)
  | length r => exact absurd rfl (hlength r)
  | payload r => exact absurd rfl (hpayload r)
  | _ => rcases h with hloop | hloop <;> simp [ClientSocket.step, hloop, hjoining]

/-- A read that is held up stays so, and the owner in the `join`, unless the daemon sends or
closes. -/
theorem blockedOn_step {c : ConnId} (h : s.BlockedOn c) (hjoining : s.client.owner = .joining)
    (hstep : step s e = some (o, t)) (he : ¬ e.FromDaemon c) :
    t.BlockedOn c ∧ t.client.owner = .joining := by
  have hnone : ∀ request r, s.returns request r = false := by
    intro request r
    cases r with
    | data n =>
      simp only [returns, h.reading, h.inbox, List.length_nil, decide_eq_false_iff_not]
      omega
    | eof => simp [returns, h.reading, h.state]
    | error => simp [returns, h.reading, h.state]
  cases steps_of_step hstep with
  | @sending e o u hlength hpayload hsend =>
    cases SendingClient.steps_of_step hsend with
    | socket hsend' hclient =>
      exact absurd hclient (step_ne_some_of_reading h.loop hjoining hsend'
        (fun r heq => hlength r (congrArg _ heq)) (fun r heq => hpayload r (congrArg _ heq)) _)
    | @hangup c' hc =>
      refine ⟨⟨h.loop, h.reading, h.inbox, ?_⟩, hjoining⟩
      exact (Function.update_of_ne (fun heq => he heq.symm) _ _).trans h.state
    | _ => exact ⟨⟨h.loop, h.reading, h.inbox, h.state⟩, hjoining⟩
  | @arrive c' bytes hc =>
    refine ⟨⟨h.loop, h.reading, ?_, h.state⟩, hjoining⟩
    exact (Function.update_of_ne (fun heq => he heq.symm) _ _).trans h.inbox
  | call hloop hready =>
    rw [h.reading] at hready
    cases hready
  | @length r o u hloop hreturns hread =>
    exact absurd (hreturns.symm.trans (hnone 4 r)) Bool.true_eq_false.mp
  | @payload r o u hloop hreturns hread =>
    exact absurd (hreturns.symm.trans (hnone s.missing r)) Bool.true_eq_false.mp

section Runs

variable {es fs : List ReadingEvent} {outs : List Unit}

/-- How long a `stop_listening` waits, over a run. -/
theorem run_joining (h : s.Sound) (hjoining : s.client.owner = .joining)
    (hrun : Machine.run step s es = some (outs, t)) (hes : .sending (.socket .joined) ∉ es) :
    t.Sound ∧ t.client.owner = .joining ∧
      es.countP ReadingEvent.isLoop + t.left ≤ s.left := by
  induction es generalizing s outs with
  | nil =>
    obtain ⟨-, rfl⟩ : [] = outs ∧ s = t := by simpa using hrun
    exact ⟨h, hjoining, by rw [List.countP_nil, Nat.zero_add]⟩
  | cons e es ih =>
    obtain ⟨o, u, outs', hstep, hrun', -⟩ := Machine.run_cons_eq_some.1 hrun
    obtain ⟨hne, hes'⟩ := not_or.1 (mt List.mem_cons.2 hes)
    obtain ⟨hjoining', hleft⟩ := step_joining h hjoining hstep (Ne.symm hne)
    obtain ⟨ht, howner, hcount⟩ := ih (sound_step h hstep) hjoining' hrun' hes'
    rw [List.countP_cons]
    exact ⟨ht, howner, by omega⟩

/-- How long it waits for a read that is held up. -/
theorem run_blockedOn {c : ConnId} (h : s.BlockedOn c) (hjoining : s.client.owner = .joining)
    (hrun : Machine.run step s es = some (outs, t)) (hes : ∀ e ∈ es, ¬ e.FromDaemon c) :
    t.BlockedOn c ∧ t.client.owner = .joining := by
  induction es generalizing s outs with
  | nil =>
    obtain ⟨-, rfl⟩ : [] = outs ∧ s = t := by simpa using hrun
    exact ⟨h, hjoining⟩
  | cons e es ih =>
    obtain ⟨o, u, outs', hstep, hrun', -⟩ := Machine.run_cons_eq_some.1 hrun
    obtain ⟨he, hes'⟩ := List.forall_mem_cons.1 hes
    obtain ⟨hu, hjoining'⟩ := blockedOn_step h hjoining hstep he
    exact ih hu hjoining' hrun' hes'

/-- In every run of the client's threads with the kernel, while `stop_listening` is in the `join`:
the listener's thread goes on a bounded number of times, and at any point it has returned and the
`join` can return, or it can go on, or it is in a `read` on a connection on which nothing has come
and which the daemon has open. Such a read is under way, and the owner in the `join`, as long as the
daemon neither sends on the connection nor closes it, whatever the threads do. -/
theorem run_join (hrun : Machine.run step {} es = some (outs, s))
    (hjoining : s.client.owner = .joining) :
    (∀ fs outs' t, Machine.run step s fs = some (outs', t) →
      .sending (.socket .joined) ∉ fs → fs.countP ReadingEvent.isLoop ≤ 131078 ∧
        ((t.client.loop = .off ∧ (step t (.sending (.socket .joined))).isSome) ∨
          (∃ e : ReadingEvent, e.isLoop = true ∧ (step t e).isSome) ∨ ∃ c, t.BlockedOn c)) ∧
    ∀ c, s.BlockedOn c → ∀ fs outs' t, Machine.run step s fs = some (outs', t) →
      (∀ e ∈ fs, ¬ e.FromDaemon c) → t.BlockedOn c ∧ t.client.owner = .joining := by
  have hinit : Sound {} :=
    ⟨⟨fun _ => iff_of_true rfl rfl, fun _ => rfl⟩, fun h => LoopControl.noConfusion h⟩
  have hs : s.Sound := Machine.run_invariant (fun _ _ _ _ => sound_step) hinit hrun
  refine ⟨fun fs outs' t hfs hnot => ?_,
    fun c hblocked fs outs' t hfs hquiet => run_blockedOn hblocked hjoining hfs hquiet⟩
  obtain ⟨ht, howner, hcount⟩ := run_joining hs hjoining hfs hnot
  refine ⟨?_, exists_next_or_blocked ht howner⟩
  have hleft : s.left ≤ 131078 := by
    cases hloop : s.client.loop with
    | payload =>
      obtain ⟨hpos, hle⟩ := hs.missing hloop
      have hpayload := left_payload hloop hpos
      omega
    | length =>
      have hlength := left_length hloop
      omega
    | _ => simp [left, reads, hloop, LoopControl.left]
  omega

end Runs

/-- The owner connects, listens and stops, and the daemon has sent nothing. -/
def silentDaemon : List ReadingEvent :=
  [.sending (.socket (.connect (some 3))), .sending (.socket (.connected true)),
    .sending (.socket .start_listening), .sending (.socket .loop), .call,
    .sending (.socket .stop_listening)]

/-- The socket is closed, and `stop_listening` does not return before the daemon does something. -/
theorem run_join_silentDaemon :
    ∃ outs s, Machine.run step {} silentDaemon = some (outs, s) ∧ s.client.table.opened = ∅ ∧
      ∀ fs outs' t, Machine.run step s fs = some (outs', t) → (∀ e ∈ fs, ¬ e.FromDaemon 0) →
        t.client.owner = .joining := by
  obtain ⟨outs, hrun⟩ : ∃ outs, Machine.run step {} silentDaemon =
      some (outs, Machine.last step {} silentDaemon) :=
    Machine.exists_run_eq_last _ _ (by decide +kernel)
  have hblocked : (Machine.last step {} silentDaemon).BlockedOn 0 := by
    refine ⟨.inl ?_, ?_, ?_, ?_⟩ <;> decide +kernel
  refine ⟨outs, _, hrun, by decide +kernel, fun fs outs' t hfs hquiet => ?_⟩
  exact ((run_join hrun (by decide +kernel)).2 0 hblocked fs outs' t hfs hquiet).2

end ReadingClient

end MemoryGovernor
