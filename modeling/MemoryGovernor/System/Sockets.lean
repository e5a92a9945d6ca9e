import MemoryGovernor.Lib.Descriptors
import MemoryGovernor.Lib.Machine

/-!
# The sockets of the client

`connect`, `disconnect`, `send_message`, `start_listening`, `stop_listening` and `listener_loop` of
`src/client/governor_client.cpp`, as far as descriptors go: which sockets the client has open, and
the one in `sock_fd_`. What is read and sent is in `System/Listener.lean`.

There are two threads, the owner's and the listener's. A step is the code of one of them up to the
next call that can block: `::connect`, `read`, the sleep and the `join`. So the threads interleave
at these calls, also inside of `connect`, which both of them call.

`connected_` is cleared in more places than `sock_fd_` is closed, and `connect` looks at
`connected_` only. It overwrites a descriptor that is still there, whether it gets a new one or not.
A run in which `connect` never finds one has at most one socket open, that in `sock_fd_`, and no
other run has (`oneSocket_iff`).
-/

namespace MemoryGovernor

/-- Where the owner's thread is. -/
inductive OwnerControl
  /-- In none of the calls. -/
  | idle
  /-- In `connect`, with a new socket. -/
  | connecting
  /-- In `stop_listening`, before the `join`. -/
  | joining
deriving DecidableEq, Repr

/-- Where the listener's thread is. -/
inductive LoopControl
  /-- Not started, or ended. -/
  | off
  /-- At the condition of the loop. -/
  | top
  /-- Before the call of `connect`. -/
  | reconnect
  /-- In `connect`, with a new socket. -/
  | connecting
  /-- In the `read` of a length. -/
  | length
  /-- In the `read` of a payload. -/
  | payload
  /-- After the loop that reads the payload. -/
  | dispatch
deriving DecidableEq, Repr

/-- `GovernorClient`: its socket and its threads. -/
structure ClientSocket where
  /-- `sock_fd_`, none where it is -1. -/
  sock_fd : Option ℕ := none
  connected : Bool := false
  listening : Bool := false
  owner : OwnerControl := .idle
  loop : LoopControl := .off
  table : Descriptors := {}
deriving DecidableEq

/-- What the `read` of a length returns. -/
inductive LengthRead
  /-- 0: the daemon has closed the connection. -/
  | eof
  /-- An error or a part of the length. -/
  | short
  /-- A length that is 0 or too large. -/
  | bad
  /-- Any other length. -/
  | good
deriving DecidableEq, Repr

/-- What the `read` of a payload returns. -/
inductive PayloadRead
  /-- A part, and more is missing. -/
  | part
  /-- The last part. -/
  | last
  /-- 0 or an error. -/
  | failed
deriving DecidableEq, Repr

/-- What happens next. -/
inductive SocketEvent
  /-- The owner calls `connect`, and `socket` returns this descriptor or fails. -/
  | connect (fd : Option ℕ)
  /-- `::connect` returns to the owner. -/
  | connected (ok : Bool)
  | disconnect
  | start_listening
  | stop_listening
  /-- The `join` returns. -/
  | joined
  /-- Any thread sends a message, and its writes succeed or not. -/
  | send (ok : Bool)
  /-- The listener goes on at the top of its loop. -/
  | loop
  /-- The listener calls `connect`, and `socket` returns this descriptor or fails. -/
  | reconnect (fd : Option ℕ)
  /-- `::connect` returns to the listener. -/
  | reconnected (ok : Bool)
  | length (r : LengthRead)
  | payload (r : PayloadRead)
  /-- The listener handles the message that it has read. -/
  | dispatch
deriving DecidableEq, Repr

namespace ClientSocket

/-- `sock_fd_ = socket(...)`. -/
def openSocket (s : ClientSocket) : Option ℕ → Option ClientSocket
  | none => some { s with sock_fd := none }
  | some fd => (s.table.create fd).map fun table => { s with sock_fd := some fd, table := table }

/-- `close(sock_fd_)` and `sock_fd_ = -1`. -/
def closeSocket (s : ClientSocket) : ClientSocket :=
  { s with sock_fd := none, table := s.table.closeIfSome s.sock_fd }

/-- The threads of the client, from one call that can block to the next. -/
def step (s : ClientSocket) : SocketEvent → Option (Unit × ClientSocket)
  | .connect fd =>
    if s.owner = .idle then
      if s.connected then some ((), s)
      else (s.openSocket fd).map fun t =>
        ((), { t with owner := if fd.isSome then .connecting else .idle })
    else none
  | .connected ok =>
    if s.owner = .connecting then
      if ok then some ((), { s with connected := true, owner := .idle })
      else some ((), { s.closeSocket with owner := .idle })
    else none
  | .disconnect =>
    if s.owner = .idle then some ((), { s.closeSocket with connected := false }) else none
  | .start_listening =>
    if s.owner = .idle then
      if s.listening then some ((), s) else some ((), { s with listening := true, loop := .top })
    else none
  | .stop_listening =>
    if s.owner = .idle then
      if s.listening then
        some ((), { s.closeSocket with listening := false, connected := false, owner := .joining })
      else some ((), s)
    else none
  | .joined =>
    if s.owner = .joining ∧ s.loop = .off then some ((), { s with owner := .idle }) else none
  | .send ok =>
    if s.connected ∧ ¬ ok then some ((), { s with connected := false }) else some ((), s)
  | .loop =>
    if s.loop = .top then
      if s.listening then
        some ((), { s with loop := if s.connected then .length else .reconnect })
      else some ((), { s with loop := .off })
    else none
  | .reconnect fd =>
    if s.loop = .reconnect then
      if s.connected then some ((), { s with loop := .length })
      else (s.openSocket fd).map fun t =>
        -- Without a socket the listener sleeps, and goes on at the top.
        ((), { t with loop := if fd.isSome then .connecting else .top })
    else none
  | .reconnected ok =>
    if s.loop = .connecting then
      if ok then some ((), { s with connected := true, loop := .length })
      else some ((), { s.closeSocket with loop := .top })
    else none
  | .length r =>
    if s.loop = .length then
      match r with
      | .eof | .short | .bad => some ((), { s with connected := false, loop := .top })
      | .good => some ((), { s with loop := .payload })
    else none
  | .payload r =>
    if s.loop = .payload then
      match r with
      | .part => some ((), s)
      | .last => some ((), { s with loop := .dispatch })
      | .failed => some ((), { s with connected := false, loop := .dispatch })
    else none
  | .dispatch => if s.loop = .dispatch then some ((), { s with loop := .top }) else none

/-- A call of `connect` that goes on to `socket` finds no descriptor in `sock_fd_`. -/
def FindsNone (s : ClientSocket) : SocketEvent → Prop
  | .connect _ | .reconnect _ => s.connected = false → s.sock_fd = none
  | _ => True

instance (s : ClientSocket) : ∀ e, Decidable (FindsNone s e)
  | .connect _ | .reconnect _ =>
    inferInstanceAs (Decidable (s.connected = false → s.sock_fd = none))
  | .connected _ | .disconnect | .start_listening | .stop_listening | .joined | .send _ | .loop
  | .reconnected _ | .length _ | .payload _ | .dispatch => isTrue trivial

/-- No socket is open but the one in `sock_fd_`. -/
def OneSocket (s : ClientSocket) : Prop := ∀ fd ∈ s.table.opened, s.sock_fd = some fd

instance (s : ClientSocket) : Decidable (OneSocket s) := inferInstanceAs (Decidable (∀ _ ∈ _, _))

section Runs

variable {s t : ClientSocket} {e : SocketEvent} {o : Unit}

/-- What a step does to the descriptors: nothing, or it closes the one in `sock_fd_`, or it is one
of `connect` and overwrites it. -/
theorem step_cases (hstep : step s e = some (o, t)) :
    (t.sock_fd = s.sock_fd ∧ t.table = s.table ∧ FindsNone s e) ∨
    (t.sock_fd = none ∧ t.table = s.table.closeIfSome s.sock_fd ∧ FindsNone s e) ∨
    (∃ fd u, (FindsNone s e ↔ s.sock_fd = none) ∧ s.openSocket fd = some u ∧
      t.sock_fd = u.sock_fd ∧ t.table = u.table) := by
  cases e with
  | connect fd | reconnect fd =>
    -- Both are `connect`, which looks at `connected_` first.
    simp only [step, Option.ite_none_right_eq_some] at hstep
    obtain ⟨-, hstep⟩ := hstep
    by_cases hconn : s.connected = true
    · rw [if_pos hconn] at hstep
      obtain ⟨-, rfl⟩ := Prod.mk.inj (Option.some.inj hstep)
      exact .inl ⟨rfl, rfl, fun hc => absurd (hconn.symm.trans hc) Bool.true_eq_false.mp⟩
    · rw [if_neg hconn] at hstep
      obtain ⟨u, hopen, heq⟩ := Option.map_eq_some_iff.1 hstep
      obtain ⟨-, rfl⟩ := Prod.mk.inj heq
      exact .inr (.inr ⟨fd, u, forall_prop_of_true (Bool.eq_false_iff.2 hconn), hopen, rfl, rfl⟩)
  | connected ok | reconnected ok =>
    simp only [step] at hstep
    split_ifs at hstep
    · obtain ⟨-, rfl⟩ := Prod.mk.inj (Option.some.inj hstep)
      exact .inl ⟨rfl, rfl, trivial⟩
    · obtain ⟨-, rfl⟩ := Prod.mk.inj (Option.some.inj hstep)
      exact .inr (.inl ⟨rfl, rfl, trivial⟩)
  | disconnect =>
    simp only [step] at hstep
    split_ifs at hstep
    obtain ⟨-, rfl⟩ := Prod.mk.inj (Option.some.inj hstep)
    exact .inr (.inl ⟨rfl, rfl, trivial⟩)
  | stop_listening =>
    simp only [step] at hstep
    split_ifs at hstep
    · obtain ⟨-, rfl⟩ := Prod.mk.inj (Option.some.inj hstep)
      exact .inr (.inl ⟨rfl, rfl, trivial⟩)
    · obtain ⟨-, rfl⟩ := Prod.mk.inj (Option.some.inj hstep)
      exact .inl ⟨rfl, rfl, trivial⟩
  | start_listening | joined | send ok | loop | dispatch =>
    simp only [step] at hstep
    split_ifs at hstep
    all_goals
      obtain ⟨-, rfl⟩ := Prod.mk.inj (Option.some.inj hstep)
      exact .inl ⟨rfl, rfl, trivial⟩
  | length r | payload r =>
    simp only [step] at hstep
    split_ifs at hstep
    cases r
    all_goals
      obtain ⟨-, rfl⟩ := Prod.mk.inj (Option.some.inj hstep)
      exact .inl ⟨rfl, rfl, trivial⟩

/-- After a call of `connect` that goes on to `socket`, `sock_fd_` has what `socket` returned, which
is new and is now open. -/
theorem openSocket_spec {fd : Option ℕ} (hopen : s.openSocket fd = some t) :
    t.sock_fd = fd ∧ (∀ x, fd = some x → x ∉ s.table.opened) ∧
      ∀ x, x ∈ t.table.opened ↔ fd = some x ∨ x ∈ s.table.opened := by
  cases fd with
  | none =>
    obtain rfl := Option.some.inj hopen
    exact ⟨rfl, fun x h => (nomatch h), fun x => by simp⟩
  | some fd =>
    obtain ⟨table, hcreate, rfl⟩ := Option.map_eq_some_iff.1 hopen
    obtain ⟨hnew, rfl⟩ := Descriptors.create_eq_some.1 hcreate
    refine ⟨rfl, fun x h => Option.some.inj h ▸ hnew, fun x => ?_⟩
    rw [Finset.mem_insert, Option.some.injEq, eq_comm]

/-- The descriptor in `sock_fd_` is open. -/
def Owned (s : ClientSocket) : Prop := ∀ fd, s.sock_fd = some fd → fd ∈ s.table.opened

/-- Every step keeps it so. -/
theorem owned_step (h : s.Owned) (hstep : step s e = some (o, t)) : t.Owned := by
  rcases step_cases hstep with ⟨hfd, htable, -⟩ | ⟨hfd, -, -⟩ | ⟨fd, u, -, hopen, hfd, htable⟩
  · unfold Owned
    rwa [hfd, htable]
  · intro fd hsome
    rw [hfd] at hsome
    cases hsome
  · obtain ⟨hsock, -, hmem⟩ := openSocket_spec hopen
    intro fd' hsome
    rw [hfd, hsock] at hsome
    rw [htable]
    exact (hmem fd').2 (.inl hsome)

/-- After a call of `connect` that goes on to `socket`, no other socket is open exactly if
`sock_fd_` was free. -/
theorem oneSocket_openSocket (howned : s.Owned) (hone : s.OneSocket) {fd : Option ℕ}
    (hopen : s.openSocket fd = some t) : t.OneSocket ↔ s.sock_fd = none := by
  obtain ⟨hsock, hnew, hmem⟩ := openSocket_spec hopen
  constructor
  · -- The descriptor that is overwritten stays open.
    intro ht
    by_contra hsome
    obtain ⟨old, hold⟩ := Option.ne_none_iff_exists'.1 hsome
    have hopened := howned old hold
    have heq := ht old ((hmem old).2 (.inr hopened))
    exact hnew old (hsock.symm.trans heq) hopened
  · intro hnone x hx
    rcases (hmem x).1 hx with heq | hopened
    · exact hsock.trans heq
    · have heq := hone x hopened
      rw [hnone] at heq
      cases heq

/-- A step leaves no other socket open exactly if it finds none in `sock_fd_` where it opens one. -/
theorem oneSocket_step (howned : s.Owned) (hone : s.OneSocket)
    (hstep : step s e = some (o, t)) : t.OneSocket ↔ FindsNone s e := by
  rcases step_cases hstep with ⟨hfd, htable, hfinds⟩ | ⟨hfd, htable, hfinds⟩ |
    ⟨fd, u, hfinds, hopen, hfd, htable⟩
  · refine iff_of_true ?_ hfinds
    unfold OneSocket
    rwa [hfd, htable]
  · refine iff_of_true (fun fd hmem => ?_) hfinds
    -- What was open is the one that is closed.
    rw [htable] at hmem
    cases hsock : s.sock_fd with
    | none =>
      rw [hsock] at hmem
      have heq := hone fd hmem
      rw [hsock] at heq
      cases heq
    | some old =>
      rw [hsock] at hmem
      obtain ⟨hne, hmem⟩ := Descriptors.mem_close.1 hmem
      have heq := hone fd hmem
      rw [hsock] at heq
      exact absurd (Option.some.inj heq).symm hne
  · rw [hfinds, ← oneSocket_openSocket howned hone hopen, OneSocket, OneSocket, hfd, htable]

/-- In every state of a run no socket is open but the one in `sock_fd_`, exactly if no call of
`connect` in it goes on to `socket` while a descriptor is there. -/
theorem oneSocket_iff {es : List SocketEvent} {outs : List Unit}
    (hrun : Machine.run step {} es = some (outs, s)) :
    (∀ es₁ es₂ outs₁ s₁, es = es₁ ++ es₂ → Machine.run step {} es₁ = some (outs₁, s₁) →
      s₁.OneSocket) ↔ Machine.Along step FindsNone {} es := by
  have howned : Owned {} := fun _ h => (nomatch h)
  have hone : OneSocket {} := fun fd hmem => absurd hmem (Finset.notMem_empty fd)
  exact (Machine.along_iff_forall_reached (fun _ _ _ _ => owned_step)
    (fun _ _ _ _ => oneSocket_step) howned hone hrun).symm

/-- A client that connects, listens, and is closed and opened again by its owner. -/
def orderly : List SocketEvent :=
  [.connect (some 3), .connected true, .start_listening, .loop, .length .good, .payload .last,
    .dispatch, .stop_listening, .loop, .joined, .connect (some 3), .connected false, .disconnect]

/-- It has one socket at a time. -/
theorem oneSocket_orderly :
    ∃ outs s, Machine.run step {} orderly = some (outs, s) ∧
      ∀ es₁ es₂ outs₁ s₁, orderly = es₁ ++ es₂ →
        Machine.run step {} es₁ = some (outs₁, s₁) → s₁.OneSocket := by
  obtain ⟨outs, hrun⟩ : ∃ outs, Machine.run step {} orderly =
      some (outs, Machine.last step {} orderly) :=
    Machine.exists_run_eq_last _ _ (by decide +kernel)
  exact ⟨outs, _, hrun, (oneSocket_iff hrun).2 (by decide +kernel)⟩

/-- The daemon closes the connection, and the listener makes a new one. -/
def reconnecting : List SocketEvent :=
  [.connect (some 3), .connected true, .start_listening, .loop, .length .eof, .loop,
    .reconnect (some 4), .reconnected true]

/-- Both sockets are open, and `sock_fd_` has the second one. -/
theorem two_sockets_reconnecting :
    ∃ outs s, Machine.run step {} reconnecting = some (outs, s) ∧ s.table.opened = {3, 4} ∧
      s.sock_fd = some 4 ∧ ¬ s.OneSocket := by
  obtain ⟨outs, hrun⟩ : ∃ outs, Machine.run step {} reconnecting =
      some (outs, Machine.last step {} reconnecting) :=
    Machine.exists_run_eq_last _ _ (by decide +kernel)
  exact ⟨outs, _, hrun, by decide +kernel, by decide +kernel, by decide +kernel⟩

end Runs

end ClientSocket

end MemoryGovernor
