import MemoryGovernor.Lib.Readiness
import MemoryGovernor.Registry.Reader

/-!
# The event loop and edge-triggered `epoll`

`run_event_loop` of `src/governor/client_registry.cpp` again, now with what the kernel does in
between: clients connect, send and close at any moment, also while a handler runs. Both sorts of
descriptors are added with `EPOLLET`, so the kernel tells of a descriptor when something comes to it
and not again while something is left. The handlers therefore go on until `EAGAIN`.

A label is one step of a client or one system call of the thread. The kernel's list has an entry for
a connection, not for its number; the thread gets the number, `events[i].data.fd`, and has nothing
else to go by. That the number still is the connection when its event is handled is `Sound.control`.
-/

namespace MemoryGovernor

open Framing (Position)

/-- What the loop watches. -/
inductive Source
  | listen
  | conn (c : ConnId)
deriving DecidableEq, Repr

/-- An `epoll_event`. No descriptor stands for the listening socket. -/
structure EpollReport where
  fd : Option ℕ
  err : Bool
  hup : Bool
  inp : Bool
deriving DecidableEq, Repr

/-- The other end of a connection. -/
inductive PeerState
  | connected
  /-- The client has closed its end; with `reset`, when something was there that it had not read. -/
  | closed (reset : Bool)
deriving DecidableEq, Repr

/-- Where the thread of the loop is. -/
inductive EpollControl
  /-- Before the next event, or in `epoll_wait` where there is none. -/
  | loop
  /-- In `handle_new_connection`. -/
  | accepting
  /-- In `handle_client_message`, which was called for an event of `source`. -/
  | reading (source : Source) (client_fd : ℕ) (position : Position)
deriving DecidableEq, Repr

/-- The source whose event the thread handles. -/
def EpollControl.source : EpollControl → Option Source
  | loop => none
  | accepting => some .listen
  | reading source _ _ => some source

/-- The registry, its thread and the kernel. -/
structure Epoll where
  registry : ClientRegistry
  /-- The descriptors of the accepted connections that are open. -/
  fds : ℕ → Option ConnId
  /-- The descriptor under which a connection was added. -/
  descriptor : ConnId → Option ℕ
  /-- The numbers of connections accepted and of connections made. -/
  accepted : ℕ
  connected : ℕ
  /-- What has come over a connection, and what of it was not read. -/
  sent : ConnId → Bytes
  inbox : ConnId → Bytes
  peer : ConnId → PeerState
  watch : Watch Source EpollReport
  control : EpollControl

/-- A step of a client, or a system call of the thread and what it returns. -/
inductive EpollLabel
  | connect
  | arrive (c : ConnId) (bytes : Bytes)
  | hangup (c : ConnId) (reset : Bool)
  /-- `epoll_wait` returns. -/
  | wait
  /-- The loop goes on to the next event. -/
  | next
  /-- `accept` fails with `EAGAIN`. -/
  | acceptAgain
  /-- `accept` returns otherwise, and `epoll_ctl` adds what it returns or not. -/
  | accept (result : AcceptResult)
  | read (e : ReadEvent)
deriving DecidableEq, Repr

/-- `MAX_EVENTS`. -/
def MAX_EVENTS : ℕ := 64

namespace Epoll

/-- Before the first `epoll_wait`. -/
def init : Epoll where
  registry := {}
  fds := fun _ => none
  descriptor := fun _ => none
  accepted := 0
  connected := 0
  sent := fun _ => []
  inbox := fun _ => []
  peer := fun _ => .connected
  watch := {}
  control := .loop

/-- What the kernel would report of a source now, if anything. -/
def flags (s : Epoll) : Source → Option EpollReport
  | .listen => if s.accepted < s.connected then some ⟨none, false, false, true⟩ else none
  | .conn c =>
    match s.descriptor c, s.peer c with
    | none, _ => none
    | some fd, .connected =>
      if s.inbox c = [] then none else some ⟨some fd, false, false, true⟩
    | some fd, .closed reset => some ⟨some fd, reset, true, true⟩

/-- Something is to be done at a source. -/
def Pending (s : Epoll) (source : Source) : Prop := (s.flags source).isSome

instance (s : Epoll) (source : Source) : Decidable (s.Pending source) :=
  inferInstanceAs (Decidable (_ = true))

/-- Something comes over a connection: the kernel lists it where it is watched. -/
def wakeConn (s : Epoll) (c : ConnId) : Epoll :=
  match s.descriptor c with
  | none => s
  | some _ => { s with watch := s.watch.wake (.conn c) }

/-- `close`: the connection is watched no longer. -/
def closeDescriptor (s : Epoll) (client_fd : ℕ) : Epoll :=
  match s.fds client_fd with
  | none => s
  | some c => { s with
      fds := Function.update s.fds client_fd none
      descriptor := Function.update s.descriptor c none
      watch := s.watch.forget (.conn c) }

/-- `remove_client`: the descriptor is closed if it has an entry, which is erased. -/
def removeClient (s : Epoll) (client_fd : ℕ) : Epoll :=
  match s.registry.clients.lookup client_fd with
  | none => s
  | some _ =>
    { s.closeDescriptor client_fd with registry := s.registry.removeClient client_fd }

/-- The next connection gets a descriptor and an entry, and is watched. -/
def addConnection (s : Epoll) (client_fd : ℕ) : Epoll :=
  { s with
    registry := s.registry.addClient client_fd
    fds := Function.update s.fds client_fd (some s.accepted)
    descriptor := Function.update s.descriptor s.accepted (some client_fd)
    accepted := s.accepted + 1 }

/-- `handle_new_connection`, once around its loop. -/
def acceptOne (s : Epoll) : AcceptResult → Option Epoll
  | .watched client_fd =>
    if s.accepted < s.connected ∧ s.fds client_fd = none then
      let t := s.addConnection client_fd
      -- What has come before the connection is added is told of too.
      some (if t.Pending (.conn s.accepted) then t.wakeConn s.accepted else t)
    else none
  | .unwatched _ =>
    if s.accepted < s.connected then some { s with accepted := s.accepted + 1 } else none
  | .failed => some s

/-- `handle_client_message`, from one `read` of `client_fd` to the next. -/
def readClient (s : Epoll) (source : Source) (client_fd : ℕ) (position : Position)
    (e : ReadEvent) : Option Epoll :=
  match s.fds client_fd with
  -- The number is no open descriptor: `read` fails.
  | none => if e = .closed then some { s.removeClient client_fd with control := .loop } else none
  | some c =>
    match e with
    | .wakeup => none
    | .closed =>
      if s.inbox c = [] ∧ s.peer c ≠ .connected then
        some { s.removeClient client_fd with control := .loop }
      else none
    | .again | .data _ =>
      if e = .again ∧ ¬ (s.inbox c = [] ∧ s.peer c = .connected) then none
      else (Reader.step client_fd ⟨s.registry, some position, s.inbox c⟩ e).map fun r =>
        { s with
          registry := r.2.registry
          inbox := Function.update s.inbox c r.2.pending
          control := match r.2.position with
            | none => .loop
            | some position => .reading source client_fd position }

/-- The loop over the events of a batch. -/
def handleNext (s : Epoll) : Option Epoll :=
  match s.watch.reported with
  | [] => none
  | (source, report) :: _ =>
    let t := { s with watch := s.watch.tail }
    match report.fd with
    | none => some { t with control := .accepting }
    | some client_fd =>
      if report.err ∨ report.hup ∨ ¬ report.inp then some (t.removeClient client_fd)
      else some { t with control := .reading source client_fd .header }

/-- One step. -/
def step (s : Epoll) : EpollLabel → Option (Unit × Epoll)
  | .connect =>
    some ((), { s with connected := s.connected + 1, watch := s.watch.wake .listen })
  | .arrive c bytes =>
    if c < s.connected ∧ s.peer c = .connected ∧ bytes ≠ [] then
      some ((), { s with
        sent := Function.update s.sent c (s.sent c ++ bytes)
        inbox := Function.update s.inbox c (s.inbox c ++ bytes) }.wakeConn c)
    else none
  | .hangup c reset =>
    if c < s.connected ∧ s.peer c = .connected then
      some ((), { s with peer := Function.update s.peer c (.closed reset) }.wakeConn c)
    else none
  | .wait =>
    if s.control = .loop ∧ s.watch.reported = [] then
      some ((), { s with watch := s.watch.report MAX_EVENTS s.flags })
    else none
  | .next => if s.control = .loop then s.handleNext.map fun t => ((), t) else none
  | .acceptAgain =>
    if s.control = .accepting ∧ s.accepted = s.connected then
      some ((), { s with control := .loop })
    else none
  | .accept result =>
    if s.control = .accepting then (s.acceptOne result).map fun t => ((), t) else none
  | .read e =>
    match s.control with
    | .reading source client_fd position =>
      (s.readClient source client_fd position e).map fun t => ((), t)
    | _ => none

/-! ## What a step does -/

/-- The ways in which a step goes. -/
inductive Steps (s : Epoll) : EpollLabel → Epoll → Prop
  | connect : Steps s .connect { s with
      connected := s.connected + 1
      watch := s.watch.wake .listen }
  | arrive {c : ConnId} {bytes : Bytes} (hc : c < s.connected) (hpeer : s.peer c = .connected)
      (hbytes : bytes ≠ []) : Steps s (.arrive c bytes) ({ s with
        sent := Function.update s.sent c (s.sent c ++ bytes)
        inbox := Function.update s.inbox c (s.inbox c ++ bytes) }.wakeConn c)
  | hangup {c : ConnId} {reset : Bool} (hc : c < s.connected) (hpeer : s.peer c = .connected) :
      Steps s (.hangup c reset)
        ({ s with peer := Function.update s.peer c (.closed reset) }.wakeConn c)
  | wait (hcontrol : s.control = .loop) (hreported : s.watch.reported = []) :
      Steps s .wait { s with watch := s.watch.report MAX_EVENTS s.flags }
  | nextListen {source : Source} {report : EpollReport} {rs : List (Source × EpollReport)}
      (hcontrol : s.control = .loop) (hreported : s.watch.reported = (source, report) :: rs)
      (hfd : report.fd = none) :
      Steps s .next { s with watch := s.watch.tail, control := .accepting }
  | nextRemove {source : Source} {report : EpollReport} {rs : List (Source × EpollReport)}
      {client_fd : ℕ} (hcontrol : s.control = .loop)
      (hreported : s.watch.reported = (source, report) :: rs) (hfd : report.fd = some client_fd)
      (hflags : report.err ∨ report.hup ∨ ¬ report.inp) :
      Steps s .next ({ s with watch := s.watch.tail }.removeClient client_fd)
  | nextRead {source : Source} {report : EpollReport} {rs : List (Source × EpollReport)}
      {client_fd : ℕ} (hcontrol : s.control = .loop)
      (hreported : s.watch.reported = (source, report) :: rs) (hfd : report.fd = some client_fd)
      (hflags : ¬ (report.err ∨ report.hup ∨ ¬ report.inp)) :
      Steps s .next { s with
        watch := s.watch.tail
        control := .reading source client_fd .header }
  | acceptAgain (hcontrol : s.control = .accepting) (hnone : s.accepted = s.connected) :
      Steps s .acceptAgain { s with control := .loop }
  | accept {result : AcceptResult} {t : Epoll} (hcontrol : s.control = .accepting)
      (haccept : s.acceptOne result = some t) : Steps s (.accept result) t
  | readClosed {source : Source} {client_fd : ℕ} {position : Position}
      (hcontrol : s.control = .reading source client_fd position)
      (hclosed : ∀ c, s.fds client_fd = some c → s.inbox c = [] ∧ s.peer c ≠ .connected) :
      Steps s (.read .closed) { s.removeClient client_fd with control := .loop }
  | read {source : Source} {client_fd : ℕ} {position : Position} {c : ConnId} {e : ReadEvent}
      {r : Reader} (hcontrol : s.control = .reading source client_fd position)
      (hfd : s.fds client_fd = some c) (hclosed : e ≠ .closed)
      (hagain : e = .again → s.inbox c = [] ∧ s.peer c = .connected)
      (hread : Reader.step client_fd ⟨s.registry, some position, s.inbox c⟩ e = some ((), r)) :
      Steps s (.read e) { s with
        registry := r.registry
        inbox := Function.update s.inbox c r.pending
        control := match r.position with
          | none => .loop
          | some position => .reading source client_fd position }

/-- The loop over the events goes in one of three ways. -/
theorem steps_of_handleNext {s t : Epoll} (hcontrol : s.control = .loop)
    (h : s.handleNext = some t) : Steps s .next t := by
  unfold handleNext at h
  split at h
  next => cases h
  next source report rs hreported =>
    dsimp only at h
    split at h
    next hfd =>
      obtain rfl := Option.some.inj h
      exact .nextListen hcontrol hreported hfd
    next client_fd hfd =>
      split_ifs at h with hflags
      · obtain rfl := Option.some.inj h
        exact .nextRemove hcontrol hreported hfd hflags
      · obtain rfl := Option.some.inj h
        exact .nextRead hcontrol hreported hfd hflags

/-- So does a `read`. -/
theorem steps_of_readClient {s t : Epoll} {source : Source} {client_fd : ℕ} {position : Position}
    {e : ReadEvent} (hcontrol : s.control = .reading source client_fd position)
    (h : s.readClient source client_fd position e = some t) : Steps s (.read e) t := by
  unfold readClient at h
  split at h
  next hfd =>
    split_ifs at h with he
    obtain rfl := Option.some.inj h
    subst he
    refine .readClosed hcontrol fun c hc => ?_
    rw [hfd] at hc
    cases hc
  next c hfd =>
    split at h
    next => cases h
    next =>
      split_ifs at h with hclosed
      obtain rfl := Option.some.inj h
      refine .readClosed hcontrol fun c' hc' => ?_
      obtain rfl := Option.some.inj (hfd.symm.trans hc')
      exact hclosed
    next =>
      split_ifs at h with hagain
      obtain ⟨⟨o, r⟩, hread, rfl⟩ := Option.map_eq_some_iff.1 h
      refine .read hcontrol hfd (by rintro ⟨⟩) (fun _ => ?_) hread
      by_contra hne
      exact hagain ⟨rfl, hne⟩
    next n =>
      rw [if_neg (by rintro ⟨⟨⟩, -⟩)] at h
      obtain ⟨⟨o, r⟩, hread, rfl⟩ := Option.map_eq_some_iff.1 h
      exact .read hcontrol hfd (by rintro ⟨⟩) (by rintro ⟨⟩) hread

/-- A step that is defined goes in one of these ways. -/
theorem steps_of_step {s t : Epoll} {e : EpollLabel} {o : Unit} (hstep : s.step e = some (o, t)) :
    Steps s e t := by
  cases e with
  | connect =>
    obtain rfl := (Prod.mk.inj (Option.some.inj hstep)).2
    exact .connect
  | arrive c bytes =>
    simp only [step] at hstep
    split_ifs at hstep with h
    obtain rfl := (Prod.mk.inj (Option.some.inj hstep)).2
    exact .arrive h.1 h.2.1 h.2.2
  | hangup c reset =>
    simp only [step] at hstep
    split_ifs at hstep with h
    obtain rfl := (Prod.mk.inj (Option.some.inj hstep)).2
    exact .hangup h.1 h.2
  | wait =>
    simp only [step] at hstep
    split_ifs at hstep with h
    obtain rfl := (Prod.mk.inj (Option.some.inj hstep)).2
    exact .wait h.1 h.2
  | next =>
    simp only [step] at hstep
    split_ifs at hstep with h
    obtain ⟨t', ht', heq⟩ := Option.map_eq_some_iff.1 hstep
    obtain rfl := (Prod.mk.inj heq).2
    exact steps_of_handleNext h ht'
  | acceptAgain =>
    simp only [step] at hstep
    split_ifs at hstep with h
    obtain rfl := (Prod.mk.inj (Option.some.inj hstep)).2
    exact .acceptAgain h.1 h.2
  | accept result =>
    simp only [step] at hstep
    split_ifs at hstep with h
    obtain ⟨t', ht', heq⟩ := Option.map_eq_some_iff.1 hstep
    obtain rfl := (Prod.mk.inj heq).2
    exact .accept h ht'
  | read e =>
    simp only [step] at hstep
    split at hstep
    next source client_fd position hcontrol =>
      obtain ⟨t', ht', heq⟩ := Option.map_eq_some_iff.1 hstep
      obtain rfl := (Prod.mk.inj heq).2
      exact steps_of_readClient hcontrol ht'
    next => cases hstep

end Epoll

end MemoryGovernor
