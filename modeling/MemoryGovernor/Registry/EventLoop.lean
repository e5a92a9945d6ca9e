import Mathlib.Data.List.Sort
import MemoryGovernor.Lib.Machine
import MemoryGovernor.Registry.ClientRegistry
import MemoryGovernor.System.Link

/-!
# The event loop of the registry

`run_event_loop` of `src/governor/client_registry.cpp` with the handlers that it calls. A label of
the machine is one batch of `epoll_wait`, whose events are handled in order, and the label also says
what the calls of `accept` and `read` made by the handlers return. Which batches there are is left
open: a batch may name a descriptor that an event before it has closed, or closed and accepted
again.

A client is known by its descriptor only, and descriptors are reused. The machine therefore keeps
what the kernel knows, which connection each open descriptor is, and the messages that were read
from each connection. `Agrees` says that the table is exactly that, an entry for each open
descriptor made of its connection's messages. Every handler keeps it (`preserves_agrees`), so every
run does, and the two queries follow by counting the entries (`run_agrees`).
-/

namespace MemoryGovernor

open ClientRegistry (replay replay_concat toldSize replay_current_size record)

namespace ClientRegistry

/-- `get_client_count`. -/
def getClientCount (r : ClientRegistry) : ℕ := r.clients.entries.length

/-- `get_total_cache_size`, in the unsigned arithmetic of the source. -/
def getTotalCacheSize (r : ClientRegistry) : UInt64 :=
  r.clients.entries.foldl (fun total e => total + e.2.current_size_bytes) 0

/-- The total is the sum of the recorded sizes, modulo the range of the type. -/
theorem getTotalCacheSize_toNat (r : ClientRegistry) : r.getTotalCacheSize.toNat =
    (r.clients.entries.map fun e => e.2.current_size_bytes.toNat).sum % 2^64 := by
  have hfold : ∀ (l : List (Σ _ : ℕ, ClientInfo)) (total : UInt64),
      (l.foldl (fun total e => total + e.2.current_size_bytes) total).toNat =
        (total.toNat + (l.map fun e => e.2.current_size_bytes.toNat).sum) % 2^64 := by
    intro l
    induction l with
    | nil =>
      intro total
      have hlt := total.toNat_lt
      simp only [List.foldl_nil, List.map_nil, List.sum_nil, add_zero]
      omega
    | cons e l ih =>
      intro total
      rw [List.foldl_cons, ih, List.map_cons, List.sum_cons, UInt64.toNat_add]
      omega
  rw [getTotalCacheSize, hfold, UInt64.toNat_zero, Nat.zero_add]

end ClientRegistry

/-- The registry's state as its event loop sees it. -/
structure EventLoop where
  registry : ClientRegistry
  /-- The kernel's table: which connection each open descriptor of a client is. -/
  fds : ℕ → Option ConnId
  /-- The messages read from each connection so far, and handled. -/
  processed : ConnId → List Message
  /-- The number of connections accepted so far. -/
  accepted : ConnId

/-- What one call of `accept` comes to. The loop ends when there is nothing to accept. -/
inductive AcceptResult
  /-- A connection, which `epoll_ctl` adds. -/
  | watched (client_fd : ℕ)
  /-- A connection that `epoll_ctl` fails to add. -/
  | unwatched (client_fd : ℕ)
  /-- Any other error. -/
  | failed
deriving DecidableEq, Repr

/-- How the calls of `read` of one `handle_client_message` end. -/
inductive ReadEnd
  /-- Nothing more to read for now. -/
  | again
  /-- The peer has closed, or an error. -/
  | closed
deriving DecidableEq, Repr

/-- An event of a batch, with what its handler's system calls return. -/
inductive EpollEvent
  /-- The listening socket. -/
  | listen (results : List AcceptResult)
  /-- A client's descriptor, with `EPOLLERR`, `EPOLLHUP` and `EPOLLIN`, and the whole messages that
  the handler reads if it gets to reading. -/
  | client (client_fd : ℕ) (err hup inp : Bool) (msgs : List Message) (ending : ReadEnd)
deriving DecidableEq, Repr

namespace EventLoop

/-- Before the first batch. -/
def init : EventLoop := ⟨{}, fun _ => none, fun _ => [], 0⟩

/-- `handle_new_connection`, once around its loop. The kernel never gives a descriptor that is
open. -/
def acceptOne (s : EventLoop) : AcceptResult → Option EventLoop
  | .watched client_fd =>
    if s.fds client_fd = none then some { s with
      registry := s.registry.addClient client_fd
      fds := Function.update s.fds client_fd (some s.accepted)
      accepted := s.accepted + 1 }
    else none
  | .unwatched client_fd =>
    -- The descriptor is closed again before anything is recorded.
    if s.fds client_fd = none then some { s with accepted := s.accepted + 1 } else none
  | .failed => some s

/-- `handle_new_connection`. -/
def handleNewConnection (s : EventLoop) (results : List AcceptResult) : Option EventLoop :=
  results.foldlM acceptOne s

/-- `remove_client`: the descriptor is closed if it has an entry, which is erased. -/
def removeClient (s : EventLoop) (client_fd : ℕ) : EventLoop :=
  match s.registry.clients.lookup client_fd with
  | none => s
  | some _ => { s with
      registry := s.registry.removeClient client_fd
      fds := Function.update s.fds client_fd none }

/-- `handle_client_message` with one message that it has read from connection `c`. -/
def processMessage (client_fd : ℕ) (c : ConnId) (s : EventLoop) (msg : Message) : EventLoop :=
  { s with
    registry := s.registry.handleMessage client_fd msg
    processed := Function.update s.processed c (s.processed c ++ [msg]) }

/-- `handle_client_message`, where `msgs` are the messages waiting and `ending` is what comes after
them. -/
def handleClientMessage (s : EventLoop) (client_fd : ℕ) (msgs : List Message) (ending : ReadEnd) :
    EventLoop :=
  match s.fds client_fd with
  -- The first read fails on a descriptor that is closed.
  | none => s.removeClient client_fd
  | some c =>
    let s := msgs.foldl (processMessage client_fd c) s
    match ending with
    | .again => s
    | .closed => s.removeClient client_fd

/-- One event of a batch. -/
def handleEvent (s : EventLoop) : EpollEvent → Option EventLoop
  | .listen results => s.handleNewConnection results
  | .client client_fd err hup inp msgs ending =>
    if err ∨ hup ∨ ¬ inp then some (s.removeClient client_fd)
    else some (s.handleClientMessage client_fd msgs ending)

/-- One batch. -/
def step (s : EventLoop) (batch : List EpollEvent) : Option (Unit × EventLoop) :=
  (batch.foldlM handleEvent s).map fun s => ((), s)

/-- The connection is accepted and not removed. -/
def Live (s : EventLoop) (c : ConnId) : Prop := ∃ fd, s.fds fd = some c

/-! ## What handlers preserve -/

/-- The messages that an event's handler may read. -/
def eventMessages : EpollEvent → List Message
  | .listen _ => []
  | .client _ _ _ _ msgs _ => msgs

/-- What the handlers do to the state keeps `I`, where the messages that are read meet `M`. -/
structure Preserves (I : EventLoop → Prop) (M : Message → Prop) : Prop where
  /-- One call of `accept` keeps it. -/
  acceptOne : ∀ {s t : EventLoop} {result : AcceptResult}, I s → s.acceptOne result = some t → I t
  /-- So does the removal of a client. -/
  removeClient : ∀ {s : EventLoop} (client_fd : ℕ), I s → I (s.removeClient client_fd)
  /-- So does a message, of the connection that its descriptor is. -/
  processMessage : ∀ {s : EventLoop} {client_fd : ℕ} {c : ConnId} {msg : Message},
    s.fds client_fd = some c → M msg → I s → I (EventLoop.processMessage client_fd c s msg)

section Preserves

variable {I : EventLoop → Prop} {M : Message → Prop} {s t : EventLoop} {msgs : List Message}

/-- The messages of one connection, one after another. -/
theorem Preserves.processMessages (h : Preserves I M) {client_fd : ℕ} {c : ConnId}
    (hfd : s.fds client_fd = some c) (hmsgs : ∀ msg ∈ msgs, M msg) (hs : I s) :
    I (msgs.foldl (EventLoop.processMessage client_fd c) s) := by
  induction msgs generalizing s with
  | nil => exact hs
  | cons msg msgs ih =>
    obtain ⟨hmsg, hmsgs⟩ := List.forall_mem_cons.1 hmsgs
    rw [List.foldl_cons]
    exact ih hfd hmsgs (h.processMessage hfd hmsg hs)

/-- Reading a client. -/
theorem Preserves.handleClientMessage (h : Preserves I M) (client_fd : ℕ)
    (hmsgs : ∀ msg ∈ msgs, M msg) (ending : ReadEnd) (hs : I s) :
    I (s.handleClientMessage client_fd msgs ending) := by
  unfold EventLoop.handleClientMessage
  cases hfd : s.fds client_fd with
  | none => exact h.removeClient client_fd hs
  | some c =>
    have hread := h.processMessages hfd hmsgs hs
    cases ending with
    | again => exact hread
    | closed => exact h.removeClient client_fd hread

/-- One event. -/
theorem Preserves.handleEvent (h : Preserves I M) {e : EpollEvent}
    (he : ∀ msg ∈ eventMessages e, M msg) (hs : I s) (hstep : s.handleEvent e = some t) : I t := by
  cases e with
  | listen results =>
    exact Machine.foldlM_invariant (fun _ _ _ hs hstep => h.acceptOne hs hstep) hs hstep
  | client client_fd err hup inp msgs ending =>
    simp only [EventLoop.handleEvent] at hstep
    split_ifs at hstep with hflags
    · obtain rfl := Option.some.inj hstep
      exact h.removeClient client_fd hs
    · obtain rfl := Option.some.inj hstep
      exact h.handleClientMessage client_fd he ending hs

/-- One batch. -/
theorem Preserves.step (h : Preserves I M) {batch : List EpollEvent} {o : Unit}
    (hbatch : ∀ e ∈ batch, ∀ msg ∈ eventMessages e, M msg) (hs : I s)
    (hstep : s.step batch = some (o, t)) : I t := by
  obtain ⟨s', hfold, heq⟩ := Option.map_eq_some_iff.1 hstep
  obtain ⟨-, rfl⟩ := Prod.mk.inj heq
  exact Machine.foldlM_invariant_of_mem (fun _ _ _ hs he hstep => h.handleEvent he hs hstep) hs
    hbatch hfold

end Preserves

/-! ## The table and the connections -/

/-- The invariant. -/
structure Agrees (s : EventLoop) : Prop where
  /-- The entries are those of the open descriptors, made of their connections' messages. -/
  entry : ∀ fd, s.registry.clients.lookup fd = (s.fds fd).map fun c => replay fd (s.processed c)
  /-- Two descriptors are two connections. -/
  fd_inj : ∀ fd fd' c, s.fds fd = some c → s.fds fd' = some c → fd = fd'
  fd_lt : ∀ fd c, s.fds fd = some c → c < s.accepted
  /-- Nothing was read from a connection that is still to come. -/
  unread : ∀ c, s.accepted ≤ c → s.processed c = []

section Handlers

variable {s t : EventLoop} {client_fd : ℕ}

/-- At the start there are no entries and no connections. -/
theorem agrees_init : Agrees init :=
  ⟨fun _ => rfl, fun _ _ _ h => (nomatch h), fun _ _ h => (nomatch h), fun _ _ => rfl⟩

/-- A connection that is accepted gets a new entry: nothing was read from it. -/
theorem agrees_watched (h : Agrees s) : Agrees { s with
    registry := s.registry.addClient client_fd
    fds := Function.update s.fds client_fd (some s.accepted)
    accepted := s.accepted + 1 } := by
  have hne : ∀ fd c, s.fds fd = some c → c ≠ s.accepted := fun fd c hfd => (h.fd_lt fd c hfd).ne
  refine ⟨fun fd => ?_, fun fd fd' c hfd hfd' => ?_, fun fd c hfd => ?_, fun c hc => ?_⟩
  · simp only [ClientRegistry.lookup_addClient]
    by_cases heq : fd = client_fd
    · rw [heq, Function.update_self, if_pos rfl, Option.map_some, h.unread _ le_rfl]
    · rw [Function.update_of_ne heq, if_neg heq, h.entry fd]
  · simp only [Function.update_apply] at hfd hfd'
    split_ifs at hfd hfd' with h₁ h₂ h₂
    · rw [h₁, h₂]
    · exact absurd (Option.some.inj hfd).symm (hne fd' c hfd')
    · exact absurd (Option.some.inj hfd').symm (hne fd c hfd)
    · exact h.fd_inj fd fd' c hfd hfd'
  · simp only [Function.update_apply] at hfd
    split_ifs at hfd with h₁
    · exact (Option.some.inj hfd) ▸ Nat.lt_succ_self _
    · exact Nat.lt_succ_of_lt (h.fd_lt fd c hfd)
  · exact h.unread c (Nat.le_of_succ_le hc)

/-- What one call of `accept` keeps. -/
theorem agrees_acceptOne (h : Agrees s) {result : AcceptResult}
    (hstep : s.acceptOne result = some t) : Agrees t := by
  cases result with
  | watched client_fd =>
    simp only [acceptOne] at hstep
    split_ifs at hstep
    obtain rfl := Option.some.inj hstep
    exact agrees_watched h
  | unwatched client_fd =>
    simp only [acceptOne] at hstep
    split_ifs at hstep
    obtain rfl := Option.some.inj hstep
    exact ⟨h.entry, h.fd_inj, fun fd c hfd => Nat.lt_succ_of_lt (h.fd_lt fd c hfd),
      fun c hc => h.unread c (Nat.le_of_succ_le hc)⟩
  | failed =>
    obtain rfl := Option.some.inj hstep
    exact h

/-- A removed client leaves neither entry nor descriptor. -/
theorem agrees_removeClient (h : Agrees s) (client_fd : ℕ) : Agrees (s.removeClient client_fd) := by
  unfold removeClient
  cases hlook : s.registry.clients.lookup client_fd with
  | none => exact h
  | some info =>
    refine ⟨fun fd => ?_, fun fd fd' c hfd hfd' => ?_, fun fd c hfd => ?_, h.unread⟩
    · simp only [ClientRegistry.lookup_removeClient]
      by_cases heq : fd = client_fd
      · rw [heq, Function.update_self, if_pos rfl, Option.map_none]
      · rw [Function.update_of_ne heq, if_neg heq, h.entry fd]
    · simp only [Function.update_apply] at hfd hfd'
      split_ifs at hfd hfd' with h₁ h₂
      exact h.fd_inj fd fd' c hfd hfd'
    · simp only [Function.update_apply] at hfd
      split_ifs at hfd with h₁
      exact h.fd_lt fd c hfd

/-- A message goes to its connection's entry. -/
theorem agrees_processMessage (h : Agrees s) {c : ConnId} (hfd : s.fds client_fd = some c)
    (msg : Message) : Agrees (processMessage client_fd c s msg) := by
  refine ⟨fun fd => ?_, h.fd_inj, h.fd_lt, fun c' hc' => ?_⟩
  · simp only [processMessage, ClientRegistry.lookup_handleMessage]
    by_cases heq : fd = client_fd
    · rw [if_pos heq, h.entry fd, heq, hfd, Option.map_some, Option.map_some, Option.map_some,
        Function.update_self, replay_concat]
    · -- Another descriptor is another connection.
      rw [if_neg heq, h.entry fd]
      refine Option.map_congr fun c' hc' => ?_
      have hne : c' ≠ c := fun hcc => heq (h.fd_inj fd client_fd c (hcc ▸ hc') hfd)
      rw [Function.update_of_ne hne]
  · have hne : c' ≠ c := fun hcc => absurd (h.fd_lt client_fd c hfd) (hcc ▸ not_lt.2 hc')
    exact (Function.update_of_ne hne _ _).trans (h.unread c' hc')

/-- The messages of one connection change the entry of no other descriptor, and no descriptor. -/
theorem processMessages_frame (c : ConnId) (msgs : List Message) (s : EventLoop) :
    (msgs.foldl (processMessage client_fd c) s).fds = s.fds ∧
      ∀ fd, fd ≠ client_fd →
        (msgs.foldl (processMessage client_fd c) s).registry.clients.lookup fd =
          s.registry.clients.lookup fd := by
  induction msgs generalizing s with
  | nil => exact ⟨rfl, fun _ _ => rfl⟩
  | cons msg msgs ih =>
    obtain ⟨hfds, hlook⟩ := ih (processMessage client_fd c s msg)
    rw [List.foldl_cons]
    refine ⟨hfds, fun fd hne => ?_⟩
    rw [hlook fd hne, processMessage, ClientRegistry.lookup_handleMessage, if_neg hne]

/-- Every handler keeps it. -/
theorem preserves_agrees : Preserves Agrees fun _ => True where
  acceptOne h hstep := agrees_acceptOne h hstep
  removeClient client_fd h := agrees_removeClient h client_fd
  processMessage hfd _ h := agrees_processMessage h hfd _

/-- What one batch keeps. -/
theorem agrees_step (h : Agrees s) {batch : List EpollEvent} {o : Unit}
    (hstep : s.step batch = some (o, t)) : Agrees t :=
  preserves_agrees.step (fun _ _ _ _ => trivial) h hstep

/-- Removing a client leaves the other entries alone. -/
theorem lookup_removeClient_of_ne {fd : ℕ} (hne : fd ≠ client_fd) (s : EventLoop) :
    (s.removeClient client_fd).registry.clients.lookup fd = s.registry.clients.lookup fd := by
  unfold removeClient
  cases s.registry.clients.lookup client_fd with
  | none => rfl
  | some info => rw [ClientRegistry.lookup_removeClient, if_neg hne]

/-- Reading one descriptor leaves the entries of the others alone. -/
theorem lookup_handleClientMessage_of_ne {fd : ℕ} (hne : fd ≠ client_fd) (s : EventLoop)
    (msgs : List Message) (ending : ReadEnd) :
    (s.handleClientMessage client_fd msgs ending).registry.clients.lookup fd =
      s.registry.clients.lookup fd := by
  unfold handleClientMessage
  cases hfd : s.fds client_fd with
  | none => exact lookup_removeClient_of_ne hne s
  | some c =>
    have hread := (processMessages_frame c msgs s).2 fd hne
    cases ending with
    | again => exact hread
    | closed => exact (lookup_removeClient_of_ne hne _).trans hread

end Handlers

/-! ## The queries -/

/-- The entries of the table, one by one, are those of the live connections. -/
theorem exists_conns {s : EventLoop} (h : Agrees s) : ∃ conns : List ConnId, conns.Nodup ∧
    (∀ c, c ∈ conns ↔ s.Live c) ∧
    s.registry.clients.entries.map (fun e => e.2.current_size_bytes) =
      conns.map fun c => toldSize (s.processed c) := by
  have hentry : ∀ e ∈ s.registry.clients.entries,
      ∃ c, s.fds e.1 = some c ∧ e.2 = replay e.1 (s.processed c) := fun e he => by
    have hlook := AList.mem_lookup_iff.2 (show ⟨e.1, e.2⟩ ∈ s.registry.clients.entries from he)
    rw [Option.mem_def, h.entry, Option.map_eq_some_iff] at hlook
    obtain ⟨c, hc, heq⟩ := hlook
    exact ⟨c, hc, heq.symm⟩
  obtain ⟨conns, hconns⟩ := ClientRegistry.exists_mapM (f := fun e => s.fds e.1)
    fun e he => (hentry e he).imp fun c hc => hc.1
  have hmap := ClientRegistry.mapM_eq_some_iff.1 hconns
  refine ⟨conns, ?_, fun c => ?_, ?_⟩
  · -- No two keys are one descriptor, and no two descriptors one connection.
    refine List.Nodup.of_map some (hmap ▸ ?_)
    have hkeys : (s.registry.clients.entries.map Sigma.fst).Nodup := s.registry.clients.keys_nodup
    refine List.Nodup.map_on (fun e he e' he' heq => ?_) (List.Nodup.of_map _ hkeys)
    obtain ⟨c, hc, -⟩ := hentry e he
    have hfst : e.1 = e'.1 := h.fd_inj _ _ c hc (heq ▸ hc)
    exact List.inj_on_of_nodup_map hkeys he he' hfst
  · have hmem : c ∈ conns ↔ some c ∈ conns.map some := by simp
    rw [hmem, ← hmap, List.mem_map]
    constructor
    · rintro ⟨e, -, hc⟩
      exact ⟨e.1, hc⟩
    · rintro ⟨fd, hfd⟩
      have hlook : s.registry.clients.lookup fd = some (replay fd (s.processed c)) := by
        rw [h.entry, hfd, Option.map_some]
      exact ⟨⟨fd, _⟩, AList.mem_lookup_iff.1 hlook, hfd⟩
  · apply (Option.some_injective UInt64).list_map
    have hsizes := congrArg (List.map (Option.map fun c => toldSize (s.processed c))) hmap
    simp only [List.map_map] at hsizes ⊢
    refine Eq.trans (List.map_congr_left fun e he => ?_) hsizes
    obtain ⟨c, hc, heq⟩ := hentry e he
    simp only [Function.comp_apply, hc, Option.map_some, heq, replay_current_size]

/-- Every run of the event loop, over any batches. The table has an entry for a descriptor exactly
when the descriptor is an accepted connection that was not removed, the entry is made of the
messages read from that connection, and its size is the one told last there. Each such connection
has one descriptor, `get_client_count` is their number and `get_total_cache_size` the sum of these
sizes, modulo `2^64`. Reading one descriptor changes no other's entry. -/
theorem run_agrees {batches : List (List EpollEvent)} {outs : List Unit} {s : EventLoop}
    (hrun : Machine.run step init batches = some (outs, s)) :
    (∀ fd info, s.registry.clients.lookup fd = some info ↔ ∃ c, s.fds fd = some c ∧
      info = replay fd (s.processed c) ∧ info.current_size_bytes = toldSize (s.processed c)) ∧
    (∃ conns : List ConnId, conns.Nodup ∧ (∀ c, c ∈ conns ↔ s.Live c) ∧
      (∀ c ∈ conns, ∃! fd, s.fds fd = some c) ∧
      s.registry.getClientCount = conns.length ∧
      s.registry.getTotalCacheSize.toNat =
        (conns.map fun c => (toldSize (s.processed c)).toNat).sum % 2^64) ∧
    ∀ client_fd msgs ending fd, fd ≠ client_fd →
      (s.handleClientMessage client_fd msgs ending).registry.clients.lookup fd =
        s.registry.clients.lookup fd := by
  have h : Agrees s := Machine.run_invariant (fun _ _ _ _ h hstep => agrees_step h hstep)
    agrees_init hrun
  obtain ⟨conns, hnodup, hlive, hsizes⟩ := exists_conns h
  refine ⟨fun fd info => ?_, ⟨conns, hnodup, hlive, fun c hc => ?_, ?_, ?_⟩,
    fun client_fd msgs ending fd hne => lookup_handleClientMessage_of_ne hne s msgs ending⟩
  · rw [h.entry, Option.map_eq_some_iff]
    constructor
    · rintro ⟨c, hc, rfl⟩
      exact ⟨c, hc, rfl, replay_current_size fd _⟩
    · rintro ⟨c, hc, rfl, -⟩
      exact ⟨c, hc, rfl⟩
  · obtain ⟨fd, hfd⟩ := (hlive c).1 hc
    exact ⟨fd, hfd, fun fd' hfd' => h.fd_inj fd' fd c hfd' hfd⟩
  · simpa [ClientRegistry.getClientCount] using congrArg List.length hsizes
  · rw [ClientRegistry.getTotalCacheSize_toNat]
    have hnat := congrArg (List.map UInt64.toNat) hsizes
    simp only [List.map_map] at hnat
    exact congrArg (fun l : List ℕ => l.sum % 2^64) hnat

/-- Descriptor 5 is accepted and registers 700 bytes. In the third batch it closes and is accepted
again, beside descriptor 6, which reports 300 bytes later. -/
def reuseBatches : List (List EpollEvent) :=
  [[.listen [.watched 5]],
    [.client 5 false false true
      [{ type := .REGISTER, pid := 1, current_size_bytes := 700 }] .again],
    [.client 5 false false true [] .closed, .listen [.failed, .watched 5, .watched 6]],
    [.client 6 false false true [{ type := .REPORT_SIZE, current_size_bytes := 300 }] .again]]

/-- The entry of the new connection at descriptor 5 starts at 0. -/
theorem run_agrees_reused :
    let s := Machine.last step init reuseBatches
    (∃ outs, Machine.run step init reuseBatches = some (outs, s)) ∧
      s.registry.clients.lookup 5 = some ⟨5, 0, 0, 0⟩ ∧ s.registry.getTotalCacheSize = 300 ∧
      ∃ conns : List ConnId, conns.Nodup ∧ (∀ c, c ∈ conns ↔ s.Live c) ∧
        s.registry.getClientCount = conns.length := by
  obtain ⟨outs, hrun⟩ : ∃ outs, Machine.run step init reuseBatches =
      some (outs, Machine.last step init reuseBatches) := Machine.exists_run_eq_last _ _ rfl
  obtain ⟨hentry, ⟨conns, hnodup, hlive, -, hcount, -⟩, -⟩ := run_agrees hrun
  exact ⟨⟨outs, hrun⟩, (hentry 5 _).2 ⟨1, rfl, rfl, rfl⟩, rfl, conns, hnodup, hlive, hcount⟩

end EventLoop

end MemoryGovernor
