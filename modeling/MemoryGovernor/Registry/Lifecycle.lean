import MemoryGovernor.Lib.Descriptors
import MemoryGovernor.Lib.Machine

/-!
# The life of the registry

`start`, `stop` and the destructor of `src/governor/client_registry.cpp`, and the steps of its
thread that open and close descriptors. What the thread reads from the clients is in
`Registry/Reader.lean`.

`start` sets `running_` first and gives up at the first system call that fails. It closes what it
has opened, but it does not clear the fields, so the object looks as if it ran: a later `start` does
nothing, and `stop`, which the destructor calls, closes the descriptors again. Where every `start`
succeeds, the descriptors of the object are those that are open (`Accounted`), and `stop` closes
each of them once. So the life of the object is in order exactly where no `start` fails
(`lifecycle_iff`).
-/

namespace MemoryGovernor

/-- `ClientRegistry`: its descriptors and its thread. -/
structure Lifecycle where
  running : Bool := false
  /-- `listen_fd_`, none where it is -1. -/
  listen_fd : Option ℕ := none
  /-- `epoll_fd_`, none where it is -1. -/
  epoll_fd : Option ℕ := none
  /-- `epoll_thread_` is joinable. -/
  joinable : Bool := false
  /-- The keys of `clients_`. -/
  clients : List ℕ := []
  table : Descriptors := {}
deriving DecidableEq

/-- What the system calls of a `start` return: a descriptor, or whether they succeed. -/
structure StartCalls where
  socket : Option ℕ
  bind : Bool
  listen : Bool
  epoll_create1 : Option ℕ
  epoll_ctl : Bool

/-- What happens next. -/
inductive LifecycleEvent
  | start (calls : StartCalls)
  | stop
  /-- The thread accepts a connection, and `epoll_ctl` succeeds or not. -/
  | accept (client_fd : ℕ) (epoll_ctl : Bool)
  /-- The thread removes a client. -/
  | remove (client_fd : ℕ)

namespace Lifecycle

/-- `start`, with the text of what it throws. -/
def start (s : Lifecycle) (calls : StartCalls) : Option (Option String × Lifecycle) :=
  if s.running then some (none, s)
  else
    let s := { s with running := true }
    match calls.socket with
    | none => some (some "Failed to create socket", { s with listen_fd := none })
    | some listen_fd => (s.table.create listen_fd).bind fun table =>
      let s := { s with listen_fd := some listen_fd, table := table }
      if ¬ calls.bind then
        some (some "Failed to bind socket", { s with table := s.table.close listen_fd })
      else if ¬ calls.listen then
        some (some "Failed to listen on socket", { s with table := s.table.close listen_fd })
      else match calls.epoll_create1 with
        | none => some (some "Failed to create epoll fd",
            { s with epoll_fd := none, table := s.table.close listen_fd })
        | some epoll_fd => (s.table.create epoll_fd).bind fun table =>
          let s := { s with epoll_fd := some epoll_fd, table := table }
          if ¬ calls.epoll_ctl then some (some "Failed to add listen fd to epoll",
            { s with table := (s.table.close listen_fd).close epoll_fd })
          else some (none, { s with joinable := true })

/-- `stop`, which is what the destructor does. -/
def stop (s : Lifecycle) : Lifecycle :=
  if s.running then
    { running := false
      listen_fd := none
      epoll_fd := none
      joinable := false
      clients := []
      table := ((s.table.closeIfSome s.listen_fd).closeIfSome s.epoll_fd).closeAll s.clients }
  else s

/-- The calls of the owner and the steps of the thread. A step gives what it throws. -/
def step (s : Lifecycle) : LifecycleEvent → Option (Option String × Lifecycle)
  | .start calls => s.start calls
  | .stop => some (none, s.stop)
  | .accept client_fd epoll_ctl =>
    if s.joinable then (s.table.create client_fd).map fun table =>
      (none, if epoll_ctl then { s with clients := s.clients.insert client_fd, table := table }
        else { s with table := table.close client_fd })
    else none
  | .remove client_fd =>
    if s.joinable then
      if client_fd ∈ s.clients then some (none,
        { s with clients := s.clients.erase client_fd, table := s.table.close client_fd })
      else some (none, s)
    else none

/-- None of the system calls fails. -/
def Succeed (calls : StartCalls) : Prop :=
  calls.socket ≠ none ∧ calls.bind ∧ calls.listen ∧ calls.epoll_create1 ≠ none ∧ calls.epoll_ctl

/-- A `start` of an object that is not running succeeds. -/
def Succeeds (s : Lifecycle) : LifecycleEvent → Prop
  | .start calls => s.running = false → Succeed calls
  | _ => True

/-- A step that throws leaves the object as it was. -/
def Atomic (s : Lifecycle) (e : LifecycleEvent) : Prop :=
  ∀ err t, step s e = some (some err, t) → { t with table := s.table } = s

instance (calls : StartCalls) : Decidable (Succeed calls) :=
  inferInstanceAs (Decidable (_ ∧ _ ∧ _ ∧ _ ∧ _))

instance (s : Lifecycle) : ∀ e, Decidable (Succeeds s e)
  | .start calls => inferInstanceAs (Decidable (s.running = false → Succeed calls))
  | .stop | .accept _ _ | .remove _ => isTrue trivial

section Runs

variable {s t : Lifecycle} {calls : StartCalls} {e : LifecycleEvent} {o : Option String}

/-- A `start` of an object that is not running succeeds and opens two descriptors, or it throws and
sets `running_` all the same. -/
theorem start_cases (hidle : s.running = false) (h : s.start calls = some (o, t)) :
    (Succeed calls ∧ o = none ∧ ∃ listen_fd epoll_fd,
      listen_fd ∉ s.table.opened ∧ epoll_fd ∉ insert listen_fd s.table.opened ∧
      t = { s with
        running := true
        listen_fd := some listen_fd
        epoll_fd := some epoll_fd
        joinable := true
        table := { s.table with opened := insert epoll_fd (insert listen_fd s.table.opened) } }) ∨
    (¬ Succeed calls ∧ (∃ err, o = some err) ∧ t.running = true) := by
  rw [start, if_neg (by rw [hidle]; exact Bool.false_ne_true)] at h
  cases hsocket : calls.socket with
  | none =>
    simp only [hsocket] at h
    obtain ⟨rfl, rfl⟩ := Prod.mk.inj (Option.some.inj h)
    exact .inr ⟨fun hs => hs.1 hsocket, ⟨_, rfl⟩, rfl⟩
  | some listen_fd =>
    simp only [hsocket] at h
    obtain ⟨table, hcreate, h⟩ := Option.bind_eq_some_iff.1 h
    obtain ⟨hlisten_fd, rfl⟩ := Descriptors.create_eq_some.1 hcreate
    by_cases hbind : calls.bind = true
    swap
    · rw [if_pos hbind] at h
      obtain ⟨rfl, rfl⟩ := Prod.mk.inj (Option.some.inj h)
      exact .inr ⟨fun hs => hbind hs.2.1, ⟨_, rfl⟩, rfl⟩
    by_cases hlisten : calls.listen = true
    swap
    · rw [if_neg (not_not.2 hbind), if_pos hlisten] at h
      obtain ⟨rfl, rfl⟩ := Prod.mk.inj (Option.some.inj h)
      exact .inr ⟨fun hs => hlisten hs.2.2.1, ⟨_, rfl⟩, rfl⟩
    rw [if_neg (not_not.2 hbind), if_neg (not_not.2 hlisten)] at h
    cases hepoll : calls.epoll_create1 with
    | none =>
      simp only [hepoll] at h
      obtain ⟨rfl, rfl⟩ := Prod.mk.inj (Option.some.inj h)
      exact .inr ⟨fun hs => hs.2.2.2.1 hepoll, ⟨_, rfl⟩, rfl⟩
    | some epoll_fd =>
      simp only [hepoll] at h
      obtain ⟨table, hcreate, h⟩ := Option.bind_eq_some_iff.1 h
      obtain ⟨hepoll_fd, rfl⟩ := Descriptors.create_eq_some.1 hcreate
      by_cases hctl : calls.epoll_ctl = true
      · rw [if_neg (not_not.2 hctl)] at h
        obtain ⟨rfl, rfl⟩ := Prod.mk.inj (Option.some.inj h)
        refine .inl ⟨⟨?_, hbind, hlisten, ?_, hctl⟩, rfl, listen_fd, epoll_fd, hlisten_fd,
          hepoll_fd, rfl⟩
        · rw [hsocket]
          exact Option.some_ne_none _
        · rw [hepoll]
          exact Option.some_ne_none _
      · rw [if_pos hctl] at h
        obtain ⟨rfl, rfl⟩ := Prod.mk.inj (Option.some.inj h)
        exact .inr ⟨fun hs => hctl hs.2.2.2.2, ⟨_, rfl⟩, rfl⟩

/-- A step that throws leaves the object alone exactly if it is no failing `start`, which always
sets `running_`. -/
theorem atomic_iff (hstep : step s e = some (o, t)) : Atomic s e ↔ Succeeds s e := by
  cases e with
  | start calls =>
    cases hrunning : s.running with
    | true =>
      -- It returns at once.
      refine iff_of_true (fun err t' hthrows => ?_) fun hidle => ?_
      · rw [step, start, if_pos hrunning] at hthrows
        cases hthrows
      · rw [hrunning] at hidle
        cases hidle
    | false =>
      rcases start_cases hrunning hstep with ⟨hsucceed, rfl, -⟩ | ⟨hfail, ⟨err, rfl⟩, ht⟩
      · refine iff_of_true (fun err t' hthrows => ?_) fun _ => hsucceed
        cases hstep.symm.trans hthrows
      · refine iff_of_false (fun hatomic => ?_) fun hsucceeds => hfail (hsucceeds hrunning)
        have hsame := congrArg running (hatomic err t hstep)
        rw [hrunning] at hsame
        exact Bool.false_ne_true (hsame.symm.trans ht)
  | stop =>
    refine iff_of_true (fun err t' hthrows => ?_) trivial
    cases hthrows
  | accept client_fd epoll_ctl =>
    refine iff_of_true (fun err t' hthrows => ?_) trivial
    simp only [step, Option.ite_none_right_eq_some] at hthrows
    obtain ⟨table, -, heq⟩ := Option.map_eq_some_iff.1 hthrows.2
    cases (Prod.mk.inj heq).1
  | remove client_fd =>
    refine iff_of_true (fun err t' hthrows => ?_) trivial
    simp only [step, Option.ite_none_right_eq_some] at hthrows
    obtain ⟨-, hthrows⟩ := hthrows
    split_ifs at hthrows
    all_goals cases (Prod.mk.inj (Option.some.inj hthrows)).1

/-- The descriptors that the object records. -/
def descriptors (s : Lifecycle) : List ℕ := s.listen_fd.toList ++ (s.epoll_fd.toList ++ s.clients)

/-- The object records every descriptor that is open, and no other, each once, and it has closed
nothing else. Where it does not run it records none. -/
structure Accounted (s : Lifecycle) : Prop where
  nodup : s.descriptors.Nodup
  opened_eq : s.table.opened = s.descriptors.toFinset
  stray_eq : s.table.stray = 0
  idle : s.running = false → s.descriptors = [] ∧ s.joinable = false

/-- `stop` closes the descriptors that the object records. -/
theorem stop_table (s : Lifecycle) :
    s.stop.table = if s.running then s.table.closeAll s.descriptors else s.table := by
  unfold stop descriptors
  split_ifs
  · cases s.listen_fd <;> cases s.epoll_fd <;> rfl
  · rfl

/-- After it everything is closed. -/
theorem Accounted.stop (h : s.Accounted) : s.stop.Accounted ∧ s.stop.table = {} := by
  have htable : s.stop.table = {} := by
    rw [stop_table]
    split_ifs with hrunning
    · have hmem : ∀ fd ∈ s.descriptors, fd ∈ s.table.opened := fun fd hfd => by
        rw [h.opened_eq]
        exact List.mem_toFinset.2 hfd
      rw [Descriptors.closeAll_of_subset h.nodup hmem, h.stray_eq, h.opened_eq, Finset.sdiff_self]
    · have hnil := (h.idle (Bool.eq_false_iff.2 hrunning)).1
      have hopened := h.opened_eq
      rw [hnil, List.toFinset_nil] at hopened
      exact Descriptors.ext hopened h.stray_eq
  refine ⟨?_, htable⟩
  have hdescriptors : s.stop.descriptors = [] ∧ s.stop.joinable = false := by
    by_cases hrunning : s.running = true
    · rw [Lifecycle.stop, if_pos hrunning]
      exact ⟨rfl, rfl⟩
    · rw [Lifecycle.stop, if_neg hrunning]
      exact h.idle (Bool.eq_false_iff.2 hrunning)
  refine ⟨?_, ?_, ?_, fun _ => hdescriptors⟩
  · rw [hdescriptors.1]
    exact List.nodup_nil
  · rw [hdescriptors.1, htable]
    rfl
  · rw [htable]

/-- A client more among the descriptors. -/
theorem descriptors_cons (s : Lifecycle) (table : Descriptors) (client_fd : ℕ) (clients : List ℕ) :
    ({ s with clients := client_fd :: clients, table := table } : Lifecycle).descriptors.Perm
      (client_fd :: ({ s with clients := clients, table := table } : Lifecycle).descriptors) := by
  unfold descriptors
  refine (List.Perm.append_left _ List.perm_middle).trans ?_
  exact List.perm_middle

/-- Where the thread runs, `running_` is set. -/
theorem Accounted.running (h : s.Accounted) (hjoinable : s.joinable = true) : s.running ≠ false :=
  fun hidle => Bool.false_ne_true ((h.idle hidle).2.symm.trans hjoinable)

/-- A `start` that succeeds records what it opens. -/
theorem Accounted.start (h : s.Accounted) (hidle : s.running = false) {listen_fd epoll_fd : ℕ}
    (hepoll : epoll_fd ∉ insert listen_fd s.table.opened) :
    Accounted { s with
      running := true
      listen_fd := some listen_fd
      epoll_fd := some epoll_fd
      joinable := true
      table := { s.table with opened := insert epoll_fd (insert listen_fd s.table.opened) } } := by
  -- Nothing was open before, so these two are all.
  have hnil := (h.idle hidle).1
  have hopened := h.opened_eq
  rw [hnil, List.toFinset_nil] at hopened
  have hclients : s.clients = [] :=
    (List.append_eq_nil_iff.1 (List.append_eq_nil_iff.1 hnil).2).2
  have hne : listen_fd ≠ epoll_fd := by
    rintro rfl
    exact hepoll (Finset.mem_insert_self _ _)
  refine ⟨?_, ?_, h.stray_eq, fun hfalse => (nomatch hfalse)⟩
  · simp [descriptors, hclients, hne]
  · simp [descriptors, hclients, hopened, Finset.pair_comm]

/-- A client that is accepted is recorded. -/
theorem Accounted.accept (h : s.Accounted) (hrunning : s.running ≠ false) {client_fd : ℕ}
    (hnew : client_fd ∉ s.table.opened) :
    Accounted { s with
      clients := s.clients.insert client_fd
      table := { s.table with opened := insert client_fd s.table.opened } } := by
  have hnotMem : client_fd ∉ s.descriptors := by
    rwa [h.opened_eq, List.mem_toFinset] at hnew
  have hclients : client_fd ∉ s.clients := fun hmem =>
    hnotMem (List.mem_append_right _ (List.mem_append_right _ hmem))
  rw [List.insert_of_not_mem hclients]
  have hperm := descriptors_cons s { s.table with opened := insert client_fd s.table.opened }
    client_fd s.clients
  refine ⟨hperm.nodup_iff.2 (List.nodup_cons.2 ⟨hnotMem, h.nodup⟩), ?_, h.stray_eq,
    fun hfalse => absurd hfalse hrunning⟩
  rw [List.toFinset_eq_of_perm _ _ hperm, List.toFinset_cons]
  exact congrArg (insert client_fd) h.opened_eq

/-- A client that is removed is recorded no longer. -/
theorem Accounted.remove (h : s.Accounted) (hrunning : s.running ≠ false) {client_fd : ℕ}
    (hmem : client_fd ∈ s.clients) :
    Accounted { s with
      clients := s.clients.erase client_fd
      table := s.table.close client_fd } := by
  have hperm : s.descriptors.Perm (client_fd :: descriptors
      { s with clients := s.clients.erase client_fd, table := s.table.close client_fd }) :=
    ((List.perm_cons_erase hmem).append_left _ |>.append_left _).trans
      (descriptors_cons s (s.table.close client_fd) client_fd _)
  obtain ⟨hnotMem, hnodup⟩ := List.nodup_cons.1 (hperm.nodup_iff.1 h.nodup)
  have hopened : s.table.opened = insert client_fd (List.toFinset (descriptors
      { s with clients := s.clients.erase client_fd, table := s.table.close client_fd })) := by
    rw [h.opened_eq, List.toFinset_eq_of_perm _ _ hperm, List.toFinset_cons]
  have hclose : s.table.close client_fd =
      { s.table with opened := s.table.opened.erase client_fd } :=
    Descriptors.close_of_mem (hopened ▸ Finset.mem_insert_self _ _)
  refine ⟨hnodup, ?_, ?_, fun hfalse => absurd hfalse hrunning⟩
  · simp only [hclose]
    rw [hopened, Finset.erase_insert (mt List.mem_toFinset.1 hnotMem)]
    rfl
  · simp only [hclose]
    exact h.stray_eq

/-- Every step keeps the descriptors accounted for, where no `start` fails. -/
theorem accounted_step (h : s.Accounted) (hsucceeds : Succeeds s e)
    (hstep : step s e = some (o, t)) : t.Accounted := by
  cases e with
  | start calls =>
    by_cases hrunning : s.running = true
    · rw [step, Lifecycle.start, if_pos hrunning] at hstep
      obtain ⟨-, rfl⟩ := Prod.mk.inj (Option.some.inj hstep)
      exact h
    · have hidle := Bool.eq_false_iff.2 hrunning
      rcases start_cases hidle hstep with
        ⟨-, -, listen_fd, epoll_fd, -, hepoll, rfl⟩ | ⟨hfail, -, -⟩
      · exact h.start hidle hepoll
      · exact absurd (hsucceeds hidle) hfail
  | stop =>
    obtain ⟨-, rfl⟩ := Prod.mk.inj (Option.some.inj hstep)
    exact h.stop.1
  | accept client_fd epoll_ctl =>
    simp only [step, Option.ite_none_right_eq_some] at hstep
    obtain ⟨hjoinable, hstep⟩ := hstep
    obtain ⟨table, hcreate, heq⟩ := Option.map_eq_some_iff.1 hstep
    obtain ⟨-, rfl⟩ := Prod.mk.inj heq
    split_ifs with hctl
    · obtain ⟨hnew, rfl⟩ := Descriptors.create_eq_some.1 hcreate
      exact h.accept (h.running hjoinable) hnew
    · -- The new descriptor is closed again.
      rw [Descriptors.close_create hcreate]
      exact h
  | remove client_fd =>
    simp only [step, Option.ite_none_right_eq_some] at hstep
    obtain ⟨hjoinable, hstep⟩ := hstep
    split_ifs at hstep with hmem
    · obtain ⟨-, rfl⟩ := Prod.mk.inj (Option.some.inj hstep)
      exact h.remove (h.running hjoinable) hmem
    · obtain ⟨-, rfl⟩ := Prod.mk.inj (Option.some.inj hstep)
      exact h

/-- Every `start` of a run that throws leaves the object as it was, and the destructor at the end
leaves nothing open and has closed everything once, exactly if no `start` in the run fails. -/
theorem lifecycle_iff {es : List LifecycleEvent} {outs : List (Option String)}
    (hrun : Machine.run step {} es = some (outs, s)) :
    (Machine.Along step Atomic {} es ∧ s.stop.table = {}) ↔ Machine.Along step Succeeds {} es := by
  have hatomic : Machine.Along step Atomic {} es ↔ Machine.Along step Succeeds {} es :=
    Machine.along_congr (fun _ _ _ _ => atomic_iff) hrun
  have hinit : Accounted {} := ⟨List.nodup_nil, rfl, rfl, fun _ => ⟨rfl, rfl⟩⟩
  constructor
  · exact fun h => hatomic.1 h.1
  · intro h
    have haccounted : s.Accounted := Machine.along_invariant (I := Accounted)
      (fun _ _ _ _ hs hsucceeds => accounted_step hs hsucceeds) hinit h hrun
    exact ⟨hatomic.2 h, haccounted.stop.2⟩

/-- System calls that return these descriptors. -/
def succeeding (listen_fd epoll_fd : ℕ) : StartCalls :=
  ⟨some listen_fd, true, true, some epoll_fd, true⟩

/-- A registry that is started twice, with clients in between. -/
def restarted : List LifecycleEvent :=
  [.start (succeeding 3 4), .accept 5 true, .accept 6 false, .accept 6 true, .remove 5, .stop,
    .start (succeeding 3 5), .accept 4 true]

/-- Its destructor leaves nothing open. -/
theorem lifecycle_restarted : Machine.Along step Atomic {} restarted ∧
    (Machine.last step {} restarted).stop.table = {} := by
  obtain ⟨outs, hrun⟩ : ∃ outs, Machine.run step {} restarted =
      some (outs, Machine.last step {} restarted) :=
    Machine.exists_run_eq_last _ _ (by decide +kernel)
  exact (lifecycle_iff hrun).2 (by decide +kernel)

/-- A `start` for which `bind` fails, and another one. -/
def bindFails : List LifecycleEvent :=
  [.start ⟨some 3, false, true, some 4, true⟩, .start (succeeding 3 4)]

/-- The first one throws, the second one does nothing, and the destructor closes a descriptor that
is not open any more. -/
theorem lifecycle_bindFails :
    ∃ s, Machine.run step {} bindFails = some ([some "Failed to bind socket", none], s) ∧
      ¬ Machine.Along step Atomic {} bindFails ∧
      s.running = true ∧ s.listen_fd = some 3 ∧ s.joinable = false ∧ s.stop.table ≠ {} := by
  have hrun : Machine.run step {} bindFails = some ([some "Failed to bind socket", none],
      { running := true, listen_fd := some 3 }) := by
    decide +kernel
  refine ⟨_, hrun, fun hatomic => ?_, rfl, rfl, rfl, by decide +kernel⟩
  have hsame := hatomic.1 "Failed to bind socket" { running := true, listen_fd := some 3 }
    (by decide +kernel)
  exact absurd hsame (by decide +kernel)

end Runs

end Lifecycle

end MemoryGovernor
