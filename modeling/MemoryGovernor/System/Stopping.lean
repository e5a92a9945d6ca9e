import MemoryGovernor.System.Sockets

/-!
# The client stops

What `stop_listening` waits for, and what it leaves. It clears `listening_` before the `join`, but
the listener may be anywhere in its round, also in `connect`: a socket that it gets there is in
`sock_fd_` when `stop_listening` returns. It is `disconnect`, after the `join`, that closes it. So
the two calls together leave nothing behind, in the order in which `GovernedCache::stop` and the
destructor have them (`run_stop_listening`).

Here a `read` may return whenever the listener is in one, so nothing follows on whether the `join`
returns. That is a matter of what the daemon does (`System/Blocking.lean`).
-/

namespace MemoryGovernor

/-- The listener's thread goes on. A part of a payload leaves it where it is. -/
def SocketEvent.isLoop : SocketEvent → Bool
  | .loop | .reconnect _ | .reconnected _ | .length _ | .dispatch => true
  | .payload r => r ≠ .part
  | .connect _ | .connected _ | .disconnect | .start_listening | .stop_listening | .joined
  | .send _ => false

/-- How many steps the listener's thread has left at most, once `listening_` is not set. -/
def LoopControl.left : LoopControl → ℕ
  | .off => 0
  | .top => 1
  | .dispatch => 2
  | .payload => 3
  | .length => 4
  | .connecting => 5
  | .reconnect => 6

namespace ClientSocket

/-- Which of the two threads is there: unless the owner is in the `join`, the listener's is there
exactly if `listening_` is set. -/
structure Threads (s : ClientSocket) : Prop where
  loop : s.owner ≠ .joining → (s.loop = .off ↔ s.listening = false)
  joining : s.owner = .joining → s.listening = false

/-- After `stop_listening` and `disconnect`. -/
structure Stopped (s : ClientSocket) : Prop where
  owner : s.owner = .idle
  listening : s.listening = false
  loop : s.loop = .off
  connected : s.connected = false
  sock_fd : s.sock_fd = none

section Steps

variable {s t : ClientSocket} {e : SocketEvent} {o : Unit}

theorem openSocket_threads {fd : Option ℕ} (h : s.openSocket fd = some t) :
    t.owner = s.owner ∧ t.loop = s.loop ∧ t.listening = s.listening := by
  cases fd with
  | none =>
    obtain rfl := Option.some.inj h
    exact ⟨rfl, rfl, rfl⟩
  | some fd =>
    obtain ⟨table, -, rfl⟩ := Option.map_eq_some_iff.1 h
    exact ⟨rfl, rfl, rfl⟩

/-- What a step of the listener's thread does to the threads. -/
theorem loop_step (he : e.isLoop = true) (hstep : step s e = some (o, t)) :
    t.owner = s.owner ∧ t.listening = s.listening ∧ s.loop ≠ .off ∧
      (t.loop = .off → s.listening = false) ∧
      (s.listening = false → t.loop.left < s.loop.left) := by
  cases e with
  | connect fd => cases he
  | connected ok => cases he
  | disconnect => cases he
  | start_listening => cases he
  | stop_listening => cases he
  | joined => cases he
  | send ok => cases he
  | loop =>
    simp only [step, Option.ite_none_right_eq_some] at hstep
    obtain ⟨htop, hstep⟩ := hstep
    split_ifs at hstep with hlistening hconn
    all_goals obtain ⟨-, rfl⟩ := Prod.mk.inj (Option.some.inj hstep)
    all_goals simp_all [LoopControl.left]
  | reconnect fd =>
    simp only [step, Option.ite_none_right_eq_some] at hstep
    obtain ⟨hloop, hstep⟩ := hstep
    by_cases hconn : s.connected = true
    · rw [if_pos hconn] at hstep
      obtain ⟨-, rfl⟩ := Prod.mk.inj (Option.some.inj hstep)
      simp [hloop, LoopControl.left]
    · rw [if_neg hconn] at hstep
      obtain ⟨u, hopen, heq⟩ := Option.map_eq_some_iff.1 hstep
      obtain ⟨-, rfl⟩ := Prod.mk.inj heq
      obtain ⟨howner, -, hlistening⟩ := openSocket_threads hopen
      cases fd <;> simp [howner, hlistening, hloop, LoopControl.left]
  | reconnected ok =>
    simp only [step, Option.ite_none_right_eq_some] at hstep
    obtain ⟨hloop, hstep⟩ := hstep
    split_ifs at hstep
    all_goals obtain ⟨-, rfl⟩ := Prod.mk.inj (Option.some.inj hstep)
    all_goals simp [hloop, closeSocket, LoopControl.left]
  | length r =>
    simp only [step, Option.ite_none_right_eq_some] at hstep
    obtain ⟨hloop, hstep⟩ := hstep
    cases r
    all_goals obtain ⟨-, rfl⟩ := Prod.mk.inj (Option.some.inj hstep)
    all_goals simp [hloop, LoopControl.left]
  | payload r =>
    simp only [step, Option.ite_none_right_eq_some] at hstep
    obtain ⟨hloop, hstep⟩ := hstep
    cases r
    · cases he
    all_goals obtain ⟨-, rfl⟩ := Prod.mk.inj (Option.some.inj hstep)
    all_goals simp [hloop, LoopControl.left]
  | dispatch =>
    simp only [step, Option.ite_none_right_eq_some] at hstep
    obtain ⟨hloop, hstep⟩ := hstep
    obtain ⟨-, rfl⟩ := Prod.mk.inj (Option.some.inj hstep)
    simp [hloop, LoopControl.left]

/-- What a step of another thread does to the threads, and so does a part of a payload. -/
theorem other_step (he : e.isLoop = false) (hstep : step s e = some (o, t)) :
    (e = .start_listening ∧ s.owner = .idle ∧ s.listening = false ∧ t.owner = .idle ∧
      t.listening = true ∧ t.loop = .top) ∨
    (e = .stop_listening ∧ s.owner = .idle ∧ t.owner = .joining ∧ t.listening = false ∧
      t.loop = s.loop) ∨
    (e = .joined ∧ s.owner = .joining ∧ s.loop = .off ∧ t.owner = .idle ∧
      t.listening = s.listening ∧ t.loop = .off) ∨
    ((t.owner = .joining ↔ s.owner = .joining) ∧ t.listening = s.listening ∧ t.loop = s.loop) := by
  cases e with
  | connect fd =>
    simp only [step, Option.ite_none_right_eq_some] at hstep
    obtain ⟨howner, hstep⟩ := hstep
    by_cases hconn : s.connected = true
    · rw [if_pos hconn] at hstep
      obtain ⟨-, rfl⟩ := Prod.mk.inj (Option.some.inj hstep)
      exact .inr (.inr (.inr ⟨Iff.rfl, rfl, rfl⟩))
    · rw [if_neg hconn] at hstep
      obtain ⟨u, hopen, heq⟩ := Option.map_eq_some_iff.1 hstep
      obtain ⟨-, rfl⟩ := Prod.mk.inj heq
      obtain ⟨-, hloop, hlistening⟩ := openSocket_threads hopen
      refine .inr (.inr (.inr ⟨?_, hlistening, hloop⟩))
      cases fd <;> simp [howner]
  | connected ok =>
    simp only [step, Option.ite_none_right_eq_some] at hstep
    obtain ⟨howner, hstep⟩ := hstep
    split_ifs at hstep
    all_goals obtain ⟨-, rfl⟩ := Prod.mk.inj (Option.some.inj hstep)
    all_goals exact .inr (.inr (.inr ⟨by simp [howner], rfl, rfl⟩))
  | disconnect =>
    simp only [step, Option.ite_none_right_eq_some] at hstep
    obtain ⟨-, hstep⟩ := hstep
    obtain ⟨-, rfl⟩ := Prod.mk.inj (Option.some.inj hstep)
    exact .inr (.inr (.inr ⟨Iff.rfl, rfl, rfl⟩))
  | start_listening =>
    simp only [step, Option.ite_none_right_eq_some] at hstep
    obtain ⟨howner, hstep⟩ := hstep
    split_ifs at hstep with hlistening
    · obtain ⟨-, rfl⟩ := Prod.mk.inj (Option.some.inj hstep)
      exact .inr (.inr (.inr ⟨Iff.rfl, rfl, rfl⟩))
    · obtain ⟨-, rfl⟩ := Prod.mk.inj (Option.some.inj hstep)
      exact .inl ⟨rfl, howner, Bool.eq_false_iff.2 hlistening, howner, rfl, rfl⟩
  | stop_listening =>
    simp only [step, Option.ite_none_right_eq_some] at hstep
    obtain ⟨howner, hstep⟩ := hstep
    split_ifs at hstep with hlistening
    · obtain ⟨-, rfl⟩ := Prod.mk.inj (Option.some.inj hstep)
      exact .inr (.inl ⟨rfl, howner, rfl, rfl, rfl⟩)
    · obtain ⟨-, rfl⟩ := Prod.mk.inj (Option.some.inj hstep)
      exact .inr (.inr (.inr ⟨Iff.rfl, rfl, rfl⟩))
  | joined =>
    simp only [step, Option.ite_none_right_eq_some] at hstep
    obtain ⟨⟨howner, hloop⟩, hstep⟩ := hstep
    obtain ⟨-, rfl⟩ := Prod.mk.inj (Option.some.inj hstep)
    exact .inr (.inr (.inl ⟨rfl, howner, hloop, rfl, rfl, hloop⟩))
  | send ok =>
    simp only [step] at hstep
    split_ifs at hstep
    all_goals obtain ⟨-, rfl⟩ := Prod.mk.inj (Option.some.inj hstep)
    all_goals exact .inr (.inr (.inr ⟨Iff.rfl, rfl, rfl⟩))
  | payload r =>
    simp only [step, Option.ite_none_right_eq_some] at hstep
    obtain ⟨-, hstep⟩ := hstep
    cases r with
    | part =>
      obtain ⟨-, rfl⟩ := Prod.mk.inj (Option.some.inj hstep)
      exact .inr (.inr (.inr ⟨Iff.rfl, rfl, rfl⟩))
    | last => cases he
    | failed => cases he
  | loop => cases he
  | reconnect fd => cases he
  | reconnected ok => cases he
  | length r => cases he
  | dispatch => cases he

/-- Every step keeps the threads as said. -/
theorem threads_step (h : s.Threads) (hstep : step s e = some (o, t)) : t.Threads := by
  cases he : e.isLoop with
  | true =>
    obtain ⟨howner, hlistening, hon, hoff, -⟩ := loop_step he hstep
    refine ⟨fun hne => ?_, fun hjoining => ?_⟩
    · rw [howner] at hne
      rw [hlistening]
      exact ⟨hoff, fun hnot => absurd ((h.loop hne).2 hnot) hon⟩
    · rw [hlistening]
      exact h.joining (howner ▸ hjoining)
  | false =>
    obtain ⟨-, -, -, howner, hlistening, hloop⟩ | ⟨-, -, howner, hlistening, -⟩ |
      ⟨-, hjoining, -, howner, hlistening, hloop⟩ | ⟨howner, hlistening, hloop⟩ :=
      other_step he hstep
    · exact ⟨fun _ => by simp [hlistening, hloop], fun hjoining => by simp [howner] at hjoining⟩
    · exact ⟨fun hne => absurd howner hne, fun _ => hlistening⟩
    · refine ⟨fun _ => iff_of_true hloop ?_, fun hjoining => by simp [howner] at hjoining⟩
      rw [hlistening]
      exact h.joining hjoining
    · refine ⟨fun hne => ?_, fun hjoining => ?_⟩
      · rw [hloop, hlistening]
        exact h.loop (mt howner.2 hne)
      · rw [hlistening]
        exact h.joining (howner.1 hjoining)

/-- One step while the owner is in the `join`. -/
theorem step_joining (h : s.Threads) (hjoining : s.owner = .joining)
    (hstep : step s e = some (o, t)) (he : e ≠ .joined) :
    t.owner = .joining ∧ (if e.isLoop then 1 else 0) + t.loop.left ≤ s.loop.left := by
  cases hloop : e.isLoop with
  | true =>
    obtain ⟨howner, -, -, -, hleft⟩ := loop_step hloop hstep
    have hlt := hleft (h.joining hjoining)
    exact ⟨howner.trans hjoining, by simp only [if_true]; omega⟩
  | false =>
    obtain ⟨-, hidle, -⟩ | ⟨-, hidle, -⟩ | ⟨heq, -⟩ | ⟨howner, -, heq⟩ := other_step hloop hstep
    · simp [hjoining] at hidle
    · simp [hjoining] at hidle
    · exact absurd heq he
    · exact ⟨howner.2 hjoining, by simp [heq]⟩

/-- Until the listener's thread has returned it can go on, where its calls return, and then the
`join` can return. -/
theorem exists_next_joining (h : s.Threads) (hjoining : s.owner = .joining) :
    (s.loop = .off ∧ (step s .joined).isSome) ∨
      ∃ e : SocketEvent, e.isLoop = true ∧ (step s e).isSome := by
  cases hloop : s.loop with
  | off => exact .inl ⟨rfl, by simp [step, hjoining, hloop]⟩
  | top => exact .inr ⟨.loop, rfl, by simp [step, hloop, h.joining hjoining]⟩
  | reconnect =>
    refine .inr ⟨.reconnect none, rfl, ?_⟩
    simp only [step, hloop, if_true]
    split_ifs <;> rfl
  | connecting => exact .inr ⟨.reconnected false, rfl, by simp [step, hloop]⟩
  | length => exact .inr ⟨.length .eof, rfl, by simp [step, hloop]⟩
  | payload => exact .inr ⟨.payload .last, rfl, by simp [step, hloop]⟩
  | dispatch => exact .inr ⟨.dispatch, rfl, by simp [step, hloop]⟩

/-- One step after the client has stopped. -/
theorem step_stopped (h : s.Stopped) (hstep : step s e = some (o, t))
    (hconnect : ∀ fd, e ≠ .connect fd) (hstart : e ≠ .start_listening) :
    t.Stopped ∧ t.table = s.table := by
  cases hloop : e.isLoop with
  | true =>
    obtain ⟨-, -, hon, -⟩ := loop_step hloop hstep
    exact absurd h.loop hon
  | false =>
    cases e with
    | connect fd => exact absurd rfl (hconnect fd)
    | connected ok => simp [step, h.owner] at hstep
    | disconnect =>
      simp only [step, h.owner, if_true] at hstep
      obtain ⟨-, rfl⟩ := Prod.mk.inj (Option.some.inj hstep)
      exact ⟨⟨h.owner, h.listening, h.loop, rfl, rfl⟩, by
        rw [closeSocket, h.sock_fd, Descriptors.closeIfSome]⟩
    | start_listening => exact absurd rfl hstart
    | stop_listening =>
      simp only [step, h.owner, h.listening, if_true] at hstep
      obtain ⟨-, rfl⟩ := Prod.mk.inj (Option.some.inj hstep)
      exact ⟨h, rfl⟩
    | joined => simp [step, h.owner] at hstep
    | send ok =>
      simp only [step, h.connected] at hstep
      obtain ⟨-, rfl⟩ := Prod.mk.inj (Option.some.inj hstep)
      exact ⟨h, rfl⟩
    | payload r => simp [step, h.loop] at hstep
    | loop => cases hloop
    | reconnect fd => cases hloop
    | reconnected ok => cases hloop
    | length r => cases hloop
    | dispatch => cases hloop

end Steps

section Runs

variable {s t : ClientSocket} {es fs : List SocketEvent} {outs : List Unit}

/-- How long a `stop_listening` waits, over a run. -/
theorem run_joining (h : s.Threads) (hjoining : s.owner = .joining)
    (hrun : Machine.run step s es = some (outs, t)) (hes : .joined ∉ es) :
    t.Threads ∧ t.owner = .joining ∧
      es.countP SocketEvent.isLoop + t.loop.left ≤ s.loop.left := by
  induction es generalizing s outs with
  | nil =>
    obtain ⟨-, rfl⟩ : [] = outs ∧ s = t := by simpa using hrun
    exact ⟨h, hjoining, by rw [List.countP_nil, Nat.zero_add]⟩
  | cons e es ih =>
    obtain ⟨o, u, outs', hstep, hrun', -⟩ := Machine.run_cons_eq_some.1 hrun
    obtain ⟨hne, hes'⟩ := not_or.1 (mt List.mem_cons.2 hes)
    obtain ⟨hjoining', hleft⟩ := step_joining h hjoining hstep (Ne.symm hne)
    obtain ⟨ht, howner, hcount⟩ := ih (threads_step h hstep) hjoining' hrun' hes'
    rw [List.countP_cons]
    exact ⟨ht, howner, by omega⟩

/-- What holds between the end of a stop and the next call of the owner, over a run. -/
theorem run_stopped (h : s.Stopped) (hrun : Machine.run step s es = some (outs, t))
    (hconnect : ∀ fd, .connect fd ∉ es) (hstart : .start_listening ∉ es) :
    t.Stopped ∧ t.table = s.table := by
  induction es generalizing s outs with
  | nil =>
    obtain ⟨-, rfl⟩ : [] = outs ∧ s = t := by simpa using hrun
    exact ⟨h, rfl⟩
  | cons e es ih =>
    obtain ⟨o, u, outs', hstep, hrun', -⟩ := Machine.run_cons_eq_some.1 hrun
    obtain ⟨hne, hstart'⟩ := not_or.1 (mt List.mem_cons.2 hstart)
    obtain ⟨hu, htable⟩ := step_stopped h hstep
      (fun fd heq => hconnect fd (heq ▸ List.mem_cons_self)) (Ne.symm hne)
    obtain ⟨ht, htable'⟩ :=
      ih hu hrun' (fun fd hmem => hconnect fd (List.mem_cons_of_mem e hmem)) hstart'
    exact ⟨ht, htable'.trans htable⟩

/-- A run in which `connect` never overwrites a descriptor leaves no other socket open. -/
theorem run_oneSocket (hrun : Machine.run step {} es = some (outs, s))
    (hfinds : Machine.Along step FindsNone {} es) : s.Owned ∧ s.OneSocket := by
  have hstep : ∀ (u : ClientSocket) (e : SocketEvent) (o : Unit) (v : ClientSocket),
      u.Owned ∧ u.OneSocket → FindsNone u e → step u e = some (o, v) → v.Owned ∧ v.OneSocket :=
    fun u e o v h hfind hst => ⟨owned_step h.1 hst, (oneSocket_step h.1 h.2 hst).2 hfind⟩
  have hinit : Owned {} ∧ OneSocket {} :=
    ⟨fun fd hsome => absurd hsome.symm (Option.some_ne_none fd),
      fun fd hmem => absurd hmem (Finset.notMem_empty fd)⟩
  exact Machine.along_invariant hstep hinit hfinds hrun

/-- In every run of the client's threads: `start_listening` never assigns to a thread that is still
there; while `stop_listening` is in the `join`, whatever the other threads do, the listener goes on
at most six times, other than with a part of a payload; and once `disconnect` follows, there is no
listener, no descriptor and no connection until the owner calls `connect` or `start_listening`.
Where `connect` never overwrote a descriptor, all are closed. -/
theorem run_stop_listening (hrun : Machine.run step {} es = some (outs, s)) :
    (s.owner = .idle → s.listening = false → s.loop = .off) ∧
    (s.owner = .joining → ∀ fs outs' t, Machine.run step s fs = some (outs', t) → .joined ∉ fs →
      fs.countP SocketEvent.isLoop ≤ 6) ∧
    (s.owner = .idle → s.listening = false → ∀ fs outs' t,
      Machine.run step s (.disconnect :: fs) = some (outs', t) → (∀ fd, .connect fd ∉ fs) →
      .start_listening ∉ fs → t.Stopped ∧
        (Machine.Along step FindsNone {} es → t.table.opened = ∅)) := by
  have hthreads : s.Threads := Machine.run_invariant (fun _ _ _ _ => threads_step)
    ⟨fun _ => iff_of_true rfl rfl, fun _ => rfl⟩ hrun
  have hoff : s.owner = .idle → s.listening = false → s.loop = .off := fun hidle hlistening =>
    (hthreads.loop (by rw [hidle]; exact OwnerControl.noConfusion)).2 hlistening
  refine ⟨hoff, fun hjoining fs outs' t hfs hnot => ?_, fun hidle hlistening fs outs' t hfs
    hconnect hstart => ?_⟩
  · have hcount := (run_joining hthreads hjoining hfs hnot).2.2
    have hleft : s.loop.left ≤ 6 := by cases s.loop <;> simp [LoopControl.left]
    omega
  · obtain ⟨o, u, outs₁, hstep, hrun₁, -⟩ := Machine.run_cons_eq_some.1 hfs
    have hclose := hstep
    simp only [step, hidle, if_true] at hclose
    obtain ⟨-, rfl⟩ := Prod.mk.inj (Option.some.inj hclose)
    have hstopped : Stopped { s.closeSocket with connected := false } :=
      ⟨hidle, hlistening, hoff hidle hlistening, rfl, rfl⟩
    obtain ⟨ht, htable⟩ := run_stopped hstopped hrun₁ hconnect hstart
    refine ⟨ht, fun hfinds => ?_⟩
    -- The socket in `sock_fd_` was the only one, and `disconnect` has closed it.
    obtain ⟨howned, hone⟩ := run_oneSocket hrun hfinds
    have hclosed := (oneSocket_step howned hone hstep).2 trivial
    rw [htable]
    refine Finset.eq_empty_of_forall_notMem fun fd hmem => ?_
    exact absurd (hclosed fd hmem).symm (Option.some_ne_none fd)

end Runs

/-- A `stop_listening` that comes while the listener is about to call `connect`. -/
def stopInConnect : List SocketEvent :=
  [.connect (some 3), .connected true, .start_listening, .loop, .length .eof, .loop,
    .stop_listening, .reconnect (some 4), .reconnected true, .length .eof, .loop, .joined]

/-- It returns with a socket in `sock_fd_`, which `disconnect` closes. -/
theorem run_stop_listening_stopInConnect :
    let s := Machine.last step {} stopInConnect
    let t := Machine.last step s [.disconnect]
    s.sock_fd = some 4 ∧ t.Stopped ∧ t.table.opened = ∅ := by
  intro s t
  obtain ⟨outs, hrun⟩ : ∃ outs, Machine.run step {} stopInConnect = some (outs, s) :=
    Machine.exists_run_eq_last _ _ (by decide +kernel)
  obtain ⟨outs', hrun'⟩ : ∃ outs', Machine.run step s [.disconnect] = some (outs', t) :=
    Machine.exists_run_eq_last _ _ (by decide +kernel)
  obtain ⟨ht, hopened⟩ := (run_stop_listening hrun).2.2 (by decide +kernel) (by decide +kernel)
    [] outs' t hrun' (fun fd hmem => absurd hmem List.not_mem_nil) List.not_mem_nil
  exact ⟨by decide +kernel, ht, hopened (by decide +kernel)⟩

end ClientSocket

end MemoryGovernor
