import Mathlib.Algebra.Order.Floor.Semiring
import Mathlib.Data.List.AList
import Mathlib.Data.List.Induction
import Mathlib.Data.Rat.Floor
import MemoryGovernor.Wire.Message

/-!
# The client registry

The table of `ClientRegistry` (`src/governor/client_registry.cpp`), from descriptors of accepted
connections to what the daemon knows of the client there, and the commands that a broadcast computes
from it. The descriptors' connections themselves are in `System/Step.lean`.

A target is the recorded size times a `double`, converted back. The product is exact here, over the
rationals; the conversion drops the fraction and is undefined outside the range of the type
(`truncate`).
-/

namespace MemoryGovernor

/-- `ClientInfo`, less the time of the connection, which nothing reads. -/
structure ClientInfo where
  fd : ℕ
  pid : Int32
  current_size_bytes : UInt64
  min_size_bytes : UInt64
deriving DecidableEq, Repr

/-- `ClientRegistry`: its table `clients_`. -/
structure ClientRegistry where
  clients : AList (fun _ : ℕ => ClientInfo) := ∅

/-- The conversion of a `double` to `uint64_t`. -/
def truncate (x : ℚ) : Option UInt64 :=
  if -1 < x ∧ x < 2^64 then some (UInt64.ofNat x.floor.toNat) else none

/-- What the conversion gives, where it is defined, is the floor. -/
theorem truncate_toNat {x : ℚ} {t : UInt64} (h : truncate x = some t) : t.toNat = ⌊x⌋₊ := by
  unfold truncate at h
  split_ifs at h with hx
  obtain rfl := Option.some.inj h
  have hfloor : x.floor.toNat = ⌊x⌋₊ := Int.floor_toNat x
  -- A number between `-1` and `0` is converted to `0`, which is its natural floor too.
  have hlt : ⌊x⌋₊ < 2^64 := by
    rcases le_or_gt 0 x with h0 | h0
    · exact (Nat.floor_lt h0).2 (by exact_mod_cast hx.2)
    · rw [Nat.floor_of_nonpos h0.le]
      exact Nat.two_pow_pos 64
  calc (UInt64.ofNat x.floor.toNat).toNat = x.floor.toNat % 2^64 := UInt64.toNat_ofNat' ..
    _ = ⌊x⌋₊ % 2^64 := by rw [hfloor]
    _ = ⌊x⌋₊ := Nat.mod_eq_of_lt hlt

/-- The conversion is defined on the range of the type. -/
theorem truncate_isSome {x : ℚ} (h0 : 0 ≤ x) (hlt : x < 2^64) : ∃ t, truncate x = some t :=
  ⟨_, if_pos ⟨by linarith, hlt⟩⟩

/-- The two commands of a broadcast. -/
inductive Command
  | shrink
  | grow
deriving DecidableEq, Repr

namespace Command

/-- `MessageType::SHRINK` or `MessageType::GROW`. -/
def type : Command → MessageType
  | shrink => .SHRINK
  | grow => .GROW

/-- What the recorded size is multiplied by: `1.0 - fraction` or `1.0 + fraction`. -/
def factor : Command → ℚ → ℚ
  | shrink, fraction => 1 - fraction
  | grow, fraction => 1 + fraction

end Command

namespace ClientRegistry

/-- The last lines of `handle_new_connection`: an entry for the accepted descriptor, with the size
`0` until the client sends one. -/
def addClient (r : ClientRegistry) (client_fd : ℕ) : ClientRegistry :=
  ⟨r.clients.insert client_fd ⟨client_fd, 0, 0, 0⟩⟩

/-- What a message changes in an entry. -/
def record (info : ClientInfo) (msg : Message) : ClientInfo :=
  if msg.type = .REGISTER then
    { info with pid := msg.pid, current_size_bytes := msg.current_size_bytes }
  else if msg.type = .REPORT_SIZE then
    { info with current_size_bytes := msg.current_size_bytes }
  -- Every other type is ignored.
  else info

/-- What `handle_client_message` does with a message that it has read from `client_fd`. -/
def handleMessage (r : ClientRegistry) (client_fd : ℕ) (msg : Message) : ClientRegistry :=
  match r.clients.lookup client_fd with
  -- `clients_.find` ends at `clients_.end()`: nothing is recorded.
  | none => r
  | some info => ⟨r.clients.insert client_fd (record info msg)⟩

/-- `remove_client`. -/
def removeClient (r : ClientRegistry) (client_fd : ℕ) : ClientRegistry :=
  ⟨r.clients.erase client_fd⟩

/-- The message that a broadcast sends to a client. -/
def commandMessage (cmd : Command) (fraction : ℚ) (info : ClientInfo) : Option Message :=
  (truncate (info.current_size_bytes.toNat * cmd.factor fraction)).map fun target_bytes =>
    { type := cmd.type, target_bytes := target_bytes }

/-- The messages of `broadcast_shrink` or `broadcast_grow`, with the descriptors to which they are
sent. -/
def commands (cmd : Command) (fraction : ℚ) (r : ClientRegistry) : Option (List (ℕ × Message)) :=
  r.clients.entries.mapM fun e => (commandMessage cmd fraction e.2).map fun msg => (e.1, msg)

/-! ## What the table records -/

/-- The entry of a descriptor after the messages read from it since it was accepted. -/
def replay (client_fd : ℕ) (msgs : List Message) : ClientInfo :=
  msgs.foldl record ⟨client_fd, 0, 0, 0⟩

@[simp]
theorem replay_concat (client_fd : ℕ) (msgs : List Message) (msg : Message) :
    replay client_fd (msgs ++ [msg]) = record (replay client_fd msgs) msg := by
  simp [replay]

/-- The client has told its size. -/
def TellsSize (msg : Message) : Prop := msg.type = .REGISTER ∨ msg.type = .REPORT_SIZE

instance (msg : Message) : Decidable (TellsSize msg) := inferInstanceAs (Decidable (_ ∨ _))

/-- The size in an entry after a message. -/
theorem record_current_size (info : ClientInfo) (msg : Message) :
    (record info msg).current_size_bytes =
      if TellsSize msg then msg.current_size_bytes else info.current_size_bytes := by
  unfold record TellsSize
  split_ifs <;> simp_all

/-- The size that a client told last, or `0`. -/
def toldSize (msgs : List Message) : UInt64 :=
  msgs.foldl (fun size msg => if TellsSize msg then msg.current_size_bytes else size) 0

@[simp] theorem toldSize_nil : toldSize [] = 0 := rfl

@[simp]
theorem toldSize_concat (msgs : List Message) (msg : Message) : toldSize (msgs ++ [msg]) =
    if TellsSize msg then msg.current_size_bytes else toldSize msgs := by
  simp [toldSize]

/-- The size in an entry is the one told last. -/
theorem replay_current_size (client_fd : ℕ) (msgs : List Message) :
    (replay client_fd msgs).current_size_bytes = toldSize msgs := by
  induction msgs using List.reverseRecOn with
  | nil => rfl
  | append_singleton msgs msg ih => rw [replay_concat, record_current_size, toldSize_concat, ih]

/-- Once a client has told its size, the size told last is one that it told. -/
theorem exists_toldSize {msgs : List Message} (h : ∃ msg ∈ msgs, TellsSize msg) :
    ∃ msg ∈ msgs, TellsSize msg ∧ toldSize msgs = msg.current_size_bytes := by
  induction msgs using List.reverseRecOn with
  | nil => simp at h
  | append_singleton msgs msg ih =>
    rw [toldSize_concat]
    by_cases hmsg : TellsSize msg
    · exact ⟨msg, by simp, hmsg, if_pos hmsg⟩
    · obtain ⟨m, hm, htells⟩ := h
      have hmem : m ∈ msgs := by
        rcases List.mem_append.1 hm with hm | hm
        · exact hm
        · exact absurd (List.mem_singleton.1 hm ▸ htells) hmsg
      obtain ⟨m', hm', htells', hsize⟩ := ih ⟨m, hmem, htells⟩
      exact ⟨m', List.mem_append_left _ hm', htells', by rw [if_neg hmsg, hsize]⟩

section Table

variable {r : ClientRegistry} {fd client_fd : ℕ}

theorem lookup_addClient : (r.addClient client_fd).clients.lookup fd =
    if fd = client_fd then some (replay client_fd []) else r.clients.lookup fd := by
  split_ifs with h
  · rw [h]
    exact AList.lookup_insert _
  · exact AList.lookup_insert_ne h

theorem lookup_removeClient : (r.removeClient client_fd).clients.lookup fd =
    if fd = client_fd then none else r.clients.lookup fd := by
  split_ifs with h
  · rw [h]
    exact AList.lookup_erase _ _
  · exact AList.lookup_erase_ne h

theorem lookup_handleMessage (msg : Message) : (r.handleMessage client_fd msg).clients.lookup fd =
    if fd = client_fd then (r.clients.lookup fd).map fun info => record info msg
    else r.clients.lookup fd := by
  unfold handleMessage
  split_ifs with h
  · subst h
    cases hlook : r.clients.lookup fd with
    | none => exact hlook
    | some info => exact AList.lookup_insert _
  · cases hlook : r.clients.lookup client_fd with
    | none => rfl
    | some info => exact AList.lookup_insert_ne h

end Table

/-! ## The messages of a broadcast -/

/-- A traversal that may fail succeeds when it does at every element. -/
theorem mapM_eq_some_iff {α β : Type*} {f : α → Option β} {l : List α} {l' : List β} :
    l.mapM f = some l' ↔ l.map f = l'.map some := by
  induction l generalizing l' with
  | nil => cases l' <;> simp
  | cons a l ih =>
    simp only [List.mapM_cons, Option.bind_eq_bind, Option.bind_eq_some_iff, Option.pure_def,
      Option.some.injEq, List.map_cons, ih]
    constructor
    · rintro ⟨b, hb, bs, hbs, rfl⟩
      rw [List.map_cons, hb, hbs]
    · cases l' with
      | nil => simp
      | cons b bs =>
        intro h
        obtain ⟨hb, hbs⟩ := List.cons.inj h
        exact ⟨b, hb, bs, hbs, rfl⟩

/-- A traversal succeeds if it does at every element. -/
theorem exists_mapM {α β : Type*} {f : α → Option β} {l : List α}
    (h : ∀ a ∈ l, ∃ b, f a = some b) : ∃ l', l.mapM f = some l' := by
  induction l with
  | nil => exact ⟨[], rfl⟩
  | cons a l ih =>
    obtain ⟨b, hb⟩ := h a List.mem_cons_self
    obtain ⟨bs, hbs⟩ := ih fun a' ha' => h a' (List.mem_cons_of_mem a ha')
    exact ⟨b :: bs, by simp [List.mapM_cons, hb, hbs]⟩

/-- A broadcast sends one message to every descriptor of the table, in order, computed from its
entry. -/
theorem commands_spec {cmd : Command} {fraction : ℚ} {r : ClientRegistry} {ms : List (ℕ × Message)}
    (h : r.commands cmd fraction = some ms) :
    ms.map Prod.fst = r.clients.keys ∧ ∀ fd msg, (fd, msg) ∈ ms ↔
      ∃ info, r.clients.lookup fd = some info ∧ commandMessage cmd fraction info = some msg := by
  have hall := mapM_eq_some_iff.1 h
  constructor
  · -- Every message keeps the descriptor of the entry that it was computed from.
    have hfst := congrArg (List.map (Option.map Prod.fst)) hall
    simp only [List.map_map] at hfst
    apply (Option.some_injective ℕ).list_map
    rw [AList.keys, List.keys, List.map_map, List.map_map]
    refine hfst.symm.trans (List.map_congr_left fun e he => ?_)
    have hsome : (commandMessage cmd fraction e.2).map (fun msg => (e.1, msg)) ∈ ms.map some :=
      hall ▸ List.mem_map_of_mem he
    obtain ⟨m, -, hm⟩ := List.mem_map.1 hsome
    obtain ⟨msg, hmsg, -⟩ := Option.map_eq_some_iff.1 hm.symm
    simp [hmsg]
  · intro fd msg
    have hmem : (fd, msg) ∈ ms ↔ some (fd, msg) ∈ ms.map some := by simp
    rw [hmem, ← hall, List.mem_map]
    constructor
    · rintro ⟨⟨fd', info⟩, he, heq⟩
      obtain ⟨msg', hmsg, hpair⟩ := Option.map_eq_some_iff.1 heq
      obtain ⟨rfl, rfl⟩ := Prod.mk.inj hpair
      exact ⟨info, AList.mem_lookup_iff.2 he, hmsg⟩
    · rintro ⟨info, hlook, hmsg⟩
      exact ⟨⟨fd, info⟩, AList.mem_lookup_iff.1 hlook, by simp [hmsg]⟩

/-- A broadcast is defined where every target is. -/
theorem exists_commands {cmd : Command} {fraction : ℚ} {r : ClientRegistry}
    (h : ∀ fd info, r.clients.lookup fd = some info →
      ∃ msg, commandMessage cmd fraction info = some msg) :
    ∃ ms, r.commands cmd fraction = some ms := by
  refine exists_mapM fun e he => ?_
  obtain ⟨msg, hmsg⟩ := h e.1 e.2 (AList.mem_lookup_iff.2 he)
  exact ⟨(e.1, msg), by rw [hmsg, Option.map_some]⟩

/-- A fraction of a recorded size is a target. -/
theorem exists_shrink_message {fraction : ℚ} (h0 : 0 ≤ fraction) (h1 : fraction ≤ 1)
    (info : ClientInfo) : ∃ msg, commandMessage .shrink fraction info = some msg := by
  have hlt : (info.current_size_bytes.toNat : ℚ) < 2^64 := by
    exact_mod_cast info.current_size_bytes.toNat_lt
  have hnonneg : (0 : ℚ) ≤ info.current_size_bytes.toNat := Nat.cast_nonneg _
  obtain ⟨t, ht⟩ := truncate_isSome (x := info.current_size_bytes.toNat * (1 - fraction))
    (by nlinarith) (by nlinarith)
  exact ⟨_, by rw [commandMessage, Command.factor, ht]; rfl⟩

end ClientRegistry

end MemoryGovernor
