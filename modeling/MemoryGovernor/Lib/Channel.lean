import Mathlib.Data.List.Basic

/-!
# FIFO channels

One direction of a connection: what has been read from it and what is still in flight, both in the
order in which they were sent. `send` appends to the flight and `receive?` takes its first message,
so nothing is lost, duplicated or reordered: the channel always holds, as `sent`, exactly the
messages sent so far (`sent_send`, `sent_of_receive?`).
-/

/-- A channel. -/
structure Channel (α : Type*) where
  /-- What the receiver has read. -/
  received : List α := []
  /-- What is in flight. -/
  pending : List α := []
deriving DecidableEq, Repr

namespace Channel

variable {α : Type*}

/-- Everything sent so far. -/
def sent (c : Channel α) : List α := c.received ++ c.pending

/-- Sending a message. -/
def send (c : Channel α) (a : α) : Channel α := ⟨c.received, c.pending ++ [a]⟩

/-- Reading the next message, if one is in flight. -/
def receive? (c : Channel α) : Option (α × Channel α) :=
  match c.pending with
  | [] => none
  | a :: rest => some (a, ⟨c.received ++ [a], rest⟩)

@[simp] theorem send_received (c : Channel α) (a : α) : (c.send a).received = c.received := rfl

@[simp] theorem send_pending (c : Channel α) (a : α) : (c.send a).pending = c.pending ++ [a] := rfl

@[simp] theorem sent_send (c : Channel α) (a : α) : (c.send a).sent = c.sent ++ [a] := by
  simp [sent]

@[simp] theorem sent_empty : ({} : Channel α).sent = [] := rfl

/-- A read takes the first message in flight. -/
theorem receive?_eq_some {c c' : Channel α} {a : α} :
    c.receive? = some (a, c') ↔
      c.pending = a :: c'.pending ∧ c'.received = c.received ++ [a] := by
  obtain ⟨received, pending⟩ := c
  obtain ⟨received', pending'⟩ := c'
  cases pending with
  | nil => simp [receive?]
  | cons b rest =>
    simp only [receive?, Option.some.injEq, Prod.mk.injEq, Channel.mk.injEq, List.cons.injEq]
    constructor
    · rintro ⟨rfl, rfl, rfl⟩
      exact ⟨⟨rfl, rfl⟩, rfl⟩
    · rintro ⟨⟨rfl, rfl⟩, rfl⟩
      exact ⟨rfl, rfl, rfl⟩

/-- A read changes nothing of what was sent. -/
theorem sent_of_receive? {c c' : Channel α} {a : α} (h : c.receive? = some (a, c')) :
    c'.sent = c.sent := by
  obtain ⟨hpending, hreceived⟩ := receive?_eq_some.1 h
  simp [sent, hpending, hreceived]

/-- What is read was sent. -/
theorem mem_sent_of_receive? {c c' : Channel α} {a : α} (h : c.receive? = some (a, c')) :
    a ∈ c.sent := by
  simp [sent, (receive?_eq_some.1 h).1]

end Channel
