import Mathlib.Tactic

/-!
# Buffered channels

A channel with a buffer of at most `cap` elements: a send appends, a receive takes the oldest
element, and a receive from a channel that is closed and empty reports that.  Sending on a
closed channel and closing one twice is a fault.

The bound is a field of the structure, so an overfull buffer cannot be built.  Operations that
would block give nothing: a step of a program that sends exists only where there is room.
`offer` is the send of a `select` with a default, which drops the element where a send would
block.

The elements are of any type.  The simp lemmas say what each operation leaves in the buffer
and whether the channel is closed, and `recv_eq_item`, `recv_eq_closed` and `recv_eq_blocked`
say when a receive has which outcome.
-/

namespace Otelop
namespace Lib

universe u

/-- A buffered channel. -/
structure Channel (α : Type u) (cap : Nat) where
  buffer : List α
  closed : Bool
  bounded : buffer.length ≤ cap

namespace Channel

variable {α : Type u} {cap : Nat}

/-- `make(chan T, cap)` -/
def empty : Channel α cap := ⟨[], false, Nat.zero_le cap⟩

/-- `c <- x`; there is no result while the buffer is full. -/
def send (c : Channel α cap) (x : α) : Option (Channel α cap) :=
  if h : c.buffer.length < cap then
    some ⟨c.buffer ++ [x], c.closed, by rw [List.length_append]; exact h⟩
  else none

/-- `select { case c <- x: default: }` -/
def offer (c : Channel α cap) (x : α) : Channel α cap := (c.send x).getD c

/-- What `x, ok := <-c` finds. -/
inductive Receive (α : Type u) (cap : Nat) where
  | blocked
  | closed
  | item (x : α) (c : Channel α cap)

def recv (c : Channel α cap) : Receive α cap :=
  match c with
  | ⟨[], true, _⟩ => .closed
  | ⟨[], false, _⟩ => .blocked
  | ⟨x :: rest, closed, h⟩ => .item x ⟨rest, closed, Nat.le_of_succ_le h⟩

/-- `close(c)` -/
def close (c : Channel α cap) : Channel α cap := { c with closed := true }

@[simp] theorem buffer_empty : (empty : Channel α cap).buffer = [] := rfl

@[simp] theorem closed_empty : (empty : Channel α cap).closed = false := rfl

@[simp] theorem buffer_close (c : Channel α cap) : c.close.buffer = c.buffer := rfl

@[simp] theorem closed_close (c : Channel α cap) : c.close.closed = true := rfl

/-- A send that goes through puts its item last. -/
theorem send_eq_some {c c' : Channel α cap} {x : α} (h : c.send x = some c') :
    c'.buffer = c.buffer ++ [x] ∧ c'.closed = c.closed := by
  rw [send] at h
  split at h
  · cases h
    exact ⟨rfl, rfl⟩
  · cases h

/-- An offer puts its item last if there is room. -/
theorem buffer_offer (c : Channel α cap) (x : α) :
    (c.offer x).buffer = c.buffer ++ if c.buffer.length < cap then [x] else [] := by
  rw [offer, send]
  split
  · rfl
  · exact (List.append_nil _).symm

theorem closed_offer (c : Channel α cap) (x : α) : (c.offer x).closed = c.closed := by
  rw [offer, send]
  split <;> rfl

/-- A receive takes the first item. -/
theorem recv_eq_item {c c' : Channel α cap} {x : α} (h : c.recv = .item x c') :
    c.buffer = x :: c'.buffer ∧ c'.closed = c.closed := by
  obtain ⟨buffer, closed, hbounded⟩ := c
  cases buffer with
  | nil => cases closed <;> cases h
  | cons y rest =>
      cases h
      exact ⟨rfl, rfl⟩

/-- A receive finds the channel closed when nothing is left in it. -/
theorem recv_eq_closed {c : Channel α cap} (h : c.recv = .closed) :
    c.buffer = [] ∧ c.closed = true := by
  obtain ⟨buffer, closed, hbounded⟩ := c
  cases buffer with
  | nil =>
      cases closed with
      | true => exact ⟨rfl, rfl⟩
      | false => cases h
  | cons y rest => cases h

/-- A receive waits while the channel is empty and open. -/
theorem recv_eq_blocked {c : Channel α cap} (h : c.recv = .blocked) :
    c.buffer = [] ∧ c.closed = false := by
  obtain ⟨buffer, closed, hbounded⟩ := c
  cases buffer with
  | nil =>
      cases closed with
      | true => cases h
      | false => exact ⟨rfl, rfl⟩
  | cons y rest => cases h

end Channel

end Lib
end Otelop
