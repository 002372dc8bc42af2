import Mathlib.Data.List.Basic

/-!
# Bounded channels

A first-in-first-out channel with one receiver. The sender is refused when the
channel is full, and when the receiver is gone, which takes what is queued with it.
-/

inductive BoundedChannel.Refusal where
  | full
  | closed
deriving DecidableEq

structure BoundedChannel (α : Type*) (capacity : ℕ) where
  items : List α
  receiver : Bool
  bounded : items.length ≤ capacity

namespace BoundedChannel
variable {α : Type*} {capacity : ℕ} {c c' : BoundedChannel α capacity} {a : α}

def empty : BoundedChannel α capacity where
  items := []
  receiver := true
  bounded := Nat.zero_le _

def trySend (c : BoundedChannel α capacity) (a : α) : Except Refusal (BoundedChannel α capacity) :=
  if c.receiver = false then .error .closed
  else if h : c.items.length < capacity then
    .ok { c with items := c.items ++ [a], bounded := by rw [List.length_append]; exact h }
  else .error .full

def recv? (c : BoundedChannel α capacity) : Option (α × BoundedChannel α capacity) :=
  match h : c.items with
  | [] => none
  | a :: rest =>
    have hbounded : rest.length + 1 ≤ capacity := by
      rw [← List.length_cons, ← h]
      exact c.bounded
    some (a, { c with items := rest, bounded := Nat.le_of_succ_le hbounded })

def dropReceiver (_ : BoundedChannel α capacity) : BoundedChannel α capacity where
  items := []
  receiver := false
  bounded := Nat.zero_le _

theorem of_trySend_ok (h : c.trySend a = .ok c') :
    c'.items = c.items ++ [a] ∧ c.receiver = true ∧ c'.receiver = true := by
  unfold trySend at h
  split_ifs at h with hreceiver hroom
  cases h
  rw [Bool.not_eq_false] at hreceiver
  exact ⟨rfl, hreceiver, hreceiver⟩

theorem of_trySend_closed (h : c.trySend a = .error .closed) : c.receiver = false := by
  unfold trySend at h
  split_ifs at h with hreceiver
  · exact hreceiver
  · cases h

theorem of_recv?_eq_some (h : c.recv? = some (a, c')) :
    c.items = a :: c'.items ∧ c'.receiver = c.receiver := by
  unfold recv? at h
  split at h
  · cases h
  · next hitems =>
    cases h
    exact ⟨hitems, rfl⟩

end BoundedChannel
