import Mathlib.Data.List.Basic
import Mathlib.Data.List.Infix
import Mathlib.Data.List.Defs
import Mathlib.Algebra.Ring.Nat

/-!
# Reading a counted body off a stream

An ordered stream that may be cut is what still arrives on it and the error a
read that needs more than that reports. A reader that knows how much it wants
takes it in pieces of a bounded length. It ends well exactly if as much as it
wants arrives, and what it took is then all of that; otherwise it took whole
pieces from the front of what arrived.
-/

namespace CountedStream

universe u v
variable {α : Type u} {E : Type v}

theorem flatten_toChunks_go (n : ℕ) (xs : List α) (part : Array α) (parts : Array (List α)) :
    (List.toChunks.go n xs part parts).flatten =
      parts.toList.flatten ++ part.toList ++ xs := by
  induction xs generalizing part parts with
  | nil => simp [List.toChunks.go]
  | cons x xs ih =>
    rw [List.toChunks.go]
    split_ifs <;> simp [ih]

@[simp] theorem flatten_toChunks (n : ℕ) (xs : List α) : (xs.toChunks n).flatten = xs := by
  cases xs with
  | nil => cases n <;> simp [List.toChunks]
  | cons x xs =>
    cases n with
    | zero => simp [List.toChunks]
    | succ n => simp [List.toChunks, flatten_toChunks_go]

structure Incoming (α : Type u) (E : Type v) where
  arriving : List α
  -- What a read reports that comes up short, given how much it got.
  short : ℕ → E

namespace Incoming
variable {s s' : Incoming α E} {n : ℕ}

def readExact (s : Incoming α E) (n : ℕ) : Except E (List α × Incoming α E) :=
  if n ≤ s.arriving.length then .ok (s.arriving.take n, { s with arriving := s.arriving.drop n })
  else .error (s.short s.arriving.length)

theorem readExact_of_le (h : n ≤ s.arriving.length) :
    s.readExact n = .ok (s.arriving.take n, { s with arriving := s.arriving.drop n }) := if_pos h

theorem readExact_of_lt (h : s.arriving.length < n) :
    s.readExact n = .error (s.short s.arriving.length) := if_neg (by omega)

theorem readExact_eq_ok {xs : List α} : s.readExact n = .ok (xs, s') ↔
    n ≤ s.arriving.length ∧ xs = s.arriving.take n ∧
      s' = { s with arriving := s.arriving.drop n } := by
  by_cases h : n ≤ s.arriving.length
  · rw [readExact_of_le h, Except.ok.injEq, Prod.mk.injEq, eq_comm, @eq_comm _ _ s']
    exact (and_iff_right h).symm
  · rw [readExact_of_lt (not_le.mp h)]
    exact iff_of_false (fun hok => by cases hok) fun hok => h hok.1

theorem readExact_append {xs ys : List α} (short : ℕ → E) (h : xs.length = n) :
    readExact ⟨xs ++ ys, short⟩ n = .ok (xs, ⟨ys, short⟩) := by
  subst h
  rw [readExact_of_le (by simp), List.take_left, List.drop_left]

end Incoming

def readCounted (bound : ℕ) [NeZero bound] (s : Incoming α E) (wanted : ℕ) :
    List (List α) × Option E :=
  if wanted = 0 then ([], none)
  else
    match s.readExact (min wanted bound) with
    | .error e => ([], some e)
    | .ok (piece, s') =>
      let rest := readCounted bound s' (wanted - min wanted bound)
      (piece :: rest.1, rest.2)
termination_by wanted
decreasing_by
  have hbound := Nat.pos_of_neZero bound
  omega

variable {bound wanted : ℕ} [NeZero bound] {s : Incoming α E}

theorem readCounted_zero (s : Incoming α E) : readCounted bound s 0 = ([], none) := by
  rw [readCounted, if_pos rfl]

theorem readCounted_short (hpos : wanted ≠ 0) (h : s.arriving.length < min wanted bound) :
    readCounted bound s wanted = ([], some (s.short s.arriving.length)) := by
  rw [readCounted, if_neg hpos, Incoming.readExact_of_lt h]

theorem readCounted_piece (hpos : wanted ≠ 0) (h : min wanted bound ≤ s.arriving.length) :
    readCounted bound s wanted =
      let rest := readCounted bound { s with arriving := s.arriving.drop (min wanted bound) }
        (wanted - min wanted bound)
      (s.arriving.take (min wanted bound) :: rest.1, rest.2) := by
  rw [readCounted, if_neg hpos, Incoming.readExact_of_le h]

structure Exact (bound : ℕ) (arriving : List α) (wanted : ℕ) (r : List (List α) × Option E) :
    Prop where
  front : r.1.flatten <+: arriving
  bounded : ∀ piece ∈ r.1, piece.length ≤ bound
  atMost : r.1.flatten.length ≤ wanted
  complete : r.2 = none ↔ r.1.flatten.length = wanted
  enough : r.2 = none ↔ wanted ≤ arriving.length

theorem exact_readCounted (bound : ℕ) [NeZero bound] (s : Incoming α E) (wanted : ℕ) :
    Exact bound s.arriving wanted (readCounted bound s wanted) := by
  induction wanted using Nat.strong_induction_on generalizing s with
  | _ wanted ih =>
    by_cases hzero : wanted = 0
    · subst hzero
      rw [readCounted_zero]
      exact ⟨by simp, by simp, by simp, by simp, by simp⟩
    by_cases hshort : s.arriving.length < min wanted bound
    · rw [readCounted_short hzero hshort]
      exact ⟨by simp, by simp, by simp, by simp; omega, by simp; omega⟩
    rw [not_lt] at hshort
    have hbound := Nat.pos_of_neZero bound
    rw [readCounted_piece hzero hshort]
    have hrest := ih (wanted - min wanted bound) (by omega)
      { s with arriving := s.arriving.drop (min wanted bound) }
    generalize readCounted bound { s with arriving := s.arriving.drop (min wanted bound) }
      (wanted - min wanted bound) = rest at hrest ⊢
    have hpiece : (s.arriving.take (min wanted bound)).length = min wanted bound :=
      List.length_take_of_le hshort
    have hlength : ((s.arriving.take (min wanted bound) :: rest.1).flatten).length =
        min wanted bound + rest.1.flatten.length := by
      rw [List.flatten_cons, List.length_append, hpiece]
    have hmost := hrest.atMost
    refine ⟨?_, ?_, hlength.le.trans (by omega), ?_, ?_⟩
    · have hfront := (List.prefix_append_right_inj (s.arriving.take (min wanted bound))).mpr
        hrest.front
      rwa [List.take_append_drop] at hfront
    · intro piece hmem
      rcases List.mem_cons.mp hmem with rfl | hmem
      · omega
      · exact hrest.bounded piece hmem
    · rw [hlength]
      refine hrest.complete.trans ?_
      omega
    · refine hrest.enough.trans ?_
      rw [List.length_drop]
      omega

end CountedStream
