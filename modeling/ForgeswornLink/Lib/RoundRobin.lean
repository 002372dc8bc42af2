import Mathlib.Data.Nat.ModEq

/-!
# Taking turns

A counter goes round a list of `m` places. `toGo m k i` is the number of turns
until it is the turn of place `k`.
-/

namespace RoundRobin

def toGo (m k i : ℕ) : ℕ := (k + (m - i % m)) % m

variable {m k i : ℕ}

theorem toGo_lt (hm : 0 < m) (k i : ℕ) : toGo m k i < m := Nat.mod_lt _ hm

theorem toGo_eq (hk : k < m) (i : ℕ) :
    toGo m k i = if i % m ≤ k then k - i % m else k + m - i % m := by
  have hi : i % m < m := Nat.mod_lt _ (by omega)
  unfold toGo
  split_ifs with h
  · have hsum : k + (m - i % m) = k - i % m + m := by omega
    rw [hsum, Nat.add_mod_right, Nat.mod_eq_of_lt (by omega)]
  · rw [Nat.mod_eq_of_lt (by omega)]
    omega

theorem toGo_succ (hk : k < m) (h : i % m ≠ k) : toGo m k (i + 1) + 1 = toGo m k i := by
  have hi : i % m < m := Nat.mod_lt _ (by omega)
  rw [toGo_eq hk, toGo_eq hk]
  by_cases hlast : i % m + 1 = m
  · have hnext : (i + 1) % m = 0 := by
      rw [← Nat.mod_add_mod, hlast, Nat.mod_self]
    rw [hnext]
    split_ifs <;> omega
  · have hnext : (i + 1) % m = i % m + 1 := by
      rw [← Nat.mod_add_mod, Nat.mod_eq_of_lt (by omega)]
    rw [hnext]
    split_ifs <;> omega

end RoundRobin
