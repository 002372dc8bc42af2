import Mathlib.Data.Option.Basic
import Mathlib.Logic.Function.Basic

/-!
# An index that inverts a partial assignment

Values may be assigned one key each, and an index maps a key back to its value.
`Inverse` says that the two agree exactly. Forgetting a value with its key keeps
that; assigning a key keeps it precisely when neither the value had another key
nor the key another value.
-/

namespace InverseIndex

universe u v
variable {K : Type u} {V : Type v} [DecidableEq K] [DecidableEq V]
  {index : K → Option V} {key : V → Option K}

def Inverse (index : K → Option V) (key : V → Option K) : Prop :=
  ∀ k v, index k = some v ↔ key v = some k

omit [DecidableEq K] [DecidableEq V] in
theorem inverse_empty : Inverse (fun _ : K => (none : Option V)) (fun _ => none) := by
  intro k v
  simp

theorem Inverse.forget (h : Inverse index key) {v : V} {k : K} (hkey : key v = some k) :
    Inverse (Function.update index k none) (Function.update key v none) := by
  intro k' v'
  have hback := (h k v).mpr hkey
  by_cases hk : k' = k
  · subst hk
    rw [Function.update_self]
    by_cases hv : v' = v
    · rw [hv, Function.update_self]
      simp
    · rw [Function.update_of_ne hv, ← h k' v', hback]
      simp [Ne.symm hv]
  · rw [Function.update_of_ne hk, h k' v']
    by_cases hv : v' = v
    · rw [hv, Function.update_self, hkey]
      simp [Ne.symm hk]
    · rw [Function.update_of_ne hv]

theorem Inverse.assign_iff (h : Inverse index key) {v : V} {k : K} :
    Inverse (Function.update index k (some v)) (Function.update key v (some k)) ↔
      (∀ k', key v = some k' → k' = k) ∧ (∀ v', index k = some v' → v' = v) := by
  constructor
  · intro hnew
    refine ⟨?_, ?_⟩
    · intro k' hk'
      by_contra hne
      have hv := (hnew k' v).mp (by rw [Function.update_of_ne hne, (h k' v).mpr hk'])
      rw [Function.update_self] at hv
      exact hne (Option.some.inj hv).symm
    · intro v' hv'
      by_contra hne
      have hk := (hnew k v').mpr (by rw [Function.update_of_ne hne, (h k v').mp hv'])
      rw [Function.update_self] at hk
      exact hne (Option.some.inj hk).symm
  · rintro ⟨honly, hfree⟩ k' v'
    by_cases hk : k' = k
    · subst hk
      rw [Function.update_self, Option.some.injEq]
      by_cases hv : v' = v
      · rw [hv, Function.update_self]
        simp
      · rw [Function.update_of_ne hv, ← h k' v']
        exact iff_of_false (Ne.symm hv) fun hi => hv (hfree v' hi)
    · rw [Function.update_of_ne hk, h k' v']
      by_cases hv : v' = v
      · subst hv
        rw [Function.update_self, Option.some.injEq]
        exact iff_of_false (fun hi => hk (honly k' hi)) (Ne.symm hk)
      · rw [Function.update_of_ne hv]

end InverseIndex
