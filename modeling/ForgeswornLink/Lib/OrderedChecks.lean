import Mathlib.Order.Bounds.Basic

/-!
# Ordered checks

A validator runs its checks in the order of their rule numbers and reports the
first that fails. `SettlesFrom n c` says that the computation `c` decides every
rule from `n` on: it succeeds only when none of them is violated, and its error
carries the least violated one. The rules below follow the shape of such a
validator, one for a check and one for passing to the next rule number.
-/

namespace OrderedChecks

universe u v
variable {E : Type u} {α β : Type v}

def deny (bad : Prop) [Decidable bad] (e : E) : Except E PUnit.{v + 1} :=
  if bad then .error e else .ok ⟨⟩

theorem deny_eq_ok {bad : Prop} [Decidable bad] {e : E} {u : PUnit} :
    deny bad e = .ok u ↔ ¬ bad := by
  by_cases hbad : bad
  · rw [deny, if_pos hbad]
    exact iff_of_false (fun h => nomatch h) (fun h => h hbad)
  · rw [deny, if_neg hbad]
    exact iff_of_true rfl hbad

theorem bind_eq_ok {c : Except E β} {f : β → Except E α} {a : α} :
    (c >>= f) = .ok a ↔ ∃ b, c = .ok b ∧ f b = .ok a := by
  cases c with
  | error e =>
    refine iff_of_false (fun h => nomatch h) ?_
    rintro ⟨b, hb, -⟩
    cases hb
  | ok b =>
    constructor
    · intro h
      exact ⟨b, rfl, h⟩
    · rintro ⟨b', hb, h⟩
      rw [← Except.ok.inj hb] at h
      exact h

theorem exists_ok_of_any {c : Except E α} {p : α → Prop} [DecidablePred p]
    (h : c.toOption.any (fun a => decide (p a)) = true) : ∃ a, c = .ok a ∧ p a := by
  cases c with
  | error e => cases h
  | ok a => exact ⟨a, rfl, of_decide_eq_true h⟩

variable (rank : E → ℕ) (Violated : ℕ → Prop)

structure SettlesFrom (n : ℕ) (c : Except E α) : Prop where
  ok : ∀ a, c = .ok a → ∀ k, n ≤ k → ¬ Violated k
  error : ∀ e, c = .error e → IsLeast {k | n ≤ k ∧ Violated k} (rank e)

variable {rank Violated} {n : ℕ}

theorem settlesFrom_ok {a : α} (h : ∀ k, n ≤ k → ¬ Violated k) :
    SettlesFrom rank Violated n (.ok a : Except E α) where
  ok := fun _ _ => h
  error := fun _ he => nomatch he

theorem settlesFrom_error {e : E} (hrank : rank e = n) (h : Violated n) :
    SettlesFrom rank Violated n (.error e : Except E α) where
  ok := fun _ ha => nomatch ha
  error := by
    intro e' he
    obtain rfl := Except.error.inj he
    rw [hrank]
    exact ⟨⟨le_rfl, h⟩, fun k hk => hk.1⟩

theorem settlesFrom_bind {c : Except E β} {f : β → Except E α}
    (herror : ∀ e, c = .error e → rank e = n ∧ Violated n)
    (hok : ∀ b, c = .ok b → SettlesFrom rank Violated n (f b)) :
    SettlesFrom rank Violated n (c >>= f) := by
  cases hc : c with
  | error e =>
    obtain ⟨hrank, h⟩ := herror e hc
    exact settlesFrom_error hrank h
  | ok b => exact hok b hc

theorem settlesFrom_deny {bad : Prop} [Decidable bad] {e : E} {f : PUnit → Except E α}
    (herror : bad → rank e = n ∧ Violated n)
    (hok : ¬ bad → SettlesFrom rank Violated n (f ⟨⟩)) :
    SettlesFrom rank Violated n (deny bad e >>= f) := by
  by_cases hbad : bad
  · obtain ⟨hrank, h⟩ := herror hbad
    rw [deny, if_pos hbad]
    exact settlesFrom_error hrank h
  · rw [deny, if_neg hbad]
    exact hok hbad

theorem SettlesFrom.next {c : Except E α} (h : ¬ Violated n)
    (hc : SettlesFrom rank Violated (n + 1) c) : SettlesFrom rank Violated n c where
  ok := by
    intro a ha k hk
    rcases Nat.eq_or_lt_of_le hk with rfl | hk
    · exact h
    · exact hc.ok a ha k hk
  error := by
    intro e he
    obtain ⟨⟨hn, hv⟩, hleast⟩ := hc.error e he
    refine ⟨⟨by omega, hv⟩, ?_⟩
    rintro k ⟨hk, hkv⟩
    rcases Nat.eq_or_lt_of_le hk with rfl | hk
    · exact absurd hkv h
    · exact hleast ⟨hk, hkv⟩

theorem SettlesFrom.ok_iff {c : Except E α} (hc : SettlesFrom rank Violated n c) :
    (∃ a, c = .ok a) ↔ ∀ k, n ≤ k → ¬ Violated k := by
  constructor
  · rintro ⟨a, ha⟩
    exact hc.ok a ha
  · intro h
    cases hr : c with
    | ok a => exact ⟨a, rfl⟩
    | error e =>
      obtain ⟨⟨hn, hv⟩, -⟩ := hc.error e hr
      exact absurd hv (h _ hn)

end OrderedChecks
