import Mathlib.Data.List.Induction
import Mathlib.Tactic.Ring
import Mathlib.Tactic.Linarith

/-!
# Regrouping a bit string

A number is written as groups of `w` bits, most significant first. A loop that
turns groups of one width into groups of another shifts each one into an
accumulator and takes groups off its top; what is left over stays for the next
round. The accumulator may be as narrow as what it holds at one time: bits that
fall off its top were taken before.
-/

namespace BitGroups

def value (w : ℕ) (groups : List ℕ) : ℕ := groups.foldl (fun n g => n * 2 ^ w + g) 0

def Fits (w : ℕ) (groups : List ℕ) : Prop := ∀ g ∈ groups, g < 2 ^ w

theorem value_nil (w : ℕ) : value w [] = 0 := rfl

theorem value_snoc (w : ℕ) (groups : List ℕ) (g : ℕ) :
    value w (groups ++ [g]) = value w groups * 2 ^ w + g := by
  rw [value, List.foldl_append]
  rfl

theorem value_append (w : ℕ) (xs ys : List ℕ) :
    value w (xs ++ ys) = value w xs * 2 ^ (w * ys.length) + value w ys := by
  induction ys using List.reverseRecOn with
  | nil => simp [value_nil]
  | append_singleton ys g ih =>
    rw [← List.append_assoc, value_snoc, value_snoc, ih, List.length_append, List.length_singleton,
      Nat.mul_add, Nat.mul_one, pow_add]
    ring

theorem Fits.append {w : ℕ} {xs ys : List ℕ} (hx : Fits w xs) (hy : Fits w ys) :
    Fits w (xs ++ ys) := by
  intro g hg
  rcases List.mem_append.mp hg with hg | hg
  · exact hx g hg
  · exact hy g hg

theorem eq_of_value {w : ℕ} {xs ys : List ℕ} (hx : Fits w xs) (hy : Fits w ys)
    (hlength : xs.length = ys.length) (hvalue : value w xs = value w ys) : xs = ys := by
  induction xs using List.reverseRecOn generalizing ys with
  | nil => exact (List.length_eq_zero_iff.mp hlength.symm).symm
  | append_singleton xs x ih =>
    rcases List.eq_nil_or_concat ys with rfl | ⟨ys, y, rfl⟩
    · simp at hlength
    · rw [List.concat_eq_append] at hy hlength hvalue ⊢
      rw [value_snoc, value_snoc] at hvalue
      have hlast : x < 2 ^ w := hx x (by simp)
      have hlast' : y < 2 ^ w := hy y (by simp)
      have heq : x = y := by
        have hmod := congrArg (· % 2 ^ w) hvalue
        simpa only [Nat.mul_add_mod_self_right, Nat.mod_eq_of_lt hlast,
          Nat.mod_eq_of_lt hlast'] using hmod
      have hrest : value w xs = value w ys := by
        subst heq
        exact Nat.eq_of_mul_eq_mul_right (Nat.two_pow_pos w) (Nat.add_right_cancel hvalue)
      have hfit : Fits w xs := fun g hg => hx g (List.mem_append_left _ hg)
      have hfit' : Fits w ys := fun g hg => hy g (List.mem_append_left _ hg)
      have hlen : xs.length = ys.length := by simpa using hlength
      rw [heq, ih hfit hfit' hlen hrest]

theorem div_join (n j k : ℕ) : n / 2 ^ (j + k) * 2 ^ j + n % 2 ^ (j + k) / 2 ^ k = n / 2 ^ k := by
  rw [pow_add]
  conv_rhs => rw [← Nat.div_add_mod n (2 ^ j * 2 ^ k)]
  rw [Nat.mul_comm (2 ^ j) (2 ^ k), Nat.mul_assoc, Nat.mul_add_div (Nat.two_pow_pos k)]
  ring

def takeGroups (u acc : ℕ) : ℕ → ℕ → List ℕ
  | 0, _ => []
  | turns + 1, bits => (acc >>> (bits - u)) % 2 ^ u :: takeGroups u acc turns (bits - u)

theorem length_takeGroups (u acc turns bits : ℕ) :
    (takeGroups u acc turns bits).length = turns := by
  induction turns generalizing bits with
  | zero => rfl
  | succ turns ih => rw [takeGroups, List.length_cons, ih]

theorem fits_takeGroups (u acc turns bits : ℕ) : Fits u (takeGroups u acc turns bits) := by
  induction turns generalizing bits with
  | zero => exact fun g hg => absurd hg List.not_mem_nil
  | succ turns ih =>
    intro g hg
    rcases List.mem_cons.mp hg with rfl | hg
    · exact Nat.mod_lt _ (Nat.two_pow_pos u)
    · exact ih (bits - u) g hg

theorem value_takeGroups (u acc turns bits : ℕ) (h : u * turns ≤ bits) :
    value u (takeGroups u acc turns bits) = acc % 2 ^ bits / 2 ^ (bits - u * turns) := by
  induction turns generalizing bits with
  | zero =>
    rw [Nat.mul_zero, Nat.sub_zero, Nat.div_eq_of_lt (Nat.mod_lt _ (Nat.two_pow_pos bits))]; rfl
  | succ turns ih =>
    rw [Nat.mul_succ] at h
    obtain ⟨rest, hrest⟩ := Nat.exists_eq_add_of_le h
    have hbits : bits = u + (u * turns + rest) := by omega
    have hleft : bits - u = u * turns + rest := by omega
    have hend : bits - u * (turns + 1) = rest := by rw [Nat.mul_succ]; omega
    have hend' : bits - u - u * turns = rest := by omega
    have hcons : takeGroups u acc (turns + 1) bits =
        [(acc >>> (bits - u)) % 2 ^ u] ++ takeGroups u acc turns (bits - u) := rfl
    rw [hcons, value_append, ih (bits - u) (by omega), length_takeGroups, hend, hend', hleft, hbits,
      Nat.shiftRight_eq_div_pow, ← Nat.mod_mul_left_div_self, ← pow_add]
    have hone : value u [acc % 2 ^ (u + (u * turns + rest)) / 2 ^ (u * turns + rest)] =
        acc % 2 ^ (u + (u * turns + rest)) / 2 ^ (u * turns + rest) := by simp [value]
    rw [hone]
    -- what is above the first group, then the rest of the number
    set top := acc % 2 ^ (u + (u * turns + rest)) with htop
    have hlow : acc % 2 ^ (u * turns + rest) = top % 2 ^ (u * turns + rest) := by
      rw [htop, Nat.mod_mod_of_dvd]
      exact pow_dvd_pow 2 (Nat.le_add_left _ _)
    rw [hlow]
    exact div_join top (u * turns) rest

/-- Where a regrouping loop stands: it has read `total` bits that write `n`, all but the last `bits`
of them are out, and the accumulator of `width` bits holds what it can of `n`. -/
structure Regrouped (u width total n bits acc : ℕ) (out : List ℕ) : Prop where
  acc : acc = n % 2 ^ width
  fits : Fits u out
  value : value u out = n / 2 ^ bits
  length : u * out.length + bits = total

theorem regrouped_start (u width : ℕ) : Regrouped u width 0 0 0 0 [] :=
  ⟨by simp, fun g hg => absurd hg List.not_mem_nil, by simp [value_nil], by simp⟩

theorem Regrouped.absorb {u width total n bits acc : ℕ} {out : List ℕ}
    (h : Regrouped u width total n bits acc out) {w v : ℕ} (hv : v < 2 ^ w)
    (hwidth : bits + w ≤ width) (turns : ℕ) (hturns : u * turns ≤ bits + w) :
    Regrouped u width (total + w) (n * 2 ^ w + v) (bits + w - u * turns)
      ((acc <<< w ||| v) % 2 ^ width)
      (out ++ takeGroups u ((acc <<< w ||| v) % 2 ^ width) turns (bits + w)) := by
  have hacc : (acc <<< w ||| v) % 2 ^ width = (n * 2 ^ w + v) % 2 ^ width := by
    rw [← Nat.shiftLeft_add_eq_or_of_lt hv, Nat.shiftLeft_eq, h.acc, Nat.add_mod, Nat.mod_mul_mod,
      ← Nat.add_mod]
  refine ⟨hacc, h.fits.append (fits_takeGroups _ _ _ _), ?_, ?_⟩
  · have hmod : (acc <<< w ||| v) % 2 ^ width % 2 ^ (bits + w) =
        (n * 2 ^ w + v) % 2 ^ (bits + w) := by
      rw [hacc, Nat.mod_mod_of_dvd]
      exact pow_dvd_pow 2 hwidth
    have hold : n / 2 ^ bits = (n * 2 ^ w + v) / 2 ^ (bits + w) := by
      rw [pow_add, Nat.mul_comm (2 ^ bits), ← Nat.div_div_eq_div_mul, Nat.mul_comm n,
        Nat.mul_add_div (Nat.two_pow_pos w), Nat.div_eq_of_lt hv, Nat.add_zero]
    obtain ⟨rest, hrest⟩ := Nat.exists_eq_add_of_le hturns
    have hend : bits + w - u * turns = rest := by omega
    rw [value_append, h.value, value_takeGroups _ _ _ _ hturns, hmod, length_takeGroups,
      hold, hend, hrest]
    exact div_join (n * 2 ^ w + v) (u * turns) rest
  · rw [List.length_append, length_takeGroups, Nat.mul_add]
    have := h.length
    omega

end BitGroups
