import Mathlib.Data.List.Destutter
import Mathlib.Data.List.Induction

/-!
# Lists up to immediate repetition

`squeeze` leaves one of every block of equal neighbours. What a list squeezes to
is decided from the end: one more element is dropped exactly if it repeats the
last one.
-/

namespace Stutter
variable {α : Type*} [DecidableEq α]

abbrev squeeze (xs : List α) : List α := xs.destutter (· ≠ ·)

theorem squeeze_cons_snoc (xs : List α) (b a : α) :
    squeeze (b :: (xs ++ [a])) =
      if (b :: xs).getLast? = some a then squeeze (b :: xs) else squeeze (b :: xs) ++ [a] := by
  induction xs generalizing b with
  | nil =>
    by_cases h : b = a
    · simp [h]
    · simp [h]
  | cons c xs ih =>
    by_cases h : b = c
    · subst h
      have hdrop : ∀ ys : List α, squeeze (b :: b :: ys) = squeeze (b :: ys) := fun ys =>
        (List.destutter_cons_cons ..).trans (if_neg (by simp))
      rw [List.cons_append, hdrop, hdrop, ih b, List.getLast?_cons_cons]
    · have hkeep : ∀ ys : List α, squeeze (b :: c :: ys) = b :: squeeze (c :: ys) := fun ys =>
        (List.destutter_cons_cons ..).trans (if_pos h)
      rw [List.cons_append, hkeep, hkeep, ih c, List.getLast?_cons_cons]
      split_ifs <;> rfl

theorem squeeze_snoc (xs : List α) (a : α) :
    squeeze (xs ++ [a]) = if xs.getLast? = some a then squeeze xs else squeeze xs ++ [a] := by
  cases xs with
  | nil => rfl
  | cons b xs => exact squeeze_cons_snoc xs b a

theorem getLast?_squeeze (xs : List α) : (squeeze xs).getLast? = xs.getLast? := by
  induction xs using List.reverseRecOn with
  | nil => rfl
  | append_singleton xs a ih =>
    rw [squeeze_snoc]
    split_ifs with hlast
    · rw [ih, hlast, List.getLast?_concat]
    · rw [List.getLast?_concat, List.getLast?_concat]

theorem head?_squeeze (xs : List α) : (squeeze xs).head? = xs.head? := by
  induction xs using List.reverseRecOn with
  | nil => rfl
  | append_singleton xs a ih =>
    rw [squeeze_snoc]
    cases xs with
    | nil => rfl
    | cons b xs =>
      split_ifs
      · exact ih
      · rw [List.head?_append, ih]
        rfl

theorem squeeze_snoc_self {xs : List α} {a : α} (h : xs.getLast? = some a) :
    squeeze (xs ++ [a]) = squeeze xs := by
  rw [squeeze_snoc, if_pos h]

theorem squeeze_snoc_congr {xs ys : List α} (h : squeeze xs = squeeze ys) (a : α) :
    squeeze (xs ++ [a]) = squeeze (ys ++ [a]) := by
  have hlast : xs.getLast? = ys.getLast? := by rw [← getLast?_squeeze, h, getLast?_squeeze]
  rw [squeeze_snoc, squeeze_snoc, h, hlast]

end Stutter
