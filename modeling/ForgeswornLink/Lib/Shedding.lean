import Mathlib.Algebra.BigOperators.Group.List.Basic
import Mathlib.Algebra.Order.BigOperators.Group.List
import Mathlib.Logic.Function.Iterate
import Mathlib.Tactic.Linarith

/-!
# Making room by shedding the oldest

A list holds items some of which may be shed. Room is made by shedding the oldest
such item again and again, until the list fits or nothing that may be shed is left.
The loop sheds the least number that fits; it fails exactly where even the list
without any sheddable item does not fit.
-/

namespace Shedding

variable {α : Type*} (p : α → Bool)

def shed (n : ℕ) (l : List α) : List α := (List.eraseP p)^[n] l

def hold (l : List α) : List α := l.filter fun a => !p a

@[simp] theorem shed_zero (l : List α) : shed p 0 l = l := rfl

theorem shed_succ (n : ℕ) (l : List α) : shed p (n + 1) l = shed p n (l.eraseP p) :=
  Function.iterate_succ_apply _ n l

variable {p}

theorem eraseP_of_find? {l : List α} {a : α} (h : l.find? p = some a) :
    p a = true ∧ ∃ front back, l = front ++ a :: back ∧ l.eraseP p = front ++ back ∧
      ∀ b ∈ front, p b = false := by
  obtain ⟨ha, front, back, rfl, hfront⟩ := List.find?_eq_some_iff_append.mp h
  have hnot : ∀ b ∈ front, p b = false := fun b hb => by simpa using hfront b hb
  refine ⟨ha, front, back, rfl, ?_, hnot⟩
  rw [List.eraseP_append_right _ fun b hb => by simp [hnot b hb], List.eraseP_cons_of_pos ha]

theorem hold_eraseP (l : List α) : hold p (l.eraseP p) = hold p l := by
  cases hfind : l.find? p with
  | none => rw [List.eraseP_of_forall_not (List.find?_eq_none.mp hfind)]
  | some a =>
    obtain ⟨ha, front, back, hl, herase, -⟩ := eraseP_of_find? hfind
    rw [herase, hl]
    simp [hold, ha]

theorem countP_eraseP {l : List α} {a : α} (h : l.find? p = some a) :
    (l.eraseP p).countP p + 1 = l.countP p := by
  obtain ⟨ha, front, back, hl, herase, -⟩ := eraseP_of_find? h
  rw [herase, hl, List.countP_append, List.countP_append, List.countP_cons_of_pos ha]
  omega

theorem sum_eraseP (weight : α → ℕ) {l : List α} {a : α} (h : l.find? p = some a) :
    ((l.eraseP p).map weight).sum + weight a = (l.map weight).sum := by
  obtain ⟨-, front, back, hl, herase, -⟩ := eraseP_of_find? h
  rw [herase, hl]
  simp only [List.map_append, List.map_cons, List.sum_append, List.sum_cons]
  omega

theorem hold_eq_self {l : List α} (h : l.find? p = none) : hold p l = l :=
  List.filter_eq_self.mpr fun a ha => by simpa using List.find?_eq_none.mp h a ha

/-- One list comes from another by leaving out sheddable items only. -/
structure Spares (p : α → Bool) (l' l : List α) : Prop where
  sublist : l'.Sublist l
  held : hold p l' = hold p l

theorem Spares.refl (l : List α) : Spares p l l := ⟨List.Sublist.refl l, rfl⟩

theorem Spares.trans {l₁ l₂ l₃ : List α} (h : Spares p l₁ l₂) (h' : Spares p l₂ l₃) :
    Spares p l₁ l₃ := ⟨h.sublist.trans h'.sublist, h.held.trans h'.held⟩

theorem Spares.append {l₁ l₂ l₃ l₄ : List α} (h : Spares p l₁ l₂) (h' : Spares p l₃ l₄) :
    Spares p (l₁ ++ l₃) (l₂ ++ l₄) := by
  refine ⟨h.sublist.append h'.sublist, ?_⟩
  have h₁ := h.held
  have h₂ := h'.held
  simp only [hold, List.filter_append] at h₁ h₂ ⊢
  rw [h₁, h₂]

theorem spares_eraseP (l : List α) : Spares p (l.eraseP p) l :=
  ⟨List.eraseP_sublist, hold_eraseP l⟩

theorem spares_shed (n : ℕ) (l : List α) : Spares p (shed p n l) l := by
  induction n generalizing l with
  | zero => exact .refl l
  | succ n ih =>
    rw [shed_succ]
    exact (ih _).trans (spares_eraseP l)

theorem hold_sublist_shed (n : ℕ) (l : List α) : (hold p l).Sublist (shed p n l) := by
  rw [← (spares_shed n l).held]
  exact List.filter_sublist

section Loop
variable (p) (fits : List α → Bool)

def makeRoom (l : List α) : List α × Bool :=
  if fits l then (l, true)
  else
    match _h : l.find? p with
    | none => (l, false)
    | some _ => makeRoom (l.eraseP p)
termination_by l.countP p
decreasing_by
  have hcount := countP_eraseP _h
  omega

variable {p fits}

theorem makeRoom_of_fits {l : List α} (h : fits l = true) : makeRoom p fits l = (l, true) := by
  rw [makeRoom, if_pos h]

theorem makeRoom_of_none {l : List α} (h : fits l = false) (hfind : l.find? p = none) :
    makeRoom p fits l = (l, false) := by
  rw [makeRoom, if_neg (by simp [h])]
  split
  · rfl
  · simp_all

theorem makeRoom_of_some {l : List α} {a : α} (h : fits l = false) (hfind : l.find? p = some a) :
    makeRoom p fits l = makeRoom p fits (l.eraseP p) := by
  conv_lhs => rw [makeRoom, if_neg (by simp [h])]
  split
  · simp_all
  · rfl

variable (p fits) in
theorem makeRoom_spec (l : List α) :
    ∃ n ≤ l.countP p, makeRoom p fits l = (shed p n l, fits (shed p n l)) ∧
      (∀ m < n, fits (shed p m l) = false) ∧
      (fits (shed p n l) = false → shed p n l = hold p l) := by
  induction hcount : l.countP p generalizing l with
  | zero =>
    refine ⟨0, le_rfl, ?_, fun m hm => absurd hm (Nat.not_lt_zero m), fun _ => ?_⟩
    · have hfind : l.find? p = none := List.find?_eq_none.mpr (List.countP_eq_zero.mp hcount)
      cases hfits : fits l with
      | true => simpa [hfits] using makeRoom_of_fits hfits
      | false => simpa [hfits] using makeRoom_of_none hfits hfind
    · exact (hold_eq_self (List.find?_eq_none.mpr (List.countP_eq_zero.mp hcount))).symm
  | succ k ih =>
    cases hfits : fits l with
    | true =>
      refine ⟨0, Nat.zero_le _, ?_, fun m hm => absurd hm (Nat.not_lt_zero m), fun h => ?_⟩
      · simpa [hfits] using makeRoom_of_fits hfits
      · rw [shed_zero, hfits] at h
        cases h
    | false =>
      obtain ⟨a, ha, hpa⟩ := List.countP_pos_iff.mp (by omega : 0 < l.countP p)
      obtain ⟨b, hfind⟩ := Option.isSome_iff_exists.mp (List.find?_isSome.mpr ⟨a, ha, hpa⟩)
      have hless := countP_eraseP hfind
      obtain ⟨n, hn, hroom, hmin, hlast⟩ := ih (l.eraseP p) (by omega)
      refine ⟨n + 1, by omega, ?_, fun m hm => ?_, fun h => ?_⟩
      · rw [makeRoom_of_some hfits hfind, hroom, shed_succ]
      · cases m with
        | zero => exact hfits
        | succ m =>
          rw [shed_succ]
          exact hmin m (by omega)
      · rw [shed_succ] at h ⊢
        rw [hlast h, hold_eraseP]

/-- Where shorter lists fit better, only what may not be shed decides whether room can be made. -/
theorem makeRoom_snd (hmono : ∀ {l l' : List α}, l'.Sublist l → fits l = true → fits l' = true)
    (l : List α) : (makeRoom p fits l).2 = fits (hold p l) := by
  obtain ⟨n, -, hroom, -, hlast⟩ := makeRoom_spec p fits l
  rw [hroom]
  change fits (shed p n l) = fits (hold p l)
  cases hfits : fits (shed p n l) with
  | true => exact (hmono (hold_sublist_shed n l) hfits).symm
  | false => rw [← hlast hfits, hfits]

end Loop

end Shedding
