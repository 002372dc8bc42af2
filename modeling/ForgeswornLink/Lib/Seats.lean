import ForgeswornLink.Lib.Table
import Mathlib.Data.List.Nodup
import Mathlib.Order.MinMax

/-!
# Seats

Every key of a chart has at most `cap` seats. Someone who takes a seat at a key
that is full turns out the holder with the smallest name, which may be the
newcomer. `register` replaces the keys of one name: it gives up its seats at the
old keys and takes one at each new key, in order. The result is described key by
key (`holders_register`), and whoever lost a seat is in the list of those turned
out (`mem_out_register`).
-/

namespace Seats

universe u v
variable {K : Type u} {α : Type v}

section Row
variable [LinearOrder α]

def oldest (x : α) (row : List α) : α := row.foldl min x

theorem oldest_spec (x : α) (row : List α) :
    oldest x row ∈ x :: row ∧ ∀ y ∈ x :: row, oldest x row ≤ y := by
  induction row generalizing x with
  | nil => simp [oldest]
  | cons z row ih =>
    obtain ⟨hmem, hle⟩ := ih (min x z)
    have hmin := hle (min x z) List.mem_cons_self
    have hstep : oldest x (z :: row) = oldest (min x z) row := rfl
    rw [hstep]
    constructor
    · rcases List.mem_cons.mp hmem with h | h
      · rw [h]
        rcases min_choice x z with hx | hz
        · simp [hx]
        · simp [hz]
      · simp [h]
    · intro y hy
      rcases List.mem_cons.mp hy with rfl | hy
      · exact hmin.trans (min_le_left _ _)
      · rcases List.mem_cons.mp hy with rfl | hy
        · exact hmin.trans (min_le_right _ _)
        · exact hle y (List.mem_cons_of_mem _ hy)

def turnOut : ℕ → List α → List α × List α
  | 0, row => (row, [])
  | _ + 1, [] => ([], [])
  | n + 1, x :: row =>
    let out := oldest x row
    let rest := turnOut n ((x :: row).erase out)
    (rest.1, out :: rest.2)

def seat (cap : ℕ) (row : List α) (x : α) : List α × List α :=
  if x ∈ row then (row, []) else turnOut (row.length + 1 - cap) (row ++ [x])

variable {cap : ℕ} {row : List α} {x y : α}

theorem seat_of_mem (h : x ∈ row) : seat cap row x = (row, []) := by
  simp [seat, h]

theorem seat_of_lt (h : x ∉ row) (hlt : row.length < cap) :
    seat cap row x = (row ++ [x], []) := by
  have hzero : row.length + 1 - cap = 0 := by omega
  simp [seat, h, hzero, turnOut]

theorem seat_of_full (h : x ∉ row) (hfull : row.length = cap) :
    ∃ out ∈ row ++ [x], (∀ z ∈ row ++ [x], out ≤ z) ∧
      seat cap row x = ((row ++ [x]).erase out, [out]) := by
  have hone : row.length + 1 - cap = 1 := by omega
  cases hr : row ++ [x] with
  | nil => simp at hr
  | cons z zs =>
    obtain ⟨hmem, hle⟩ := oldest_spec z zs
    refine ⟨oldest z zs, hmem, hle, ?_⟩
    simp only [seat, h, if_false, hone, hr, turnOut]

structure Seated (cap : ℕ) (row : List α) : Prop where
  nodup : row.Nodup
  length_le : row.length ≤ cap

omit [LinearOrder α] in
theorem Seated.newcomer (h : Seated cap row) (hx : x ∉ row) : (row ++ [x]).Nodup := by
  rw [List.nodup_append]
  refine ⟨h.nodup, by simp, ?_⟩
  intro a ha b hb hab
  rw [List.mem_singleton] at hb
  subst hb hab
  exact hx ha

theorem seated_seat (h : Seated cap row) (x : α) : Seated cap (seat cap row x).1 := by
  by_cases hx : x ∈ row
  · simpa [seat_of_mem hx] using h
  · have hnd := h.newcomer hx
    rcases Nat.lt_or_eq_of_le h.length_le with hlt | heq
    · rw [seat_of_lt hx hlt]
      exact ⟨hnd, by simp; omega⟩
    · obtain ⟨out, hmem, -, hs⟩ := seat_of_full hx heq
      rw [hs]
      refine ⟨hnd.erase out, ?_⟩
      rw [List.length_erase_of_mem hmem]
      simp [heq]

theorem seat_ne_nil (hcap : 0 < cap) (h : Seated cap row) (x : α) : (seat cap row x).1 ≠ [] := by
  by_cases hx : x ∈ row
  · rw [seat_of_mem hx]
    exact List.ne_nil_of_mem hx
  · rcases Nat.lt_or_eq_of_le h.length_le with hlt | heq
    · simp [seat_of_lt hx hlt]
    · obtain ⟨out, hmem, -, hs⟩ := seat_of_full hx heq
      rw [hs, ← List.length_pos_iff, List.length_erase_of_mem hmem]
      simp [heq, hcap]

theorem mem_of_mem_seat (h : Seated cap row) (hy : y ∈ (seat cap row x).1) : y ∈ row ∨ y = x := by
  by_cases hx : x ∈ row
  · rw [seat_of_mem hx] at hy
    exact Or.inl hy
  · have hsub : y ∈ row ++ [x] := by
      rcases Nat.lt_or_eq_of_le h.length_le with hlt | heq
      · rwa [seat_of_lt hx hlt] at hy
      · obtain ⟨out, -, -, hs⟩ := seat_of_full hx heq
        rw [hs] at hy
        exact List.mem_of_mem_erase hy
    simpa using hsub

theorem turned_out (h : Seated cap row) (hy : y ∈ row ∨ y = x) (hout : y ∉ (seat cap row x).1) :
    y ∈ (seat cap row x).2 ∧ (seat cap row x).1.length = cap ∧ ∀ z ∈ (seat cap row x).1, y < z := by
  have hmem : y ∈ row ++ [x] := by simpa using hy
  by_cases hx : x ∈ row
  · rw [seat_of_mem hx] at hout
    rcases hy with hy | rfl
    · exact absurd hy hout
    · exact absurd hx hout
  · have hnd := h.newcomer hx
    rcases Nat.lt_or_eq_of_le h.length_le with hlt | heq
    · rw [seat_of_lt hx hlt] at hout
      exact absurd hmem hout
    · obtain ⟨out, hin, hle, hs⟩ := seat_of_full hx heq
      rw [hs] at hout ⊢
      have hyout : y = out := by
        by_contra hne
        exact hout ((List.mem_erase_of_ne hne).mpr hmem)
      subst hyout
      refine ⟨by simp, by simp [List.length_erase_of_mem hin, heq], ?_⟩
      intro z hz
      obtain ⟨hne, hz⟩ := hnd.mem_erase_iff.mp hz
      exact lt_of_le_of_ne (hle z hz) (Ne.symm hne)

def without (x : α) (row : List α) : List α := row.filter (· ≠ x)

theorem mem_without : y ∈ without x row ↔ y ∈ row ∧ y ≠ x := by
  simp [without]

theorem without_of_notMem (h : x ∉ row) : without x row = row := by
  unfold without
  rw [List.filter_eq_self]
  intro y hy
  have hne : y ≠ x := ne_of_mem_of_not_mem hy h
  simp [hne]

theorem Seated.without (h : Seated cap row) (x : α) : Seated cap (without x row) :=
  ⟨h.nodup.filter _, (List.length_filter_le _ _).trans h.length_le⟩

theorem seat_seat (h : Seated cap row) (x : α) :
    (seat cap (seat cap row x).1 x).1 = (seat cap row x).1 := by
  by_cases hin : x ∈ (seat cap row x).1
  · rw [seat_of_mem hin]
  · obtain ⟨-, hlen, hlt⟩ := turned_out h (Or.inr rfl) hin
    generalize (seat cap row x).1 = kept at hin hlen hlt
    obtain ⟨out, hmem, hle, hs⟩ := seat_of_full hin hlen
    have hout : out = x := by
      rcases List.mem_append.mp hmem with ho | ho
      · exact absurd (hle x (by simp)) (not_le_of_gt (hlt out ho))
      · exact List.mem_singleton.mp ho
    rw [hs, hout, List.erase_append_right _ hin]
    simp

end Row

abbrev Chart (K : Type u) (α : Type v) := Table K (List α)

section Chart
variable [DecidableEq K] [LinearOrder α]

def holders (m : Chart K α) (k : K) : List α := (m.lookup k).getD []

def vacate (x : α) (m : Chart K α) (k : K) : Chart K α :=
  match m.lookup k with
  | none => m
  | some row =>
    if without x row = [] then m.erase k else m.insert k (without x row)

def occupy (cap : ℕ) (x : α) (m : Chart K α × List α) (k : K) : Chart K α × List α :=
  let taken := seat cap (holders m.1 k) x
  (m.1.insert k taken.1, m.2 ++ taken.2)

/-- Give up the seats at `current`, then take one at each key of `next`. -/
def register (cap : ℕ) (x : α) (current next : List K) (m : Chart K α) : Chart K α × List α :=
  next.foldl (occupy cap x) (current.foldl (vacate x) m, [])

def Sound (cap : ℕ) (m : Chart K α) : Prop :=
  ∀ k row, m.lookup k = some row → row ≠ [] ∧ Seated cap row

variable {cap : ℕ} {x : α} {m : Chart K α}

omit [LinearOrder α] in
theorem Sound.seated (h : Sound cap m) (k : K) : Seated cap (holders m k) := by
  unfold holders
  cases hk : m.lookup k with
  | none => exact ⟨List.nodup_nil, Nat.zero_le _⟩
  | some row => exact (h k row hk).2

theorem holders_vacate (x : α) (m : Chart K α) (k k' : K) :
    holders (vacate x m k) k' =
      if k' = k then without x (holders m k') else holders m k' := by
  unfold vacate
  by_cases hk : k' = k
  · subst hk
    cases hrow : m.lookup k' with
    | none => simp [holders, hrow, without]
    | some row =>
      by_cases hrest : without x row = []
      · simp [holders, hrow, hrest]
      · simp [holders, hrow, hrest]
  · cases hrow : m.lookup k with
    | none => simp [hk]
    | some row =>
      by_cases hrest : without x row = []
      · simp [holders, hrest, hk, AList.lookup_erase_ne hk]
      · simp [holders, hrest, hk, AList.lookup_insert_ne hk]

theorem Sound.vacate (h : Sound cap m) (x : α) (k : K) : Sound cap (vacate x m k) := by
  intro k' row hrow
  unfold Seats.vacate at hrow
  cases hk : m.lookup k with
  | none =>
    simp only [hk] at hrow
    exact h k' row hrow
  | some old =>
    simp only [hk] at hrow
    split at hrow
    · rw [Table.lookup_erase_ite] at hrow
      split at hrow
      · cases hrow
      · exact h k' row hrow
    · rename_i hrest
      rw [Table.lookup_insert_ite] at hrow
      split at hrow
      · cases hrow
        have hold := (h k old hk).2
        exact ⟨hrest, hold.without x⟩
      · exact h k' row hrow

theorem holders_occupy (x : α) (m : Chart K α × List α) (k k' : K) :
    holders (occupy cap x m k).1 k' =
      if k' = k then (seat cap (holders m.1 k') x).1 else holders m.1 k' := by
  by_cases hk : k' = k
  · subst hk
    simp [holders, occupy]
  · simp [holders, occupy, hk, AList.lookup_insert_ne hk]

theorem Sound.occupy (hcap : 0 < cap) {m : Chart K α × List α} (h : Sound cap m.1) (x : α) (k : K) :
    Sound cap (occupy cap x m k).1 := by
  intro k' row hrow
  have hs := h.seated k
  simp only [Seats.occupy, Table.lookup_insert_ite] at hrow
  split at hrow
  · cases hrow
    exact ⟨seat_ne_nil hcap hs x, seated_seat hs x⟩
  · exact h k' row hrow

theorem sound_vacates (h : Sound cap m) (x : α) (current : List K) :
    Sound cap (current.foldl (vacate x) m) := by
  induction current generalizing m with
  | nil => exact h
  | cons k current ih => exact ih (h.vacate x k)

theorem holders_vacates (x : α) (m : Chart K α) (current : List K) (k : K) :
    holders (current.foldl (vacate x) m) k =
      if k ∈ current then without x (holders m k) else holders m k := by
  induction current generalizing m with
  | nil => simp
  | cons c current ih =>
    rw [List.foldl_cons, ih, holders_vacate]
    by_cases hc : k = c <;> by_cases hin : k ∈ current <;> simp [hc, hin, without]

theorem sound_occupies (hcap : 0 < cap) {m : Chart K α × List α} (h : Sound cap m.1) (x : α)
    (next : List K) : Sound cap (next.foldl (occupy cap x) m).1 := by
  induction next generalizing m with
  | nil => exact h
  | cons k next ih => exact ih (h.occupy hcap x k)

theorem holders_occupies (hcap : 0 < cap) {m : Chart K α × List α} (h : Sound cap m.1) (x : α)
    (next : List K) (k : K) :
    holders (next.foldl (occupy cap x) m).1 k =
      if k ∈ next then (seat cap (holders m.1 k) x).1 else holders m.1 k := by
  induction next generalizing m with
  | nil => simp
  | cons c next ih =>
    rw [List.foldl_cons, ih (h.occupy hcap x c), holders_occupy]
    by_cases hc : k = c
    · subst hc
      simp [seat_seat (h.seated k)]
    · simp [hc]

theorem mem_out_occupies_of_mem {m : Chart K α × List α} {next : List K} {y : α} (hy : y ∈ m.2) :
    y ∈ (next.foldl (occupy cap x) m).2 := by
  induction next generalizing m with
  | nil => exact hy
  | cons c next ih => exact ih (List.mem_append_left _ hy)

theorem mem_out_occupies (hcap : 0 < cap) {m : Chart K α × List α} (h : Sound cap m.1)
    {next : List K} {k : K} {y : α} (hk : k ∈ next) (hy : y ∈ (seat cap (holders m.1 k) x).2) :
    y ∈ (next.foldl (occupy cap x) m).2 := by
  induction next generalizing m with
  | nil => cases hk
  | cons c next ih =>
    by_cases hc : k = c
    · subst hc
      rw [List.foldl_cons]
      apply mem_out_occupies_of_mem
      exact List.mem_append_right _ hy
    · apply ih (h.occupy hcap x c)
      · exact (List.mem_cons.mp hk).resolve_left hc
      · rwa [holders_occupy, if_neg hc]

section Register
variable {current next : List K}

theorem sound_register (hcap : 0 < cap) (h : Sound cap m) (x : α) (current next : List K) :
    Sound cap (register cap x current next m).1 :=
  sound_occupies hcap (sound_vacates h x current) x next

/-- The rows after a registration whose `current` lists every key `x` has a seat at. -/
theorem holders_register (hcap : 0 < cap) (h : Sound cap m)
    (hx : ∀ k, x ∈ holders m k → k ∈ current) (k : K) :
    holders (register cap x current next m).1 k =
      if k ∈ next then (seat cap (without x (holders m k)) x).1
      else without x (holders m k) := by
  have hrest : holders (current.foldl (vacate x) m) k = without x (holders m k) := by
    rw [holders_vacates]
    by_cases hk : k ∈ current
    · rw [if_pos hk]
    · rw [if_neg hk, without_of_notMem fun hin => hk (hx k hin)]
  unfold register
  rw [holders_occupies hcap (sound_vacates h x current), hrest]

theorem mem_register (hcap : 0 < cap) (h : Sound cap m) (hx : ∀ k, x ∈ holders m k → k ∈ current)
    {k : K} {y : α} (hy : y ∈ holders (register cap x current next m).1 k) :
    (y ≠ x ∧ y ∈ holders m k) ∨ (y = x ∧ k ∈ next) := by
  rw [holders_register hcap h hx] at hy
  split at hy
  · rename_i hk
    rcases mem_of_mem_seat ((h.seated k).without x) hy with hy | hy
    · exact Or.inl (mem_without.mp hy).symm
    · exact Or.inr ⟨hy, hk⟩
  · exact Or.inl (mem_without.mp hy).symm

theorem lost_seat (hcap : 0 < cap) (h : Sound cap m) (hx : ∀ k, x ∈ holders m k → k ∈ current)
    {k : K} {y : α} (hy : (y ≠ x ∧ y ∈ holders m k) ∨ (y = x ∧ k ∈ next))
    (hlost : y ∉ holders (register cap x current next m).1 k) :
    k ∈ next ∧ y ∈ (register cap x current next m).2 ∧
      (holders (register cap x current next m).1 k).length = cap ∧
      ∀ z ∈ holders (register cap x current next m).1 k, y < z := by
  have hwas : y ∈ without x (holders m k) ∨ y = x := by
    rcases hy with ⟨hne, hin⟩ | ⟨heq, -⟩
    · exact Or.inl (mem_without.mpr ⟨hin, hne⟩)
    · exact Or.inr heq
  have hk : k ∈ next := by
    rcases hy with ⟨hne, hin⟩ | ⟨-, hk⟩
    · by_contra hk
      rw [holders_register hcap h hx, if_neg hk] at hlost
      exact hlost (mem_without.mpr ⟨hin, hne⟩)
    · exact hk
  rw [holders_register hcap h hx, if_pos hk] at hlost ⊢
  obtain ⟨hout, hlen, hlt⟩ := turned_out ((h.seated k).without x) hwas hlost
  refine ⟨hk, ?_, hlen, hlt⟩
  have hrest : holders (current.foldl (vacate x) m) k = without x (holders m k) := by
    have hnone := @holders_register _ _ _ _ _ _ _ current [] hcap h hx k
    simpa [register] using hnone
  apply mem_out_occupies hcap (sound_vacates h x current) hk
  rwa [hrest]

end Register

end Chart

end Seats
