import Mathlib.Data.List.Basic
import Mathlib.Data.List.TakeWhile

/-!
# Delimiters and case

The text up to the first occurrence of a delimiter and the text after it, or the
same at its last occurrence. Either split is characterised by putting the text
together again. Lowering ASCII letters leaves every other character alone, so a
character that is no letter has only itself below it.
-/

namespace AsciiText

universe u
variable {α : Type u} [DecidableEq α] {d : α} {text l r : List α}

omit [DecidableEq α] in
theorem mem_intercalate {a : α} {ls : List (List α)} (h : a ∈ [d].intercalate ls) :
    a = d ∨ ∃ l ∈ ls, a ∈ l := by
  induction ls with
  | nil => cases h
  | cons l ls ih =>
    by_cases hls : ls = []
    · subst hls
      rw [List.intercalate_singleton] at h
      exact Or.inr ⟨l, List.mem_cons_self, h⟩
    · rw [List.intercalate_cons_of_ne_nil hls, List.mem_append, List.mem_append] at h
      rcases h with (h | h) | h
      · exact Or.inr ⟨l, List.mem_cons_self, h⟩
      · exact Or.inl (List.mem_singleton.mp h)
      · refine (ih h).imp_right ?_
        rintro ⟨l', hl', ha⟩
        exact ⟨l', List.mem_cons_of_mem _ hl', ha⟩

theorem mem_of_mem_splitOn {segment : List α} (h : segment ∈ text.splitOn d) :
    ∀ a ∈ segment, a ∈ text ∧ a ≠ d := by
  induction text generalizing segment with
  | nil =>
    obtain rfl := List.mem_singleton.mp h
    exact nofun
  | cons x text ih =>
    rw [List.splitOn_cons_eq_if_modifyHead] at h
    split_ifs at h with hx
    · rcases List.mem_cons.mp h with rfl | h
      · exact nofun
      · exact fun a ha => ⟨List.mem_cons_of_mem _ (ih h a ha).1, (ih h a ha).2⟩
    · obtain ⟨first, others, hsplit⟩ := List.exists_cons_of_ne_nil (List.splitOn_ne_nil d text)
      rw [hsplit, List.modifyHead_cons] at h
      have hfirst := fun segment hs => @ih segment (hsplit ▸ hs)
      intro a ha
      rcases List.mem_cons.mp h with rfl | h
      · rcases List.mem_cons.mp ha with rfl | ha
        · exact ⟨List.mem_cons_self, fun heq => hx (beq_iff_eq.mpr heq)⟩
        · have hmem := hfirst first List.mem_cons_self a ha
          exact ⟨List.mem_cons_of_mem _ hmem.1, hmem.2⟩
      · have hmem := hfirst segment (List.mem_cons_of_mem _ h) a ha
        exact ⟨List.mem_cons_of_mem _ hmem.1, hmem.2⟩

def splitOnce (d : α) (text : List α) : Option (List α × List α) :=
  if d ∈ text then some (text.takeWhile (· ≠ d), (text.dropWhile (· ≠ d)).tail) else none

def rsplitOnce (d : α) (text : List α) : Option (List α × List α) :=
  (splitOnce d text.reverse).map fun s => (s.2.reverse, s.1.reverse)

theorem splitOnce_append (h : d ∉ l) : splitOnce d (l ++ d :: r) = some (l, r) := by
  have hl : ∀ a ∈ l, decide (a ≠ d) = true := fun a ha =>
    decide_eq_true (ne_of_mem_of_not_mem ha h)
  have hd : decide (d ≠ d) = false := decide_eq_false (not_not.mpr rfl)
  rw [splitOnce, if_pos (List.mem_append_right _ List.mem_cons_self),
    List.takeWhile_append_of_pos hl, List.dropWhile_append_of_pos hl, List.takeWhile_cons, hd,
    List.dropWhile_cons, hd]
  simp

theorem splitOnce_eq_none : splitOnce d text = none ↔ d ∉ text := by
  rw [splitOnce]
  split_ifs with h
  · exact iff_of_false nofun (not_not.mpr h)
  · exact iff_of_true rfl h

theorem splitOnce_eq_some : splitOnce d text = some (l, r) ↔ text = l ++ d :: r ∧ d ∉ l := by
  constructor
  · intro h
    have hmem : d ∈ text := by
      by_contra hnot
      cases h.symm.trans (splitOnce_eq_none.mpr hnot)
    obtain ⟨l', r', rfl, hl'⟩ := List.eq_append_cons_of_mem hmem
    cases h.symm.trans (splitOnce_append hl')
    exact ⟨rfl, hl'⟩
  · rintro ⟨rfl, h⟩
    exact splitOnce_append h

theorem rsplitOnce_eq_some : rsplitOnce d text = some (l, r) ↔ text = l ++ d :: r ∧ d ∉ r := by
  rw [rsplitOnce, Option.map_eq_some_iff]
  constructor
  · rintro ⟨⟨first, second⟩, hsplit, heq⟩
    cases heq
    obtain ⟨htext, hfirst⟩ := splitOnce_eq_some.mp hsplit
    refine ⟨?_, by simpa using hfirst⟩
    rw [← List.reverse_reverse text, htext]
    simp
  · rintro ⟨rfl, hr⟩
    refine ⟨(r.reverse, l.reverse), splitOnce_eq_some.mpr ⟨by simp, by simpa using hr⟩, by simp⟩

theorem val_toLower {c : Char} (h : c.val ≥ 'A'.val ∧ c.val ≤ 'Z'.val) :
    c.toLower.val = c.val + ('a'.val - 'A'.val) := congrArg Char.val (dif_pos h)

theorem toLower_of_not_upper {c : Char} (h : ¬ (c.val ≥ 'A'.val ∧ c.val ≤ 'Z'.val)) :
    c.toLower = c :=
  dif_neg h

theorem toLower_cases (c : Char) : c.toLower = c ∨ 'a' ≤ c.toLower ∧ c.toLower ≤ 'z' := by
  by_cases h : c.val ≥ 'A'.val ∧ c.val ≤ 'Z'.val
  · refine Or.inr ?_
    have hlow : 65 ≤ c.val.toNat := h.1
    have hhigh : c.val.toNat ≤ 90 := h.2
    have hval : c.toLower.val.toNat = c.val.toNat + 32 := by
      rw [val_toLower h, UInt32.toNat_add]
      exact Nat.mod_eq_of_lt (by change _ + 32 < _; omega)
    constructor
    · change 97 ≤ c.toLower.val.toNat
      omega
    · change c.toLower.val.toNat ≤ 122
      omega
  · exact Or.inl (toLower_of_not_upper h)

theorem toLower_of_lower {c : Char} (h : 'a' ≤ c) : c.toLower = c := by
  apply toLower_of_not_upper
  rintro ⟨-, hhigh⟩
  have hlow : 97 ≤ c.val.toNat := h
  have hhigh : c.val.toNat ≤ 90 := hhigh
  omega

theorem toLower_toLower (c : Char) : c.toLower.toLower = c.toLower := by
  rcases toLower_cases c with hc | hc
  · rw [hc, hc]
  · exact toLower_of_lower hc.1

theorem eq_of_toLower_eq {c d : Char} (h : c.toLower = d) (hd : ¬ ('a' ≤ d ∧ d ≤ 'z')) : c = d := by
  subst h
  exact ((toLower_cases c).resolve_right hd).symm

end AsciiText
