import ForgeswornLink.Lib.Table
import Mathlib.Algebra.BigOperators.Group.Finset.Basic
import Mathlib.Data.Multiset.Count

/-!
# Tables of counts

A table tallies a multiset when it holds, under each member, how often it occurs, and no
entry for anything else. Counting one more up and one down keep the tally; the values of
the table add up to the size of the multiset.
-/

namespace Tally
universe u v
variable {K : Type u} [DecidableEq K]

section Values
variable {V : Type v}

def values (t : Table K V) : Multiset V := (t.entries.map Sigma.snd : List V)

theorem values_insert (t : Table K V) (k : K) (v : V) :
    values (t.insert k v) = v ::ₘ values (t.erase k) := rfl

theorem values_of_lookup {t : Table K V} {k : K} {v : V} (h : t.lookup k = some v) :
    values t = v ::ₘ values (t.erase k) := by
  have hmem : (⟨k, v⟩ : Sigma fun _ : K => V) ∈ t.entries := AList.mem_lookup_iff.mp h
  have hkey : k ∈ t.entries.keys := List.mem_keys_of_mem hmem
  obtain ⟨w, front, back, -, hentries, herase⟩ := List.exists_of_kerase hkey
  have hw : w = v := by
    have hlookup : t.lookup k = some w := AList.mem_lookup_iff.mpr (by rw [hentries]; simp)
    exact Option.some_inj.mp (hlookup.symm.trans h)
  have herased : (t.erase k).entries = front ++ back := herase
  unfold values
  rw [herased, hentries, hw]
  simp only [List.map_append, List.map_cons]
  exact Multiset.coe_eq_coe.mpr List.perm_middle

theorem values_erase_of_none {t : Table K V} {k : K} (h : t.lookup k = none) :
    values (t.erase k) = values t := by
  have hkey : k ∉ t.entries.keys := AList.lookup_eq_none.mp h
  have herased : (t.erase k).entries = t.entries := List.kerase_of_notMem_keys hkey
  rw [values, herased, values]

end Values

def Tallies (t : Table K ℕ) (m : Multiset K) : Prop :=
  ∀ k, t.lookup k = if m.count k = 0 then none else some (m.count k)

def up (t : Table K ℕ) (k : K) : Table K ℕ := t.insert k ((t.lookup k).getD 0 + 1)

def down (t : Table K ℕ) (k : K) : Table K ℕ :=
  match t.lookup k with
  | some n => if n - 1 = 0 then t.erase k else t.insert k (n - 1)
  | none => t

variable {t : Table K ℕ} {m : Multiset K}

theorem tallies_zero : Tallies (∅ : Table K ℕ) 0 := fun k => by simp

theorem Tallies.getD (h : Tallies t m) (k : K) : (t.lookup k).getD 0 = m.count k := by
  rw [h k]
  split_ifs with hzero <;> simp [hzero]

theorem Tallies.up (h : Tallies t m) (k : K) : Tallies (up t k) (k ::ₘ m) := by
  intro j
  rw [Tally.up, Table.lookup_insert_ite, h.getD k]
  by_cases hj : j = k
  · subst hj
    simp
  · rw [if_neg hj, Multiset.count_cons_of_ne hj, h j]

theorem Tallies.lookup_cons {k : K} (h : Tallies t (k ::ₘ m)) :
    t.lookup k = some (m.count k + 1) := by
  rw [h k]
  simp

theorem Tallies.down {k : K} (h : Tallies t (k ::ₘ m)) : Tallies (down t k) m := by
  intro j
  have hother : j ≠ k → t.lookup j = if m.count j = 0 then none else some (m.count j) := by
    intro hj
    rw [h j, Multiset.count_cons_of_ne hj]
  rw [Tally.down, h.lookup_cons]
  simp only [Nat.add_sub_cancel]
  by_cases hzero : m.count k = 0
  · rw [if_pos hzero, Table.lookup_erase_ite]
    by_cases hj : j = k
    · subst hj
      simp [hzero]
    · rw [if_neg hj, hother hj]
  · rw [if_neg hzero, Table.lookup_insert_ite]
    by_cases hj : j = k
    · subst hj
      simp [hzero]
    · rw [if_neg hj, hother hj]

theorem Tallies.sum (h : Tallies t m) : (values t).sum = m.card := by
  have hvalue : t.entries.map Sigma.snd = t.keys.map fun k => m.count k := by
    change _ = (t.entries.map Sigma.fst).map _
    rw [List.map_map]
    refine List.map_congr_left fun e he => ?_
    have hlookup : t.lookup e.1 = some e.2 := AList.mem_lookup_iff.mpr he
    rw [h e.1] at hlookup
    split_ifs at hlookup
    exact (Option.some_inj.mp hlookup).symm
  have hkeys : t.keys.toFinset = m.toFinset := by
    ext k
    rw [List.mem_toFinset, ← AList.mem_keys, ← AList.lookup_isSome, h k, Multiset.mem_toFinset]
    by_cases hmem : k ∈ m <;> simp [Multiset.count_eq_zero, hmem]
  rw [values, hvalue, Multiset.sum_coe, ← List.sum_toFinset _ t.keys_nodup, hkeys,
    Multiset.toFinset_sum_count_eq]

end Tally
