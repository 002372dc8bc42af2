import Mathlib.Data.List.AList

/-!
# Finite tables

A hash map is modelled by Mathlib's `AList`: an association list whose keys
carry no duplicates. Nothing here depends on the order of the entries, and
every result is stated through `AList.lookup`.
-/

universe u v

abbrev Table (K : Type u) (V : Type v) := AList (fun _ : K => V)

namespace Table
variable {K : Type u} {V : Type v} [DecidableEq K]

theorem lookup_insert_ite (m : Table K V) (k k' : K) (v : V) :
    (m.insert k v).lookup k' = if k' = k then some v else m.lookup k' := by
  by_cases h : k' = k
  · subst h
    simp
  · simp [h, AList.lookup_insert_ne h]

theorem lookup_erase_ite (m : Table K V) (k k' : K) :
    (m.erase k).lookup k' = if k' = k then none else m.lookup k' := by
  by_cases h : k' = k
  · subst h
    simp
  · simp [h, AList.lookup_erase_ne h]

theorem lookup_of_keys_eq_nil {m : Table K V} (h : m.keys = []) (k : K) : m.lookup k = none := by
  refine AList.lookup_eq_none.mpr fun hmem => ?_
  rw [AList.mem_keys, h] at hmem
  exact absurd hmem List.not_mem_nil

omit [DecidableEq K] in
theorem nodupKeys_filter {l : List (Sigma fun _ : K => V)} (p : (Sigma fun _ : K => V) → Bool)
    (h : l.NodupKeys) : (l.filter p).NodupKeys := h.sublist List.filter_sublist

def retain (m : Table K V) (p : K → V → Bool) : Table K V :=
  ⟨m.entries.filter (fun e => p e.1 e.2), nodupKeys_filter _ m.nodupKeys⟩

theorem mem_lookup_retain (m : Table K V) (p : K → V → Bool) (k : K) (v : V) :
    (m.retain p).lookup k = some v ↔ m.lookup k = some v ∧ p k v = true := by
  have h₁ := AList.mem_lookup_iff (a := k) (b := v) (s := m.retain p)
  have h₂ := AList.mem_lookup_iff (a := k) (b := v) (s := m)
  rw [Option.mem_def] at h₁ h₂
  rw [h₁, h₂]
  simp [retain, List.mem_filter]

theorem lookup_retain (m : Table K V) (p : K → V → Bool) (k : K) :
    (m.retain p).lookup k = (m.lookup k).filter (p k) := by
  apply Option.ext
  intro v
  rw [mem_lookup_retain, Option.filter_eq_some_iff]

def mapValues {W : Type v} (m : Table K V) (f : V → W) : Table K W :=
  ⟨m.entries.map (fun e => ⟨e.1, f e.2⟩), by
    have h := m.nodupKeys
    simpa only [List.NodupKeys, List.keys, List.map_map, Function.comp_def] using h⟩

theorem lookup_mapValues {W : Type v} (m : Table K V) (f : V → W) (k : K) :
    (m.mapValues f).lookup k = (m.lookup k).map f := by
  obtain ⟨l, hl⟩ := m
  change List.dlookup (β := fun _ => W) k (l.map fun e => ⟨e.1, f e.2⟩) = (l.dlookup k).map f
  clear hl
  induction l with
  | nil => rfl
  | cons e l ih =>
    obtain ⟨k', v⟩ := e
    by_cases h : k = k'
    · subst h
      simp
    · rw [List.map_cons, List.dlookup_cons_ne _ _ h, List.dlookup_cons_ne _ _ h, ih]

end Table
