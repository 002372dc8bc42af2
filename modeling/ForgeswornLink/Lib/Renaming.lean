import ForgeswornLink.Lib.Runs
import ForgeswornLink.Lib.Table

/-!
# Renaming

A table keeps its entries, in their order, when its keys are renamed one to one,
and every operation that looks at keys only by comparing them does the same on the
renamed table. A machine whose step commutes with a renaming commutes with it over
whole runs, so nothing it computes apart from names depends on them.
-/

universe u v w

namespace Table
variable {K : Type u} {L : Type w} {V : Type v}

def rename (f : K ↪ L) (m : Table K V) : Table L V :=
  ⟨m.entries.map fun e => ⟨f e.1, e.2⟩, by
    have hkeys : (m.entries.map fun e => (⟨f e.1, e.2⟩ : Sigma fun _ : L => V)).keys =
        m.entries.keys.map f := by
      simp only [List.keys, List.map_map, Function.comp_def]
    rw [List.NodupKeys, hkeys]
    exact m.nodupKeys.map f.injective⟩

@[simp] theorem entries_rename (f : K ↪ L) (m : Table K V) :
    (m.rename f).entries = m.entries.map fun e => ⟨f e.1, e.2⟩ := rfl

@[simp] theorem rename_empty (f : K ↪ L) : rename f (∅ : Table K V) = ∅ := rfl

theorem retain_rename (f : K ↪ L) (m : Table K V) (p : V → Bool) :
    (m.rename f).retain (fun _ v => p v) = (m.retain fun _ v => p v).rename f := by
  apply AList.ext
  simp only [retain, entries_rename, List.filter_map, Function.comp_def]

theorem mapValues_rename {W : Type v} (f : K ↪ L) (m : Table K V) (g : V → W) :
    (m.rename f).mapValues g = (m.mapValues g).rename f := by
  apply AList.ext
  simp only [mapValues, entries_rename, List.map_map, Function.comp_def]

variable [DecidableEq K] [DecidableEq L]

theorem kerase_map (f : K ↪ L) (k : K) (l : List (Sigma fun _ : K => V)) :
    (l.map fun e => (⟨f e.1, e.2⟩ : Sigma fun _ : L => V)).kerase (f k) =
      (l.kerase k).map fun e => ⟨f e.1, e.2⟩ := by
  induction l with
  | nil => rfl
  | cons e l ih =>
    by_cases h : k = e.1
    · rw [List.map_cons, List.kerase_cons_eq (congrArg f h), List.kerase_cons_eq h]
    · have hne : f k ≠ f e.1 := fun heq => h (f.injective heq)
      rw [List.map_cons, List.kerase_cons_ne hne, List.kerase_cons_ne h, ih, List.map_cons]

theorem erase_rename (f : K ↪ L) (m : Table K V) (k : K) :
    (m.rename f).erase (f k) = rename f (m.erase k) :=
  AList.ext (kerase_map f k m.entries)

theorem insert_rename (f : K ↪ L) (m : Table K V) (k : K) (v : V) :
    (m.rename f).insert (f k) v = rename f (m.insert k v) := by
  apply AList.ext
  rw [AList.entries_insert, entries_rename, kerase_map]
  rfl

theorem lookup_rename (f : K ↪ L) (m : Table K V) (k : K) :
    (m.rename f).lookup (f k) = m.lookup k := by
  apply Option.ext
  intro v
  have hrenamed := AList.mem_lookup_iff (a := f k) (b := v) (s := m.rename f)
  have hplain := AList.mem_lookup_iff (a := k) (b := v) (s := m)
  rw [Option.mem_def] at hrenamed hplain
  rw [hrenamed, hplain, entries_rename, List.mem_map]
  constructor
  · rintro ⟨⟨k', v'⟩, hmem, heq⟩
    cases f.injective (congrArg Sigma.fst heq)
    cases heq
    exact hmem
  · exact fun hmem => ⟨_, hmem, rfl⟩

theorem mem_rename (f : K ↪ L) (m : Table K V) (k : K) : f k ∈ m.rename f ↔ k ∈ m := by
  rw [← AList.lookup_isSome, ← AList.lookup_isSome, lookup_rename]

end Table

namespace Runs
variable {σ τ ε δ : Type*}

theorem run_rename {step : σ → ε → σ} {step' : τ → δ → τ} {f : σ → τ} {g : ε → δ}
    (h : ∀ s e, step' (f s) (g e) = f (step s e)) (s : σ) (es : List ε) :
    run step' (f s) (es.map g) = f (run step s es) := by
  induction es generalizing s with
  | nil => rfl
  | cons e es ih => exact (congrArg (run step' · (es.map g)) (h s e)).trans (ih (step s e))

end Runs
