import ForgeswornLink.Lib.Runs

/-!
# Records filed by key in a store that does not know their owners

An owner has at most one record, a key and a value. A store holds values by key
and knows nothing of the owners: to install a record is to drop the key the owner
had before and to file the new value, to remove one is to drop its key. The store
agrees with the records if it holds exactly their values. Two owners may name one
key, so a step keeps the agreement exactly if it files nothing over the different
value of another owner and drops no key another owner still names.
-/

namespace Filing
open Runs

universe u v w
variable {I : Type u} {K : Type v} {V : Type w}

structure State (I : Type u) (K : Type v) (V : Type w) where
  records : I → Option (K × V)
  store : K → Option V

inductive Op (I : Type u) (K : Type v) (V : Type w) where
  | install (i : I) (k : K) (v : V)
  | remove (i : I)
  | clear

def State.empty : State I K V := ⟨fun _ => none, fun _ => none⟩

def State.Names (s : State I K V) (i : I) (k : K) : Prop := ∃ v, s.records i = some (k, v)

def State.Agrees (s : State I K V) : Prop :=
  ∀ k v, s.store k = some v ↔ ∃ i, s.records i = some (k, v)

def State.Only (s : State I K V) (i : I) (k : K) : Prop := ∀ j, s.Names j k → j = i

def State.Fits (s : State I K V) : Op I K V → Prop
  | .install i k v =>
    (∀ j w, j ≠ i → s.records j = some (k, w) → w = v) ∧
      ∀ k', k' ≠ k → s.Names i k' → s.Only i k'
  | .remove i => ∀ k', s.Names i k' → s.Only i k'
  | .clear => True

open Classical in
noncomputable def State.without (s : State I K V) (gone : I → Prop) (k : K) : Option V :=
  if ∃ i, gone i ∧ s.Names i k then none else s.store k

variable [DecidableEq I] [DecidableEq K]

noncomputable def step (s : State I K V) : Op I K V → State I K V
  | .install i k v =>
    ⟨fun j => if j = i then some (k, v) else s.records j,
      fun k' => if k' = k then some v else s.without (· = i) k'⟩
  | .remove i => ⟨fun j => if j = i then none else s.records j, s.without (· = i)⟩
  | .clear => ⟨fun _ => none, s.without fun _ => True⟩

section Step
variable {s : State I K V}

omit [DecidableEq I] [DecidableEq K] in
theorem without_eq_ite {gone : I → Prop} {k : K} {p : Prop} [Decidable p]
    (h : p ↔ ∃ i, gone i ∧ s.Names i k) : s.without gone k = if p then none else s.store k := by
  unfold State.without
  by_cases hp : p
  · rw [if_pos hp, if_pos (h.mp hp)]
  · rw [if_neg hp, if_neg (mt h.mpr hp)]

omit [DecidableEq I] [DecidableEq K] in
theorem without_eq_some {gone : I → Prop} {k : K} {v : V} :
    s.without gone k = some v ↔ (∀ i, gone i → ¬ s.Names i k) ∧ s.store k = some v := by
  unfold State.without
  split_ifs with h
  · obtain ⟨i, hgone, hnames⟩ := h
    exact iff_of_false nofun fun h => h.1 i hgone hnames
  · rw [not_exists] at h
    exact (and_iff_right fun i hgone hnames => h i ⟨hgone, hnames⟩).symm

omit [DecidableEq I] [DecidableEq K] in
theorem agrees_empty : (State.empty : State I K V).Agrees :=
  fun _ _ => iff_of_false nofun fun ⟨_, h⟩ => nomatch h

omit [DecidableEq I] [DecidableEq K] in
theorem State.Agrees.found (h : s.Agrees) {i : I} {k : K} {v : V} (hi : s.records i = some (k, v)) :
    s.store k = some v := (h k v).mpr ⟨i, hi⟩

theorem agrees_install (h : s.Agrees) (i : I) (k : K) (v : V) :
    (step s (.install i k v)).Agrees ↔ s.Fits (.install i k v) := by
  have hother {j : I} (hj : j ≠ i) : (step s (.install i k v)).records j = s.records j := if_neg hj
  have hself : (step s (.install i k v)).records i = some (k, v) := if_pos rfl
  have hkey : (step s (.install i k v)).store k = some v := if_pos rfl
  have hstore {k' : K} (hk : k' ≠ k) : (step s (.install i k v)).store k' = s.without (· = i) k' :=
    if_neg hk
  constructor
  · intro hagrees
    refine ⟨fun j w hj hrecord => ?_, fun k' hk hnames j hj => ?_⟩
    · have hfound := hagrees.found ((hother hj).trans hrecord)
      exact Option.some.inj (hfound.symm.trans hkey)
    · by_contra hne
      obtain ⟨w, hw⟩ := hj
      have hfound := hagrees.found ((hother hne).trans hw)
      rw [hstore hk, without_eq_some] at hfound
      exact hfound.1 i rfl hnames
  · rintro ⟨hsame, honly⟩ k' v'
    by_cases hk : k' = k
    · subst hk
      rw [hkey]
      refine ⟨fun hv => ⟨i, hself.trans (by rw [Option.some.inj hv])⟩, ?_⟩
      rintro ⟨j, hj⟩
      by_cases hji : j = i
      · subst hji
        rw [hself] at hj
        cases hj
        rfl
      · rw [hsame j v' hji ((hother hji).symm.trans hj)]
    · rw [hstore hk, without_eq_some, h k' v']
      constructor
      · rintro ⟨hgone, j, hj⟩
        have hji : j ≠ i := fun heq => hgone j heq ⟨v', hj⟩
        exact ⟨j, (hother hji).trans hj⟩
      · rintro ⟨j, hj⟩
        have hji : j ≠ i := by
          rintro rfl
          rw [hself] at hj
          cases hj
          exact hk rfl
        rw [hother hji] at hj
        refine ⟨fun l hl hnames => ?_, j, hj⟩
        subst hl
        exact hji (honly k' hk hnames j ⟨v', hj⟩)

theorem agrees_remove (h : s.Agrees) (i : I) :
    (step s (.remove i)).Agrees ↔ s.Fits (.remove i) := by
  have hother {j : I} (hj : j ≠ i) : (step s (.remove i)).records j = s.records j := if_neg hj
  have hself : (step s (.remove i)).records i = none := if_pos rfl
  constructor
  · intro hagrees k' hnames j hj
    by_contra hne
    obtain ⟨w, hw⟩ := hj
    have hfound := without_eq_some.mp (hagrees.found ((hother hne).trans hw))
    exact hfound.1 i rfl hnames
  · intro honly k' v'
    refine without_eq_some.trans ?_
    rw [h k' v']
    constructor
    · rintro ⟨hgone, j, hj⟩
      have hji : j ≠ i := fun heq => hgone j heq ⟨v', hj⟩
      exact ⟨j, (hother hji).trans hj⟩
    · rintro ⟨j, hj⟩
      have hji : j ≠ i := by
        rintro rfl
        rw [hself] at hj
        cases hj
      rw [hother hji] at hj
      refine ⟨fun l hl hnames => ?_, j, hj⟩
      subst hl
      exact hji (honly k' hnames j ⟨v', hj⟩)

theorem agrees_step (h : s.Agrees) (op : Op I K V) : (step s op).Agrees ↔ s.Fits op := by
  cases op with
  | install i k v => exact agrees_install h i k v
  | remove i => exact agrees_remove h i
  | clear =>
    refine iff_of_true (fun k v => iff_of_false (fun hstore => ?_) fun ⟨_, hi⟩ => nomatch hi)
      trivial
    obtain ⟨hgone, hfound⟩ := without_eq_some.mp hstore
    obtain ⟨i, hi⟩ := (h k v).mp hfound
    exact hgone i trivial ⟨v, hi⟩

def State.Covered (s : State I K V) : Prop := ∀ k v, s.store k = some v → ∃ i, s.Names i k

theorem covered_step (h : s.Covered) (op : Op I K V) : (step s op).Covered := by
  intro k v hstore
  cases op with
  | install i k' v' =>
    by_cases hk : k = k'
    · exact ⟨i, v', by rw [hk]; exact if_pos rfl⟩
    · change (if k = k' then some v' else s.without (· = i) k) = some v at hstore
      rw [if_neg hk, without_eq_some] at hstore
      obtain ⟨j, w, hj⟩ := h k v hstore.2
      have hji : j ≠ i := fun heq => hstore.1 j heq ⟨w, hj⟩
      exact ⟨j, w, (if_neg hji).trans hj⟩
  | remove i =>
    obtain ⟨hgone, hfound⟩ := without_eq_some.mp hstore
    obtain ⟨j, w, hj⟩ := h k v hfound
    have hji : j ≠ i := fun heq => hgone j heq ⟨w, hj⟩
    exact ⟨j, w, (if_neg hji).trans hj⟩
  | clear =>
    obtain ⟨hgone, hfound⟩ := without_eq_some.mp hstore
    obtain ⟨j, hj⟩ := h k v hfound
    exact absurd hj (hgone j trivial)

end Step

section Load

noncomputable def load (rows : List (I × K × V)) : State I K V :=
  run step .empty (rows.map fun row => .install row.1 row.2.1 row.2.2)

theorem load_snoc (rows : List (I × K × V)) (i : I) (k : K) (v : V) :
    load (rows ++ [(i, k, v)]) = step (load rows) (.install i k v) := by
  rw [load, List.map_append, List.map_singleton, run_snoc]
  rfl

theorem covered_load (rows : List (I × K × V)) : (load rows).Covered :=
  invariant step (I := State.Covered) (fun _ _ h => by cases h) (fun _ op h => covered_step h op) _

theorem records_load {rows : List (I × K × V)} (hnodup : (rows.map Prod.fst).Nodup) (i : I) (k : K)
    (v : V) : (load rows).records i = some (k, v) ↔ (i, k, v) ∈ rows := by
  induction rows using List.reverseRecOn with
  | nil => exact iff_of_false nofun List.not_mem_nil
  | append_singleton rows row ih =>
    obtain ⟨i', k', v'⟩ := row
    rw [List.map_append, List.nodup_append] at hnodup
    obtain ⟨hrows, -, hfresh⟩ := hnodup
    rw [load_snoc, List.mem_append, List.mem_singleton, ← ih hrows]
    change (if i = i' then some (k', v') else (load rows).records i) = some (k, v) ↔ _
    by_cases hi : i = i'
    · subst hi
      have hnone : ¬ (load rows).records i = some (k, v) := by
        intro hold
        exact hfresh i (List.mem_map_of_mem (f := Prod.fst) ((ih hrows).mp hold)) i
          List.mem_cons_self rfl
      rw [or_iff_right hnone, if_pos rfl]
      simp [eq_comm]
    · rw [if_neg hi, or_iff_left]
      exact fun heq => hi (Prod.mk.inj heq).1

theorem agrees_load {rows : List (I × K × V)} (hnodup : (rows.map Prod.fst).Nodup) :
    (load rows).Agrees ↔
      ∀ i k v j w, (i, k, v) ∈ rows → (j, k, w) ∈ rows → v = w := by
  constructor
  · intro h i k v j w hi hj
    have hv := h.found ((records_load hnodup i k v).mpr hi)
    have hw := h.found ((records_load hnodup j k w).mpr hj)
    exact Option.some.inj (hv.symm.trans hw)
  · intro hone
    induction rows using List.reverseRecOn with
    | nil => exact agrees_empty
    | append_singleton rows row ih =>
      obtain ⟨i, k, v⟩ := row
      rw [List.map_append, List.nodup_append] at hnodup
      obtain ⟨hrows, -, hfresh⟩ := hnodup
      have hbefore := ih hrows fun i' k' v' j' w' hi' hj' =>
        hone i' k' v' j' w' (List.mem_append_left _ hi') (List.mem_append_left _ hj')
      have hlast : (i, k, v) ∈ rows ++ [(i, k, v)] := List.mem_append_right _ List.mem_cons_self
      rw [load_snoc, agrees_step hbefore]
      refine ⟨fun j w _ hj => ?_, ?_⟩
      · exact hone j k w i v (List.mem_append_left _ ((records_load hrows j k w).mp hj)) hlast
      · rintro k' - ⟨w, hw⟩
        have hold := (records_load hrows i k' w).mp hw
        exact absurd rfl (hfresh i (List.mem_map_of_mem (f := Prod.fst) hold) i List.mem_cons_self)

end Load

end Filing
