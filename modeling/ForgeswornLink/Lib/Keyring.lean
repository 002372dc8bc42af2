import ForgeswornLink.Lib.Runs
import Mathlib.Logic.Function.Basic

/-!
# A ring of registered keys

Each value has at most one key at a time, and an index leads from a key back to
the value that registered it last. A value that registers again takes its previous
key out of the index; unregistering a key takes it out of the index and from the
value it leads to. As long as only one value registers a key, the two sides agree
on it, and then it is gone from both once it is unregistered.
-/

namespace Keyring
open Runs

universe u v
variable {V : Type u} {K : Type v} [DecidableEq V] [DecidableEq K]

structure Keys (V : Type u) (K : Type v) where
  index : K → Option V
  key : V → Option K

inductive Op (V : Type u) (K : Type v) where
  | register (value : V) (key : K)
  | unregister (key : K)

namespace Keys

def empty : Keys V K := ⟨fun _ => none, fun _ => none⟩

def release (r : Keys V K) (value : V) : K → Option V :=
  match r.key value with
  | some previous => Function.update r.index previous none
  | none => r.index

def step (r : Keys V K) : Op V K → Keys V K
  | .register value key =>
    { index := Function.update (r.release value) key (some value)
      key := Function.update r.key value (some key) }
  | .unregister key =>
    match r.index key with
    | none => r
    | some value =>
      { index := Function.update r.index key none
        key := if r.key value = some key then Function.update r.key value none else r.key }

def Agrees (r : Keys V K) (key : K) : Prop :=
  ∀ value, r.index key = some value ↔ r.key value = some key

variable {r : Keys V K} {key : K} {value : V}

omit [DecidableEq V] in
theorem release_apply (h : r.Agrees key) (value : V) :
    r.release value key = if r.key value = some key then none else r.index key := by
  unfold release
  cases hkey : r.key value with
  | none => simp
  | some previous =>
    by_cases heq : previous = key
    · subst heq
      simp
    · simp [Function.update_of_ne (Ne.symm heq), heq]

theorem Agrees.register (h : r.Agrees key)
    (honly : ∀ other, r.index key = some other → other = value) :
    (r.step (.register value key)).Agrees key := by
  intro other
  simp only [step, Function.update_self, Option.some.injEq]
  by_cases heq : other = value
  · subst heq
    simp
  · rw [Function.update_of_ne heq]
    refine iff_of_false (Ne.symm heq) fun hother => heq ?_
    exact honly other ((h other).mpr hother)

theorem Agrees.registerOther (h : r.Agrees key) {key' : K} (hne : key' ≠ key) (value : V) :
    (r.step (.register value key')).Agrees key := by
  intro other
  simp only [step]
  rw [Function.update_of_ne hne.symm, release_apply h]
  by_cases heq : other = value
  · subst heq
    rw [Function.update_self]
    refine iff_of_false ?_ (by simp [hne])
    split_ifs with hkey
    · simp
    · exact fun hindex => hkey ((h other).mp hindex)
  · rw [Function.update_of_ne heq]
    split_ifs with hkey
    · refine iff_of_false (by simp) fun hother => heq ?_
      exact Option.some.inj (((h other).mpr hother).symm.trans ((h value).mpr hkey))
    · exact h other

theorem Agrees.unregister (h : r.Agrees key) (key' : K) :
    (r.step (.unregister key')).Agrees key := by
  simp only [step]
  cases hindex : r.index key' with
  | none => exact h
  | some value =>
    intro other
    dsimp only
    by_cases heq : key' = key
    · subst heq
      rw [Function.update_self, if_pos ((h value).mp hindex)]
      refine iff_of_false (by simp) fun hother => ?_
      by_cases hvalue : other = value
      · subst hvalue
        simp at hother
      · rw [Function.update_of_ne hvalue] at hother
        exact hvalue (Option.some.inj (((h other).mpr hother).symm.trans hindex))
    · rw [Function.update_of_ne (Ne.symm heq)]
      split_ifs with hkey
      · by_cases hvalue : other = value
        · subst hvalue
          rw [Function.update_self, h other, hkey]
          simp [heq]
        · rw [Function.update_of_ne hvalue]
          exact h other
      · exact h other

theorem index_step (h : (r.step op).index key = some value) :
    op = .register value key ∨ r.index key = some value := by
  cases op with
  | register value' key' =>
    simp only [step] at h
    by_cases heq : key = key'
    · subst heq
      rw [Function.update_self] at h
      rw [Option.some.inj h]
      exact Or.inl rfl
    · rw [Function.update_of_ne heq] at h
      refine Or.inr ?_
      unfold release at h
      cases hkey : r.key value' with
      | none => rwa [hkey] at h
      | some previous =>
        rw [hkey] at h
        dsimp only at h
        by_cases hprevious : key = previous
        · rw [hprevious, Function.update_self] at h
          cases h
        · rwa [Function.update_of_ne hprevious] at h
  | unregister key' =>
    simp only [step] at h
    cases hindex : r.index key' with
    | none =>
      rw [hindex] at h
      exact Or.inr h
    | some value' =>
      rw [hindex] at h
      dsimp only at h
      by_cases heq : key = key'
      · rw [heq, Function.update_self] at h
        cases h
      · rw [Function.update_of_ne heq] at h
        exact Or.inr h

end Keys

variable {ops pre post : List (Op V K)} {key : K}

theorem agrees_run (honly : ∀ v v', .register v key ∈ ops → .register v' key ∈ ops → v = v') :
    (run Keys.step Keys.empty ops).Agrees key ∧
      ∀ v, (run Keys.step Keys.empty ops).index key = some v → .register v key ∈ ops := by
  induction ops using List.reverseRecOn with
  | nil => exact ⟨fun _ => iff_of_false nofun nofun, nofun⟩
  | append_singleton ops op ih =>
    obtain ⟨hagrees, hindex⟩ := ih fun v v' hv hv' =>
      honly v v' (List.mem_append_left _ hv) (List.mem_append_left _ hv')
    rw [run_snoc]
    refine ⟨?_, ?_⟩
    · cases op with
      | unregister key' => exact hagrees.unregister key'
      | register value key' =>
        by_cases heq : key' = key
        · subst heq
          refine hagrees.register fun other hother => ?_
          exact honly other value (List.mem_append_left _ (hindex other hother)) (by simp)
        · exact hagrees.registerOther heq value
    · intro v hv
      rcases Keys.index_step hv with rfl | hbefore
      · simp
      · exact List.mem_append_left _ (hindex v hbefore)

theorem index_run_of_none {r : Keys V K} (h : r.index key = none)
    (hnot : ∀ v, .register v key ∉ ops) :
    (run Keys.step r ops).index key = none := by
  induction ops using List.reverseRecOn with
  | nil => exact h
  | append_singleton ops op ih =>
    rw [run_snoc, Option.eq_none_iff_forall_ne_some]
    intro v hv
    rcases Keys.index_step hv with rfl | hbefore
    · exact hnot v (by simp)
    · rw [ih fun v hmem => hnot v (List.mem_append_left _ hmem)] at hbefore
      cases hbefore

theorem gone_of_unregistered
    (honly : ∀ v v', .register v key ∈ pre → .register v' key ∈ pre → v = v')
    (hpost : ∀ v, .register v key ∉ post) :
    let r := run Keys.step Keys.empty (pre ++ .unregister key :: post)
    r.index key = none ∧ ∀ v, r.key v ≠ some key := by
  intro r
  have hall : ∀ v, .register v key ∈ pre ++ .unregister key :: post → .register v key ∈ pre := by
    intro v hv
    rcases List.mem_append.mp hv with hpre | htail
    · exact hpre
    · rcases List.mem_cons.mp htail with heq | hlater
      · cases heq
      · exact absurd hlater (hpost v)
  have hagrees : r.Agrees key :=
    (agrees_run fun v v' hv hv' => honly v v' (hall v hv) (hall v' hv')).1
  have hindex : r.index key = none := by
    have hunregistered :
        (run Keys.step Keys.empty (pre ++ [.unregister key])).index key = none := by
      rw [run_snoc]
      simp only [Keys.step]
      cases hbefore : (run Keys.step Keys.empty pre).index key with
      | none => exact hbefore
      | some value => exact Function.update_self _ _ _
    have hrun := index_run_of_none hunregistered hpost
    rwa [← run_append, List.append_assoc, List.singleton_append] at hrun
  refine ⟨hindex, fun v hv => ?_⟩
  cases hindex.symm.trans ((hagrees v).mpr hv)

end Keyring
