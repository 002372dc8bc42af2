import ForgeswornLink.Lib.Runs

/-!
# Stamps that lapse

A machine with a clock keeps a stamp: some steps set it to the time, some clear
it, and some sweep it away if it is older than a bound. Whether there is a stamp
is then a matter of the history: which step set it last, and what came since. A
stamp that is younger than the bound cannot have been swept, so for those the
sweeps drop out.
-/

namespace Stamps
open Runs

universe u v
variable {σ : Type u} {ε : Type v}

/-- A step sets the stamp before it clears it, and clears it before it sweeps it. -/
structure Stamping (step : σ → ε → σ) (clock : σ → ℕ) (stamp : σ → Option ℕ) (bound : ℕ)
    (sets clears sweeps : σ → ε → Prop) : Prop where
  forward : ∀ s e, clock s ≤ clock (step s e)
  set : ∀ s e, sets s e → stamp (step s e) = some (clock s)
  clear : ∀ s e, ¬ sets s e → clears s e → stamp (step s e) = none
  sweep : ∀ s e, ¬ sets s e → ¬ clears s e → sweeps s e →
    stamp (step s e) = (stamp s).filter fun t => clock s - t < bound
  keep : ∀ s e, ¬ sets s e → ¬ clears s e → ¬ sweeps s e → stamp (step s e) = stamp s

namespace Stamping
variable {step : σ → ε → σ} {clock : σ → ℕ} {stamp : σ → Option ℕ} {bound : ℕ}
  {sets clears sweeps : σ → ε → Prop} {s : σ}

theorem clock_run (h : Stamping step clock stamp bound sets clears sweeps) (s : σ) (es : List ε) :
    clock s ≤ clock (run step s es) := by
  induction es using List.reverseRecOn with
  | nil => exact le_rfl
  | append_singleton es e ih =>
    rw [run_snoc]
    exact ih.trans (h.forward _ e)

theorem stamp_step (h : Stamping step clock stamp bound sets clears sweeps) (s : σ)
    (e : ε) (t : ℕ) :
    stamp (step s e) = some t ↔ sets s e ∧ clock s = t ∨
      stamp s = some t ∧ ¬ sets s e ∧ ¬ clears s e ∧ ¬ (sweeps s e ∧ bound ≤ clock s - t) := by
  by_cases hset : sets s e
  · rw [h.set s e hset, Option.some.injEq]
    simp [hset]
  by_cases hclear : clears s e
  · rw [h.clear s e hset hclear]
    simp [hset, hclear]
  by_cases hsweep : sweeps s e
  · rw [h.sweep s e hset hclear hsweep, Option.filter_eq_some_iff]
    simp [hset, hclear, hsweep]
  · rw [h.keep s e hset hclear hsweep]
    simp [hset, hclear, hsweep]

/-- The stamp is the time of the step that set it, and nothing has ended it since. -/
theorem stamp_iff_since (h : Stamping step clock stamp bound sets clears sweeps)
    (hinit : stamp s = none) (es : List ε) (t : ℕ) :
    stamp (run step s es) = some t ↔
      Since (fun pre e => sets (run step s pre) e ∧ clock (run step s pre) = t)
        (fun pre e => ¬ sets (run step s pre) e ∧ ¬ clears (run step s pre) e ∧
          ¬ (sweeps (run step s pre) e ∧ bound ≤ clock (run step s pre) - t)) es :=
  holds_iff_since (p := fun s => stamp s = some t) (by rw [hinit]; simp)
    (fun s e => h.stamp_step s e t) es

theorem le_stamp (h : Stamping step clock stamp bound sets clears sweeps) {es pre post : List ε}
    {e : ε} {t : ℕ} (hstamp : stamp (run step s es) = some t) (hes : es = pre ++ e :: post)
    (hset : sets (run step s pre) e) : clock (run step s pre) ≤ t := by
  induction es using List.reverseRecOn generalizing post with
  | nil => simp at hes
  | append_singleton es e' ih =>
    rw [run_snoc, h.stamp_step] at hstamp
    rcases hstamp with ⟨-, rfl⟩ | ⟨hstamp, hkeep, -⟩
    · rcases snoc_eq_append_cons hes with ⟨rfl, -⟩ | ⟨post', rfl, -⟩
      · exact le_rfl
      · rw [run_append]
        exact h.clock_run _ _
    · rcases snoc_eq_append_cons hes with ⟨rfl, rfl, -⟩ | ⟨post', hes', -⟩
      · exact absurd hset hkeep
      · exact ih hstamp hes'

theorem kept (h : Stamping step clock stamp bound sets clears sweeps) {pre post : List ε} {e : ε}
    (hset : sets (run step s pre) e)
    (hpost : ∀ mid e' rest, post = mid ++ e' :: rest → ¬ clears (run step s (pre ++ e :: mid)) e' ∧
      (sweeps (run step s (pre ++ e :: mid)) e' →
        clock (run step s (pre ++ e :: mid)) < clock (run step s pre) + bound)) :
    ∃ t, stamp (run step s (pre ++ e :: post)) = some t ∧ clock (run step s pre) ≤ t := by
  induction post using List.reverseRecOn with
  | nil =>
    refine ⟨clock (run step s pre), ?_, le_rfl⟩
    rw [run_snoc]
    exact h.set _ e hset
  | append_singleton mid e' ih =>
    obtain ⟨t, hstamp, ht⟩ := ih fun mid' e'' rest hmid =>
      hpost mid' e'' (rest ++ [e']) (by rw [hmid, List.append_assoc, List.cons_append])
    obtain ⟨hclear, hsweep⟩ := hpost mid e' [] rfl
    have hsplit : pre ++ e :: (mid ++ [e']) = (pre ++ e :: mid) ++ [e'] := by simp
    have hbefore : clock (run step s pre) ≤ clock (run step s (pre ++ e :: mid)) := by
      rw [run_append]
      exact h.clock_run _ _
    rw [hsplit, run_snoc]
    by_cases hset' : sets (run step s (pre ++ e :: mid)) e'
    · exact ⟨_, h.set _ e' hset', hbefore⟩
    · refine ⟨t, (h.stamp_step _ e' t).mpr (Or.inr ⟨hstamp, hset', hclear, ?_⟩), ht⟩
      rintro ⟨hswept, hold⟩
      have := hsweep hswept
      omega

theorem live_iff_since (h : Stamping step clock stamp bound sets clears sweeps)
    (hinit : stamp s = none) (es : List ε) :
    (∃ t, stamp (run step s es) = some t ∧ clock (run step s es) - t < bound) ↔
      Since (fun pre e => sets (run step s pre) e ∧
          clock (run step s es) < clock (run step s pre) + bound)
        (fun pre e => ¬ clears (run step s pre) e) es := by
  constructor
  · rintro ⟨t, hstamp, hlive⟩
    have hsince := (h.stamp_iff_since hinit es t).mp hstamp
    refine hsince.mono ?_ fun pre e hkeep => hkeep.2.1
    rintro pre e ⟨hset, htime⟩
    exact ⟨hset, by omega⟩
  · rintro ⟨pre, e, post, rfl, ⟨hset, hlive⟩, hpost⟩
    obtain ⟨t, hstamp, ht⟩ := h.kept hset fun mid e' rest hrest => by
      refine ⟨hpost mid e' rest hrest, fun _ => lt_of_le_of_lt ?_ hlive⟩
      rw [hrest, ← List.cons_append, ← List.append_assoc, run_append step s (pre ++ e :: mid)]
      exact h.clock_run _ _
    have hforward := h.clock_run (run step s pre) (e :: post)
    rw [← run_append] at hforward
    exact ⟨t, hstamp, by omega⟩

theorem spaced (h : Stamping step clock stamp bound sets clears sweeps) {pre post : List ε} {e : ε}
    (hset : sets (run step s pre) e)
    (hpost : ∀ mid e' rest, post = mid ++ e' :: rest →
      ¬ clears (run step s (pre ++ e :: mid)) e' ∧ ¬ sweeps (run step s (pre ++ e :: mid)) e')
    {interval : ℕ} (hold : ∀ t, stamp (run step s (pre ++ e :: post)) = some t →
      interval ≤ clock (run step s (pre ++ e :: post)) - t) :
    clock (run step s pre) + interval ≤ clock (run step s (pre ++ e :: post)) := by
  obtain ⟨t, hstamp, ht⟩ := h.kept hset fun mid e' rest hrest =>
    ⟨(hpost mid e' rest hrest).1, fun hswept => absurd hswept (hpost mid e' rest hrest).2⟩
  have hforward := h.clock_run (run step s pre) (e :: post)
  rw [← run_append] at hforward
  have := hold t hstamp
  omega

end Stamping

end Stamps
