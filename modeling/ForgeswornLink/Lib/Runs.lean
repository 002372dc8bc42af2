import Mathlib.Data.List.Induction
import Mathlib.Tactic.Linarith

/-!
# Runs of a deterministic machine and their history

A machine is a total step function; a run is a list of events, and an event
that is not enabled leaves the state as it is. A property of a run is stated
over its splits into what came before a step, the step, and what came after.
`Always` says that every step of a run satisfies a relation between the state
before it and its event. `Since q r` says that some step satisfied `q` and every
later one satisfied `r`; both relations see the whole history before the step.
The rules that matter are the ones for one more event at the end.
-/

namespace Runs

universe u v
variable {σ : Type u} {ε : Type v}

theorem snoc_eq_append_cons {es pre post : List ε} {e e' : ε} (h : es ++ [e] = pre ++ e' :: post) :
    (pre = es ∧ e' = e ∧ post = []) ∨ ∃ post', es = pre ++ e' :: post' ∧ post = post' ++ [e] := by
  rcases List.eq_nil_or_concat post with rfl | ⟨post', e'', rfl⟩
  · obtain ⟨rfl, he⟩ := List.append_inj' h rfl
    exact Or.inl ⟨rfl, (List.singleton_inj.mp he).symm, rfl⟩
  · rw [List.concat_eq_append, ← List.cons_append, ← List.append_assoc] at h
    obtain ⟨rfl, he⟩ := List.append_inj' h rfl
    rw [List.singleton_inj.mp he, List.concat_eq_append]
    exact Or.inr ⟨post', rfl, rfl⟩

section Machine
variable (step : σ → ε → σ)

def run (s : σ) (es : List ε) : σ := es.foldl step s

@[simp] theorem run_nil (s : σ) : run step s [] = s := rfl

@[simp] theorem run_cons (s : σ) (e : ε) (es : List ε) :
    run step s (e :: es) = run step (step s e) es := rfl

theorem run_append (s : σ) (es fs : List ε) :
    run step s (es ++ fs) = run step (run step s es) fs := List.foldl_append

theorem run_snoc (s : σ) (es : List ε) (e : ε) :
    run step s (es ++ [e]) = step (run step s es) e := by
  rw [run_append, run_cons, run_nil]

def Always (P : σ → ε → Prop) (s : σ) (es : List ε) : Prop :=
  ∀ pre e post, es = pre ++ e :: post → P (run step s pre) e

theorem always_nil (P : σ → ε → Prop) (s : σ) : Always step P s [] := by
  intro pre e post h
  simp at h

theorem Always.initial {P : σ → ε → Prop} {s : σ} {es fs : List ε}
    (h : Always step P s (es ++ fs)) : Always step P s es := by
  intro pre e post he
  apply h pre e (post ++ fs)
  rw [he, List.append_assoc, List.cons_append]

theorem Always.last {P : σ → ε → Prop} {s : σ} {es : List ε} {e : ε}
    (h : Always step P s (es ++ [e])) : P (run step s es) e := h es e [] rfl

theorem always_snoc {P : σ → ε → Prop} {s : σ} {es : List ε} {e : ε} :
    Always step P s (es ++ [e]) ↔ Always step P s es ∧ P (run step s es) e := by
  constructor
  · intro h
    exact ⟨Always.initial step h, Always.last step h⟩
  · rintro ⟨hpre, hlast⟩ pre e' post he
    rcases snoc_eq_append_cons he with ⟨rfl, rfl, -⟩ | ⟨post', hes, -⟩
    · exact hlast
    · exact hpre pre e' post' hes

theorem always_append {P : σ → ε → Prop} {s : σ} {es fs : List ε} :
    Always step P s (es ++ fs) ↔ Always step P s es ∧ Always step P (run step s es) fs := by
  induction fs using List.reverseRecOn with
  | nil => simp [always_nil]
  | append_singleton fs e ih =>
    rw [← List.append_assoc, always_snoc, always_snoc, ih, run_append, and_assoc]

theorem always_cons {P : σ → ε → Prop} {s : σ} {e : ε} {es : List ε} :
    Always step P s (e :: es) ↔ P s e ∧ Always step P (step s e) es := by
  rw [← List.singleton_append, always_append, run_cons, run_nil]
  refine and_congr_left' ⟨fun h => h [] e [] rfl, fun h => ?_⟩
  rw [← List.nil_append [e], always_snoc]
  exact ⟨always_nil step P s, h⟩

instance decidableAlways {P : σ → ε → Prop} [∀ s e, Decidable (P s e)] :
    ∀ (s : σ) (es : List ε), Decidable (Always step P s es)
  | s, [] => isTrue (always_nil step P s)
  | s, e :: es =>
    have : Decidable (Always step P (step s e) es) := decidableAlways (step s e) es
    decidable_of_iff (P s e ∧ Always step P (step s e) es) (always_cons step).symm

/-- The invariant rule: what every allowed step preserves holds after every allowed run. -/
theorem invariant_of_always {I : σ → Prop} {P : σ → ε → Prop} {s : σ} (hinit : I s)
    (hstep : ∀ t e, I t → P t e → I (step t e)) {es : List ε} (h : Always step P s es) :
    I (run step s es) := by
  induction es using List.reverseRecOn with
  | nil => exact hinit
  | append_singleton es e ih =>
    rw [run_snoc]
    exact hstep _ _ (ih (Always.initial step h)) (Always.last step h)

theorem invariant {I : σ → Prop} {s : σ} (hinit : I s) (hstep : ∀ t e, I t → I (step t e))
    (es : List ε) : I (run step s es) :=
  invariant_of_always step (P := fun _ _ => True) hinit (fun t e ht _ => hstep t e ht)
    (fun _ _ _ _ => trivial)

/-- An invariant that only a step with `Q` may break holds up to the first such step, if there is
one. -/
theorem invariant_until {I : σ → Prop} {P Q : σ → ε → Prop} {s : σ} (hinit : I s)
    (hstep : ∀ t e, I t → P t e → ¬ Q t e → I (step t e)) {es : List ε} (h : Always step P s es) :
    (∃ pre e post, es = pre ++ e :: post ∧ I (run step s pre) ∧ Q (run step s pre) e) ∨
      I (run step s es) := by
  induction es using List.reverseRecOn with
  | nil => exact Or.inr hinit
  | append_singleton es e ih =>
    rcases ih (Always.initial step h) with ⟨pre, e', post, rfl, hbroken⟩ | hholds
    · exact Or.inl ⟨pre, e', post ++ [e], by rw [List.append_assoc, List.cons_append], hbroken⟩
    · by_cases hbreaks : Q (run step s es) e
      · exact Or.inl ⟨es, e, [], rfl, hholds, hbreaks⟩
      · rw [run_snoc]
        exact Or.inr (hstep _ _ hholds (Always.last step h) hbreaks)

/-- Where one more event after a good history stays good exactly if it is allowed, every
history of a run is good exactly if it starts so and every step is allowed. -/
theorem histories_iff_always {G : List ε → Prop} {P : σ → ε → Prop} {s : σ}
    (hstep : ∀ pre e, G pre → (G (pre ++ [e]) ↔ P (run step s pre) e)) (es : List ε) :
    (∀ pre post, es = pre ++ post → G pre) ↔ G [] ∧ Always step P s es := by
  constructor
  · intro h
    refine ⟨h [] es rfl, fun pre e post hes => ?_⟩
    have hafter := h (pre ++ [e]) post (by rw [hes, List.append_assoc, List.singleton_append])
    exact (hstep pre e (h pre (e :: post) hes)).mp hafter
  · rintro ⟨hinit, h⟩ pre post rfl
    have hpre := Always.initial step h
    clear h
    induction pre using List.reverseRecOn with
    | nil => exact hinit
    | append_singleton pre e ih =>
      exact (hstep pre e (ih (Always.initial step hpre))).mpr (Always.last step hpre)

/-- Where a step from a good state stays good exactly if it is allowed, every
state of a run is good exactly if every step is allowed. -/
theorem invariant_iff_always {I : σ → Prop} {P : σ → ε → Prop} {s : σ} (hinit : I s)
    (hstep : ∀ t e, I t → (I (step t e) ↔ P t e)) (es : List ε) :
    (∀ pre post, es = pre ++ post → I (run step s pre)) ↔ Always step P s es := by
  rw [histories_iff_always step (P := P) fun pre e hpre => by rw [run_snoc]; exact hstep _ e hpre]
  exact and_iff_right hinit

theorem always_iff_of_invariant {I : σ → Prop} {C : ε → Prop} {A B : σ → ε → Prop} {s : σ}
    (hinit : I s) (hiff : ∀ t e, C e → I t → (A t e ↔ B t e))
    (hstep : ∀ t e, C e → I t → B t e → I (step t e)) {es : List ε} (hC : ∀ e ∈ es, C e) :
    (Always step A s es ↔ Always step B s es) ∧ (Always step B s es → I (run step s es)) := by
  induction es using List.reverseRecOn with
  | nil => exact ⟨iff_of_true (always_nil step A s) (always_nil step B s), fun _ => hinit⟩
  | append_singleton es e ih =>
    have he : C e := hC e (List.mem_append_right _ (List.mem_singleton_self e))
    obtain ⟨ihiff, ihI⟩ := ih fun e' he' => hC e' (List.mem_append_left _ he')
    simp only [always_snoc, run_snoc]
    refine ⟨?_, fun h => hstep _ e he (ihI h.1) h.2⟩
    rw [ihiff]
    exact and_congr_right fun h => hiff _ e he (ihI h)

/-- Where an allowed step keeps a state good and any other spoils it for good, the last state of a
run is good exactly if every step was allowed. -/
theorem good_iff_always {G B : σ → Prop} {C P : σ → ε → Prop} {s : σ} (hinit : G s)
    (hgood : ∀ t e, C t e → G t → P t e → G (step t e))
    (hspoils : ∀ t e, C t e → G t → ¬ P t e → B (step t e))
    (hspoilt : ∀ t e, C t e → B t → B (step t e)) (hapart : ∀ t, B t → ¬ G t) {es : List ε}
    (hC : Always step C s es) : G (run step s es) ↔ Always step P s es := by
  have hsplit : (Always step P s es ∧ G (run step s es)) ∨
      (¬ Always step P s es ∧ B (run step s es)) := by
    induction es using List.reverseRecOn with
    | nil => exact Or.inl ⟨always_nil step P s, hinit⟩
    | append_singleton es e ih =>
      obtain ⟨hpre, he⟩ := (always_snoc step).mp hC
      rw [run_snoc, always_snoc]
      rcases ih hpre with ⟨hall, hG⟩ | ⟨hnot, hB⟩
      · by_cases hP : P (run step s es) e
        · exact Or.inl ⟨⟨hall, hP⟩, hgood _ e he hG hP⟩
        · exact Or.inr ⟨fun h => hP h.2, hspoils _ e he hG hP⟩
      · exact Or.inr ⟨fun h => hnot h.1, hspoilt _ e he hB⟩
  rcases hsplit with ⟨hall, hG⟩ | ⟨hnot, hB⟩
  · exact iff_of_true hG hall
  · exact iff_of_false (hapart _ hB) hnot

def Once (Q : σ → ε → Prop) (s : σ) (es : List ε) : Prop :=
  ∃ pre e post, es = pre ++ e :: post ∧ Q (run step s pre) e

theorem once_snoc {Q : σ → ε → Prop} {s : σ} {es : List ε} {e : ε} :
    Once step Q s (es ++ [e]) ↔ Once step Q s es ∨ Q (run step s es) e := by
  constructor
  · rintro ⟨pre, e', post, he, hQ⟩
    rcases snoc_eq_append_cons he with ⟨rfl, rfl, -⟩ | ⟨post', hes, -⟩
    · exact Or.inr hQ
    · exact Or.inl ⟨pre, e', post', hes, hQ⟩
  · rintro (⟨pre, e', post, rfl, hQ⟩ | hQ)
    · exact ⟨pre, e', post ++ [e], by simp, hQ⟩
    · exact ⟨es, e, [], rfl, hQ⟩

theorem once_of_holds {I p : σ → Prop} {Q : σ → ε → Prop} {s : σ} (hI : ∀ es, I (run step s es))
    (hinit : ¬ p s) (hstep : ∀ t e, I t → p (step t e) → p t ∨ Q t e) {es : List ε}
    (h : p (run step s es)) : Once step Q s es := by
  induction es using List.reverseRecOn with
  | nil => exact absurd h hinit
  | append_singleton es e ih =>
    rw [run_snoc] at h
    rw [once_snoc]
    exact (hstep _ e (hI es) h).imp_left ih

def total (f : σ → ε → ℕ) (s : σ) : List ε → ℕ
  | [] => 0
  | e :: es => f s e + total f (step s e) es

theorem total_le_total_of_invariant {I : σ → Prop} {f g : σ → ε → ℕ} (level : σ → ℕ) {s : σ}
    (hinit : I s) (hkeep : ∀ t e, I t → I (step t e))
    (hstep : ∀ t e, I t → f t e + level (step t e) ≤ g t e + level t) (es : List ε) :
    total step f s es + level (run step s es) ≤ total step g s es + level s := by
  induction es generalizing s with
  | nil => simp [total]
  | cons e es ih =>
    have h₁ := hstep s e hinit
    have h₂ := ih (hkeep s e hinit)
    simp only [total, run_cons]
    omega

theorem total_le_total {f g : σ → ε → ℕ} (level : σ → ℕ) {s : σ}
    (hstep : ∀ t e, f t e + level (step t e) ≤ g t e + level t) (es : List ε) :
    total step f s es + level (run step s es) ≤ total step g s es + level s :=
  total_le_total_of_invariant step (I := fun _ => True) level trivial (fun _ _ _ => trivial)
    (fun t e _ => hstep t e) es

end Machine

section History

def Since (q r : List ε → ε → Prop) (es : List ε) : Prop :=
  ∃ pre e post, es = pre ++ e :: post ∧ q pre e ∧
    ∀ mid e' rest, post = mid ++ e' :: rest → r (pre ++ e :: mid) e'

variable {q r : List ε → ε → Prop}

theorem since_now {es : List ε} {e : ε} (h : q es e) : Since q r (es ++ [e]) := by
  refine ⟨es, e, [], rfl, h, ?_⟩
  intro mid e' rest hm
  simp at hm

theorem Since.snoc {es : List ε} {e : ε} (h : Since q r es) (hr : r es e) :
    Since q r (es ++ [e]) := by
  obtain ⟨pre, e₀, post, rfl, hq, hpost⟩ := h
  refine ⟨pre, e₀, post ++ [e], by simp, hq, ?_⟩
  intro mid e' rest hm
  rcases snoc_eq_append_cons hm with ⟨rfl, rfl, -⟩ | ⟨rest', hes, -⟩
  · exact hr
  · exact hpost mid e' rest' hes

theorem Since.append {es fs : List ε} (h : Since q r es)
    (hr : ∀ mid e rest, fs = mid ++ e :: rest → r (es ++ mid) e) : Since q r (es ++ fs) := by
  induction fs using List.reverseRecOn with
  | nil => rwa [List.append_nil]
  | append_singleton fs e ih =>
    rw [← List.append_assoc]
    exact (ih fun mid e' rest hfs => hr mid e' (rest ++ [e]) (by simp [hfs])).snoc (hr fs e [] rfl)

theorem since_nil : ¬ Since q r ([] : List ε) := by
  rintro ⟨pre, e, post, h, -⟩
  simp at h

theorem since_snoc {es : List ε} {e : ε} :
    Since q r (es ++ [e]) ↔ q es e ∨ Since q r es ∧ r es e := by
  constructor
  · rintro ⟨pre, e₀, post, he, hq, hpost⟩
    rcases snoc_eq_append_cons he with ⟨rfl, rfl, -⟩ | ⟨post', hes, rfl⟩
    · exact Or.inl hq
    · refine Or.inr ⟨⟨pre, e₀, post', hes, hq, ?_⟩, ?_⟩
      · intro mid e' rest hm
        exact hpost mid e' (rest ++ [e]) (by simp [hm])
      · rw [hes]
        exact hpost post' e [] rfl
  · rintro (hq | ⟨h, hr⟩)
    · exact since_now hq
    · exact h.snoc hr

theorem not_since {es fs : List ε} {e : ε} (hq : ∀ pre, ∀ e' ∈ e :: fs, ¬ q pre e')
    (hr : ¬ r es e) :
    ¬ Since q r (es ++ e :: fs) := by
  induction fs using List.reverseRecOn with
  | nil =>
    rw [since_snoc]
    rintro (hnow | ⟨-, hkeep⟩)
    · exact hq es e List.mem_cons_self hnow
    · exact hr hkeep
  | append_singleton fs e' ih =>
    rw [← List.cons_append, ← List.append_assoc, since_snoc]
    rintro (hnow | ⟨hbefore, -⟩)
    · exact hq _ e' (by simp) hnow
    · exact ih (fun pre d hd => hq pre d (List.mem_append_left [e'] hd)) hbefore

theorem Since.mono {q' r' : List ε → ε → Prop} {es : List ε} (h : Since q r es)
    (hq : ∀ pre e, q pre e → q' pre e) (hr : ∀ pre e, r pre e → r' pre e) : Since q' r' es := by
  obtain ⟨pre, e, post, he, h₁, h₂⟩ := h
  exact ⟨pre, e, post, he, hq _ _ h₁, fun mid e' rest hm => hr _ _ (h₂ mid e' rest hm)⟩

/-- What one kind of step brings about and another ends holds exactly since a step of
the first kind. -/
theorem holds_iff_since {σ : Type*} {step : σ → ε → σ} {p : σ → Prop} {q r : σ → ε → Prop} {s : σ}
    (hinit : ¬ p s) (hstep : ∀ t e, p (step t e) ↔ q t e ∨ p t ∧ r t e) (es : List ε) :
    p (run step s es) ↔
      Since (fun pre e => q (run step s pre) e) (fun pre e => r (run step s pre) e) es := by
  induction es using List.reverseRecOn with
  | nil => exact iff_of_false hinit since_nil
  | append_singleton es e ih => rw [run_snoc, hstep, since_snoc, ih]

end History

end Runs
