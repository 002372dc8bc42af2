import ForgeswornLink.Lib.Runs

/-!
# A machine whose steps run a component

Every step of an outer machine runs a list of calls on a component of its state.
The calls of a whole run, one after the other, are a run of the component, so
whatever holds along runs of the component holds along runs of the outer
machine; and each call of that run was made by one step of the outer one.
-/

namespace Runs

universe u v w x
variable {σ : Type u} {ε : Type v} {τ : Type w} {κ : Type x}

section Expansion
variable (step : σ → ε → σ) (calls : σ → ε → List κ)

def trace (s : σ) : List ε → List κ
  | [] => []
  | e :: es => calls s e ++ trace (step s e) es

theorem trace_append (s : σ) (es fs : List ε) :
    trace step calls s (es ++ fs) = trace step calls s es ++ trace step calls
      (run step s es) fs := by
  induction es generalizing s with
  | nil => rfl
  | cons e es ih => rw [List.cons_append, trace, trace, ih, List.append_assoc, run_cons]

theorem trace_snoc (s : σ) (es : List ε) (e : ε) :
    trace step calls s (es ++ [e]) = trace step calls s es ++ calls (run step s es) e := by
  rw [trace_append, trace, trace, List.append_nil]

theorem trace_split {s : σ} {es : List ε} {pre post : List κ} {c : κ}
    (h : trace step calls s es = pre ++ c :: post) :
    ∃ before e later first rest, es = before ++ e :: later ∧
      calls (run step s before) e = first ++ c :: rest ∧
        pre = trace step calls s before ++ first := by
  induction es using List.reverseRecOn generalizing post with
  | nil =>
    rw [trace] at h
    exact absurd h.symm (List.append_ne_nil_of_right_ne_nil _ (List.cons_ne_nil _ _))
  | append_singleton es e ih =>
    rw [trace_snoc] at h
    rcases List.append_eq_append_iff.mp h with ⟨first, hpre, hcalls⟩ | ⟨rest, htrace, hcalls⟩
    · exact ⟨es, e, [], first, post, rfl, hcalls, hpre⟩
    · cases rest with
      | nil =>
        rw [List.append_nil] at htrace
        exact ⟨es, e, [], [], post, rfl, hcalls.symm, by rw [htrace, List.append_nil]⟩
      | cons c' rest =>
        obtain ⟨rfl, -⟩ := List.cons.inj hcalls
        obtain ⟨before, e', later, first, rest', rfl, hcall, hpre⟩ := ih htrace
        exact ⟨before, e', later ++ [e], first, rest', by simp, hcall, hpre⟩

variable {step calls}

theorem component_run (component : σ → τ) {inner : τ → κ → τ}
    (h : ∀ s e, component (step s e) = run inner (component s) (calls s e)) (s : σ) (es : List ε) :
    component (run step s es) = run inner (component s) (trace step calls s es) := by
  induction es generalizing s with
  | nil => rfl
  | cons e es ih => rw [run_cons, ih, h, trace, run_append]

theorem since_trace {q r : List κ → κ → Prop} {q' r' : List ε → ε → Prop} {s : σ}
    (hq : ∀ pre e, q' pre e → Since q r (trace step calls s (pre ++ [e])))
    (hr : ∀ pre e, r' pre e → ∀ mid c rest, calls (run step s pre) e = mid ++ c :: rest →
      r (trace step calls s pre ++ mid) c)
    {es : List ε} (h : Since q' r' es) : Since q r (trace step calls s es) := by
  induction es using List.reverseRecOn with
  | nil => exact absurd h since_nil
  | append_singleton es e ih =>
    rcases since_snoc.mp h with hnow | ⟨hbefore, hkeep⟩
    · exact hq es e hnow
    · rw [trace_snoc]
      exact (ih hbefore).append (hr es e hkeep)

end Expansion

end Runs
