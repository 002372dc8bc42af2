import ForgeswornLink.Lib.Runs
import Mathlib.Logic.Function.Basic

/-!
# Threads of atomic sections

A call is a list of sections. A section runs atomically on a shared state; it may
be blocked, it may put further sections before the rest of its call, and it may
leave an answer. A pool interleaves the sections of any number of threads.

A section can be a debt: it restores a property of the shared state that an
earlier section of its call broke. The property then holds whenever no thread is
in debt.
-/

namespace Sections
open Runs

structure Thread (ι α : Type*) where
  todo : List ι
  answer : Option α

structure Pool (σ ι α : Type*) where
  shared : σ
  threads : ℕ → Thread ι α

structure Outcome (σ ι α : Type*) where
  shared : σ
  more : List ι
  answer : Option α

inductive Move (κ : Type*) where
  | call (t : ℕ) (c : κ)
  | go (t : ℕ)

def Move.thread {κ : Type*} : Move κ → ℕ
  | .call t _ => t
  | .go t => t

section Machine
variable {σ ι α κ : Type*} (body : κ → List ι) (exec : ℕ → σ → ι → Option (Outcome σ ι α))

def idlePool (s : σ) : Pool σ ι α := ⟨s, fun _ => ⟨[], none⟩⟩

def Pool.put (pool : Pool σ ι α) (s : σ) (t : ℕ) (thread : Thread ι α) : Pool σ ι α :=
  ⟨s, Function.update pool.threads t thread⟩

/-- A thread takes a call only when it has none; a blocked section waits. -/
def step (pool : Pool σ ι α) : Move κ → Pool σ ι α
  | .call t c =>
    if (pool.threads t).todo.isEmpty then pool.put pool.shared t ⟨body c, none⟩ else pool
  | .go t =>
    match (pool.threads t).todo with
    | [] => pool
    | i :: rest =>
      match exec t pool.shared i with
      | none => pool
      | some o => pool.put o.shared t ⟨o.more ++ rest, o.answer.or (pool.threads t).answer⟩

inductive Did (pool : Pool σ ι α) : Move κ → Pool σ ι α → Prop
  | stays (m : Move κ) : Did pool m pool
  | takes {t : ℕ} {c : κ} (h : (pool.threads t).todo = []) :
    Did pool (.call t c) (pool.put pool.shared t ⟨body c, none⟩)
  | runs {t : ℕ} {i : ι} {rest : List ι} {o : Outcome σ ι α} (h : (pool.threads t).todo = i :: rest)
      (hexec : exec t pool.shared i = some o) :
    Did pool (.go t) (pool.put o.shared t ⟨o.more ++ rest, o.answer.or (pool.threads t).answer⟩)

theorem did_step (pool : Pool σ ι α) (m : Move κ) :
    Did body exec pool m (step body exec pool m) := by
  cases m with
  | call t c =>
    simp only [step]
    split
    · rename_i h
      exact .takes (List.isEmpty_iff.mp h)
    · exact .stays _
  | go t =>
    simp only [step]
    split
    · exact .stays _
    · rename_i i rest htodo
      split
      · exact .stays _
      · rename_i o hexec
        exact .runs htodo hexec

theorem step_go {pool : Pool σ ι α} {t : ℕ} {i : ι} {rest : List ι} {o : Outcome σ ι α}
    (h : (pool.threads t).todo = i :: rest) (hexec : exec t pool.shared i = some o) :
    step body exec pool (.go t) =
      pool.put o.shared t ⟨o.more ++ rest, o.answer.or (pool.threads t).answer⟩ := by
  simp only [step, h, hexec]

theorem step_blocked {pool : Pool σ ι α} {t : ℕ} {i : ι} {rest : List ι}
    (h : (pool.threads t).todo = i :: rest) (hexec : exec t pool.shared i = none) :
    step body exec pool (.go t) = pool := by
  simp only [step, h, hexec]

theorem step_idle {pool : Pool σ ι α} {t : ℕ} (h : (pool.threads t).todo = []) :
    step body exec pool (.go t) = pool := by
  simp only [step, h]

theorem step_call {pool : Pool σ ι α} {t : ℕ} (h : (pool.threads t).todo = []) (c : κ) :
    step body exec pool (.call t c) = pool.put pool.shared t ⟨body c, none⟩ := by
  simp only [step, h, List.isEmpty_nil, if_true]

@[simp] theorem put_shared (pool : Pool σ ι α) (s : σ) (t : ℕ) (thread : Thread ι α) :
    (pool.put s t thread).shared = s := rfl

@[simp] theorem put_threads_self (pool : Pool σ ι α) (s : σ) (t : ℕ) (thread : Thread ι α) :
    (pool.put s t thread).threads t = thread := Function.update_self ..

theorem put_threads_of_ne (pool : Pool σ ι α) (s : σ) {t t' : ℕ} (h : t' ≠ t)
    (thread : Thread ι α) :
    (pool.put s t thread).threads t' = pool.threads t' := Function.update_of_ne h ..

theorem threads_step_of_ne (pool : Pool σ ι α) {m : Move κ} {t : ℕ} (h : m.thread ≠ t) :
    (step body exec pool m).threads t = pool.threads t := by
  generalize hnext : step body exec pool m = next
  have hdid : Did body exec pool m next := hnext ▸ did_step body exec pool m
  cases hdid with
  | stays => rfl
  | takes htodo => exact put_threads_of_ne pool _ (Ne.symm h) _
  | runs htodo hexec => exact put_threads_of_ne pool _ (Ne.symm h) _

theorem shared_step {Q : σ → Prop} {pool : Pool σ ι α} {m : Move κ} (h : Q pool.shared)
    (hruns : ∀ t i o, m = .go t → exec t pool.shared i = some o → Q o.shared) :
    Q (step body exec pool m).shared := by
  generalize hnext : step body exec pool m = next
  have hdid : Did body exec pool m next := hnext ▸ did_step body exec pool m
  cases hdid with
  | stays => exact h
  | takes htodo => exact h
  | runs htodo hexec => exact hruns _ _ _ rfl hexec

theorem threads_run_of_ne (pool : Pool σ ι α) {ms : List (Move κ)} {t : ℕ}
    (h : ∀ m ∈ ms, m.thread ≠ t) :
    (run (step body exec) pool ms).threads t = pool.threads t := by
  induction ms generalizing pool with
  | nil => rfl
  | cons m ms ih =>
    rw [run_cons, ih _ fun m' hm' => h m' (List.mem_cons_of_mem m hm'),
      threads_step_of_ne body exec pool (h m List.mem_cons_self)]

/-! ### Debts -/

def Owes (debt : ι → Prop) (pool : Pool σ ι α) : Prop :=
  ∃ t, ∃ i ∈ (pool.threads t).todo, debt i

/-- Settled or owed: it is enough that a debt restores the property, and that any other section
keeps it or goes into debt. -/
theorem settled_or_owed_step {debt : ι → Prop} {G : σ → Prop} {pool : Pool σ ι α}
    (hpays : ∀ t i o, exec t pool.shared i = some o → debt i → G o.shared)
    (hkeeps : ∀ t i o, exec t pool.shared i = some o → G pool.shared →
      G o.shared ∨ ∃ j ∈ o.more, debt j)
    (h : G pool.shared ∨ Owes debt pool) (m : Move κ) :
    G (step body exec pool m).shared ∨ Owes debt (step body exec pool m) := by
  generalize hnext : step body exec pool m = next
  have hdid : Did body exec pool m next := hnext ▸ did_step body exec pool m
  cases hdid with
  | stays => exact h
  | @takes t c htodo =>
    refine h.imp_right ?_
    rintro ⟨t', i, hi, hdebt⟩
    have hne : t' ≠ t := by
      rintro rfl
      simp [htodo] at hi
    exact ⟨t', i, by rwa [put_threads_of_ne pool _ hne], hdebt⟩
  | @runs t i rest o htodo hexec =>
    rcases h with hG | ⟨t', j, hj, hdebt⟩
    · refine (hkeeps t i o hexec hG).imp_right ?_
      rintro ⟨j, hj, hdebt⟩
      exact ⟨t, j, by simpa using Or.inl hj, hdebt⟩
    · by_cases hne : t' = t
      · subst hne
        rw [htodo] at hj
        rcases List.mem_cons.mp hj with rfl | hrest
        · exact Or.inl (hpays t' j o hexec hdebt)
        · exact Or.inr ⟨t', j, by simpa using Or.inr hrest, hdebt⟩
      · exact Or.inr ⟨t', j, by rwa [put_threads_of_ne pool _ hne], hdebt⟩

/-! ### Answers -/

theorem answers_step {Good : σ → α → Prop} {pool : Pool σ ι α}
    (h : ∀ t a, (pool.threads t).answer = some a → Good pool.shared a)
    (hkeeps : ∀ t i rest o, (pool.threads t).todo = i :: rest → exec t pool.shared i = some o →
      (∀ a, Good pool.shared a → Good o.shared a) ∧ ∀ a, o.answer = some a → Good o.shared a)
    (m : Move κ) (t : ℕ) (a : α) (ha : ((step body exec pool m).threads t).answer = some a) :
    Good (step body exec pool m).shared a := by
  generalize hnext : step body exec pool m = next at ha ⊢
  have hdid : Did body exec pool m next := hnext ▸ did_step body exec pool m
  cases hdid with
  | stays => exact h t a ha
  | @takes t' c htodo =>
    by_cases hne : t = t'
    · subst hne
      simp at ha
    · rw [put_threads_of_ne pool _ hne] at ha
      exact h t a ha
  | @runs t' i rest o htodo hexec =>
    obtain ⟨hold, hnew⟩ := hkeeps t' i rest o htodo hexec
    by_cases hne : t = t'
    · subst hne
      rw [put_threads_self] at ha
      rcases Option.or_eq_some_iff.mp ha with hown | ⟨_, hprev⟩
      · exact hnew a hown
      · exact hold a (h t a hprev)
    · rw [put_threads_of_ne pool _ hne] at ha
      exact hold a (h t a ha)

/-! ### One lock -/

/-- A lock over the shared state: while it is free the state is `Free` and every thread is
`Outside`; the thread that holds it is `Inside`, which may depend on the state, and every other
thread is `Outside`. -/
structure Lock (σ ι : Type*) where
  holder : σ → Option ℕ
  Free : σ → Prop
  Outside : List ι → Prop
  Inside : σ → List ι → Prop

structure Lock.Guards (lock : Lock σ ι) (pool : Pool σ ι α) : Prop where
  free : lock.holder pool.shared = none → lock.Free pool.shared
  inside : ∀ t, lock.holder pool.shared = some t → lock.Inside pool.shared (pool.threads t).todo
  outside : ∀ t, lock.holder pool.shared ≠ some t → lock.Outside (pool.threads t).todo

/-- What one section may do: outside the lock it leaves the state alone or takes the lock, inside
it keeps the lock or leaves the state as the lock promises. -/
structure Lock.Respected (lock : Lock σ ι) : Prop where
  calls : ∀ c, lock.Outside (body c)
  idle : ∀ s, ¬ lock.Inside s []
  enters : ∀ t s i rest o, lock.holder s ≠ some t → lock.Outside (i :: rest) →
    exec t s i = some o →
    (o.shared = s ∧ lock.Outside (o.more ++ rest)) ∨
      (lock.holder s = none ∧ lock.holder o.shared = some t ∧
        (lock.Free s → lock.Inside o.shared (o.more ++ rest)))
  holds : ∀ t s i rest o, lock.holder s = some t → lock.Inside s (i :: rest) →
    exec t s i = some o →
    (lock.holder o.shared = some t ∧ lock.Inside o.shared (o.more ++ rest)) ∨
      (lock.holder o.shared = none ∧ lock.Free o.shared ∧ lock.Outside (o.more ++ rest))

theorem Lock.guards_put {lock : Lock σ ι} {pool : Pool σ ι α} {s : σ} {t : ℕ} {thread : Thread ι α}
    (hfree : lock.holder s = none → lock.Free s)
    (hinside : lock.holder s = some t → lock.Inside s thread.todo)
    (houtside : lock.holder s ≠ some t → lock.Outside thread.todo)
    (hothers : ∀ t', t' ≠ t → (lock.holder s = some t' → lock.Inside s (pool.threads t').todo) ∧
      (lock.holder s ≠ some t' → lock.Outside (pool.threads t').todo)) :
    lock.Guards (pool.put s t thread) := by
  refine ⟨hfree, fun t' ht' => ?_, fun t' ht' => ?_⟩
  · by_cases hne : t' = t
    · subst hne
      rw [put_threads_self]
      exact hinside ht'
    · rw [put_threads_of_ne pool _ hne]
      exact (hothers t' hne).1 ht'
  · by_cases hne : t' = t
    · subst hne
      rw [put_threads_self]
      exact houtside ht'
    · rw [put_threads_of_ne pool _ hne]
      exact (hothers t' hne).2 ht'

theorem Lock.Guards.others {lock : Lock σ ι} {pool : Pool σ ι α} (h : lock.Guards pool)
    {t : ℕ} {s : σ} (hbefore : lock.holder pool.shared = none ∨ lock.holder pool.shared = some t)
    (hafter : lock.holder s = none ∨ lock.holder s = some t) (t' : ℕ) (hne : t' ≠ t) :
    (lock.holder s = some t' → lock.Inside s (pool.threads t').todo) ∧
      (lock.holder s ≠ some t' → lock.Outside (pool.threads t').todo) := by
  have hnot : ∀ {holder : Option ℕ}, holder = none ∨ holder = some t → holder ≠ some t' := by
    rintro holder (rfl | rfl)
    · simp
    · simpa using hne.symm
  exact ⟨fun ht' => absurd ht' (hnot hafter), fun _ => h.outside t' (hnot hbefore)⟩

theorem Lock.Guards.step {body : κ → List ι} {exec : ℕ → σ → ι → Option (Outcome σ ι α)}
    {lock : Lock σ ι} (hlock : lock.Respected body exec) {pool : Pool σ ι α} (h : lock.Guards pool)
    (m : Move κ) : lock.Guards (step body exec pool m) := by
  generalize hnext : Sections.step body exec pool m = next
  have hdid : Did body exec pool m next := hnext ▸ did_step body exec pool m
  cases hdid with
  | stays => exact h
  | @takes t c htodo =>
    -- The holder has sections left, so it is not the thread that takes the call.
    have hnot : lock.holder pool.shared ≠ some t := fun hholds =>
      hlock.idle _ (htodo ▸ h.inside t hholds)
    exact guards_put h.free (fun hholds => absurd hholds hnot) (fun _ => hlock.calls c)
      fun t' _ => ⟨h.inside t', h.outside t'⟩
  | @runs t i rest o htodo hexec =>
    by_cases hholds : lock.holder pool.shared = some t
    · rcases hlock.holds t _ i rest o hholds (htodo ▸ h.inside t hholds) hexec with
        ⟨hstill, hinside⟩ | ⟨hgone, hfree, hout⟩
      · exact guards_put (fun hnone => by simp [hstill] at hnone) (fun _ => hinside)
          (fun hnot => absurd hstill hnot) (h.others (Or.inr hholds) (Or.inr hstill))
      · exact guards_put (fun _ => hfree) (fun hsome => by simp [hgone] at hsome) (fun _ => hout)
          (h.others (Or.inr hholds) (Or.inl hgone))
    · rcases hlock.enters t _ i rest o hholds (htodo ▸ h.outside t hholds) hexec with
        ⟨hsame, hout⟩ | ⟨hnone, htakes, hinside⟩
      · rw [hsame]
        exact guards_put h.free (fun hsome => absurd hsome hholds) (fun _ => hout)
          fun t' _ => ⟨h.inside t', h.outside t'⟩
      · exact guards_put (fun hfree => by simp [htakes] at hfree) (fun _ => hinside (h.free hnone))
          (fun hnot => absurd htakes hnot) (h.others (Or.inl hnone) (Or.inr htakes))

/-! ### One thread alone -/

inductive Completes (t : ℕ) : σ → List ι → Option α → σ → Option α → Prop
  | done (s : σ) (a : Option α) : Completes t s [] a s a
  | goes {s : σ} {i : ι} {rest : List ι} {a : Option α} {o : Outcome σ ι α} {s' : σ} {a' : Option α}
      (hexec : exec t s i = some o)
      (h : Completes t o.shared (o.more ++ rest) (o.answer.or a) s' a') :
    Completes t s (i :: rest) a s' a'

theorem completes_run {t : ℕ} {s s' : σ} {todo : List ι} {a a' : Option α}
    (h : Completes exec t s todo a s' a') {pool : Pool σ ι α} (hshared : pool.shared = s)
    (hthread : pool.threads t = ⟨todo, a⟩) :
    ∃ n, run (step body exec) pool (List.replicate n (.go t)) = pool.put s' t ⟨[], a'⟩ := by
  induction h generalizing pool with
  | done s a =>
    refine ⟨0, ?_⟩
    rw [List.replicate_zero, run_nil, Pool.put, ← hthread, Function.update_eq_self, ← hshared]
  | @goes s i rest a o s' a' hexec _ ih =>
    have htodo : (pool.threads t).todo = i :: rest := by rw [hthread]
    have hstep := step_go body exec htodo (hshared ▸ hexec)
    obtain ⟨n, hn⟩ := @ih (step body exec pool (.go t)) (by rw [hstep, put_shared])
      (by rw [hstep, put_threads_self, hthread])
    refine ⟨n + 1, ?_⟩
    rw [List.replicate_succ, run_cons, hn, hstep, Pool.put, Pool.put, Pool.put,
      Function.update_idem]

end Machine
end Sections
