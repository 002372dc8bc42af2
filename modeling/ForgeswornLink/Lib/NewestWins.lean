import ForgeswornLink.Lib.Runs
import ForgeswornLink.Lib.Table

/-!
# Slots where the newest holder wins

One slot for each key. Whoever takes a slot gets the next number and displaces
the holder before, who is told and keeps the notice until it reads it. A holder
gives a slot back only while it still has it. Over a whole run from the empty
table, a number says which key it was taken for, the holder of a key took that
key, and who has been told was displaced from its own slot by someone newer.

A number may go through stages of its own, some of which entitle it to a slot.
`Lives` says that nobody else holds one. It is kept by whoever takes a slot with
its first stage, by a change of stage that keeps the title, and by a last stage
that comes with freeing the slot or after being told.
-/

namespace NewestWins
open Runs

universe u
variable {K : Type u}

structure Slots (K : Type u) where
  holder : Table K ℕ
  next : ℕ
  told : List ℕ

inductive Op (K : Type u) where
  | take (key : K)
  | free (key : K) (holder : ℕ)
  | read (holder : ℕ)

/-- The keys that were taken; the number of a holder is its place in this list. -/
def taken (ops : List (Op K)) : List K :=
  ops.filterMap fun
    | .take key => some key
    | _ => none

theorem taken_append (ops ops' : List (Op K)) : taken (ops ++ ops') = taken ops ++ taken ops' :=
  List.filterMap_append

variable [DecidableEq K]

def Slots.step (s : Slots K) : Op K → Slots K
  | .take key =>
    { holder := s.holder.insert key s.next
      next := s.next + 1
      told := match s.holder.lookup key with
        | some previous => s.told ++ [previous]
        | none => s.told }
  | .free key holder =>
    { s with holder := if s.holder.lookup key = some holder then s.holder.erase key else s.holder }
  | .read holder => { s with told := s.told.erase holder }

def Slots.empty : Slots K := ⟨∅, 0, []⟩

section Step
variable {s : Slots K} {op : Op K} {key : K} {id : ℕ}

theorem next_step (s : Slots K) (op : Op K) :
    (s.step op).next = s.next + (taken [op]).length := by
  cases op <;> rfl

theorem holder_step (h : (s.step op).holder.lookup key = some id) :
    (op = .take key ∧ id = s.next) ∨ s.holder.lookup key = some id ∧ op ≠ .take key := by
  cases op with
  | take key' =>
    simp only [Slots.step, Table.lookup_insert_ite] at h
    split_ifs at h with hkey
    · rw [← hkey]
      exact Or.inl ⟨rfl, (Option.some.inj h).symm⟩
    · exact Or.inr ⟨h, fun hop => hkey (Op.take.inj hop).symm⟩
  | free key' holder =>
    simp only [Slots.step] at h
    split_ifs at h
    · rw [Table.lookup_erase_ite] at h
      split_ifs at h
      exact Or.inr ⟨h, nofun⟩
    · exact Or.inr ⟨h, nofun⟩
  | read holder => exact Or.inr ⟨h, nofun⟩

theorem holder_step_iff : (s.step op).holder.lookup key = some id ↔
    (op = .take key ∧ id = s.next) ∨
      s.holder.lookup key = some id ∧ op ≠ .take key ∧ op ≠ .free key id := by
  constructor
  · intro h
    refine (holder_step h).imp_right fun ⟨hheld, htake⟩ => ⟨hheld, htake, ?_⟩
    rintro rfl
    simp [Slots.step, hheld] at h
  · rintro (⟨rfl, rfl⟩ | ⟨hheld, htake, hfree⟩)
    · simp [Slots.step]
    · cases op with
      | take key' =>
        have hkey : key ≠ key' := fun heq => htake (by rw [heq])
        simpa [Slots.step, Table.lookup_insert_ite, hkey] using hheld
      | free key' holder =>
        simp only [Slots.step]
        split_ifs with hcurrent
        · have hkey : key ≠ key' := by
            rintro rfl
            exact hfree (by rw [Option.some.inj (hheld.symm.trans hcurrent)])
          rw [Table.lookup_erase_ite, if_neg hkey, hheld]
        · exact hheld
      | read holder => exact hheld

theorem told_step (h : id ∈ (s.step op).told) :
    (∃ key, op = .take key ∧ s.holder.lookup key = some id) ∨ id ∈ s.told := by
  cases op with
  | take key =>
    simp only [Slots.step] at h
    cases hheld : s.holder.lookup key with
    | none =>
      rw [hheld] at h
      exact Or.inr h
    | some previous =>
      rw [hheld, List.mem_append, List.mem_singleton] at h
      rcases h with hbefore | rfl
      · exact Or.inr hbefore
      · exact Or.inl ⟨key, rfl, hheld⟩
  | free key holder => exact Or.inr h
  | read holder => exact Or.inr (List.mem_of_mem_erase h)

theorem told_take (h : s.holder.lookup key = some id) : id ∈ (s.step (.take key)).told := by
  simp [Slots.step, h]

theorem told_step_of_unread (h : id ∈ s.told) (hop : op ≠ .read id) : id ∈ (s.step op).told := by
  cases op with
  | take key =>
    simp only [Slots.step]
    cases s.holder.lookup key with
    | none => exact h
    | some previous => exact List.mem_append_left _ h
  | free key holder => exact h
  | read holder =>
    refine (List.mem_erase_of_ne ?_).mpr h
    rintro rfl
    exact hop rfl

end Step

section Run
variable {ops : List (Op K)} {key : K} {id : ℕ}

theorem run_of_no_take (s : Slots K) (h : ∀ key, Op.take key ∉ ops) (key : K) :
    (run Slots.step s ops).next = s.next ∧ (∀ id ∈ (run Slots.step s ops).told, id ∈ s.told) ∧
      ((run Slots.step s ops).holder.lookup key = s.holder.lookup key ∨
        ∃ id, Op.free key id ∈ ops ∧ s.holder.lookup key = some id ∧
          (run Slots.step s ops).holder.lookup key = none) := by
  induction ops generalizing s with
  | nil => exact ⟨rfl, fun _ hid => hid, Or.inl rfl⟩
  | cons op ops ih =>
    obtain ⟨hnext, htold, hholder⟩ := ih (s.step op) fun key hmem =>
      h key (List.mem_cons_of_mem _ hmem)
    rw [run_cons]
    cases op with
    | take key' => exact absurd List.mem_cons_self (h key')
    | read holder =>
      refine ⟨hnext, fun id hid => List.mem_of_mem_erase (htold id hid), ?_⟩
      rcases hholder with hsame | ⟨id, hfree, hheld, hnone⟩
      · exact Or.inl hsame
      · exact Or.inr ⟨id, List.mem_cons_of_mem _ hfree, hheld, hnone⟩
    | free key' holder =>
      refine ⟨hnext, htold, ?_⟩
      by_cases hfreed : key = key' ∧ s.holder.lookup key = some holder
      · obtain ⟨rfl, hheld⟩ := hfreed
        have hnone : (s.step (.free key holder)).holder.lookup key = none := by
          simp only [Slots.step]
          rw [if_pos hheld, Table.lookup_erase_ite, if_pos rfl]
        refine Or.inr ⟨holder, List.mem_cons_self, hheld, ?_⟩
        rcases hholder with hsame | ⟨id, -, hheld', -⟩
        · rw [hsame, hnone]
        · rw [hnone] at hheld'
          cases hheld'
      · have hsame : (s.step (.free key' holder)).holder.lookup key = s.holder.lookup key := by
          simp only [Slots.step]
          split_ifs with hheld
          · rw [Table.lookup_erase_ite, if_neg]
            exact fun heq => hfreed ⟨heq, heq ▸ hheld⟩
          · rfl
        rw [hsame] at hholder
        rcases hholder with hholder | ⟨id, hfree, hheld, hnone⟩
        · exact Or.inl hholder
        · exact Or.inr ⟨id, List.mem_cons_of_mem _ hfree, hheld, hnone⟩

theorem next_run (ops : List (Op K)) :
    (run Slots.step Slots.empty ops).next = (taken ops).length := by
  induction ops using List.reverseRecOn with
  | nil => rfl
  | append_singleton ops op ih =>
    rw [run_snoc, next_step, ih, taken_append, List.length_append]

theorem taken_of_holder (h : (run Slots.step Slots.empty ops).holder.lookup key = some id) :
    (taken ops)[id]? = some key := by
  induction ops using List.reverseRecOn with
  | nil => cases h
  | append_singleton ops op ih =>
    rw [run_snoc] at h
    rw [taken_append]
    rcases holder_step h with ⟨rfl, rfl⟩ | ⟨hbefore, -⟩
    · rw [next_run, List.getElem?_append_right le_rfl, Nat.sub_self]
      rfl
    · have htaken := ih hbefore
      rw [List.getElem?_append_left (List.getElem?_eq_some_iff.mp htaken).1, htaken]

theorem taken_of_told (h : id ∈ (run Slots.step Slots.empty ops).told) :
    ∃ pre key post, ops = pre ++ .take key :: post ∧
      (run Slots.step Slots.empty pre).holder.lookup key = some id := by
  induction ops using List.reverseRecOn with
  | nil => cases h
  | append_singleton ops op ih =>
    rw [run_snoc] at h
    rcases told_step h with ⟨key, rfl, hheld⟩ | hbefore
    · exact ⟨ops, key, [], rfl, hheld⟩
    · obtain ⟨pre, key, post, rfl, hheld⟩ := ih hbefore
      exact ⟨pre, key, post ++ [op], by rw [List.append_assoc, List.cons_append], hheld⟩

end Run

section Lives
variable {A : Type*} {s : Slots K} {stage : ℕ → Option A} {title : A → Option K} {id : ℕ} {key : K}
  {a b : A}

structure Lives (s : Slots K) (stage : ℕ → Option A) (title : A → Option K) : Prop where
  beyond : ∀ id, s.next ≤ id → stage id = none
  held : ∀ key id, s.holder.lookup key = some id → (stage id).bind title = some key
  told : ∀ id ∈ s.told, id < s.next ∧ ∀ key, s.holder.lookup key ≠ some id

theorem lives_empty : Lives (Slots.empty : Slots K) (fun _ => none) title :=
  ⟨fun _ _ => rfl, nofun, fun _ => nofun⟩

theorem Lives.lt_next (h : Lives s stage title) (hid : stage id = some a) : id < s.next := by
  by_contra hle
  cases (h.beyond id (not_lt.mp hle)).symm.trans hid

theorem Lives.holder_lt (h : Lives s stage title) (hid : s.holder.lookup key = some id) :
    id < s.next := by
  obtain ⟨a, ha, -⟩ := Option.bind_eq_some_iff.mp (h.held key id hid)
  exact h.lt_next ha

theorem Lives.take (h : Lives s stage title) (ha : title a = some key) :
    Lives (s.step (.take key)) (Function.update stage s.next (some a)) title := by
  refine ⟨?_, ?_, ?_⟩
  · intro id hid
    have hnext : s.next + 1 ≤ id := hid
    rw [Function.update_of_ne (by omega)]
    exact h.beyond id (by omega)
  · intro key' id hheld
    rcases holder_step hheld with ⟨hop, rfl⟩ | ⟨hbefore, -⟩
    · obtain rfl := Op.take.inj hop
      rw [Function.update_self]
      exact ha
    · rw [Function.update_of_ne (h.holder_lt hbefore).ne]
      exact h.held key' id hbefore
  · intro id htold
    have hlt : id < s.next ∧ ∀ key', s.holder.lookup key' = some id → key' = key := by
      rcases told_step htold with ⟨key', hop, hheld⟩ | hbefore
      · obtain rfl := Op.take.inj hop
        refine ⟨h.holder_lt hheld, fun key' hheld' => ?_⟩
        exact Option.some.inj ((h.held _ _ hheld').symm.trans (h.held _ _ hheld))
      · exact ⟨(h.told id hbefore).1, fun key' hheld' => absurd hheld' ((h.told id hbefore).2 key')⟩
    refine ⟨Nat.lt_succ_of_lt hlt.1, fun key' hheld => ?_⟩
    rcases holder_step hheld with ⟨-, rfl⟩ | ⟨hbefore, hop⟩
    · exact absurd hlt.1 (lt_irrefl _)
    · exact hop (by rw [hlt.2 key' hbefore])

theorem Lives.update (h : Lives s stage title) (hid : stage id = some a) {next : Option A}
    (hslot : ∀ key, s.holder.lookup key = some id → next.bind title = some key) :
    Lives s (Function.update stage id next) title := by
  refine ⟨?_, ?_, h.told⟩
  · intro id' hle
    rw [Function.update_of_ne (by have := h.lt_next hid; omega)]
    exact h.beyond id' hle
  · intro key id' hheld
    by_cases heq : id' = id
    · subst heq
      rw [Function.update_self]
      exact hslot key hheld
    · rw [Function.update_of_ne heq]
      exact h.held key id' hheld

theorem Lives.goOn (h : Lives s stage title) (hid : stage id = some a) (hb : title b = title a) :
    Lives s (Function.update stage id (some b)) title := by
  refine h.update hid fun key hheld => ?_
  rw [← h.held key id hheld, hid]
  exact hb

theorem Lives.freed (h : Lives s stage title) (key : K) (id : ℕ) :
    Lives (s.step (.free key id)) stage title :=
  ⟨h.beyond, fun key' id' hheld => h.held key' id' ((holder_step hheld).resolve_left nofun).1,
    fun id' htold => ⟨(h.told id' htold).1,
      fun key' hheld => (h.told id' htold).2 key' ((holder_step hheld).resolve_left nofun).1⟩⟩

theorem Lives.free (h : Lives s stage title) (hid : stage id = some a) (ha : title a = some key)
    (next : Option A) : Lives (s.step (.free key id)) (Function.update stage id next) title := by
  refine (h.freed key id).update hid fun key' hheld => ?_
  rcases holder_step_iff.mp hheld with ⟨hop, -⟩ | ⟨hbefore, -, hfree⟩
  · cases hop
  · have htitle := h.held key' id hbefore
    rw [hid, Option.bind_some, ha] at htitle
    exact absurd (by rw [Option.some.inj htitle]) hfree

theorem Lives.read (h : Lives s stage title) (hid : stage id = some a) (htold : id ∈ s.told)
    (next : Option A) : Lives (s.step (.read id)) (Function.update stage id next) title := by
  have hread : Lives (s.step (.read id)) stage title :=
    ⟨h.beyond, h.held, fun id' hid' => h.told id' (List.mem_of_mem_erase hid')⟩
  exact hread.update hid fun key hheld => absurd hheld ((h.told id htold).2 key)

end Lives

end NewestWins
