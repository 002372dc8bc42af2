import ForgeswornLink.DirectSends
import ForgeswornLink.Lib.NewestWins

/-!
# The session slots

Which session is live with a peer, and which displaced ones have been told: slots
where the newest holder wins. Only the start and the end of a session and the
displaced session's own drive task touch this part of the tables, so along any
run of the socket it moves as `NewestWins.Slots` does. A slot is filled by nothing
but the start of a session, so a proof made while a session holds the slot was
made since it began.
-/

namespace ForgeswornLink
open Runs NewestWins

namespace Inner

def slots (i : Inner) : Slots NodeId := ⟨i.sessions, i.nextSession, i.notified⟩

theorem OnlyPeers.slots {i j : Inner} (h : OnlyPeers i j) : j.slots = i.slots := by
  rw [← h]
  rfl

theorem slots_unindex (i : Inner) (d : Option Proven) : (i.unindex d).slots = i.slots := by
  cases d <;> rfl

theorem slots_beginSession (i : Inner) (p : NodeId) :
    (i.beginSession p).1.slots = i.slots.step (.take p) := by
  rw [beginSession, slots_unindex, (onlyPeers_modifyExisting _ p _).slots]
  rfl

theorem slots_endSession (i : Inner) (p : NodeId) (session : ℕ) :
    (i.endSession p session).slots = i.slots.step (.free p session) := by
  by_cases h : i.sessions.lookup p = some session
  · have hheld : i.slots.holder.lookup p = some session := h
    rw [endSession, if_pos h, Slots.step, if_pos hheld]
    rfl
  · have hheld : ¬ i.slots.holder.lookup p = some session := h
    rw [endSession, if_neg h, Slots.step, if_neg hheld]

theorem slots_dropDirect (i : Inner) (p : NodeId) (session : ℕ) :
    (i.dropDirect p session).slots = i.slots := by
  unfold dropDirect
  split_ifs
  · rfl
  · rw [slots_unindex, (onlyPeers_modifyExisting _ p _).slots]

theorem slots_unregisterProbeKey (i : Inner) (keyId : ProbeKeyId) :
    (i.unregisterProbeKey keyId).slots = i.slots := by
  unfold unregisterProbeKey
  split
  · rfl
  · dsimp only
    split_ifs
    · rw [(onlyPeers_modifyExisting _ _ _).slots]
      rfl
    · rfl

theorem slots_acceptPong (i : Inner) (p : NodeId) (nonce : Nonce) (source : SocketAddr) (now : ℕ) :
    (i.acceptPong p nonce source now).slots = i.slots := by
  unfold acceptPong
  split_ifs <;> rfl

end Inner

def Event.slotOp : Event → Option (Op NodeId)
  | .beginSession p => some (.take p)
  | .endSession p session => some (.free p session)
  | .takeNotice session => some (.read session)
  | _ => none

def Event.touchesSlots (e : Event) : Bool := e.slotOp.isSome

namespace PathSocket

variable (P : Primitives) (hostOf : String → Option String)

theorem slots_recvDirect (s : PathSocket) (sender : SocketAddr) (data : List UInt8)
    (draw : Nonce × Bool) : (s.recvDirect P sender data draw).1.inner.slots = s.inner.slots := by
  rcases recvDirect_cases P s sender data draw with
    ⟨q, keyId, key, nonce, -, hexec⟩ | ⟨q, keyId, key, nonce, -, hexec⟩ |
    ⟨inbound, reflexive, reflectorNonce, hexec⟩
  · rw [hexec]
    exact (Inner.onlyPeers_handlePing s.inner q key _ _ s.now draw).slots
  · rw [hexec]
    exact Inner.slots_acceptPong s.inner q nonce _ s.now
  · rw [hexec]

theorem slots_step_of_quiet (s : PathSocket) {e : Event} (he : e.touchesSlots = false) :
    (s.step P hostOf e).inner.slots = s.inner.slots := by
  cases e with
  | beginSession p => cases he
  | endSession p session => cases he
  | takeNotice session => cases he
  | dropDirect p session => exact Inner.slots_dropDirect s.inner p session
  | unregisterProbeKey keyId => exact Inner.slots_unregisterProbeKey s.inner keyId
  | sendProbes p draws => exact (Inner.onlyPeers_sendProbes s.inner s.udp p s.now draws).slots
  | recvDirect sender data draw => exact slots_recvDirect P s sender data draw
  | recvRelay source datagram driver =>
    simp only [step, exec, recvRelay]
    split_ifs
    · rw [inner_deliver]
      rfl
    · rfl
  | trySend destination contents result =>
    simp only [step, exec]
    rw [inner_trySend]
  | queryReflector reflector nonce =>
    simp only [step, exec]
    rw [inner_queryReflector]
  | requeryReflector nonce =>
    simp only [step, exec]
    split
    · rw [inner_queryReflector]
    · rfl
  | _ => rfl

theorem slots_step (s : PathSocket) (e : Event) :
    (s.step P hostOf e).inner.slots = run Slots.step s.inner.slots e.slotOp.toList := by
  cases e with
  | beginSession p => exact Inner.slots_beginSession s.inner p
  | endSession p session => exact Inner.slots_endSession s.inner p session
  | takeNotice session => rfl
  | _ => exact slots_step_of_quiet P hostOf s rfl

theorem slots_after (s : PathSocket) (es : List Event) :
    (after P hostOf s es).inner.slots = run Slots.step s.inner.slots
    (es.filterMap Event.slotOp) := by
  induction es generalizing s with
  | nil => rfl
  | cons e es ih =>
    rw [after, run_cons]
    refine (ih _).trans ?_
    rw [slots_step, List.filterMap_cons]
    cases e.slotOp <;> rfl

theorem slots_after_of_quiet (s : PathSocket) {es : List Event}
    (h : ∀ e ∈ es, e.touchesSlots = false) : (after P hostOf s es).inner.slots = s.inner.slots := by
  have hnone : es.filterMap Event.slotOp = [] := by
    rw [List.filterMap_eq_nil_iff]
    intro e he
    exact Option.isNone_iff_eq_none.mp
      (by rw [← Option.not_isSome, Bool.not_eq_true']; exact h e he)
  rw [slots_after, hnone]
  rfl

theorem slots_after_begin (s : PathSocket) {before rest : List Event} (p : NodeId)
    (hbefore : ∀ e ∈ before, e.touchesSlots = false) (hrest : ∀ e ∈ rest, e.touchesSlots = false) :
    (after P hostOf s (before ++ .beginSession p :: rest)).inner.slots =
      s.inner.slots.step (.take p) := by
  rw [after_append, after, run_cons]
  refine (slots_after_of_quiet P hostOf _ hrest).trans ?_
  rw [slots_step, slots_after_of_quiet P hostOf s hbefore]
  rfl

theorem slots_after_of_no_begin (s : PathSocket) {es : List Event}
    (h : ∀ p, Event.beginSession p ∉ es) (p : NodeId) :
    (after P hostOf s es).inner.nextSession = s.inner.nextSession ∧
      (∀ id ∈ (after P hostOf s es).inner.notified, id ∈ s.inner.notified) ∧
      ((after P hostOf s es).inner.sessions.lookup p = s.inner.sessions.lookup p ∨
        ∃ id, Event.endSession p id ∈ es ∧ s.inner.sessions.lookup p = some id ∧
          (after P hostOf s es).inner.sessions.lookup p = none) := by
  have hops : ∀ q, Op.take q ∉ es.filterMap Event.slotOp := by
    intro q hmem
    obtain ⟨e, he, hop⟩ := List.mem_filterMap.mp hmem
    cases e with
    | beginSession q' => exact h q' he
    | endSession q' id => cases hop
    | takeNotice id => cases hop
    | _ => cases hop
  have hslots := slots_after P hostOf s es
  obtain ⟨hnext, htold, hholder⟩ := run_of_no_take s.inner.slots hops p
  rw [← hslots] at hnext htold hholder
  refine ⟨hnext, htold, ?_⟩
  rcases hholder with hsame | ⟨id, hfree, hheld, hnone⟩
  · exact Or.inl hsame
  · refine Or.inr ⟨id, ?_, hheld, hnone⟩
    obtain ⟨e, he, hop⟩ := List.mem_filterMap.mp hfree
    cases e with
    | endSession q id' =>
      obtain ⟨rfl, rfl⟩ := Op.free.inj (Option.some.inj hop)
      exact he
    | beginSession q => cases hop
    | takeNotice id' => cases hop
    | _ => cases hop

variable {P hostOf} {s : PathSocket} {e : Event} {p : NodeId} {id : ℕ}

theorem slot_step_iff : (s.step P hostOf e).inner.sessions.lookup p = some id ↔
    (e = .beginSession p ∧ id = s.inner.nextSession) ∨
      s.inner.sessions.lookup p = some id ∧ e ≠ .beginSession p ∧ e ≠ .endSession p id := by
  have hstep := slots_step P hostOf s e
  change (s.step P hostOf e).inner.slots.holder.lookup p = some id ↔ _
  rw [hstep]
  cases e with
  | beginSession q =>
    rw [Event.slotOp, Option.toList_some, run_cons, run_nil, holder_step_iff]
    simp [Inner.slots]
  | endSession q ended =>
    rw [Event.slotOp, Option.toList_some, run_cons, run_nil, holder_step_iff]
    simp [Inner.slots]
  | takeNotice session =>
    rw [Event.slotOp, Option.toList_some, run_cons, run_nil, holder_step_iff]
    simp [Inner.slots]
  | _ => simp [Event.slotOp, Inner.slots]

theorem session_step {session : ℕ}
    (h : (s.step P hostOf e).inner.sessions.lookup p = some session) :
    e = .beginSession p ∨ s.inner.sessions.lookup p = some session :=
  (slot_step_iff.mp h).imp And.left And.left

/-! ### One live session per peer -/

variable (P hostOf) in
def numberAfter (start : PathSocket) (pre : List Event) (p : NodeId) : ℕ :=
  ((after P hostOf start pre).inner.beginSession p).2

theorem notified_step (h : id ∈ s.inner.notified) (he : e ≠ .takeNotice id) :
    id ∈ (s.step P hostOf e).inner.notified := by
  have htold : id ∈ s.inner.slots.told := h
  change id ∈ (s.step P hostOf e).inner.slots.told
  rw [slots_step]
  cases e with
  | beginSession q =>
    have hkept : id ∈ (s.inner.slots.step (.take q)).told := told_step_of_unread htold nofun
    exact hkept
  | endSession q ended =>
    have hkept : id ∈ (s.inner.slots.step (.free q ended)).told := told_step_of_unread htold nofun
    exact hkept
  | takeNotice session =>
    have hother : Op.read session ≠ (.read id : Op NodeId) := by simpa using he
    have hkept : id ∈ (s.inner.slots.step (.read session)).told := told_step_of_unread htold hother
    exact hkept
  | _ => exact htold

theorem notified_begin (h : s.inner.sessions.lookup p = some id) :
    id ∈ (s.step P hostOf (.beginSession p)).inner.notified := by
  change id ∈ (s.step P hostOf (.beginSession p)).inner.slots.told
  rw [slots_step]
  exact told_take h

theorem nextSession_begin (s : PathSocket) (p : NodeId) :
    (s.step P hostOf (.beginSession p)).inner.nextSession = s.inner.nextSession + 1 := by
  change (s.step P hostOf (.beginSession p)).inner.slots.next = s.inner.slots.next + 1
  rw [slots_step]
  rfl

theorem nextSession_step (s : PathSocket) (e : Event) :
    s.inner.nextSession ≤ (s.step P hostOf e).inner.nextSession := by
  change s.inner.slots.next ≤ (s.step P hostOf e).inner.slots.next
  rw [slots_step]
  cases e.slotOp with
  | none => exact le_rfl
  | some op =>
    rw [Option.toList_some, run_cons, run_nil, next_step]
    exact Nat.le_add_right _ _

theorem nextSession_le_after (s : PathSocket) (es : List Event) :
    s.inner.nextSession ≤ (after P hostOf s es).inner.nextSession := by
  induction es generalizing s with
  | nil => exact le_rfl
  | cons e es ih => exact (nextSession_step s e).trans (ih _)

theorem slot_empty_after {es : List Event} (h : s.inner.sessions.lookup p = none)
    (hbegin : .beginSession p ∉ es) : (after P hostOf s es).inner.sessions.lookup p = none := by
  induction es generalizing s with
  | nil => exact h
  | cons e es ih =>
    rw [List.mem_cons, not_or] at hbegin
    refine ih ?_ hbegin.2
    rw [Option.eq_none_iff_forall_ne_some]
    intro id hid
    rcases slot_step_iff.mp hid with ⟨he, -⟩ | ⟨hheld, -⟩
    · exact hbegin.1 he.symm
    · rw [h] at hheld
      cases hheld

theorem slot_after_iff {es : List Event} (h : s.inner.sessions.lookup p = some id)
    (hbegin : .beginSession p ∉ es) :
    (.endSession p id ∉ es → (after P hostOf s es).inner.sessions.lookup p = some id) ∧
      (.endSession p id ∈ es → (after P hostOf s es).inner.sessions.lookup p = none) := by
  induction es generalizing s with
  | nil => exact ⟨fun _ => h, nofun⟩
  | cons e es ih =>
    rw [List.mem_cons, not_or] at hbegin
    by_cases hend : e = .endSession p id
    · have hfreed : (s.step P hostOf e).inner.sessions.lookup p = none := by
        simp only [hend, step, exec, Inner.endSession]
        rw [if_pos h, Table.lookup_erase_ite, if_pos rfl]
      refine ⟨fun hnot => absurd (by rw [hend]; exact List.mem_cons_self) hnot, fun _ => ?_⟩
      rw [after, run_cons]
      exact slot_empty_after hfreed hbegin.2
    · have hheld : (s.step P hostOf e).inner.sessions.lookup p = some id :=
        slot_step_iff.mpr (Or.inr ⟨h, Ne.symm hbegin.1, hend⟩)
      have hstill := ih hheld hbegin.2
      rw [List.mem_cons]
      exact ⟨fun hnot => hstill.1 fun hmem => hnot (Or.inr hmem),
        fun hmem => hstill.2 (hmem.resolve_left (Ne.symm hend))⟩

theorem notified_after {es : List Event} (h : id ∈ s.inner.notified) (hread : .takeNotice id ∉ es) :
    id ∈ (after P hostOf s es).inner.notified := by
  induction es generalizing s with
  | nil => exact h
  | cons e es ih =>
    rw [List.mem_cons, not_or] at hread
    exact ih (notified_step h (Ne.symm hread.1)) hread.2

theorem step_of_stale (h : s.inner.sessions.lookup p ≠ some id) :
    s.step P hostOf (.endSession p id) = s ∧ s.step P hostOf (.dropDirect p id) = s := by
  simp only [step, exec, Inner.endSession, Inner.dropDirect]
  rw [if_neg h, if_pos h]
  exact ⟨rfl, rfl⟩

/-- Whatever calls are made, and whoever makes them, the slot of a peer names the session begun
last for it until that session ends, and is empty then. A session displaced before its end is
signalled, numbers are given once, and a session that is not the current one changes nothing. -/
theorem newest_session_holds_slot (P : Primitives) (hostOf : String → Option String)
    (nodeId : NodeId) (udp : Bool) (udpLocal : SocketAddr) (relays : List String)
    (book : Option TagBook) (reflector : Option SocketAddr) (now unixNow : ℕ) (es : List Event) :
    let start := assemble nodeId udp udpLocal relays book reflector now unixNow
    let inner := (after P hostOf start es).inner
    let number := numberAfter P hostOf start
    (∀ p, .beginSession p ∉ es → inner.sessions.lookup p = none) ∧
    (∀ p pre post, es = pre ++ .beginSession p :: post → .beginSession p ∉ post →
      (.endSession p (number pre p) ∉ post → inner.sessions.lookup p = some (number pre p)) ∧
      (.endSession p (number pre p) ∈ post → inner.sessions.lookup p = none)) ∧
    (∀ p pre mid post, es = pre ++ .beginSession p :: (mid ++ .beginSession p :: post) →
      .beginSession p ∉ mid → .endSession p (number pre p) ∉ mid →
      .takeNotice (number pre p) ∉ post → number pre p ∈ inner.notified) ∧
    (∀ p q pre mid post, es = pre ++ .beginSession p :: (mid ++ .beginSession q :: post) →
      number pre p ≠ number (pre ++ .beginSession p :: mid) q) ∧
    (∀ p id, inner.sessions.lookup p ≠ some id →
      step P hostOf (after P hostOf start es) (.endSession p id) = after P hostOf start es ∧
      step P hostOf (after P hostOf start es) (.dropDirect p id) = after P hostOf start es) := by
  intro start inner number
  have hbegun (s : PathSocket) (p : NodeId) :
      (s.step P hostOf (.beginSession p)).inner.sessions.lookup p =
      some s.inner.nextSession := slot_step_iff.mpr (Or.inl ⟨rfl, rfl⟩)
  refine ⟨fun p hnone => slot_empty_after rfl hnone, ?_, ?_, ?_, fun p id hstale =>
    step_of_stale hstale⟩
  · rintro p pre post rfl hlast
    simp only [inner, after_append]
    exact slot_after_iff (hbegun _ p) hlast
  · rintro p pre mid post rfl hlast hend hread
    simp only [inner, after_append]
    rw [after, run_cons, run_append, run_cons]
    have hheld : (after P hostOf (step P hostOf (after P hostOf start pre) (.beginSession p))
        mid).inner.sessions.lookup p = some (number pre p) :=
      (slot_after_iff (hbegun (after P hostOf start pre) p) hlast).1 hend
    exact notified_after (notified_begin hheld) hread
  · rintro p q pre mid post rfl
    have hle : (step P hostOf (after P hostOf start pre) (.beginSession p)).inner.nextSession ≤
        (after P hostOf start (pre ++ .beginSession p :: mid)).inner.nextSession := by
      rw [after_append]
      exact nextSession_le_after _ mid
    rw [nextSession_begin] at hle
    exact ne_of_lt hle

end PathSocket

end ForgeswornLink
