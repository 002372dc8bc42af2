import ForgeswornLink.EndpointEffects

/-!
# One end of a pair

An endpoint that dials one peer at most once and accepts at most one connection
of that peer takes the peer's slot at most twice. `Side` says where its tables
are then: session numbers follow the order of the two takeovers, the slot holds
the later one or nobody, only a displaced session is told, and every number that
holds the slot is still dialling, arriving or established. For each kind of event
there is one lemma: the tables keep this form, and what became of the slot and of
the connections is said by `Delta`.
-/

namespace ForgeswornLink
open Runs NewestWins ByteString

inductive Role where
  | dial
  | accept
deriving DecidableEq

namespace Role

def other : Role → Role
  | .dial => .accept
  | .accept => .dial

def wire (own theirs : ℕ) : Role → ℕ
  | .dial => own
  | .accept => theirs

theorem mem_roles (r : Role) : r ∈ [dial, accept] := by cases r <;> decide

end Role

namespace Endpoint

def slot (e : Endpoint) (q : NodeId) : Option ℕ := e.socket.inner.sessions.lookup q

def dialling (e : Endpoint) (id : ℕ) : Bool := (e.dials.lookup id).any fun dial => dial.conn.isSome

def Handshaking (e : Endpoint) (id : ℕ) : Prop :=
  (e.dials.lookup id).isSome ∨
    ∃ conn arrival, e.arrivals.lookup conn = some arrival ∧ arrival.session = some id

structure Side (q : NodeId) (own theirs : ℕ) (order : List Role) (launched : Bool) (e : Endpoint) :
    Prop where
  sound : ∀ id s, e.sessions.lookup id = some s → s.Sound fun _ => True
  next : e.socket.inner.nextSession = order.length
  slot : ∀ id, e.slot q = some id → id + 1 = order.length
  told : ∀ id ∈ e.socket.inner.notified, id + 1 < order.length
  dials : ∀ id dial, e.dials.lookup id = some dial →
    order[id]? = some .dial ∧ dial.peer = q ∧ dial.pairing = false ∧
      dial.conn = if launched then some own else none
  arrivals : ∀ conn arrival, e.arrivals.lookup conn = some arrival →
    conn = theirs ∧ arrival.route = q ∧
      ∃ id, arrival.session = some id ∧ order[id]? = some .accept
  sessions : ∀ id s, e.sessions.lookup id = some s →
    s.id = id ∧ s.peer = q ∧ ∃ r, order[id]? = some r ∧ s.conn = r.wire own theirs
  busy : ∀ id, e.slot q = some id → e.Handshaking id ∨ (e.sessions.lookup id).isSome

structure Delta (q : NodeId) (e e' : Endpoint) (freed ended : ℕ → Prop) : Prop where
  slot : e'.slot q = e.slot q ∨ ∃ id, e.slot q = some id ∧ e'.slot q = none ∧ freed id
  dials : ∀ id, e.dials.lookup id = none → e'.dials.lookup id = none
  closed : ∀ id s', e'.sessions.lookup id = some s' → s'.closed.isSome →
    (∃ s, e.sessions.lookup id = some s ∧ s.closed.isSome) ∨ ended id

section Sides
variable {P : Primitives} {hostOf : String → Option String} {e : Endpoint} {q : NodeId}
  {own theirs : ℕ} {order : List Role} {launched : Bool}

theorem side_open (udp : Bool) (config : EndpointConfig) (now unixNow : ℕ) (q : NodeId)
    (own theirs : ℕ) : Side q own theirs [] false (openOn udp config now unixNow) where
  sound id s hs := by
    rw [openOn, AList.lookup_empty] at hs
    cases hs
  next := rfl
  slot id h := by cases h
  told := List.forall_mem_nil _
  dials id dial h := by
    rw [openOn, AList.lookup_empty] at h
    cases h
  arrivals conn arrival h := by
    rw [openOn, AList.lookup_empty] at h
    cases h
  sessions id s h := by
    rw [openOn, AList.lookup_empty] at h
    cases h
  busy id h := by cases h

theorem slot_step_of_no_begin {event : EndpointEvent}
    (hcalls : ∀ p, Event.beginSession p ∉ (e.turn P hostOf event).calls) (q : NodeId) :
    (e.step P hostOf event).socket.inner.nextSession = e.socket.inner.nextSession ∧
      (∀ id ∈ (e.step P hostOf event).socket.inner.notified, id ∈ e.socket.inner.notified) ∧
      ((e.step P hostOf event).slot q = e.slot q ∨
        ∃ id, Event.endSession q id ∈ (e.turn P hostOf event).calls ∧ e.slot q = some id ∧
          (e.step P hostOf event).slot q = none) :=
  PathSocket.slots_after_of_no_begin P hostOf e.socket hcalls q

theorem Side.of_no_begin {launched' : Bool} {event : EndpointEvent} {t : Turn}
    (h : Side q own theirs order launched e) (ht : e.turn P hostOf event = t)
    (hcalls : ∀ p, Event.beginSession p ∉ t.calls)
    (hsound : ∀ id s, t.next.sessions.lookup id = some s → s.Sound fun _ => True)
    (hdials : ∀ id dial, t.next.dials.lookup id = some dial →
      order[id]? = some .dial ∧ dial.peer = q ∧ dial.pairing = false ∧
        dial.conn = if launched' then some own else none)
    (harrivals : ∀ conn arrival, t.next.arrivals.lookup conn = some arrival →
      e.arrivals.lookup conn = some arrival)
    (hsessions : ∀ id s, t.next.sessions.lookup id = some s →
      s.id = id ∧ s.peer = q ∧ ∃ r, order[id]? = some r ∧ s.conn = r.wire own theirs)
    (hbusy : ∀ id, e.Handshaking id ∨ (e.sessions.lookup id).isSome →
      (e.step P hostOf event).slot q = some id →
      t.next.Handshaking id ∨ (t.next.sessions.lookup id).isSome) :
    Side q own theirs order launched' (e.step P hostOf event) := by
  subst ht
  obtain ⟨hnumber, htold, hslot⟩ := slot_step_of_no_begin hcalls q
  have hheld : ∀ id, (e.step P hostOf event).slot q = some id → e.slot q = some id := by
    intro id hid
    rcases hslot with hkept | ⟨-, -, -, hnone⟩
    · exact hkept.symm.trans hid
    · rw [hnone] at hid
      cases hid
  exact
    { sound := hsound
      next := hnumber.trans h.next
      slot := fun id hid => h.slot id (hheld id hid)
      told := fun id hid => h.told id (htold id hid)
      dials := hdials
      arrivals := fun conn arrival harrival => h.arrivals conn arrival
        (harrivals conn arrival harrival)
      sessions := hsessions
      busy := fun id hid => hbusy id (h.busy id (hheld id hid)) hid }

theorem Delta.of_no_begin {event : EndpointEvent} {t : Turn} {freed ended : ℕ → Prop}
    (ht : e.turn P hostOf event = t) (hcalls : ∀ p, Event.beginSession p ∉ t.calls)
    (hfreed : ∀ id, Event.endSession q id ∈ t.calls → freed id)
    (hdials : ∀ id, e.dials.lookup id = none → t.next.dials.lookup id = none)
    (hclosed : ∀ id s', t.next.sessions.lookup id = some s' → s'.closed.isSome →
      (∃ s, e.sessions.lookup id = some s ∧ s.closed.isSome) ∨ ended id) :
    Delta q e (e.step P hostOf event) freed ended := by
  subst ht
  refine ⟨?_, hdials, hclosed⟩
  obtain ⟨-, -, hslot⟩ := slot_step_of_no_begin hcalls q
  rcases hslot with hkept | ⟨id, hend, hheld, hnone⟩
  · exact Or.inl hkept
  · exact Or.inr ⟨id, hheld, hnone, hfreed id hend⟩

theorem Delta.mono {e' : Endpoint} {freed ended freed' ended' : ℕ → Prop}
    (h : Delta q e e' freed ended) (hfreed : ∀ id, freed id → freed' id)
    (hended : ∀ id, ended id → ended' id) : Delta q e e' freed' ended' := by
  refine ⟨?_, h.dials, fun id s' hs' hclosed => (h.closed id s' hs' hclosed).imp_right (hended id)⟩
  rcases h.slot with hkept | ⟨id, hheld, hnone, hid⟩
  · exact Or.inl hkept
  · exact Or.inr ⟨id, hheld, hnone, hfreed id hid⟩

theorem Side.quiet (h : Side q own theirs order launched e) {event : EndpointEvent} {t : Turn}
    (ht : e.turn P hostOf event = t) (hnext : t.next = e) (hquiet : Quiet t.calls)
    (freed ended : ℕ → Prop) :
    Side q own theirs order launched (e.step P hostOf event) ∧
      Delta q e (e.step P hostOf event) freed ended := by
  refine ⟨h.of_no_begin ht hquiet.no_begin ?_ ?_ ?_ ?_ ?_,
    .of_no_begin ht hquiet.no_begin (fun id hend => absurd hend (hquiet.no_end q id)) ?_ ?_⟩
  all_goals rw [hnext]
  · exact h.sound
  · exact h.dials
  · exact fun _ _ harrival => harrival
  · exact h.sessions
  · exact fun _ hbusy _ => hbusy
  · exact fun _ hnone => hnone
  · exact fun id s' hs hclosed => Or.inl ⟨s', hs, hclosed⟩

theorem Side.update (h : Side q own theirs order launched e) {event : EndpointEvent} {t : Turn}
    (ht : e.turn P hostOf event = t) {id : ℕ} {s s' : Session}
    (hs : e.sessions.lookup id = some s) (hnext : t.next = e.setSession id s') (hsame : s.Same s')
    (hsound : s'.Sound fun _ => True) (hcalls : ∀ p, Event.beginSession p ∉ t.calls)
    {freed ended : ℕ → Prop} (hfreed : ∀ id, Event.endSession q id ∈ t.calls → freed id)
    (hended : s'.closed.isSome → s.closed.isSome ∨ ended id) :
    Side q own theirs order launched (e.step P hostOf event) ∧
      Delta q e (e.step P hostOf event) freed ended := by
  refine ⟨h.of_no_begin ht hcalls ?_ ?_ ?_ ?_ ?_, .of_no_begin ht hcalls hfreed ?_ ?_⟩
  all_goals rw [hnext]
  · intro i s₁ hs₁
    rcases lookup_setSession hs₁ with ⟨-, rfl⟩ | hbefore
    · exact hsound
    · exact h.sound i s₁ hbefore
  · exact h.dials
  · exact fun _ _ harrival => harrival
  · intro i s₁ hs₁
    rcases lookup_setSession hs₁ with ⟨rfl, rfl⟩ | hbefore
    · obtain ⟨hid, hpeer, r, hr, hconn⟩ := h.sessions i s hs
      exact ⟨hsame.id.trans hid, hsame.peer.trans hpeer, r, hr, hsame.conn.trans hconn⟩
    · exact h.sessions i s₁ hbefore
  · intro i hbusy _
    rcases hbusy with hhandshaking | hestablished
    · exact Or.inl hhandshaking
    · refine Or.inr ?_
      rw [setSession, Table.lookup_insert_ite]
      split_ifs
      · rfl
      · exact hestablished
  · exact fun _ hnone => hnone
  · intro i s₁ hs₁ hclosed
    rcases lookup_setSession hs₁ with ⟨rfl, rfl⟩ | hbefore
    · rcases hended hclosed with hbefore | hnow
      · exact Or.inl ⟨s, hs, hbefore⟩
      · exact Or.inr hnow
    · exact Or.inl ⟨s₁, hbefore, hclosed⟩

theorem Side.local (h : Side q own theirs order launched e) {event : EndpointEvent}
    (hlocal : event.isLocal = true) :
    Side q own theirs order launched (e.step P hostOf event) ∧
      Delta q e (e.step P hostOf event)
        (fun id => ∃ s, e.sessions.lookup id = some s ∧ s.closed.isSome)
        (fun id => id + 1 < order.length) := by
  rcases local_turn hlocal h.sound with
    ⟨hnext, hquiet⟩ | ⟨id, s, s', hs, hnext, hsame, hsound, hclosed, hslots⟩
  · exact h.quiet rfl hnext hquiet _ _
  · obtain ⟨hid, hpeer, -⟩ := h.sessions id s hs
    refine h.update rfl hs hnext hsame hsound ?_ ?_ ?_
    · intro p hmem
      rcases hslots _ hmem rfl with ⟨heq, -⟩ | ⟨heq, -⟩ <;> cases heq
    · intro id' hmem
      rcases hslots _ hmem rfl with ⟨heq, -⟩ | ⟨heq, hended⟩
      · cases heq
      · obtain ⟨-, rfl⟩ := Event.endSession.inj heq
        exact ⟨s, by rw [hid]; exact hs, hended⟩
    · intro hended
      rcases hclosed with hsame' | htold
      · exact Or.inl (hsame' ▸ hended)
      · rw [hid] at htold
        exact Or.inr (h.told id htold)

theorem Side.close (h : Side q own theirs order launched e) (id : ℕ) (reason : ConnectionError) :
    Side q own theirs order launched (e.step P hostOf (.closed id reason)) ∧
      Delta q e (e.step P hostOf (.closed id reason)) (fun _ => False) (fun i => i = id) := by
  cases hs : e.sessions.lookup id with
  | none =>
    have ht : e.turn P hostOf (.closed id reason) = e.stay := by simp only [turn, onSession, hs]
    exact h.quiet ht rfl .nil _ _
  | some s =>
    have ht : e.turn P hostOf (.closed id reason) =
        ⟨e.setSession id (s.closeWith reason), [], none⟩ := by simp only [turn, onSession, hs]
    exact h.update ht hs rfl ⟨rfl, rfl, rfl, rfl, rfl⟩ (h.sound id s hs) (fun _ => List.not_mem_nil)
      (fun _ hmem => absurd hmem List.not_mem_nil) (fun _ => Or.inr rfl)

theorem slot_step_end {event : EndpointEvent} {t : Turn} {id : ℕ} (ht : e.turn P hostOf event = t)
    (hcalls : t.calls = [.endSession q id]) : (e.step P hostOf event).slot q ≠ some id := by
  subst ht
  intro hslot
  have hslots := PathSocket.slots_after P hostOf e.socket (e.turn P hostOf event).calls
  change (PathSocket.after P hostOf e.socket
    (e.turn P hostOf event).calls).inner.slots.holder.lookup q =
    some id at hslot
  rw [hslots, hcalls] at hslot
  change (e.socket.inner.slots.step (.free q id)).holder.lookup q = some id at hslot
  simp only [Slots.step] at hslot
  split_ifs at hslot with hheld
  · rw [Table.lookup_erase_ite, if_pos rfl] at hslot
    cases hslot
  · exact hheld hslot

theorem handshaking_dropDial {id i : ℕ} (h : e.Handshaking i) (hi : i ≠ id) :
    (e.dropDial id).Handshaking i := by
  rcases h with hdial | harrival
  · refine Or.inl ?_
    rw [dropDial, Table.lookup_erase_ite, if_neg hi]
    exact hdial
  · exact Or.inr harrival

theorem Side.failDial (h : Side q own theirs order launched e) {event : EndpointEvent} {id : ℕ}
    {dial : Dial} {reason : FailReason} (hdial : e.dials.lookup id = some dial)
    (ht : e.turn P hostOf event = e.failDial id dial [] reason) :
    Side q own theirs order launched (e.step P hostOf event) ∧
      Delta q e (e.step P hostOf event) (fun i => i = id) (fun _ => False) := by
  obtain ⟨-, hpeer, -, -⟩ := h.dials id dial hdial
  have hcalls : (e.failDial id dial [] reason).calls = [.endSession q id] := by
    rw [← hpeer]
    rfl
  have hnone : ∀ p, Event.beginSession p ∉ (e.failDial id dial [] reason).calls := by
    intro p hmem
    rw [hcalls] at hmem
    cases List.mem_singleton.mp hmem
  refine ⟨h.of_no_begin ht hnone h.sound ?_ (fun _ _ harrival => harrival) h.sessions ?_,
    .of_no_begin ht hnone ?_ ?_ ?_⟩
  · intro i dial' hdial'
    exact h.dials i dial' (lookup_dropDial hdial').2
  · intro i hbusy hslot
    have hi : i ≠ id := by
      rintro rfl
      exact slot_step_end ht hcalls hslot
    exact hbusy.imp (fun hhandshaking => handshaking_dropDial hhandshaking hi) fun hs => hs
  · intro i hend
    rw [hcalls] at hend
    exact (Event.endSession.inj (List.mem_singleton.mp hend)).2
  · intro i hbefore
    cases hafter : (e.dropDial id).dials.lookup i with
    | none => exact hafter
    | some dial' =>
      rw [(lookup_dropDial hafter).2] at hbefore
      cases hbefore
  · exact fun i s' hs' hclosed => Or.inl ⟨s', hs', hclosed⟩

theorem Side.start (h : Side q own theirs order launched e) {event : EndpointEvent} {t : Turn}
    (ht : e.turn P hostOf event = t) {base : Endpoint} {id conn probeDelay : ℕ} {allowDirect : Bool}
    {keys : Option (ProbeKeyId × ProbeKey)} {role : Role} {r : Session × List Event}
    (hr : r = e.started P hostOf [] q id conn allowDirect probeDelay keys)
    (hnext : t.next = base.setSession id r.1) (hcalls : t.calls = r.2)
    (hrole : order[id]? = some role) (hconn : conn = role.wire own theirs)
    (hsessions : base.sessions = e.sessions)
    (hdials : ∀ i dial, base.dials.lookup i = some dial → e.dials.lookup i = some dial)
    (harrivals : ∀ c arrival, base.arrivals.lookup c = some arrival →
      e.arrivals.lookup c = some arrival)
    (hbusy : ∀ i, i ≠ id → e.Handshaking i → base.Handshaking i) :
    Side q own theirs order launched (e.step P hostOf event) ∧
      Delta q e (e.step P hostOf event) (fun _ => False) (fun _ => False) := by
  obtain ⟨hpeer, hid, hwire, -, hopen, -, -⟩ := Session.start_spec
    (PathSocket.after P hostOf e.socket []) q id conn allowDirect probeDelay keys
  have hquiet : Quiet t.calls := by
    rw [hcalls]
    exact quiet_started hr
  have hlookup : ∀ i s, t.next.sessions.lookup i = some s →
      i = id ∧ s = r.1 ∨ e.sessions.lookup i = some s := by
    intro i s hs
    rw [hnext] at hs
    rcases lookup_setSession hs with hnew | hbefore
    · exact Or.inl hnew
    · exact Or.inr (hsessions ▸ hbefore)
  refine ⟨h.of_no_begin ht hquiet.no_begin ?_ ?_ ?_ ?_ ?_,
    .of_no_begin ht hquiet.no_begin (fun i hend => absurd hend (hquiet.no_end q i)) ?_ ?_⟩
  · intro i s hs
    rcases hlookup i s hs with ⟨-, rfl⟩ | hbefore
    · rw [hr]
      exact Session.sound_start (fun _ _ => trivial) q id conn allowDirect probeDelay keys
    · exact h.sound i s hbefore
  · rw [hnext]
    exact fun i dial hdial => h.dials i dial (hdials i dial hdial)
  · rw [hnext]
    exact harrivals
  · intro i s hs
    rcases hlookup i s hs with ⟨rfl, rfl⟩ | hbefore
    · rw [hr]
      exact ⟨hid, hpeer, role, hrole, hwire.trans hconn⟩
    · exact h.sessions i s hbefore
  · intro i hbefore _
    rw [hnext]
    by_cases hi : i = id
    · refine Or.inr ?_
      rw [setSession, Table.lookup_insert_ite, if_pos hi]
      rfl
    · refine hbefore.imp (fun hhandshaking => hbusy i hi hhandshaking) ?_
      intro hestablished
      rw [setSession, Table.lookup_insert_ite, if_neg hi, hsessions]
      exact hestablished
  · intro i hbefore
    rw [hnext]
    cases hafter : (base.setSession id r.1).dials.lookup i with
    | none => rfl
    | some dial =>
      rw [hdials i dial hafter] at hbefore
      cases hbefore
  · intro i s hs hclosed
    rcases hlookup i s hs with ⟨-, rfl⟩ | hbefore
    · rw [hr, Endpoint.started, hopen] at hclosed
      cases hclosed
    · exact Or.inl ⟨s, hbefore, hclosed⟩

theorem Side.dialled (h : Side q own theirs order launched e) (id : ℕ) (handshake : Handshake) :
    Side q own theirs order launched (e.step P hostOf (.dialled id handshake)) ∧
      Delta q e (e.step P hostOf (.dialled id handshake))
        (fun i => i = id ∧ order[id]? = some .dial ∧ ∃ error, handshake = .failed error)
        (fun _ => False) := by
  cases hdial : e.dials.lookup id with
  | none =>
    have ht : e.turn P hostOf (.dialled id handshake) = e.stay := by
      simp only [turn, Endpoint.dialled, hdial]
    exact h.quiet ht rfl .nil _ _
  | some dial =>
    obtain ⟨hrole, hpeer, hpairing, hconn⟩ := h.dials id dial hdial
    cases launched with
    | false =>
      have ht : e.turn P hostOf (.dialled id handshake) = e.stay := by
        simp only [turn, Endpoint.dialled, hdial, hconn, Bool.false_eq_true, if_false]
      exact h.quiet ht rfl .nil _ _
    | true =>
      rw [if_pos rfl] at hconn
      cases handshake with
      | failed error =>
        have ht : e.turn P hostOf (.dialled id (.failed error)) =
            e.failDial id dial [] (classify error) := by
          simp only [turn, Endpoint.dialled, hdial, hconn]
        obtain ⟨hside, hdelta⟩ := h.failDial hdial ht
        exact ⟨hside, hdelta.mono (fun i hi => ⟨hi, hrole, error, rfl⟩) fun _ hfalse => hfalse⟩
      | done presented keys secret generation =>
        have ht : e.turn P hostOf (.dialled id (.done presented keys secret generation)) =
            (e.dropDial id).startSession P hostOf [] q id own e.allowDirect e.probeDelay keys
              (.connected id) := by
          simp only [turn, Endpoint.dialled, hdial, hconn, hpairing, hpeer,
            Bool.false_eq_true, if_false]
        obtain ⟨hside, hdelta⟩ := h.start ht rfl rfl rfl hrole rfl rfl
          (fun i dial hdial => (lookup_dropDial hdial).2) (fun _ _ harrival => harrival)
          (fun i hi hhandshaking => handshaking_dropDial hhandshaking hi)
        exact ⟨hside, hdelta.mono (fun _ hfalse => hfalse.elim) fun _ hfalse => hfalse⟩

theorem Side.arrived (h : Side q own theirs order launched e) {handshake : Handshake}
    (hpresented : ∀ presented keys secret generation,
      handshake = .done presented keys secret generation → presented = some q) :
    Side q own theirs order launched (e.step P hostOf (.arrived theirs handshake)) ∧
      Delta q e (e.step P hostOf (.arrived theirs handshake))
        (fun i => order[i]? = some .accept ∧ ∃ error, handshake = .failed error)
        (fun _ => False) := by
  cases harrival : e.arrivals.lookup theirs with
  | none =>
    have ht : e.turn P hostOf (.arrived theirs handshake) = e.stay := by
      simp only [turn, Endpoint.arrived, harrival]
    exact h.quiet ht rfl .nil _ _
  | some arrival =>
    obtain ⟨-, hroute, id, hsession, hrole⟩ := h.arrivals theirs arrival harrival
    obtain ⟨route, session⟩ := arrival
    dsimp only at hroute hsession
    subst hroute hsession
    -- whoever else is shaking hands is not the arrival that leaves the table
    have hothers : ∀ i, i ≠ id → e.Handshaking i → (e.dropArrival theirs).Handshaking i := by
      rintro i hi (hdial | ⟨conn, arrival, hlookup, hi'⟩)
      · exact Or.inl hdial
      · refine Or.inr ⟨conn, arrival, ?_, hi'⟩
        rw [Endpoint.dropArrival, Table.lookup_erase_ite, if_neg, hlookup]
        rintro rfl
        obtain rfl := Option.some.inj (harrival.symm.trans hlookup)
        exact hi (Option.some.inj hi').symm
    cases handshake with
    | failed error =>
      have ht : e.turn P hostOf (.arrived theirs (.failed error)) =
          ⟨e.dropArrival theirs, [.endSession route id], none⟩ := by
        simp only [turn, Endpoint.arrived, harrival, release]
      have hnone : ∀ p, Event.beginSession p ∉ [Event.endSession route id] := by
        intro p hmem
        cases List.mem_singleton.mp hmem
      refine ⟨h.of_no_begin ht hnone h.sound h.dials
        (fun c arrival hlookup => (lookup_dropArrival hlookup).2) h.sessions ?_,
        .of_no_begin ht hnone ?_ (fun _ hbefore => hbefore)
          fun i s' hs' hclosed => Or.inl ⟨s', hs', hclosed⟩⟩
      · intro i hbusy hslot
        have hi : i ≠ id := by
          rintro rfl
          exact slot_step_end ht rfl hslot
        exact hbusy.imp (hothers i hi) fun hs => hs
      · intro i hend
        obtain ⟨-, rfl⟩ := Event.endSession.inj (List.mem_singleton.mp hend)
        exact ⟨hrole, error, rfl⟩
    | done presented keys secret generation =>
      obtain rfl := hpresented presented keys secret generation rfl
      have ht : e.turn P hostOf (.arrived theirs (.done (some route) keys secret generation)) =
          (e.dropArrival theirs).startSession P hostOf [] route id theirs e.allowDirect e.probeDelay
            keys (.pinned id) := by
        simp only [turn, Endpoint.arrived, harrival, ne_eq, not_true_eq_false, if_false]
        rfl
      obtain ⟨hside, hdelta⟩ := h.start ht rfl rfl rfl hrole rfl rfl (fun _ _ hdial => hdial)
        (fun c arrival hlookup => (lookup_dropArrival hlookup).2) hothers
      exact ⟨hside, hdelta.mono (fun _ hfalse => hfalse.elim) fun _ hfalse => hfalse⟩

structure Taken (q : NodeId) (own theirs : ℕ) (order : List Role) (launched : Bool)
    (e e' : Endpoint) (role : Role) : Prop where
  next : e'.socket.inner.nextSession = e.socket.inner.nextSession + 1
  side : Side q own theirs (order ++ [role]) launched e'
  slot : e'.slot q = some order.length
  sessions : e'.sessions = e.sessions

theorem getElem?_snoc {role r : Role} {id : ℕ} (h : order[id]? = some r) :
    (order ++ [role])[id]? = some r := by
  rw [List.getElem?_append_left (List.getElem?_eq_some_iff.mp h).1, h]

theorem Side.take (h : Side q own theirs order launched e) {event : EndpointEvent} {t : Turn}
    (ht : e.turn P hostOf event = t) {before rest : List Event} (hbefore : Quiet before)
    (hrest : Quiet rest) (hcalls : t.calls = before ++ .beginSession q :: rest) {role : Role}
    (hsessions : t.next.sessions = e.sessions)
    (hdials : ∀ id dial, t.next.dials.lookup id = some dial → e.dials.lookup id = some dial ∨
      role = .dial ∧ id = order.length ∧ dial.peer = q ∧ dial.pairing = false ∧
        dial.conn = if launched then some own else none)
    (harrivals : ∀ conn arrival, t.next.arrivals.lookup conn = some arrival →
      e.arrivals.lookup conn = some arrival ∨
      role = .accept ∧ conn = theirs ∧ arrival.route = q ∧ arrival.session = some order.length)
    (hhandshaking : t.next.Handshaking order.length) :
    Taken q own theirs order launched e (e.step P hostOf event) role := by
  subst ht
  have hslots : (e.step P hostOf event).socket.inner.slots =
      e.socket.inner.slots.step (.take q) := by
    rw [step, hcalls]
    exact PathSocket.slots_after_begin P hostOf e.socket q
      (fun c hc => Event.touchesSlots_of_quiet (hbefore c hc))
      (fun c hc => Event.touchesSlots_of_quiet (hrest c hc))
  have hnext : (e.step P hostOf event).socket.inner.nextSession = e.socket.inner.nextSession + 1 :=
    congrArg Slots.next hslots
  have hslot : (e.step P hostOf event).slot q = some order.length := by
    change (e.step P hostOf event).socket.inner.slots.holder.lookup q = some order.length
    rw [hslots, ← h.next]
    exact AList.lookup_insert _
  have hnew : (order ++ [role])[order.length]? = some role := by
    rw [List.getElem?_append_right le_rfl, Nat.sub_self]
    rfl
  refine ⟨hnext, ?_, hslot, hsessions⟩
  refine ⟨?_, ?_, ?_, ?_, ?_, ?_, ?_, ?_⟩
  · exact fun id s hs => h.sound id s (hsessions ▸ hs)
  · rw [hnext, h.next, List.length_append, List.length_singleton]
  · intro id hid
    rw [← Option.some.inj (hslot.symm.trans hid), List.length_append, List.length_singleton]
  · intro id hid
    have htold : id ∈ (e.socket.inner.slots.step (.take q)).told := hslots ▸ hid
    rw [List.length_append, List.length_singleton]
    rcases told_step htold with ⟨q', hq', hheld⟩ | hold
    · rw [← Op.take.inj hq'] at hheld
      exact (h.slot id hheld).symm ▸ Nat.lt_succ_self _
    · exact (h.told id hold).trans (Nat.lt_succ_self _)
  · intro id dial hdial
    rcases hdials id dial hdial with hold | ⟨rfl, rfl, hpeer, hpairing, hconn⟩
    · obtain ⟨hrole, hrestDial⟩ := h.dials id dial hold
      exact ⟨getElem?_snoc hrole, hrestDial⟩
    · exact ⟨hnew, hpeer, hpairing, hconn⟩
  · intro conn arrival harrival
    rcases harrivals conn arrival harrival with hold | ⟨rfl, hconn, hroute, hsession⟩
    · obtain ⟨hconn, hroute, id, hsession, hrole⟩ := h.arrivals conn arrival hold
      exact ⟨hconn, hroute, id, hsession, getElem?_snoc hrole⟩
    · exact ⟨hconn, hroute, order.length, hsession, hnew⟩
  · intro id s hs
    obtain ⟨hid, hpeer, r, hr, hconn⟩ := h.sessions id s (hsessions ▸ hs)
    exact ⟨hid, hpeer, r, getElem?_snoc hr, hconn⟩
  · intro id hid
    rw [← Option.some.inj (hslot.symm.trans hid)]
    exact Or.inl hhandshaking

theorem Side.connect (h : Side q own theirs order false e) (relays : List String) :
    (((e.step P hostOf (.connect q relays)).socket.inner.nextSession = e.socket.inner.nextSession ∧
      Side q own theirs order false (e.step P hostOf (.connect q relays))) ∧
      Delta q e (e.step P hostOf (.connect q relays)) (fun _ => False) (fun _ => False)) ∨
    Taken q own theirs order false e (e.step P hostOf (.connect q relays)) .dial := by
  have hrefused : ∀ reason, e.turn P hostOf (.connect q relays) = e.fail [] reason →
      ((e.step P hostOf (.connect q relays)).socket.inner.nextSession = e.socket.inner.nextSession ∧
        Side q own theirs order false (e.step P hostOf (.connect q relays))) ∧
        Delta q e (e.step P hostOf (.connect q relays)) (fun _ => False) (fun _ => False) := by
    intro reason ht
    obtain ⟨hside, hdelta⟩ := h.quiet ht rfl .nil (fun _ => False) (fun _ => False)
    exact ⟨⟨hside.next.trans h.next.symm, hside⟩, hdelta⟩
  by_cases hself : q = e.nodeId
  · refine Or.inl (hrefused .identity ?_)
    simp only [turn, Endpoint.connect, hself, if_true]
  by_cases hbook : e.socket.book.any (fun book => !book.contains q) = true
  · refine Or.inl (hrefused .rendezvous ?_)
    simp only [turn, Endpoint.connect, hself, hbook, if_false, if_true]
  refine Or.inr ?_
  let dial : Dial := ⟨q, q, false, (e.socket.relay.driverFor relays).2, e.socket.now, none⟩
  have ht : e.turn P hostOf (.connect q relays) =
      ⟨{ e with dials := e.dials.insert e.socket.inner.nextSession dial },
        [.registerPeer q, .beginSession q, .setPeerRelays q relays], none⟩ := by
    simp only [turn, Endpoint.connect, hself, hbook, if_false, Bool.false_eq_true, dial]
  have hbefore : Quiet [.registerPeer q] := .cons rfl .nil
  have hrest : Quiet [.setPeerRelays q relays] := .cons rfl .nil
  refine h.take ht hbefore hrest rfl rfl ?_ (fun _ _ harrival => Or.inl harrival) ?_
  · intro id dial hdial
    rw [Table.lookup_insert_ite] at hdial
    split_ifs at hdial with hid
    · rw [← Option.some.inj hdial]
      exact Or.inr ⟨rfl, hid.trans h.next, rfl, rfl, rfl⟩
    · exact Or.inl hdial
  · refine Or.inl ?_
    rw [Table.lookup_insert_ite, if_pos h.next.symm]
    rfl

theorem Side.incoming (h : Side q own theirs order launched e) (hfresh : .accept ∉ order)
    {remote : SocketAddr} (hroute : e.socket.inner.bySynthetic.lookup remote = some q)
    (hactive : e.pairingActive q = false) :
    Taken q own theirs order launched e
      (e.step P hostOf (.incoming remote theirs .started)) .accept := by
  have hnone : theirs ∉ e.arrivals := by
    intro hmem
    obtain ⟨arrival, harrival⟩ := Option.isSome_iff_exists.mp (AList.lookup_isSome.mpr hmem)
    obtain ⟨-, -, id, -, hrole⟩ := h.arrivals theirs arrival harrival
    exact hfresh (List.mem_of_getElem? hrole)
  have hread : Quiet (if e.socket.book.isSome then e.pruneCalls else []) := by
    split_ifs
    · exact (plain_prune e).quiet
    · exact .nil
  have ht : e.turn P hostOf (.incoming remote theirs .started) =
      ⟨{ e with arrivals := e.arrivals.insert theirs ⟨q, some e.socket.inner.nextSession⟩ },
        (if e.socket.book.isSome then e.pruneCalls else []) ++ [.beginSession q], none⟩ := by
    simp only [turn, Endpoint.incoming, hnone, hroute, hactive, if_false, Bool.false_eq_true]
  refine h.take ht hread .nil rfl rfl (fun _ _ hdial => Or.inl hdial) ?_ ?_
  · intro conn arrival harrival
    rw [Table.lookup_insert_ite] at harrival
    split_ifs at harrival with hconn
    · rw [← Option.some.inj harrival]
      exact Or.inr ⟨rfl, hconn, rfl, congrArg some h.next⟩
    · exact Or.inl harrival
  · refine Or.inr ⟨theirs, ⟨q, some e.socket.inner.nextSession⟩, ?_, congrArg some h.next⟩
    exact AList.lookup_insert _

theorem Side.not_dialling (h : Side q own theirs order false e) (id : ℕ) :
    e.dialling id = false := by
  rw [dialling]
  cases hdial : e.dials.lookup id with
  | none => rfl
  | some dial =>
    obtain ⟨-, -, -, hconn⟩ := h.dials id dial hdial
    rw [Option.any_some, hconn]
    rfl

theorem Side.dialling_kept (h : Side q own theirs order launched e) (id : ℕ) :
    (launched || e.dialling id) = launched := by
  cases launched with
  | false => exact h.not_dialling id
  | true => rfl

theorem rendezvous_cases {id : ℕ} {dial : Dial} (hdial : e.dials.lookup id = some dial)
    (hconn : dial.conn = none) (conn : ℕ) :
    e.rendezvous id conn .started = e.stay ∨
      (∃ reason, e.rendezvous id conn .started = e.failDial id dial [] reason) ∨
      e.rendezvous id conn .started =
        ⟨{ e with dials := e.dials.insert id { dial with conn := some conn } }, [], none⟩ := by
  simp only [rendezvous, hdial, hconn, Option.isSome_none, Bool.false_eq_true, if_false]
  split
  · exact Or.inr (Or.inr rfl)
  · exact Or.inr (Or.inl ⟨_, rfl⟩)
  · exact Or.inr (Or.inl ⟨_, rfl⟩)
  · split_ifs
    · exact Or.inr (Or.inl ⟨_, rfl⟩)
    · exact Or.inl rfl

theorem Side.launch (h : Side q own theirs order launched e) (hnodup : order.Nodup) (id : ℕ)
    {e' : Endpoint} (he' : e' = e.step P hostOf (.rendezvous id own .started)) :
    (Side q own theirs order (launched || e'.dialling id) e' ∧
      Delta q e e' (fun _ => False) (fun _ => False) ∧
      (e'.dialling id = true → (e.dials.lookup id).isSome)) ∨
    (launched = false ∧ Side q own theirs order false e' ∧
      Delta q e e' (fun _ => True) (fun _ => False) ∧ ∀ i, e'.dials.lookup i = none) := by
  subst he'
  cases hdial : e.dials.lookup id with
  | none =>
    have ht : e.turn P hostOf (.rendezvous id own .started) = e.stay := by
      simp only [turn, Endpoint.rendezvous, hdial]
    obtain ⟨hside, hdelta⟩ := h.quiet ht rfl .nil (fun _ => False) (fun _ => False)
    refine Or.inl ⟨(hside.dialling_kept id).symm ▸ hside, hdelta, ?_⟩
    rw [dialling, hdelta.dials id hdial]
    exact fun hfalse => (Bool.false_ne_true hfalse).elim
  | some dial =>
    obtain ⟨hrole, hpeer, hpairing, hconn⟩ := h.dials id dial hdial
    have hstays : e.turn P hostOf (.rendezvous id own .started) = e.stay →
        Side q own theirs order
          (launched || (e.step P hostOf (.rendezvous id own .started)).dialling id)
          (e.step P hostOf (.rendezvous id own .started)) ∧
        Delta q e (e.step P hostOf (.rendezvous id own .started)) (fun _ => False)
          fun _ => False := by
      intro ht
      obtain ⟨hside, hdelta⟩ := h.quiet ht rfl .nil (fun _ => False) (fun _ => False)
      exact ⟨(hside.dialling_kept id).symm ▸ hside, hdelta⟩
    -- the end dials once, so no other dial stands in the table
    have honly : ∀ i dial', e.dials.lookup i = some dial' → i = id := by
      intro i dial' hdial'
      obtain ⟨hrole', -⟩ := h.dials i dial' hdial'
      obtain ⟨hlt, -⟩ := List.getElem?_eq_some_iff.mp hrole'
      exact (List.getElem?_inj hlt hnodup).mp (hrole'.trans hrole.symm)
    cases launched with
    | true =>
      have ht : e.turn P hostOf (.rendezvous id own .started) = e.stay := by
        simp only [turn, Endpoint.rendezvous, hdial, hconn, if_true, Option.isSome_some]
      obtain ⟨hside, hdelta⟩ := hstays ht
      exact Or.inl ⟨hside, hdelta, fun _ => rfl⟩
    | false =>
      rw [if_neg Bool.false_ne_true] at hconn
      have hfails : ∀ reason, e.turn P hostOf (.rendezvous id own .started) =
          e.failDial id dial [] reason →
          Side q own theirs order false (e.step P hostOf (.rendezvous id own .started)) ∧
          Delta q e (e.step P hostOf (.rendezvous id own .started)) (fun _ => True)
            (fun _ => False) ∧
          ∀ i, (e.step P hostOf (.rendezvous id own .started)).dials.lookup i = none := by
        intro reason ht
        obtain ⟨hside, hdelta⟩ := h.failDial hdial ht
        refine ⟨hside, hdelta.mono (fun _ _ => trivial) fun _ hfalse => hfalse, fun i => ?_⟩
        rw [step, ht]
        cases hafter : (e.dropDial id).dials.lookup i with
        | none => exact hafter
        | some dial' =>
          obtain ⟨hi, hbefore⟩ := lookup_dropDial hafter
          exact absurd (honly i dial' hbefore) hi
      rcases rendezvous_cases hdial hconn own with ht | ⟨reason, ht⟩ | ht
      · obtain ⟨hside, hdelta⟩ := hstays ht
        exact Or.inl ⟨hside, hdelta, fun _ => rfl⟩
      · obtain ⟨hside, hdelta, hnone⟩ := hfails reason ht
        exact Or.inr ⟨rfl, hside, hdelta, hnone⟩
      · have hstarted : (e.step P hostOf (.rendezvous id own .started)).dialling id = true := by
          rw [dialling, step, turn, ht]
          simp only [AList.lookup_insert, Option.any_some, Option.isSome_some]
        rw [hstarted]
        refine Or.inl ⟨h.of_no_begin ht (fun _ => List.not_mem_nil) h.sound ?_
          (fun _ _ harrival => harrival) h.sessions ?_, .of_no_begin ht (fun _ => List.not_mem_nil)
            (fun _ hmem => absurd hmem List.not_mem_nil) ?_ ?_, fun _ => rfl⟩
        · intro i dial' hdial'
          rw [Table.lookup_insert_ite] at hdial'
          split_ifs at hdial' with hi
          · rw [← Option.some.inj hdial', hi]
            exact ⟨hrole, hpeer, hpairing, rfl⟩
          · exact absurd (honly i dial' hdial') hi
        · intro i hbusy _
          refine hbusy.imp (fun hhandshaking => hhandshaking.imp_left fun hsome => ?_) fun hs => hs
          rw [Table.lookup_insert_ite]
          split_ifs
          · rfl
          · exact hsome
        · intro i hnone
          rw [Table.lookup_insert_ite]
          split_ifs with hi
          · rw [hi, hdial] at hnone
            cases hnone
          · exact hnone
        · exact fun i s' hs' hclosed => Or.inl ⟨s', hs', hclosed⟩

end Sides

end Endpoint

end ForgeswornLink
