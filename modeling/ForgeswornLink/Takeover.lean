import ForgeswornLink.EndpointEffects

/-!
# Who ends a live session

A session is told that it was superseded when another one takes the slot of its
peer. The slot is taken before the handshake, spec 4.3, so an inbound connection
takes it on the word of its source address alone. Nothing else does, besides the
endpoint's own dials and promoted pairing connections: whatever the network
injects, a session that fails as superseded was displaced by one of these, or the
driver it followed in its last pass had been told of a newer session of this node.
-/

namespace ForgeswornLink
open Runs NewestWins ByteString

def begun (calls : List Event) : List NodeId := taken (calls.filterMap Event.slotOp)

theorem begun_append (calls calls' : List Event) :
    begun (calls ++ calls') = begun calls ++ begun calls' := by
  rw [begun, List.filterMap_append, taken_append]
  rfl

theorem slotOp_of_untouched {c : Event} (h : c.touchesSlots = false) : c.slotOp = none := by
  rw [Event.touchesSlots, Option.isSome_eq_false_iff, Option.isNone_iff_eq_none] at h
  exact h

theorem begun_of_untouched {calls : List Event} (h : ∀ c ∈ calls, c.touchesSlots = false) :
    begun calls = [] := by
  have hnone : calls.filterMap Event.slotOp = [] :=
    List.filterMap_eq_nil_iff.mpr fun c hc => slotOp_of_untouched (h c hc)
  rw [begun, hnone]
  rfl

namespace PathSocket

variable {P : Primitives} {hostOf : String → Option String} {start : PathSocket}
  {calls : List Event}

variable (P hostOf) in
/-- The slot of `p` was taken while session `id` held it. -/
def Displaced (start : PathSocket) (calls : List Event) (id : ℕ) (p : NodeId) : Prop :=
  ∃ pre post, calls = pre ++ .beginSession p :: post ∧
    (after P hostOf start pre).inner.sessions.lookup p = some id

theorem Displaced.append {id : ℕ} {p : NodeId} (h : start.Displaced P hostOf calls id p)
    (calls' : List Event) : start.Displaced P hostOf (calls ++ calls') id p := by
  obtain ⟨pre, post, rfl, hslot⟩ := h
  exact ⟨pre, post ++ calls', by rw [List.append_assoc, List.cons_append], hslot⟩

variable (P hostOf) in
theorem slots_after_fresh (hstart : start.inner = {}) (calls : List Event) :
    (after P hostOf start calls).inner.slots =
      run Slots.step Slots.empty (calls.filterMap Event.slotOp) := by
  rw [slots_after, hstart]
  rfl

theorem nextSession_after (hstart : start.inner = {}) (calls : List Event) :
    (after P hostOf start calls).inner.nextSession = (begun calls).length := by
  have h := congrArg Slots.next (slots_after_fresh P hostOf hstart calls)
  rw [next_run] at h
  exact h

theorem displaced_of_notified (hstart : start.inner = {}) {id : ℕ}
    (h : id ∈ (after P hostOf start calls).inner.notified) :
    ∃ p, (begun calls)[id]? = some p ∧ start.Displaced P hostOf calls id p := by
  change id ∈ (after P hostOf start calls).inner.slots.told at h
  rw [slots_after_fresh P hostOf hstart] at h
  obtain ⟨pre, p, post, hops, hheld⟩ := taken_of_told h
  obtain ⟨calls₁, calls₂, rfl, rfl, hpost⟩ := List.filterMap_eq_append_iff.mp hops
  obtain ⟨quiet, c, rest, rfl, hquiet, hc, -⟩ := List.filterMap_eq_cons_iff.mp hpost
  have hbegin : c = .beginSession p := by
    cases c with
    | beginSession q => rw [Op.take.inj (Option.some.inj hc)]
    | endSession q session => cases hc
    | takeNotice session => cases hc
    | _ => cases hc
  refine ⟨p, ?_, calls₁ ++ quiet, rest, by rw [hbegin, List.append_assoc], ?_⟩
  · have htaken : (begun calls₁)[id]? = some p := taken_of_holder hheld
    rw [begun_append, List.getElem?_append_left (List.getElem?_eq_some_iff.mp htaken).1, htaken]
  · change (after P hostOf start (calls₁ ++ quiet)).inner.slots.holder.lookup p = some id
    rw [slots_after_fresh P hostOf hstart, List.filterMap_append,
      List.filterMap_eq_nil_iff.mpr hquiet, List.append_nil, hheld]

end PathSocket

def EndpointEvent.isDial : EndpointEvent → Bool
  | .connect _ _ | .connectPairing _ _ _ _ _ => true
  | _ => false

def EndpointEvent.authenticates : EndpointEvent → Bool
  | .arrived _ (.done (some _) _ _ _) => true
  | _ => false

namespace Endpoint

variable {P : Primitives} {hostOf : String → Option String} {e : Endpoint} {event : EndpointEvent}
  {t : Turn} {p : NodeId} {first rest : List Event}

theorem cut_at_begin {before after : List Event} {q : NodeId} (hbefore : Quiet before)
    (hafter : Event.beginSession p ∉ after)
    (h : before ++ .beginSession q :: after = first ++ .beginSession p :: rest) :
    q = p ∧ ∀ c ∈ first, c.touchesSlots = false := by
  obtain ⟨rfl, hq, -⟩ := (List.append_cons_inj_of_notMem (hbefore.no_begin p) hafter).mp h
  exact ⟨Event.beginSession.inj hq, fun c hc => Event.touchesSlots_of_quiet (hbefore c hc)⟩

theorem Does.begins (h : Does P hostOf e event t)
    (hsound : ∀ id s, e.sessions.lookup id = some s → s.Sound fun _ => True)
    (hcalls : t.calls = first ++ .beginSession p :: rest) :
    e.TakesOver p event ∧ ∀ c ∈ first, c.touchesSlots = false := by
  have hmem : Event.beginSession p ∈ t.calls := by
    rw [hcalls]
    exact List.mem_append_right _ List.mem_cons_self
  cases h with
  | quiet hquiet => exact absurd hmem (hquiet.no_begin p)
  | dials hbefore hafter hover =>
    obtain ⟨rfl, hfirst⟩ := cut_at_begin hbefore (hafter.no_begin p) hcalls
    exact ⟨hover, hfirst⟩
  | launches hdial => cases hmem
  | abandons => cases hmem
  | failsDial hdial hquiet =>
    rcases List.mem_append.mp hmem with hbefore | hend
    · exact absurd hbefore (hquiet.no_begin p)
    · cases List.mem_singleton.mp hend
  | startsDial hdial hconn hquiet hallow hr =>
    rcases List.mem_append.mp hmem with hbefore | hstarted
    · exact absurd hbefore (hquiet.no_begin p)
    · exact absurd hstarted ((quiet_started hr).no_begin p)
  | admits hquiet => exact absurd hmem (hquiet.no_begin p)
  | accepts hbefore hover =>
    obtain ⟨rfl, hfirst⟩ := cut_at_begin hbefore List.not_mem_nil hcalls
    exact ⟨hover, hfirst⟩
  | refuses hbefore hafter hover =>
    rcases hafter with rfl | rfl
    · obtain ⟨rfl, hfirst⟩ := cut_at_begin hbefore List.not_mem_nil hcalls
      exact ⟨hover, hfirst⟩
    · obtain ⟨rfl, hfirst⟩ := cut_at_begin hbefore (by simp) hcalls
      exact ⟨hover, hfirst⟩
  | dropsArrival harrival hquiet =>
    rcases List.mem_append.mp hmem with hbefore | hend
    · exact absurd hbefore (hquiet.no_begin p)
    · obtain ⟨session, hcall⟩ := mem_release hend
      cases hcall
  | startsArrival harrival hr => exact absurd hmem ((quiet_started hr).no_begin p)
  | startsPairing hbefore hover hid hr =>
    obtain ⟨rfl, hfirst⟩ := cut_at_begin hbefore ((quiet_started hr).no_begin p) hcalls
    exact ⟨hover, hfirst⟩
  | drives hs hr =>
    rw [hr] at hmem
    have hslots :=
      (Session.drive_spec (k := e.socket) (hsound _ _ hs) (fun _ _ => trivial) _ _ _).slots _ hmem
    rcases hslots rfl with ⟨heq, -⟩ | ⟨heq, -⟩ <;> cases heq
  | closes hs => cases hmem
  | notes hs hkept hreport htask hquiet => exact absurd hmem (hquiet.no_begin p)

structure Owned (R : ℕ → NodeId → Prop) (e : Endpoint) : Prop where
  dials : ∀ id dial, e.dials.lookup id = some dial → R id dial.peer
  arrivals : ∀ conn route id, e.arrivals.lookup conn = some ⟨route, some id⟩ → R id route
  sessions : ∀ id s, e.sessions.lookup id = some s → s.id = id ∧ R id s.peer

theorem Owned.mono {R R' : ℕ → NodeId → Prop} (h : e.Owned R) (hR : ∀ id p, R id p → R' id p) :
    e.Owned R' :=
  ⟨fun id dial hdial => hR _ _ (h.dials id dial hdial),
    fun conn route id harrival => hR _ _ (h.arrivals conn route id harrival),
    fun id s hs => ⟨(h.sessions id s hs).1, hR _ _ (h.sessions id s hs).2⟩⟩

theorem Owned.insertDial {R : ℕ → NodeId → Prop} (h : e.Owned R) {id : ℕ} {dial : Dial}
    (hdial : R id dial.peer) : { e with dials := e.dials.insert id dial }.Owned R := by
  refine ⟨?_, h.arrivals, h.sessions⟩
  intro id' dial' hlookup
  rw [Table.lookup_insert_ite] at hlookup
  split_ifs at hlookup with hid
  · rw [hid, ← Option.some.inj hlookup]
    exact hdial
  · exact h.dials id' dial' hlookup

theorem Owned.insertArrival {R : ℕ → NodeId → Prop} (h : e.Owned R) {conn : ℕ} {arrival : Arrival}
    (harrival : ∀ id, arrival.session = some id → R id arrival.route) :
    { e with arrivals := e.arrivals.insert conn arrival }.Owned R := by
  refine ⟨h.dials, ?_, h.sessions⟩
  intro conn' route id hlookup
  rw [Table.lookup_insert_ite] at hlookup
  split_ifs at hlookup
  · obtain rfl := Option.some.inj hlookup
    exact harrival id rfl
  · exact h.arrivals conn' route id hlookup

theorem Owned.dropDial {R : ℕ → NodeId → Prop} (h : e.Owned R) (session : ℕ) :
    (e.dropDial session).Owned R := by
  refine ⟨?_, h.arrivals, h.sessions⟩
  intro id dial hlookup
  rw [Endpoint.dropDial, Table.lookup_erase_ite] at hlookup
  split_ifs at hlookup
  exact h.dials id dial hlookup

theorem Owned.dropArrival {R : ℕ → NodeId → Prop} (h : e.Owned R) (conn : ℕ) :
    (e.dropArrival conn).Owned R := by
  refine ⟨h.dials, ?_, h.sessions⟩
  intro conn' route id hlookup
  rw [Endpoint.dropArrival, Table.lookup_erase_ite] at hlookup
  split_ifs at hlookup
  exact h.arrivals conn' route id hlookup

theorem Owned.setSession {R : ℕ → NodeId → Prop} (h : e.Owned R) {id : ℕ} {s : Session}
    (hid : s.id = id) (hs : R id s.peer) : (e.setSession id s).Owned R := by
  refine ⟨h.dials, h.arrivals, ?_⟩
  intro id' s' hlookup
  rcases lookup_setSession hlookup with ⟨rfl, rfl⟩ | hbefore
  · exact ⟨hid, hs⟩
  · exact h.sessions id' s' hbefore

theorem Owned.update {R : ℕ → NodeId → Prop} (h : e.Owned R) {id : ℕ} {s s' : Session}
    (hs : e.sessions.lookup id = some s) (hsame : s.Same s') : (e.setSession id s').Owned R := by
  obtain ⟨hid, hpeer⟩ := h.sessions id s hs
  exact h.setSession (hsame.id.trans hid) (hsame.peer ▸ hpeer)

theorem started_ids {r : Session × List Event} {calls : List Event} {peer : NodeId} {id conn : ℕ}
    {allowDirect : Bool} {probeDelay : ℕ} {keys : Option (ProbeKeyId × ProbeKey)}
    (hr : r = e.started P hostOf calls peer id conn allowDirect probeDelay keys) :
    r.1.id = id ∧ r.1.peer = peer := by
  obtain ⟨hpeer, hid, -⟩ :=
    Session.start_spec (PathSocket.after P hostOf e.socket calls) peer id conn allowDirect
      probeDelay keys
  rw [hr]
  exact ⟨hid, hpeer⟩

theorem Does.owned {R R' : ℕ → NodeId → Prop} (h : Does P hostOf e event t) (howned : e.Owned R)
    (hsound : ∀ id s, e.sessions.lookup id = some s → s.Sound fun _ => True)
    (hkeep : ∀ id p, R id p → R' id p)
    (hbegin : ∀ p, Event.beginSession p ∈ t.calls → R' e.socket.inner.nextSession p) :
    t.next.Owned R' := by
  have hbefore := howned.mono hkeep
  cases h with
  | quiet hquiet => exact hbefore
  | dials hquiet hafter hover =>
    exact hbefore.insertDial (hbegin _ (List.mem_append_right _ List.mem_cons_self))
  | launches hdial =>
    have hpeer := hbefore.dials _ _ hdial
    exact hbefore.insertDial hpeer
  | abandons => exact hbefore.dropDial _
  | failsDial hdial hquiet => exact hbefore.dropDial _
  | startsDial hdial hconn hquiet hallow hr =>
    obtain ⟨hid, hpeer⟩ := started_ids hr
    refine (hbefore.dropDial _).setSession hid ?_
    rw [hpeer]
    exact hbefore.dials _ _ hdial
  | admits hquiet => exact hbefore.insertArrival nofun
  | accepts hquiet hover =>
    refine hbefore.insertArrival ?_
    intro id hid
    rw [← Option.some.inj hid]
    exact hbegin _ (List.mem_append_right _ (List.mem_singleton_self _))
  | refuses hquiet hafter hover => exact hbefore
  | dropsArrival harrival hquiet => exact hbefore.dropArrival _
  | startsArrival harrival hr =>
    obtain ⟨hid, hpeer⟩ := started_ids hr
    refine (hbefore.dropArrival _).setSession hid ?_
    rw [hpeer]
    exact hbefore.arrivals _ _ _ harrival
  | startsPairing hquiet hover hnext hr =>
    obtain ⟨hid, hpeer⟩ := started_ids hr
    refine (hbefore.dropArrival _).setSession hid ?_
    rw [hpeer, hnext]
    exact hbegin _ (List.mem_append_right _ List.mem_cons_self)
  | drives hs hr =>
    rw [hr]
    exact hbefore.update hs (Session.drive_spec (hsound _ _ hs) (fun _ _ => trivial) _ _ _).same
  | closes hs => exact hbefore.update hs ⟨rfl, rfl, rfl, rfl, rfl⟩
  | notes hs hkept hreport htask hquiet => exact hbefore.update hs hkept.same

section Run

variable (P hostOf) in
/-- The pass in which session `id`, not failed until then, fails as superseded; the driver that its
peer `p` is reached on had been told by then. -/
def RelayEnds (start : Endpoint) (es : List EndpointEvent) (id : ℕ) (p : NodeId) : Prop :=
  ∃ before wake nonce draws later s, es = before ++ .drive id wake nonce draws :: later ∧
    (run (step P hostOf) start before).sessions.lookup id = some s ∧
    s.report.status.isFailed = false ∧
    (s.drive (run (step P hostOf) start before).socket wake nonce draws).1.report.status =
      .failed .superseded ∧
    start.socket.RelayTold P hostOf (start.trace P hostOf before)
      ((run (step P hostOf) start before).socket.relayFor p).1

variable (P hostOf) in
structure Explained (start : Endpoint) (es : List EndpointEvent) (s : Session) : Prop where
  sound : s.Sound (start.socket.RelayTold P hostOf (start.trace P hostOf es))
  superseded : s.report.status = .failed .superseded →
    s.report.cause = .newerSession ∧
        start.socket.Displaced P hostOf (start.trace P hostOf es) s.id s.peer ∨
      s.report.cause = .relaySlotTaken ∧ RelayEnds P hostOf start es s.id s.peer

section Explained
variable {start : Endpoint} {es : List EndpointEvent} {s s' : Session}

theorem RelayEnds.snoc {id : ℕ} (h : RelayEnds P hostOf start es id p) (event : EndpointEvent) :
    RelayEnds P hostOf start (es ++ [event]) id p := by
  obtain ⟨before, wake, nonce, draws, later, s, rfl, hpass⟩ := h
  refine ⟨before, wake, nonce, draws, later ++ [event], s, ?_, hpass⟩
  rw [List.append_assoc, List.cons_append]

theorem Explained.snoc (h : Explained P hostOf start es s) (event : EndpointEvent) :
    Explained P hostOf start (es ++ [event]) s := by
  refine ⟨h.sound.mono fun id htold => ?_, ?_⟩
  · rw [Endpoint.trace, trace_snoc]
    exact htold.append _
  · intro hsuperseded
    rcases h.superseded hsuperseded with ⟨hcause, hdisplaced⟩ | ⟨hcause, hends⟩
    · rw [Endpoint.trace, trace_snoc]
      exact Or.inl ⟨hcause, hdisplaced.append _⟩
    · exact Or.inr ⟨hcause, hends.snoc event⟩

theorem Explained.note (h : Explained P hostOf start es s) (hsame : s.Same s')
    (hreport : s'.report = s.report) (htask : s'.task = s.task) :
    Explained P hostOf start es s' := by
  refine ⟨?_, ?_⟩
  · intro t ht
    exact h.sound t (htask ▸ ht)
  · rw [hreport, hsame.id, hsame.peer]
    exact h.superseded

theorem Explained.drive (hstart : start.socket.inner = {})
    (hpool : ∀ id, ¬ start.socket.RelayTaken id) (h : Explained P hostOf start es s)
    (hs : (run (step P hostOf) start es).sessions.lookup s.id = some s)
    (hnumber : (begun (start.trace P hostOf es))[s.id]? = some s.peer) (wake : Wake) (nonce : Nonce)
    (draws : ℕ → Nonce × Bool) :
    Explained P hostOf start (es ++ [.drive s.id wake nonce draws])
      (s.drive (run (step P hostOf) start es).socket wake nonce draws).1 := by
  have hdriven := Session.drive_spec h.sound (k := (run (step P hostOf) start es).socket)
    (fun id htaken => PathSocket.relayTaken_since hpool (socket_run start es ▸ htaken)) wake
      nonce draws
  have hlater := h.snoc (.drive s.id wake nonce draws)
  refine ⟨hdriven.sound.mono fun id htold => ?_, ?_⟩
  · rw [Endpoint.trace, trace_snoc]
    exact htold.append _
  · intro hstatus
    rw [hdriven.same.id, hdriven.same.peer]
    rcases hdriven.superseded hstatus with ⟨hbefore, hcause⟩ | ⟨hnotified, hcause⟩ |
      ⟨hfailed, htold, hcause⟩
    · rw [hcause]
      exact hlater.superseded hbefore
    · rw [socket_run] at hnotified
      obtain ⟨p, hp, hdisplaced⟩ := PathSocket.displaced_of_notified hstart hnotified
      obtain rfl : p = s.peer := Option.some.inj (hp.symm.trans hnumber)
      rw [Endpoint.trace, trace_snoc]
      exact Or.inl ⟨hcause, hdisplaced.append _⟩
    · exact Or.inr ⟨hcause, es, wake, nonce, draws, [], s, rfl, hs, hfailed, hstatus, htold⟩

end Explained

variable (P hostOf) in
structure Accounted (start : Endpoint) (es : List EndpointEvent) : Prop where
  owned : (run (step P hostOf) start es).Owned fun id p =>
    (begun (start.trace P hostOf es))[id]? = some p
  sessions : ∀ id s, (run (step P hostOf) start es).sessions.lookup id = some s →
    Explained P hostOf start es s

variable {start : Endpoint} {es : List EndpointEvent}

theorem Accounted.sound (h : Accounted P hostOf start es) (id : ℕ) (s : Session)
    (hs : (run (step P hostOf) start es).sessions.lookup id = some s) : s.Sound fun _ => True :=
  (h.sessions id s hs).sound.mono fun _ _ => trivial

theorem Accounted.begins (hstart : start.socket.inner = {}) (h : Accounted P hostOf start es)
    (event : EndpointEvent) (p : NodeId)
    (hmem : Event.beginSession p ∈ (run (step P hostOf) start es).calls P hostOf event) :
    (begun (start.trace P hostOf (es ++ [event])))[
      (run (step P hostOf) start es).socket.inner.nextSession]? = some p := by
  obtain ⟨first, rest, hcalls⟩ := List.append_of_mem hmem
  obtain ⟨-, hfirst⟩ := (does_turn _ event).begins h.sound hcalls
  rw [socket_run, PathSocket.nextSession_after hstart, Endpoint.trace, trace_snoc, begun_append,
    hcalls, begun_append, begun_of_untouched hfirst, List.nil_append,
    List.getElem?_append_right le_rfl, Nat.sub_self]
  rfl

theorem Accounted.owned_snoc (hstart : start.socket.inner = {}) (h : Accounted P hostOf start es)
    (event : EndpointEvent) :
    (run (step P hostOf) start (es ++ [event])).Owned
      fun id p => (begun (start.trace P hostOf (es ++ [event])))[id]? = some p := by
  rw [run_snoc]
  have howned : ((run (step P hostOf) start es).turn P hostOf event).next.Owned
      fun id p => (begun (start.trace P hostOf (es ++ [event])))[id]? = some p := by
    refine (does_turn _ event).owned h.owned h.sound ?_ (h.begins hstart event)
    intro id p hid
    rw [Endpoint.trace, trace_snoc, begun_append,
      List.getElem?_append_left (List.getElem?_eq_some_iff.mp hid).1, hid]
  exact ⟨howned.dials, howned.arrivals, howned.sessions⟩

theorem Accounted.snoc (hstart : start.socket.inner = {})
    (hpool : ∀ id, ¬ start.socket.RelayTaken id) (h : Accounted P hostOf start es)
    (event : EndpointEvent) : Accounted P hostOf start (es ++ [event]) := by
  refine ⟨h.owned_snoc hstart event, ?_⟩
  have hnumbered : ∀ id s, (run (step P hostOf) start es).sessions.lookup id = some s →
      Explained P hostOf start es s ∧ s.id = id ∧
        (begun (start.trace P hostOf es))[s.id]? = some s.peer := by
    intro id s hs
    obtain ⟨hid, hpeer⟩ := h.owned.sessions id s hs
    exact ⟨h.sessions id s hs, hid, by rw [hid, hpeer]⟩
  rw [run_snoc]
  refine (moves_turn _ event).sessions h.sessions (fun s hbefore => hbefore.snoc event) ?_ ?_ ?_
  · intro calls rest peer id conn allowDirect probeDelay keys hcalls _
    refine ⟨?_, ?_⟩
    · refine Session.sound_start ?_ peer id conn allowDirect probeDelay keys
      intro driver htaken
      rw [socket_run, ← PathSocket.after_append] at htaken
      rw [Endpoint.trace, trace_snoc]
      change start.socket.RelayTold P hostOf
        (start.trace P hostOf es ++ ((run (step P hostOf) start es).turn P hostOf event).calls)
          driver
      rw [hcalls, ← List.append_assoc]
      exact (PathSocket.relayTaken_since hpool htaken).append rest
    · intro hstatus
      obtain ⟨-, -, -, -, -, hrelayed, -⟩ := Session.start_spec
        (PathSocket.after P hostOf (run (step P hostOf) start es).socket calls) peer id conn
          allowDirect probeDelay keys
      cases hrelayed.symm.trans hstatus
  · rintro session s wake nonce draws rfl hs - hbefore
    obtain ⟨-, rfl, hnumber⟩ := hnumbered session s hs
    exact hbefore.drive hstart hpool hs hnumber wake nonce draws
  · intro s n hbefore
    obtain ⟨hsame, hreport, -, htask⟩ := s.note_spec n
    exact (hbefore.note hsame hreport htask).snoc event

theorem accounted_run (hstart : start.socket.inner = {})
    (hpool : ∀ id, ¬ start.socket.RelayTaken id) (hdials : start.dials = ∅)
    (harrivals : start.arrivals = ∅) (hsessions : start.sessions = ∅) (es : List EndpointEvent) :
    Accounted P hostOf start es := by
  induction es using List.reverseRecOn with
  | nil =>
    refine ⟨⟨?_, ?_, ?_⟩, ?_⟩
    · intro id dial hdial
      rw [run_nil, hdials, AList.lookup_empty] at hdial
      cases hdial
    · intro conn route id harrival
      rw [run_nil, harrivals, AList.lookup_empty] at harrival
      cases harrival
    · intro id s hs
      rw [run_nil, hsessions, AList.lookup_empty] at hs
      cases hs
    · intro id s hs
      rw [run_nil, hsessions, AList.lookup_empty] at hs
      cases hs
  | append_singleton es event ih => exact ih.snoc hstart hpool event

theorem Accounted.takeover (h : ∀ es, Accounted P hostOf start es) {id : ℕ}
    (hdisplaced : start.socket.Displaced P hostOf (start.trace P hostOf es) id p) :
    ∃ before event later, es = before ++ event :: later ∧
      (run (step P hostOf) start before).TakesOver p event ∧
      (run (step P hostOf) start before).socket.inner.sessions.lookup p = some id := by
  obtain ⟨pre, post, htrace, hslot⟩ := hdisplaced
  obtain ⟨before, event, later, first, rest, rfl, hcalls, rfl⟩ := trace_split _ _ htrace
  obtain ⟨hover, hfirst⟩ := (does_turn _ event).begins (h before).sound hcalls
  refine ⟨before, event, later, rfl, hover, ?_⟩
  change (PathSocket.after P hostOf start.socket
    (start.trace P hostOf before ++ first)).inner.slots.holder.lookup p = some id at hslot
  rw [PathSocket.after_append, PathSocket.slots_after_of_quiet P hostOf _ hfirst,
    ← socket_run] at hslot
  exact hslot

end Run

theorem not_relayTaken_open (udp : Bool) (config : EndpointConfig) (now unixNow id : ℕ) :
    ¬ (openOn udp config now unixNow).socket.RelayTaken id := by
  rintro ⟨d, hd, hsuperseded⟩
  rw [RelayClient.eq_of_driver_spawn hd] at hsuperseded
  rcases hsuperseded with hstatus | hevent
  · cases hstatus
  · cases hevent

/-- Whatever an endpoint goes through, a session fails as superseded in two ways. A newer session
took the slot: this one held the slot of its peer when the endpoint dialled that peer, or a
connection attributed to it reached the accept loop outside an admission, or a pairing connection
that presented its key was promoted. Or its relay slot was taken: in the pass in which it failed,
the driver it followed had been told by its relay, in identity mode, of a newer session of this
node. -/
theorem superseded_only_if_taken_over (P : Primitives) (hostOf : String → Option String)
    (udp : Bool) (config : EndpointConfig) (now unixNow : ℕ) (es : List EndpointEvent) (id : ℕ)
    (s : Session) :
    let start := openOn udp config now unixNow
    (run (step P hostOf) start es).sessions.lookup id = some s →
    s.report.status = .failed .superseded →
    (s.report.cause = .newerSession ∧ ∃ before event later, es = before ++ event :: later ∧
      (run (step P hostOf) start before).TakesOver s.peer event ∧
      (run (step P hostOf) start before).socket.inner.sessions.lookup s.peer = some id) ∨
    (s.report.cause = .relaySlotTaken ∧ RelayEnds P hostOf start es id s.peer) := by
  intro start hs hstatus
  have haccounted : ∀ es, Accounted P hostOf start es :=
    accounted_run rfl (not_relayTaken_open _ _ _ _) rfl rfl rfl
  obtain ⟨hid, -⟩ := (haccounted es).owned.sessions id s hs
  have hexplained := ((haccounted es).sessions id s hs).superseded hstatus
  rw [hid] at hexplained
  rcases hexplained with ⟨hcause, hdisplaced⟩ | hrelay
  · exact Or.inl ⟨hcause, Accounted.takeover haccounted hdisplaced⟩
  · exact Or.inr hrelay

def establish (p : NodeId) : List EndpointEvent :=
  [.environment (.driver 0 .connected), .connect p [], .rendezvous 0 0 .started,
    .dialled 0 (.done (some p) none none 0)]

/-- Someone else on the relay sends the first packet of a connection in the
peer's name, and its handshake comes to nothing. -/
def inject (p : NodeId) (nonce : Nonce) : List EndpointEvent :=
  [.environment (.recvRelay p [0] 0), .incoming (p.syntheticAddr Primitives.standIn) 1 .started,
    .drive 0 .superseded nonce fun _ => (nonce, true), .arrived 1 (.failed .timedOut)]

/-- The relay of the established session reports a newer session of this node. -/
def takenAtRelay (nonce : Nonce) : List EndpointEvent :=
  [.environment (.driver 0 (.ended true)), .drive 0 .relayEvent nonce fun _ => (nonce, true)]

/-- The same while the handshake is going on: the session starts on a superseded driver. -/
def takenBefore (p : NodeId) (nonce : Nonce) : List EndpointEvent :=
  [.environment (.driver 0 .connected), .connect p [], .rendezvous 0 0 .started,
    .environment (.driver 0 (.ended true)), .dialled 0 (.done (some p) none none 0),
    .drive 0 .tick nonce fun _ => (nonce, true)]

theorem superseded_only_if_taken_over_injected :
    let p : NodeId := ⟨List.Vector.replicate 32 1⟩
    let config := EndpointConfig.new ⟨List.Vector.replicate 32 0⟩
    let start := openOn true { config with relays := ["wss://relay"] } 0 0
    let es := establish p ++ inject p (List.Vector.replicate 16 5)
    ∃ s, (run (step Primitives.standIn fun _ => none) start es).sessions.lookup 0 = some s ∧
      s.report.status = .failed .superseded ∧
      ((s.report.cause = .newerSession ∧ ∃ before event later, es = before ++ event :: later ∧
        (run (step Primitives.standIn fun _ => none) start before).TakesOver s.peer event ∧
        (run (step Primitives.standIn fun _ => none) start before).socket.inner.sessions.lookup
          s.peer = some 0) ∨
      (s.report.cause = .relaySlotTaken ∧
        RelayEnds Primitives.standIn (fun _ => none) start es 0 s.peer)) := by
  intro p config start es
  have hstatus : ((run (step Primitives.standIn fun _ => none) start es).sessions.lookup 0).map
      (fun s => s.report.status) = some (.failed .superseded) := by decide +kernel
  obtain ⟨s, hs, hsuperseded⟩ := Option.map_eq_some_iff.mp hstatus
  have hcause := superseded_only_if_taken_over Primitives.standIn (fun _ => none) _ _ _ _ es 0 s hs
    hsuperseded
  exact ⟨s, hs, hsuperseded, hcause⟩

/-- The established session is ended by an arrival that comes to nothing, and by the notice of its
relay, though after it was established nobody dialled and nobody authenticated. A notice that comes
before the session has started ends it too. -/
theorem live_session_ended_unauthenticated :
    let p : NodeId := ⟨List.Vector.replicate 32 1⟩
    let nonce : Nonce := List.Vector.replicate 16 5
    let config := EndpointConfig.new ⟨List.Vector.replicate 32 0⟩
    let start := openOn true { config with relays := ["wss://relay"] } 0 0
    let before := run (step Primitives.standIn fun _ => none) start (establish p)
    let reported := fun e : Endpoint => (e.sessions.lookup 0).map fun s =>
      (s.peer, s.report.status, s.report.cause, s.closed)
    reported before = some (p, .relayed, .handshakeOk, none) ∧
      before.socket.inner.sessions.lookup p = some 0 ∧
      reported (run (step Primitives.standIn fun _ => none) before (inject p nonce)) =
        some (p, .failed .superseded, .newerSession, some .locallyClosed) ∧
      reported (run (step Primitives.standIn fun _ => none) before (takenAtRelay nonce)) =
        some (p, .failed .superseded, .relaySlotTaken, none) ∧
      (∀ event ∈ inject p nonce ++ takenAtRelay nonce,
        event.isDial = false ∧ event.authenticates = false) ∧
      reported (run (step Primitives.standIn fun _ => none) start (takenBefore p nonce)) =
        some (p, .failed .superseded, .relaySlotTaken, none) := by
  intro p nonce config start before reported
  refine ⟨by decide +kernel, by decide +kernel, by decide +kernel, by decide +kernel, ?_,
    by decide +kernel⟩
  simp [inject, takenAtRelay, EndpointEvent.isDial, EndpointEvent.authenticates]

end Endpoint

end ForgeswornLink
