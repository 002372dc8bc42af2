import ForgeswornLink.EngineSessions
import ForgeswornLink.RouteReplacement
import ForgeswornLink.Takeover

/-!
# Dials beside a live session

A call looks for a session under the ID of its route, and the path socket keeps one
session for a node. A dial takes the slot of its node whatever holds it, so a dial made
while the engine still has a live session to the node ends that session. The cache rules
this out for a route by itself. Nothing rules it out for two routes that name one node,
which `start` and `upsert_route` both accept.

What a session number stands for is settled when its slot is taken; the engine's cache
and the dial under its lock are tied to the node of their route through that number.
-/

namespace ForgeswornLink
open Runs OrderedChecks ByteString Filing

def EndpointEvent.connectsTo : EndpointEvent → Option NodeId
  | .connect peer _ => some peer
  | _ => none

theorem EndpointEvent.connectsTo_of_enrolment {event : EndpointEvent}
    (h : event.isEnrolment = true) : event.connectsTo = none := by
  cases event with
  | connect peer relays => cases h
  | _ => rfl

theorem EndpointEvent.connectsTo_of_beside {event : EndpointEvent} (h : event.isBeside = true) :
    event.connectsTo = none := by
  cases event with
  | connect peer relays => cases h
  | _ => rfl

namespace Endpoint
variable {P : Primitives} {hostOf : String → Option String} {e : Endpoint}

theorem connect_begins {peer : NodeId} {relays : List String}
    (h : ∀ reason, (e.turn P hostOf (.connect peer relays)).outcome ≠ some (.failed reason)) :
    Event.beginSession peer ∈ e.calls P hostOf (.connect peer relays) := by
  change Event.beginSession peer ∈ (e.connect peer relays).calls
  change ∀ reason, (e.connect peer relays).outcome ≠ some (.failed reason) at h
  unfold connect at h ⊢
  split_ifs at h ⊢
  · exact absurd rfl (h .identity)
  · exact absurd rfl (h .rendezvous)
  · simp

end Endpoint

namespace Engine
variable (P : Primitives) (hostOf : String → Option String)

def cachesLive (e : Engine) (node : NodeId) : Bool :=
  e.routes.entries.any fun entry => entry.2.session.any fun session =>
    (e.endpoint.sessions.lookup session).any fun s => s.peer = node && s.isLive

def SparesLive (e : Engine) (event : EngineEvent) : Prop :=
  ∀ node ∈ (e.events P hostOf event).filterMap EndpointEvent.connectsTo, e.cachesLive node = false

def twinLive (e : Engine) (routeId : String) (node : NodeId) : Bool :=
  e.routes.entries.any fun entry =>
    entry.1 ≠ routeId && entry.2.node = node && entry.2.session.any e.endpoint.live

/-- A call that has to dial finds no live session under another route of the same node. -/
def FindsNoTwin (e : Engine) : EngineEvent → Prop
  | .stream call routeId =>
    e.lock.isNone = true → e.stopped = false → e.stop = false →
      ∀ route ∈ e.routes.lookup routeId, (call.check route.node).isOk = true →
        e.cached route call = none → e.twinLive routeId route.node = false
  | _ => True

instance decidableFindsNoTwin (e : Engine) : ∀ event, Decidable (e.FindsNoTwin event)
  | .stream call routeId => inferInstanceAs (Decidable
      (e.lock.isNone = true → e.stopped = false → e.stop = false →
        ∀ route ∈ e.routes.lookup routeId, (call.check route.node).isOk = true →
          e.cached route call = none → e.twinLive routeId route.node = false))
  | .endpoint _ | .giveUp _ | .upsertRoute _ | .removeRoute _ | .pairRoute _ _ _
  | .pairingAnswered _ _ | .pairingStopped _ | .installPairing _ | .closeSession _ | .reannounce
  | .stop | .stopRoutes | .closeEndpoint | .wipe => isTrue trivial

def numberOf (start : Engine) (es : List EngineEvent) (session : ℕ) (node : NodeId) : Prop :=
  (begun (start.endpoint.trace P hostOf (start.trace P hostOf es)))[session]? = some node

variable {P hostOf} {e : Engine}

section Numbers

structure Numbered (N : ℕ → NodeId → Prop) (lock : Option Dialling)
    (routes : Table String RouteState) : Prop where
  cards : ∀ id route, routes.lookup id = some route → route.card.nodeId = route.node
  cached : ∀ id route session, routes.lookup id = some route → route.session = some session →
    N session route.node
  dialling : ∀ d, lock = some d → ∃ route, routes.lookup d.routeId = some route ∧
    N d.session route.node

variable {N : ℕ → NodeId → Prop}

theorem Numbered.unlock {lock : Option Dialling} {routes : Table String RouteState}
    (h : Numbered N lock routes) : Numbered N none routes :=
  ⟨h.cards, h.cached, fun _ hd => by cases hd⟩

theorem Numbered.insert {routes : Table String RouteState}
    (h : Numbered N none routes) {id : String} {route : RouteState}
    (hcard : route.card.nodeId = route.node) (hsession : ∀ session, route.session = some session →
      N session route.node) :
    Numbered N none (routes.insert id route) := by
  refine ⟨fun id' route' hlookup => ?_, fun id' route' session hlookup hcached => ?_,
    fun _ hd => by cases hd⟩
  · rw [Table.lookup_insert_ite] at hlookup
    split_ifs at hlookup
    · rw [← Option.some.inj hlookup]
      exact hcard
    · exact h.cards id' route' hlookup
  · rw [Table.lookup_insert_ite] at hlookup
    split_ifs at hlookup
    · obtain rfl := Option.some.inj hlookup
      exact hsession session hcached
    · exact h.cached id' route' session hlookup hcached

theorem Moves.numbered {event : EngineEvent} {t : EngineTurn} (h : Moves P hostOf e event t)
    (hN : Numbered N e.lock e.routes)
    (hbegin : ∀ node relays, t.events = [.connect node relays] →
      (∀ reason, (e.endpoint.turn P hostOf (.connect node relays)).outcome ≠
        some (.failed reason)) →
      N e.endpoint.socket.inner.nextSession node) : Numbered N t.next.lock t.next.routes := by
  cases h with
  | dials hadmits _ _ houtcome =>
    refine ⟨hN.cards, hN.cached, fun d hd => ?_⟩
    obtain rfl := Option.some.inj hd
    refine ⟨_, hadmits.installed, ?_⟩
    rw [← hN.cards _ _ hadmits.installed]
    exact hbegin _ _ rfl houtcome
  | givesUp => exact hN.unlock
  | failsDial => exact hN.unlock
  | @connects event d session hbeside hlock hdial hstop houtcome =>
    obtain ⟨rfl, -⟩ := Endpoint.connected_dial hdial houtcome
    obtain ⟨route, hroute, hnumber⟩ := hN.dialling d hlock
    have hcard := hN.cards _ _ hroute
    change Numbered N none (e.cache d.routeId d.session)
    rw [cache, hroute, Option.elim_some]
    refine hN.unlock.insert hcard fun session hsession => ?_
    rw [← Option.some.inj hsession]
    exact hnumber
  | installs hlock _ _ hcard =>
    rw [hlock] at hN
    change Numbered N e.lock (e.routes.insert _ _)
    rw [hlock]
    exact hN.insert hcard fun session hsession => by cases hsession
  | @removes routeId _ hlock =>
    refine ⟨fun id route hroute => ?_, fun id route session hroute hsession => ?_, fun d hd => ?_⟩
    · change (e.routes.erase routeId).lookup id = some route at hroute
      rw [Table.lookup_erase_ite] at hroute
      split_ifs at hroute
      exact hN.cards id route hroute
    · change (e.routes.erase routeId).lookup id = some route at hroute
      rw [Table.lookup_erase_ite] at hroute
      split_ifs at hroute
      exact hN.cached id route session hroute hsession
    · cases hlock.symm.trans hd
  | stops _ hlock =>
    refine ⟨fun id route hroute => ?_, fun id route session hroute hsession => ?_, fun d hd => ?_⟩
    · change (e.routes.mapValues _).lookup id = some route at hroute
      rw [Table.lookup_mapValues, Option.map_eq_some_iff] at hroute
      obtain ⟨old, hold, rfl⟩ := hroute
      exact hN.cards id old hold
    · change (e.routes.mapValues _).lookup id = some route at hroute
      rw [Table.lookup_mapValues, Option.map_eq_some_iff] at hroute
      obtain ⟨old, -, rfl⟩ := hroute
      cases hsession
    · cases hlock.symm.trans hd
  | wipes _ hlock =>
    refine ⟨fun id route hroute => ?_, fun id route session hroute _ => ?_, fun d hd => ?_⟩
    · cases hroute
    · cases hroute
    · cases hlock.symm.trans hd
  | _ => exact hN

theorem loaded_idle {routes : List Route}
    {loaded : Table String RouteState × Table NodeId (Block 32)}
    (h : routes.foldlM (loadRoute P) (∅, ∅) = .ok loaded) {id : String} {route : RouteState}
    (hroute : loaded.1.lookup id = some route) :
    route.card.nodeId = route.node ∧ route.session = none := by
  induction routes using List.reverseRecOn generalizing loaded with
  | nil =>
    obtain rfl := Except.ok.inj h
    cases hroute
  | append_singleton routes last ih =>
    rw [List.foldlM_append, bind_eq_ok] at h
    obtain ⟨before, hbefore, hlast⟩ := h
    rw [List.foldlM_cons, bind_eq_ok] at hlast
    obtain ⟨after, hload, hafter⟩ := hlast
    obtain rfl := Except.ok.inj hafter
    simp only [loadRoute, bind_eq_ok, deny_eq_ok, exists_const, Prod.exists] at hload
    obtain ⟨node, card, hverify, -, held, -, hloaded⟩ := hload
    obtain rfl := Except.ok.inj hloaded
    rw [Table.lookup_insert_ite] at hroute
    split_ifs at hroute
    · rw [← Option.some.inj hroute]
      exact ⟨(verifyRoute_spec hverify).2, rfl⟩
    · exact ih hbefore hroute

section Run
variable {udp : Bool} {config : EngineConfig} {now unixNow : ℕ} {start : Engine}

variable (hostOf) in
theorem accounted_start (hstart : Engine.start P udp config now unixNow = .ok start)
    (es : List EndpointEvent) :
    start.endpoint.socket.inner = {} ∧ Endpoint.Accounted P hostOf start.endpoint es := by
  obtain ⟨seed, routes, paired, -, -, rfl⟩ := start_eq_ok hstart
  exact ⟨rfl, Endpoint.accounted_run rfl (Endpoint.not_relayTaken_open _ _ _ _) rfl rfl rfl es⟩

theorem numberOf_snoc {es : List EngineEvent} {session : ℕ} {node : NodeId}
    (h : numberOf P hostOf start es session node) (event : EngineEvent) :
    numberOf P hostOf start (es ++ [event]) session node := by
  unfold numberOf at h ⊢
  rw [Engine.trace, Runs.trace_snoc, Endpoint.trace, Runs.trace_append, begun_append,
    List.getElem?_append_left (List.getElem?_eq_some_iff.mp h).1]
  exact h

variable (hostOf) in
theorem numbered_run (hstart : Engine.start P udp config now unixNow = .ok start)
    (es : List EngineEvent) :
    Numbered (numberOf P hostOf start es) (run (step P hostOf) start es).lock
      (run (step P hostOf) start es).routes := by
  induction es using List.reverseRecOn with
  | nil =>
    obtain ⟨seed, routes, paired, -, hfold, rfl⟩ := start_eq_ok hstart
    refine ⟨fun id route hroute => (loaded_idle hfold hroute).1, ?_, fun d hd => by cases hd⟩
    intro id route session hroute hsession
    cases (loaded_idle hfold hroute).2.symm.trans hsession
  | append_singleton es event ih =>
    rw [run_snoc]
    have hkept : Numbered (numberOf P hostOf start (es ++ [event]))
        (run (step P hostOf) start es).lock (run (step P hostOf) start es).routes := by
      refine ⟨ih.cards, fun id route session hroute hsession => ?_, fun d hd => ?_⟩
      · exact numberOf_snoc (ih.cached id route session hroute hsession) event
      · obtain ⟨route, hroute, hnumber⟩ := ih.dialling d hd
        exact ⟨route, hroute, numberOf_snoc hnumber event⟩
    refine (moves_turn _ event).numbered hkept fun node relays hevents houtcome => ?_
    obtain ⟨hinner, haccounted⟩ := accounted_start hostOf hstart (start.trace P hostOf es)
    have hbegin := Endpoint.connect_begins houtcome
    rw [endpoint_run] at hbegin ⊢
    unfold numberOf
    rw [Engine.trace, Runs.trace_snoc, Engine.events, hevents]
    exact haccounted.begins hinner _ node hbegin

theorem cached_peer (hstart : Engine.start P udp config now unixNow = .ok start)
    (es : List EngineEvent) {id : String} {route : RouteState} {session : ℕ} {s : Session}
    (hroute : (run (step P hostOf) start es).routes.lookup id = some route)
    (hsession : route.session = some session)
    (hs : (run (step P hostOf) start es).endpoint.sessions.lookup session = some s) :
    s.peer = route.node := by
  have hnumber := (numbered_run hostOf hstart es).cached id route session hroute hsession
  obtain ⟨-, haccounted⟩ := accounted_start hostOf hstart (start.trace P hostOf es)
  rw [endpoint_run] at hs
  obtain ⟨-, hpeer⟩ := haccounted.owned.sessions session s hs
  exact Option.some.inj (hpeer.symm.trans hnumber)

end Run

end Numbers

section Dialling

theorem Moves.dialsNode {event : EngineEvent} {t : EngineTurn} (h : Moves P hostOf e event t)
    {node : NodeId} (hnode : node ∈ t.events.filterMap EndpointEvent.connectsTo) :
    ∃ call routeId route, event = .stream call routeId ∧ e.Admits call routeId route ∧
      e.cached route call = none ∧ e.stop = false ∧ node = route.card.nodeId := by
  have hnone {events : List EndpointEvent} {p : Prop} (hquiet : ∀ ev ∈ events, ev.connectsTo = none)
      (hmem : node ∈ events.filterMap EndpointEvent.connectsTo) : p := by
    rw [List.filterMap_eq_nil_iff.mpr hquiet] at hmem
    cases hmem
  cases h with
  | dials hadmits hcached hstop =>
    exact ⟨_, _, _, rfl, hadmits, hcached, hstop, List.mem_singleton.mp hnode⟩
  | dialRefused hadmits hcached hstop =>
    exact ⟨_, _, _, rfl, hadmits, hcached, hstop, List.mem_singleton.mp hnode⟩
  | passes hbeside =>
    exact hnone (List.forall_mem_singleton.mpr (EndpointEvent.connectsTo_of_beside hbeside)) hnode
  | connects hbeside =>
    exact hnone (List.forall_mem_singleton.mpr (EndpointEvent.connectsTo_of_beside hbeside)) hnode
  | failsDial hbeside =>
    exact hnone (List.forall_mem_singleton.mpr (EndpointEvent.connectsTo_of_beside hbeside)) hnode
  | enrols _ hevents =>
    exact hnone (fun ev hev => EndpointEvent.connectsTo_of_enrolment (hevents ev hev)) hnode
  | installs _ _ _ _ _ _ hafter =>
    refine hnone (List.forall_mem_append.mpr ⟨?_, List.forall_mem_cons.mpr ⟨rfl, ?_⟩⟩) hnode
    · exact List.forall_mem_map.mpr fun _ _ => rfl
    · exact fun ev hev => EndpointEvent.connectsTo_of_enrolment (hafter ev hev)
  | removes => exact hnone (List.forall_mem_singleton.mpr rfl) hnode
  | closes => exact hnone (List.forall_mem_singleton.mpr rfl) hnode
  | reannounces => exact hnone (List.forall_mem_map.mpr fun _ _ => rfl) hnode
  | closesEndpoint =>
    refine hnone (List.forall_mem_append.mpr ⟨?_, List.forall_mem_singleton.mpr rfl⟩) hnode
    exact List.forall_mem_map.mpr fun _ _ => rfl
  | wipes => exact hnone (List.forall_mem_map.mpr fun _ _ => rfl) hnode
  | _ => cases hnode

theorem connects_of_admits {call : StreamCall} {routeId : String} {route : RouteState}
    (h : e.Admits call routeId route) (hcached : e.cached route call = none)
    (hstop : e.stop = false) :
    (e.events P hostOf (.stream call routeId)).filterMap EndpointEvent.connectsTo =
      [route.card.nodeId] := by
  rw [events, turn_of_admits h, hcached, Option.elim_none]
  dsimp only [dial]
  rw [if_neg (by rw [hstop]; exact Bool.false_ne_true)]
  split <;> rfl

theorem not_live_of_cached_none {call : StreamCall} {route : RouteState} {session : ℕ}
    (hcached : e.cached route call = none) (hsession : route.session = some session) :
    e.endpoint.live session = false := by
  cases hdeletes : call.deletes with
  | true =>
    rw [cached_of_deletes hdeletes] at hcached
    cases hcached.symm.trans hsession
  | false =>
    rw [cached_of_keeps hdeletes, hsession] at hcached
    simpa using hcached

theorem cachesLive_iff {node : NodeId} :
    e.cachesLive node = true ↔ ∃ id route session s, e.routes.lookup id = some route ∧
      route.session = some session ∧ e.endpoint.sessions.lookup session = some s ∧
      s.peer = node ∧ s.isLive = true := by
  simp only [cachesLive, List.any_eq_true, Option.any_eq_true, Bool.and_eq_true, decide_eq_true_eq]
  constructor
  · rintro ⟨⟨id, route⟩, hentry, session, hsession, s, hs, hpeer, hlive⟩
    exact ⟨id, route, session, s, AList.mem_lookup_iff.mpr hentry, hsession, hs, hpeer, hlive⟩
  · rintro ⟨id, route, session, s, hroute, hsession, hs, hpeer, hlive⟩
    exact ⟨⟨id, route⟩, AList.mem_lookup_iff.mp hroute, session, hsession, s, hs, hpeer, hlive⟩

theorem twinLive_iff {routeId : String} {node : NodeId} :
    e.twinLive routeId node = true ↔ ∃ id route session s, id ≠ routeId ∧
      e.routes.lookup id = some route ∧ route.node = node ∧ route.session = some session ∧
      e.endpoint.sessions.lookup session = some s ∧ s.isLive = true := by
  simp only [twinLive, List.any_eq_true, Bool.and_eq_true, decide_eq_true_eq, Option.any_eq_true,
    Endpoint.live]
  constructor
  · rintro ⟨⟨id, route⟩, hentry, ⟨hid, hnode⟩, session, hsession, s, hs, hlive⟩
    exact ⟨id, route, session, s, hid, AList.mem_lookup_iff.mpr hentry, hnode, hsession, hs, hlive⟩
  · rintro ⟨id, route, session, s, hid, hroute, hnode, hsession, hs, hlive⟩
    exact ⟨⟨id, route⟩, AList.mem_lookup_iff.mp hroute, ⟨hid, hnode⟩, session,
      hsession, s, hs, hlive⟩

variable {udp : Bool} {config : EngineConfig} {now unixNow : ℕ} {start : Engine}

theorem cachesLive_iff_twin (hstart : Engine.start P udp config now unixNow = .ok start)
    (es : List EngineEvent) {call : StreamCall} {routeId : String} {route : RouteState}
    (hroute : (run (step P hostOf) start es).routes.lookup routeId = some route)
    (hcached : (run (step P hostOf) start es).cached route call = none) :
    (run (step P hostOf) start es).cachesLive route.node = true ↔
      (run (step P hostOf) start es).twinLive routeId route.node = true := by
  rw [cachesLive_iff, twinLive_iff]
  constructor
  · rintro ⟨id, other, session, s, hother, hsession, hs, hpeer, hlive⟩
    have hnode := cached_peer hstart es hother hsession hs
    refine ⟨id, other, session, s, ?_, hother, hnode.symm.trans hpeer, hsession, hs, hlive⟩
    rintro rfl
    obtain rfl := Option.some.inj (hroute.symm.trans hother)
    have hdead := not_live_of_cached_none hcached hsession
    rw [Endpoint.live, hs, Option.any_some, hlive] at hdead
    cases hdead
  · rintro ⟨id, other, session, s, -, hother, hnode, hsession, hs, hlive⟩
    have hpeer := cached_peer hstart es hother hsession hs
    exact ⟨id, other, session, s, hother, hsession, hs, hpeer.trans hnode, hlive⟩

theorem sparesLive_iff (hstart : Engine.start P udp config now unixNow = .ok start)
    (es : List EngineEvent) (event : EngineEvent) :
    (run (step P hostOf) start es).SparesLive P hostOf event ↔
      (run (step P hostOf) start es).FindsNoTwin event := by
  have hcards := (numbered_run hostOf hstart es).cards
  constructor
  · intro hspares
    cases event with
    | stream call routeId =>
      intro hlock hrunning hstop route hroute hcheck hcached
      have hadmits : (run (step P hostOf) start es).Admits call routeId route := by
        refine ⟨Option.isNone_iff_eq_none.mp hlock, hrunning, hroute, ?_⟩
        cases hchecked : call.check route.node with
        | ok => rfl
        | error error =>
          rw [hchecked] at hcheck
          cases hcheck
      have hdead := hspares route.card.nodeId
        (by rw [connects_of_admits hadmits hcached hstop]; exact List.mem_singleton_self _)
      rw [hcards routeId route hroute] at hdead
      rw [← Bool.not_eq_true, cachesLive_iff_twin hstart es hroute hcached] at hdead
      exact Bool.not_eq_true _ ▸ hdead
    | _ => trivial
  · intro hfinds node hnode
    obtain ⟨call, routeId, route, rfl, hadmits, hcached, hstop, rfl⟩ :=
      (moves_turn _ event).dialsNode hnode
    have htwin := hfinds (by rw [hadmits.lock]; rfl) hadmits.running hstop route hadmits.installed
      (by rw [hadmits.check]; rfl) hcached
    rw [hcards routeId route hadmits.installed, ← Bool.not_eq_true,
      cachesLive_iff_twin hstart es hadmits.installed hcached, htwin]
    exact Bool.false_ne_true

end Dialling

section OneRoute

def Apart (e : Engine) : Prop := ∀ id id' node, e.Names id node → e.Names id' node → id = id'

theorem Apart.findsNoTwin (h : e.Apart) (event : EngineEvent) : e.FindsNoTwin event := by
  cases event with
  | stream call routeId =>
    intro _ _ _ route hroute _ _
    rw [← Bool.not_eq_true, twinLive_iff]
    rintro ⟨id, other, session, s, hid, hother, hnode, -⟩
    refine hid (h id routeId route.node ?_ ?_)
    · rw [Names, hother, Option.map_some, hnode]
    · rw [Names, hroute, Option.map_some]
  | _ => trivial

theorem names_iff_row {id : String} {node : NodeId} :
    e.Names id node ↔ (e.row id).map Prod.fst = some node := by
  rw [Names, row, Option.map_map]
  rfl

theorem Moves.names {event : EngineEvent} {t : EngineTurn} (h : Moves P hostOf e event t)
    (hreply : ∀ route, t.reply ≠ some (.installed route)) {id : String} {node : NodeId}
    (hnames : t.next.Names id node) : e.Names id node := by
  by_cases hsame : Reply.changesRoutes t.reply = false
  · rw [names_iff_row, h.row_eq hsame] at hnames
    exact names_iff_row.mpr hnames
  cases h with
  | installs => exact absurd rfl (hreply _)
  | removes =>
    change ((e.routes.erase _).lookup id).map RouteState.node = some node at hnames
    rw [Table.lookup_erase_ite] at hnames
    split_ifs at hnames
    · cases hnames
    · exact hnames
  | wipes => cases hnames
  | rests hrefusal => exact absurd (Reply.unchanged_of_refusal hrefusal) hsame
  | givesUp _ hrefusal => exact absurd (Reply.unchanged_of_refusal hrefusal) hsame
  | enrols _ _ hrefusal => exact absurd (Reply.unchanged_of_refusal hrefusal) hsame
  | _ => exact absurd rfl hsame

variable {udp : Bool} {config : EngineConfig} {now unixNow : ℕ} {start : Engine}

theorem apart_start (hstart : Engine.start P udp config now unixNow = .ok start)
    (hnodes : ((config.routes.filterMap Route.row).map fun row => row.2.1).Nodup) :
    start.Apart := by
  obtain ⟨hmirrors, hids⟩ := mirrors_start hstart
  intro id id' node hid hid'
  obtain ⟨held, hrow⟩ := (hmirrors.names id node).mpr hid
  obtain ⟨held', hrow'⟩ := (hmirrors.names id' node).mpr hid'
  rw [records_load hids] at hrow hrow'
  exact congrArg Prod.fst (List.inj_on_of_nodup_map hnodes hrow hrow' rfl)

end OneRoute

/-- Along a run the calls dial no node they have a live session to exactly if no call that has to
dial finds one under another route of the same node. That never happens where the configured
routes name no node twice and no route is installed later. -/
theorem dials_spare_live_sessions_iff (P : Primitives)
    (hostOf : String → Option String) (udp : Bool) (config : EngineConfig) (now unixNow : ℕ)
    {start : Engine} (hstart : Engine.start P udp config now unixNow = .ok start)
    (es : List EngineEvent) :
    (Always (step P hostOf) (SparesLive P hostOf) start es ↔
      Always (step P hostOf) FindsNoTwin start es) ∧
    (((config.routes.filterMap Route.row).map fun row => row.2.1).Nodup →
      Always (step P hostOf)
        (fun e event => ∀ route, (e.turn P hostOf event).reply ≠ some (.installed route)) start es →
      Always (step P hostOf) (SparesLive P hostOf) start es) := by
  have hiff : Always (step P hostOf) (SparesLive P hostOf) start es ↔
      Always (step P hostOf) FindsNoTwin start es := by
    constructor
    · intro hspares before event after hes
      exact (sparesLive_iff hstart before event).mp (hspares before event after hes)
    · intro hfinds before event after hes
      exact (sparesLive_iff hstart before event).mpr (hfinds before event after hes)
  refine ⟨hiff, fun hnodes hinstalls => hiff.mpr fun before event after hes => ?_⟩
  refine Apart.findsNoTwin ?_ event
  rw [hes] at hinstalls
  refine invariant_of_always (step P hostOf) (I := Apart) (apart_start hstart hnodes) ?_
    (Always.initial _ hinstalls)
  intro e event hapart hreply id id' node hid hid'
  exact hapart id id' node ((moves_turn e event).names hreply hid)
    ((moves_turn e event).names hreply hid')

def dialRoute (routeId : String) : List EngineEvent :=
  [.endpoint (.environment (.driver 0 .connected)), .stream .requestJson routeId,
    .endpoint (.rendezvous 0 0 .started),
    .endpoint (.dialled 0 (.done (some ⟨List.Vector.replicate 32 1⟩) none none 0))]

theorem one_route_spares_its_session :
    ∃ e, Engine.start Primitives.standIn false oneRoute 0 0 = .ok e ∧
      Always (step Primitives.standIn some) (SparesLive Primitives.standIn some) e
        (dialRoute "a" ++ [.stream .requestJson "a", .stream .retireRoute "a"]) := by
  obtain ⟨e, hstart, hfinds⟩ : ∃ e, Engine.start Primitives.standIn false oneRoute 0 0 = .ok e ∧
      Always (step Primitives.standIn some) FindsNoTwin e
        (dialRoute "a" ++ [.stream .requestJson "a", .stream .retireRoute "a"]) :=
    exists_ok_of_any (by decide +kernel)
  exact ⟨e, hstart,
    (dials_spare_live_sessions_iff Primitives.standIn some false oneRoute 0 0 hstart _).1.mpr
      hfinds⟩

def twoRoutes : EngineConfig :=
  ⟨List.replicate 32 9, ["wss://relay"], false, [storedRoute "a" 1 5 7, storedRoute "b" 1 5 7]⟩

/-- Two configured routes name one node. A request on the second dials while the session of the
first is live, which is told that it was superseded and fails. -/
theorem twin_route_supersedes_live_session :
    ∃ e, Engine.start Primitives.standIn false twoRoutes 0 0 = .ok e ∧
      let e' := run (step Primitives.standIn some) e (dialRoute "a")
      let node : NodeId := ⟨List.Vector.replicate 32 1⟩
      e'.cachesLive node = true ∧
      (e'.events Primitives.standIn some (.stream .requestJson "b")).filterMap
        EndpointEvent.connectsTo = [node] ∧
      ((run (step Primitives.standIn some) e' [.stream .requestJson "b",
        .endpoint (.drive 0 .superseded (List.Vector.replicate 16 0)
          fun _ => (List.Vector.replicate 16 0, true))]).endpoint.sessions.lookup 0).map
        (fun s => s.report.status) = some (.failed .superseded) :=
  exists_ok_of_any (by decide +kernel)

end Engine

end ForgeswornLink
