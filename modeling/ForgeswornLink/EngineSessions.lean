import ForgeswornLink.EngineRoutes
import ForgeswornLink.SessionEffects

/-!
# The session a call opens its stream on

Four calls take the session of a route: the one it caches, or one they dial while
they keep the lock. Three places in the source make that choice. Two of them pass
over a cached session that has ended or failed; the third, behind `retire_route` and
`finalize_route`, takes whatever is cached.
-/

namespace ForgeswornLink
open Runs OrderedChecks

def StreamCall.deletes : StreamCall → Bool
  | .retireRoute | .finalizeRoute => true
  | _ => false

theorem StreamCall.check_of_deletes {call : StreamCall} (h : call.deletes = true) (node : NodeId) :
    call.check node = .ok () := by
  cases call with
  | openSocket url => cases h
  | requestJson => cases h
  | retireRoute => rfl
  | finalizeRoute => rfl

theorem Endpoint.live_iff {e : Endpoint} {session : ℕ} :
    e.live session = true ↔ ∃ s, e.sessions.lookup session = some s ∧ s.closed = none ∧
      s.report.status.isFailed = false := by
  rw [Endpoint.live, Option.any_eq_true]
  simp only [Session.isLive, Bool.and_eq_true, Option.isNone_iff_eq_none, Bool.not_eq_true']

namespace Endpoint
variable {P : Primitives} {hostOf : String → Option String} {e : Endpoint} {event : EndpointEvent}

theorem Moves.connected {t : Turn} {session : ℕ} (h : Moves P hostOf e event t)
    (houtcome : t.outcome = some (.connected session)) :
    ∃ n handshake, event = .dialled n handshake := by
  cases h with
  | startsDial => exact ⟨_, _, rfl⟩
  | rests _ hfailed =>
    obtain ⟨reason, hreason⟩ := hfailed _ houtcome
    cases hreason
  | dropsArrival _ _ hfailed =>
    obtain ⟨reason, hreason⟩ := hfailed _ houtcome
    cases hreason
  | _ => cases houtcome

theorem live_setSession {e : Endpoint} {session : ℕ} {s : Session} (hclosed : s.closed = none)
    (hstatus : s.report.status = .relayed) : (e.setSession session s).live session = true := by
  refine live_iff.mpr ⟨s, AList.lookup_insert _, hclosed, ?_⟩
  rw [hstatus]
  rfl

theorem connected_dial {n session : ℕ} (hdial : event.dial = some n)
    (houtcome : (e.turn P hostOf event).outcome = some (.connected session)) :
    session = n ∧ (e.step P hostOf event).live n = true := by
  obtain ⟨n', handshake, rfl⟩ := (moves_turn e event).connected houtcome
  obtain rfl : n' = n := Option.some.inj hdial
  change (e.dialled P hostOf n' handshake).outcome = some (.connected session) at houtcome
  change _ ∧ (e.dialled P hostOf n' handshake).next.live n' = true
  unfold dialled at houtcome ⊢
  cases hlookup : e.dials.lookup n' with
  | none =>
    rw [hlookup] at houtcome
    cases houtcome
  | some dial =>
    rw [hlookup] at houtcome
    dsimp only at houtcome ⊢
    cases hconn : dial.conn with
    | none =>
      rw [hconn] at houtcome
      cases houtcome
    | some conn =>
      rw [hconn] at houtcome
      cases handshake with
      | failed error => cases houtcome
      | done presented keys secret generation =>
        dsimp only at houtcome ⊢
        split_ifs at houtcome ⊢ with hpairing
        · cases hpromote : e.promote dial.route secret generation with
          | mk calls failure =>
            rw [hpromote] at houtcome
            cases failure with
            | some reason => cases houtcome
            | none => cases houtcome
        · obtain ⟨-, -, -, -, hclosed, hstatus, -⟩ := Session.start_spec
            (PathSocket.after P hostOf (e.dropDial n').socket []) dial.peer n' conn e.allowDirect
            e.probeDelay keys
          exact ⟨(Outcome.connected.inj (Option.some.inj houtcome)).symm,
            live_setSession hclosed hstatus⟩

end Endpoint

namespace Engine
variable (P : Primitives) (hostOf : String → Option String)

def Caches (e : Engine) (routeId : String) (session : ℕ) : Prop :=
  (e.routes.lookup routeId).bind RouteState.session = some session

structure BeginsDial (e : Engine) (event : EngineEvent) (d : Dialling) : Prop where
  call : event = .stream d.call d.routeId
  free : e.lock = none
  connects : ∃ route, e.routes.lookup d.routeId = some route ∧ e.cached route d.call = none ∧
    e.events P hostOf event = [.connect route.card.nodeId route.card.relayUrls]
  number : d.session = e.endpoint.socket.inner.nextSession
  keeps : (e.step P hostOf event).lock = some d

def Dials (start : Engine) (before : List EngineEvent) (d : Dialling) : Prop :=
  Since (fun pre event => BeginsDial P hostOf (run (step P hostOf) start pre) event d)
    (fun pre event => (run (step P hostOf) start (pre ++ [event])).lock = some d) before

def Redials (e : Engine) (call : StreamCall) (routeId : String) (route : RouteState) : Prop :=
  let t := e.turn P hostOf (.stream call routeId)
  (e.stop = true ∧ t.reply = some (.refused .stopped)) ∨
  (t.events = [.connect route.card.nodeId route.card.relayUrls] ∧
    (t.next.lock = some ⟨call, routeId, e.endpoint.socket.inner.nextSession⟩ ∨
      ∃ reason : FailReason, t.reply = some (.refused (.transport reason.text))))

/-- What the four calls should do, at one event after a history. A session that is handed over was
dialled by the call, is live and now cached; or the call found it in the cache, live. A cached
session that is not live is dialled anew. -/
structure UsesLive (start : Engine) (before : List EngineEvent) (event : EngineEvent) : Prop where
  stream : let e := run (step P hostOf) start before
    ∀ call routeId session, (e.turn P hostOf event).reply = some (.stream call routeId session) →
      (start.Dials P hostOf before ⟨call, routeId, session⟩ ∧
        (e.step P hostOf event).Caches routeId session ∧
        (e.step P hostOf event).endpoint.live session = true) ∨
      (event = .stream call routeId ∧ e.Caches routeId session ∧ e.endpoint.live session = true)
  redial : let e := run (step P hostOf) start before
    ∀ call routeId route session, event = .stream call routeId → e.Admits call routeId route →
      route.session = some session → e.endpoint.live session = false →
      e.Redials P hostOf call routeId route

/-- A call that deletes a route finds no ended or failed session in the cache. -/
def FindsLive (e : Engine) : EngineEvent → Prop
  | .stream call routeId =>
    call.deletes = true → e.lock.isNone = true → e.stopped = false →
      ∀ route ∈ e.routes.lookup routeId, ∀ session ∈ route.session, e.endpoint.live session = true
  | _ => True

instance decidableFindsLive (e : Engine) (event : EngineEvent) : Decidable (e.FindsLive event) := by
  unfold FindsLive
  split <;> infer_instance

variable {P hostOf} {e : Engine}

section Lock

theorem Moves.takesLock {event : EngineEvent} {t : EngineTurn} {d : Dialling}
    (h : Moves P hostOf e event t) (hlock : t.next.lock = some d) (hnew : e.lock ≠ some d) :
    event = .stream d.call d.routeId ∧ d.session = e.endpoint.socket.inner.nextSession ∧
      t.next.routes = e.routes ∧ ∃ route, e.Admits d.call d.routeId route ∧
        e.cached route d.call = none ∧
        t.events = [.connect route.card.nodeId route.card.relayUrls] := by
  cases h with
  | dials hadmits hcached =>
    obtain rfl := Option.some.inj hlock
    exact ⟨rfl, rfl, rfl, _, hadmits, hcached, rfl⟩
  | givesUp => cases hlock
  | connects => cases hlock
  | failsDial => cases hlock
  | _ => exact absurd hlock hnew

theorem Moves.routes_of_kept {event : EngineEvent} {t : EngineTurn} {d : Dialling}
    (h : Moves P hostOf e event t) (hbefore : e.lock = some d) (hlock : t.next.lock = some d) :
    t.next.routes = e.routes := by
  cases h with
  | connects => cases hlock
  | installs hfree => cases hfree.symm.trans hbefore
  | removes hfree => cases hfree.symm.trans hbefore
  | stops _ hfree => cases hfree.symm.trans hbefore
  | wipes _ hfree => cases hfree.symm.trans hbefore
  | _ => rfl

theorem lock_step_iff (e : Engine) (event : EngineEvent) (d : Dialling) :
    (e.step P hostOf event).lock = some d ↔ BeginsDial P hostOf e event d ∨
      e.lock = some d ∧ (e.step P hostOf event).lock = some d := by
  constructor
  · intro hlock
    by_cases hkept : e.lock = some d
    · exact Or.inr ⟨hkept, hlock⟩
    · obtain ⟨hcall, hnumber, -, route, hadmits, hcached, hevents⟩ :=
        (moves_turn e event).takesLock hlock hkept
      exact Or.inl
        ⟨hcall, hadmits.lock, ⟨route, hadmits.installed, hcached, hevents⟩, hnumber, hlock⟩
  · rintro (hbegins | ⟨-, hlock⟩)
    · exact hbegins.keeps
    · exact hlock

theorem lock_iff_dials {start : Engine} (hfree : start.lock = none) (before : List EngineEvent)
    (d : Dialling) :
    (run (step P hostOf) start before).lock = some d ↔ start.Dials P hostOf before d := by
  unfold Dials
  simp only [run_snoc]
  exact holds_iff_since (p := fun e => e.lock = some d) (by rw [hfree]; nofun)
    (fun e event => lock_step_iff e event d) before

theorem route_kept {start : Engine} (hfree : start.lock = none) (es : List EngineEvent)
    {d : Dialling} (hlock : (run (step P hostOf) start es).lock = some d) :
    ∃ route, (run (step P hostOf) start es).routes.lookup d.routeId = some route := by
  refine invariant (step P hostOf)
    (I := fun e => ∀ d, e.lock = some d → ∃ route, e.routes.lookup d.routeId = some route)
    ?_ ?_ es d hlock
  · intro d hlock
    cases hfree.symm.trans hlock
  intro e event hkept d hlock
  change ∃ route, (e.turn P hostOf event).next.routes.lookup d.routeId = some route
  by_cases hbefore : e.lock = some d
  · rw [(moves_turn e event).routes_of_kept hbefore hlock]
    exact hkept d hbefore
  · obtain ⟨-, -, hsame, route, hadmits, -⟩ := (moves_turn e event).takesLock hlock hbefore
    rw [hsame]
    exact ⟨route, hadmits.installed⟩

end Lock

section Choice

theorem caches_iff {routeId : String} {session : ℕ} :
    e.Caches routeId session ↔
      ∃ route, e.routes.lookup routeId = some route ∧ route.session = some session :=
  Option.bind_eq_some_iff

theorem lookup_cache {routeId : String} {route : RouteState}
    (h : e.routes.lookup routeId = some route) (session : ℕ) :
    (e.cache routeId session).lookup routeId = some { route with session := some session } := by
  rw [cache, h, Option.elim_some, AList.lookup_insert]

theorem cached_of_keeps {call : StreamCall} (h : call.deletes = false) (route : RouteState) :
    e.cached route call = route.session.filter e.endpoint.live := by
  cases call with
  | retireRoute => cases h
  | finalizeRoute => cases h
  | _ => rfl

theorem cached_of_deletes {call : StreamCall} (h : call.deletes = true) (route : RouteState) :
    e.cached route call = route.session := by
  cases call with
  | openSocket url => cases h
  | requestJson => cases h
  | _ => rfl

theorem live_of_cached {call : StreamCall} {routeId : String} {route : RouteState} {session : ℕ}
    (hadmits : e.Admits call routeId route) (hfinds : e.FindsLive (.stream call routeId))
    (hcached : e.cached route call = some session) :
    route.session = some session ∧ e.endpoint.live session = true := by
  cases hdeletes : call.deletes with
  | false =>
    rw [cached_of_keeps hdeletes, Option.filter_eq_some_iff] at hcached
    exact hcached
  | true =>
    rw [cached_of_deletes hdeletes] at hcached
    have hfree : e.lock.isNone = true := by rw [hadmits.lock]; rfl
    exact ⟨hcached, hfinds hdeletes hfree hadmits.running route hadmits.installed session hcached⟩

theorem turn_of_admits {call : StreamCall} {routeId : String} {route : RouteState}
    (h : e.Admits call routeId route) :
    e.turn P hostOf (.stream call routeId) =
      (e.cached route call).elim (e.dial P hostOf call routeId route.card)
        fun session => ⟨e, [], some (.stream call routeId session)⟩ := by
  change e.streamCall P hostOf call routeId = _
  simp only [streamCall, h.lock, h.running, h.installed, h.check, Option.isSome_none,
    Bool.false_eq_true, if_false]
  cases e.cached route call <;> rfl

theorem redials_of_cached_none {call : StreamCall} {routeId : String} {route : RouteState}
    (h : e.Admits call routeId route) (hcached : e.cached route call = none) :
    e.Redials P hostOf call routeId route := by
  unfold Redials
  rw [turn_of_admits h, hcached, Option.elim_none]
  dsimp only [dial]
  split_ifs with hstop
  · exact Or.inl ⟨hstop, rfl⟩
  · split
    · exact Or.inr ⟨rfl, Or.inr ⟨_, rfl⟩⟩
    · exact Or.inr ⟨rfl, Or.inl rfl⟩

end Choice

theorem Moves.stream {event : EngineEvent} {t : EngineTurn} {call : StreamCall} {routeId : String}
    {session : ℕ} (h : Moves P hostOf e event t)
    (hreply : t.reply = some (.stream call routeId session)) :
    (e.lock = some ⟨call, routeId, session⟩ ∧ t.next.routes = e.cache routeId session ∧
      (run (Endpoint.step P hostOf) e.endpoint t.events).live session = true) ∨
    (event = .stream call routeId ∧ ∃ route, e.Admits call routeId route ∧
      e.cached route call = some session) := by
  have hrefusal : Reply.isRefusal (some (.stream call routeId session)) ≠ true := by
    simp [Reply.isRefusal]
  cases h with
  | rests hrefused => exact absurd (hreply ▸ hrefused) hrefusal
  | givesUp _ hrefused => exact absurd (hreply ▸ hrefused) hrefusal
  | enrols _ _ hrefused => exact absurd (hreply ▸ hrefused) hrefusal
  | reuses hadmits hcached =>
    cases hreply
    exact Or.inr ⟨rfl, _, hadmits, hcached⟩
  | connects hbeside hlock hdial hstop houtcome =>
    cases hreply
    obtain ⟨rfl, hlive⟩ := Endpoint.connected_dial hdial houtcome
    exact Or.inl ⟨hlock, rfl, hlive⟩
  | _ => cases hreply

theorem usesLive_iff {start : Engine} (hfree : start.lock = none) (before : List EngineEvent)
    (event : EngineEvent) :
    start.UsesLive P hostOf before event ↔ (run (step P hostOf) start before).FindsLive event := by
  constructor
  · intro huses
    cases event with
    | stream call routeId =>
      intro hdeletes hlock hrunning route hroute session hsession
      rw [Option.isNone_iff_eq_none] at hlock
      have hadmits : (run (step P hostOf) start before).Admits call routeId route :=
        ⟨hlock, hrunning, hroute, StreamCall.check_of_deletes hdeletes _⟩
      have hreply :
          ((run (step P hostOf) start before).turn P hostOf (.stream call routeId)).reply =
          some (.stream call routeId session) := by
        rw [turn_of_admits hadmits, cached_of_deletes hdeletes, hsession]
        rfl
      rcases huses.stream call routeId session hreply with ⟨hdials, -⟩ | ⟨-, -, hlive⟩
      · cases hlock.symm.trans ((lock_iff_dials hfree before _).mpr hdials)
      · exact hlive
    | _ => trivial
  · intro hfinds
    refine ⟨?_, ?_⟩
    · intro e call routeId session hreply
      rcases (moves_turn e event).stream hreply with
        ⟨hlock, hroutes, hlive⟩ | ⟨rfl, route, hadmits, hcached⟩
      · obtain ⟨route, hroute⟩ := route_kept hfree before hlock
        have hcaches : (e.step P hostOf event).Caches routeId session := by
          change ((e.turn P hostOf event).next.routes.lookup routeId).bind RouteState.session = _
          rw [hroutes, lookup_cache hroute, Option.bind_some]
        exact Or.inl ⟨(lock_iff_dials hfree before _).mp hlock, hcaches, hlive⟩
      · obtain ⟨hsession, hlive⟩ := live_of_cached hadmits hfinds hcached
        exact Or.inr ⟨rfl, caches_iff.mpr ⟨route, hadmits.installed, hsession⟩, hlive⟩
    · rintro e call routeId route session rfl hadmits hsession hdead
      refine redials_of_cached_none hadmits ?_
      by_contra hsome
      obtain ⟨other, hother⟩ := Option.ne_none_iff_exists'.mp hsome
      obtain ⟨hsession', hlive⟩ := live_of_cached hadmits hfinds hother
      obtain rfl := Option.some.inj (hsession.symm.trans hsession')
      cases hdead.symm.trans hlive

/-- In every history of an engine the calls that open a stream use live sessions exactly if no
call that deletes a route at the server finds a cached session that has ended or failed. -/
theorem calls_use_live_sessions_iff (P : Primitives) (hostOf : String → Option String) (udp : Bool)
    (config : EngineConfig) (now unixNow : ℕ) {e : Engine}
    (hstart : start P udp config now unixNow = .ok e) (es : List EngineEvent) :
    (∀ before event after, es = before ++ event :: after → e.UsesLive P hostOf before event) ↔
    Always (step P hostOf) FindsLive e es := by
  have hfree : e.lock = none := by
    obtain ⟨seed, routes, paired, -, -, rfl⟩ := start_eq_ok hstart
    rfl
  have hpoint (before : List EngineEvent) (event : EngineEvent) :
      e.UsesLive P hostOf before event ↔ (run (step P hostOf) e before).FindsLive event :=
    usesLive_iff hfree before event
  constructor
  · intro huses before event after hes
    exact (hpoint before event).mp (huses before event after hes)
  · intro hfinds before event after hes
    exact (hpoint before event).mpr (hfinds before event after hes)

def dialAndLose : List EngineEvent :=
  [.endpoint (.environment (.driver 0 .connected)), .stream .requestJson "a",
    .endpoint (.rendezvous 0 0 .started),
    .endpoint (.dialled 0 (.done (some ⟨List.Vector.replicate 32 1⟩) none none 0)),
    .endpoint (.closed 0 .applicationClosed)]

theorem request_after_loss_redials :
    ∃ e, start Primitives.standIn false oneRoute 0 0 = .ok e ∧
      (run (step Primitives.standIn some) e dialAndLose).Caches "a" 0 ∧
      (run (step Primitives.standIn some) e dialAndLose).endpoint.live 0 = false ∧
      e.UsesLive Primitives.standIn some dialAndLose (.stream .requestJson "a") := by
  obtain ⟨e, hstart, hcaches, hdead, hfinds⟩ :
      ∃ e, start Primitives.standIn false oneRoute 0 0 = .ok e ∧
      ((run (step Primitives.standIn some) e dialAndLose).routes.lookup "a").bind
        RouteState.session = some 0 ∧
      (run (step Primitives.standIn some) e dialAndLose).endpoint.live 0 = false ∧
      Always (step Primitives.standIn some) FindsLive e
        (dialAndLose ++ [.stream .requestJson "a"]) :=
    exists_ok_of_any (by decide +kernel)
  have huses :=
    (calls_use_live_sessions_iff Primitives.standIn some false oneRoute 0 0 hstart _).mpr hfinds
  exact ⟨e, hstart, hcaches, hdead, huses _ _ [] rfl⟩

/-- Retiring or finalising the route takes the ended session, and dials nothing. -/
theorem delete_after_loss_takes_dead_session :
    ∃ e, start Primitives.standIn false oneRoute 0 0 = .ok e ∧
      let e' := run (step Primitives.standIn some) e dialAndLose
      e'.endpoint.live 0 = false ∧
        (e'.turn Primitives.standIn some (.stream .retireRoute "a")).reply =
          some (.stream .retireRoute "a" 0) ∧
        (e'.turn Primitives.standIn some (.stream .finalizeRoute "a")).reply =
          some (.stream .finalizeRoute "a" 0) :=
  exists_ok_of_any (by decide +kernel)

end Engine

end ForgeswornLink
