import ForgeswornLink.RouteReplacement

/-!
# Stopping and wiping an engine

`stop` raises its signal, waits for the dial under the lock to give way and then, in one
turn at the lock, marks the engine stopped and takes every cached session out of the
table; closing them comes after. `wipe` stops first and empties the table in a second
turn. Whatever was in flight has to come back to the lock to change a route, and finds
the mark. The secrets go with the routes: the book holds one only for a node that an
installed route names, so none is left behind.
-/

namespace ForgeswornLink
open Runs ByteString OrderedChecks Filing

def EngineEvent.isCall : EngineEvent → Bool
  | .stream _ _ | .upsertRoute _ | .removeRoute _ | .pairRoute _ _ _ | .reannounce => true
  | _ => false

namespace Engine
variable (P : Primitives) (hostOf : String → Option String)

/-- `stop` has had its turn at the lock, which it has before it returns. -/
def HasStopped (start : Engine) (es : List EngineEvent) : Prop :=
  ∃ before after, es = before ++ .stopRoutes :: after ∧
    (run (step P hostOf) start before).stop = true ∧ (run (step P hostOf) start before).lock = none

def HasWiped (start : Engine) (es : List EngineEvent) : Prop :=
  ∃ before after, es = before ++ .wipe :: after ∧
    ((run (step P hostOf) start before).turn P hostOf .wipe).reply = some .wiped

structure AtRest (e : Engine) : Prop where
  stopped : e.stopped = true
  lock : e.lock = none
  sessions : ∀ routeId route, e.routes.lookup routeId = some route → route.session = none

variable {P hostOf} {e : Engine}

theorem forgetSessions_eq {routes : Table String RouteState}
    (h : ∀ routeId route, routes.lookup routeId = some route → route.session = none) :
    (routes.mapValues fun route => { route with session := none }) = routes := by
  refine AList.ext ?_
  change routes.entries.map _ = routes.entries
  conv_rhs => rw [← List.map_id routes.entries]
  refine List.map_congr_left fun entry hentry => ?_
  have hnone := h entry.1 entry.2 (AList.mem_lookup_iff.mpr hentry)
  obtain ⟨routeId, route⟩ := entry
  rcases route with ⟨node, serial, card, session⟩
  change session = none at hnone
  rw [hnone]
  rfl

theorem Moves.at_rest {event : EngineEvent} {t : EngineTurn} (h : Moves P hostOf e event t)
    (hrest : e.AtRest) :
    (t.next.stopped = true ∧ t.next.lock = none) ∧
      (t.next.routes = e.routes ∧ Reply.isRefusal t.reply = true ∨
        event = .wipe ∧ t.next.routes = ∅ ∧ t.reply = some .wiped) := by
  have hflags : e.stopped = true ∧ e.lock = none := ⟨hrest.stopped, hrest.lock⟩
  have hbusy {p : Prop} (hrunning : e.stopped = false) : p := by
    cases hrest.stopped.symm.trans hrunning
  have hheld {p : Prop} {d : Dialling} (hlock : e.lock = some d) : p := by
    cases hrest.lock.symm.trans hlock
  cases h with
  | rests hreply => exact ⟨hflags, Or.inl ⟨rfl, hreply⟩⟩
  | reuses hadmits => exact hbusy hadmits.running
  | dials hadmits => exact hbusy hadmits.running
  | dialRefused hadmits => exact hbusy hadmits.running
  | givesUp hlock => exact hheld hlock
  | passes => exact ⟨hflags, Or.inl ⟨rfl, rfl⟩⟩
  | connects _ hlock => exact hheld hlock
  | failsDial _ hlock => exact hheld hlock
  | enrols _ _ hreply => exact ⟨hflags, Or.inl ⟨rfl, hreply⟩⟩
  | installs _ hrunning => exact hbusy hrunning
  | removes _ hrunning => exact hbusy hrunning
  | closes => exact ⟨hflags, Or.inl ⟨rfl, rfl⟩⟩
  | reannounces => exact ⟨hflags, Or.inl ⟨rfl, rfl⟩⟩
  | signals => exact ⟨hflags, Or.inl ⟨rfl, rfl⟩⟩
  | stops => exact ⟨⟨rfl, hrest.lock⟩, Or.inl ⟨forgetSessions_eq hrest.sessions, rfl⟩⟩
  | closesEndpoint => exact ⟨hflags, Or.inl ⟨rfl, rfl⟩⟩
  | wipes => exact ⟨hflags, Or.inr ⟨rfl, rfl, rfl⟩⟩

theorem AtRest.step (h : e.AtRest) (event : EngineEvent) : (e.step P hostOf event).AtRest := by
  obtain ⟨⟨hstopped, hlock⟩, hroutes⟩ := (moves_turn e event).at_rest h
  refine ⟨hstopped, hlock, fun routeId route hroute => ?_⟩
  change (e.turn P hostOf event).next.routes.lookup routeId = some route at hroute
  rcases hroutes with ⟨hsame, -⟩ | ⟨-, hempty, -⟩
  · rw [hsame] at hroute
    exact h.sessions routeId route hroute
  · rw [hempty] at hroute
    cases hroute

theorem AtRest.run (h : e.AtRest) (es : List EngineEvent) :
    (run (Engine.step P hostOf) e es).AtRest :=
  invariant _ (I := AtRest) h (fun _ event hrest => hrest.step event) es

theorem atRest_stopRoutes (hstop : e.stop = true) (hlock : e.lock = none) :
    (e.step P hostOf .stopRoutes).AtRest := by
  have hturn : e.turn P hostOf .stopRoutes = ⟨{ e with
      stopped := true
      routes := e.routes.mapValues fun route => { route with session := none }
      closing := e.sessions ++ e.closing }, [], none⟩ := by
    simp [turn, hstop, hlock]
  refine ⟨?_, ?_, fun routeId route hroute => ?_⟩
  · change (e.turn P hostOf .stopRoutes).next.stopped = true
    rw [hturn]
  · change (e.turn P hostOf .stopRoutes).next.lock = none
    rw [hturn]
    exact hlock
  · change (e.turn P hostOf .stopRoutes).next.routes.lookup routeId = some route at hroute
    rw [hturn, Table.lookup_mapValues, Option.map_eq_some_iff] at hroute
    obtain ⟨old, -, rfl⟩ := hroute
    rfl

theorem atRest_of_hasStopped {start : Engine} {es : List EngineEvent}
    (h : start.HasStopped P hostOf es) : (run (step P hostOf) start es).AtRest := by
  obtain ⟨before, after, rfl, hstop, hlock⟩ := h
  rw [run_append, run_cons]
  exact (atRest_stopRoutes hstop hlock).run after

theorem AtRest.refuses (h : e.AtRest) {event : EngineEvent} (hcall : event.isCall = true) :
    ∃ error, (e.turn P hostOf event).reply = some (.refused error) := by
  have hfree : ¬ e.lock.isSome = true := by
    rw [h.lock]
    exact Bool.false_ne_true
  cases event with
  | stream call routeId =>
    refine ⟨.stopped, ?_⟩
    simp only [turn, streamCall]
    rw [if_neg hfree, if_pos h.stopped]
    rfl
  | upsertRoute route =>
    simp only [turn, upsertRoute]
    cases verifyRoute P route with
    | error error => exact ⟨error, rfl⟩
    | ok pair =>
      cases secret route.pairedRouteSecret with
      | error error => exact ⟨error, rfl⟩
      | ok held =>
        dsimp only
        rw [if_neg hfree, if_pos h.stopped]
        exact ⟨.stopped, rfl⟩
  | removeRoute routeId =>
    refine ⟨.stopped, ?_⟩
    simp only [turn, removeRoute]
    rw [if_neg hfree, if_pos h.stopped]
    rfl
  | pairRoute bundle now draw =>
    simp only [turn, pairRoute]
    cases readBundle P bundle now with
    | error error => exact ⟨error, rfl⟩
    | ok read =>
      dsimp only
      rw [if_neg hfree, if_pos h.stopped]
      exact ⟨.stopped, rfl⟩
  | reannounce =>
    refine ⟨.stopped, ?_⟩
    simp only [turn]
    rw [if_neg hfree, if_pos h.stopped]
    rfl
  | _ => cases hcall

section Wiping

theorem covered_ledger (config : EngineConfig) (start : Engine) (es : List EngineEvent) :
    (ledger P hostOf config start es).Covered :=
  invariant Filing.step (I := State.Covered) (covered_load _) (fun _ op h => covered_step h op) _

theorem Mirrors.no_secret {s : RouteLedger} (h : Mirrors P e s) (hcovered : s.Covered)
    (hempty : e.routes = ∅) (node : NodeId) : e.secretOf node = none := by
  cases hsecret : e.secretOf node with
  | none => rfl
  | some held =>
    rw [h.store] at hsecret
    obtain ⟨routeId, hnames⟩ := hcovered node held hsecret
    have hinstalled := (h.names routeId node).mp hnames
    rw [Names, hempty] at hinstalled
    cases hinstalled

theorem atRest_wipe (h : (e.turn P hostOf .wipe).reply = some .wiped) :
    (e.step P hostOf .wipe).AtRest ∧ (e.step P hostOf .wipe).routes = ∅ := by
  have hready : e.stopped = true ∧ e.lock = none ∧ (e.turn P hostOf .wipe).next =
      { e with routes := ∅ } := by
    simp only [turn] at h ⊢
    split_ifs at h ⊢ with hwait
    · cases h
    · rw [not_or, Bool.not_eq_false] at hwait
      exact ⟨hwait.1, lock_none hwait.2, rfl⟩
  obtain ⟨hstopped, hlock, hnext⟩ := hready
  have hempty : (e.turn P hostOf .wipe).next.routes = ∅ := by rw [hnext]
  refine ⟨⟨?_, ?_, fun routeId route hroute => ?_⟩, hempty⟩
  · change (e.turn P hostOf .wipe).next.stopped = true
    rw [hnext, ← hstopped]
  · change (e.turn P hostOf .wipe).next.lock = none
    rw [hnext, ← hlock]
  · change (e.turn P hostOf .wipe).next.routes.lookup routeId = some route at hroute
    rw [hempty] at hroute
    cases hroute

theorem routes_of_hasWiped {start : Engine} {es : List EngineEvent}
    (h : start.HasWiped P hostOf es) :
    (run (step P hostOf) start es).routes = ∅ := by
  obtain ⟨before, after, rfl, hwiped⟩ := h
  rw [run_append, run_cons]
  refine (invariant (step P hostOf) (I := fun e => e.AtRest ∧ e.routes = ∅) (atRest_wipe hwiped)
    (fun e event h => ⟨h.1.step event, ?_⟩) after).2
  rcases ((moves_turn e event).at_rest h.1).2 with ⟨hsame, -⟩ | ⟨-, hnone, -⟩
  · exact hsame.trans h.2
  · exact hnone

end Wiping

/-- After every history in which `stop` had its turn no route caches a session, every later call
is refused, and no event but `wipe` changes a route or a secret; and once `wipe` has returned
there is neither a route nor a secret, whatever came before and whatever comes after. -/
theorem stop_and_wipe_are_final (P : Primitives) (hostOf : String → Option String) (udp : Bool)
    (config : EngineConfig) (now unixNow : ℕ) {start : Engine}
    (hstart : Engine.start P udp config now unixNow = .ok start) (es : List EngineEvent) :
    let e := run (step P hostOf) start es
    (start.HasStopped P hostOf es →
      (∀ routeId route, e.routes.lookup routeId = some route → route.session = none) ∧
      (∀ event, event.isCall = true →
        ∃ error, (e.turn P hostOf event).reply = some (.refused error)) ∧
      ∀ event, event ≠ .wipe → Reply.isRefusal (e.turn P hostOf event).reply = true ∧
        (e.step P hostOf event).routes = e.routes ∧
        (e.step P hostOf event).secretOf = e.secretOf) ∧
    (start.HasWiped P hostOf es → e.routes = ∅ ∧ ∀ node, e.secretOf node = none) := by
  intro e
  have hmirrors : Mirrors P e (ledger P hostOf config start es) := mirrors_run hstart es
  constructor
  · intro hstopped
    have hrest : e.AtRest := atRest_of_hasStopped hstopped
    refine ⟨hrest.sessions, fun event hcall => hrest.refuses hcall, fun event hevent => ?_⟩
    rcases ((moves_turn e event).at_rest hrest).2 with ⟨hroutes, hrefusal⟩ | ⟨hwipe, -⟩
    · exact ⟨hrefusal, hroutes, hmirrors.secretOf_eq (Reply.unchanged_of_refusal hrefusal)⟩
    · exact absurd hwipe hevent
  · intro hwiped
    have hempty : e.routes = ∅ := routes_of_hasWiped hwiped
    exact ⟨hempty, hmirrors.no_secret (covered_ledger config start es) hempty⟩

theorem wiped_engine_refuses :
    ∃ e, Engine.start Primitives.standIn false oneRoute 0 0 = .ok e ∧
      let e' := run (step Primitives.standIn some) e [.stop, .stopRoutes, .closeEndpoint, .wipe]
      e'.routes = ∅ ∧ e'.secretOf ⟨List.Vector.replicate 32 1⟩ = none ∧
      ∃ error, (e'.turn Primitives.standIn some (.stream .requestJson "a")).reply =
        some (.refused error) := by
  obtain ⟨e, hstart, hfree, hwiped⟩ :
      ∃ e, Engine.start Primitives.standIn false oneRoute 0 0 = .ok e ∧
      ((run (step Primitives.standIn some) e [.stop]).stop = true ∧
        (run (step Primitives.standIn some) e [.stop]).lock.isNone = true) ∧
      ((run (step Primitives.standIn some) e [.stop, .stopRoutes, .closeEndpoint]).turn
        Primitives.standIn some .wipe).reply = some .wiped :=
    exists_ok_of_any (by decide +kernel)
  have hfinal := stop_and_wipe_are_final Primitives.standIn some false oneRoute 0 0 hstart
    [.stop, .stopRoutes, .closeEndpoint, .wipe]
  obtain ⟨hempty, hsecret⟩ := hfinal.2 ⟨[.stop, .stopRoutes, .closeEndpoint], [], rfl, hwiped⟩
  obtain ⟨-, hrefused, -⟩ := hfinal.1
    ⟨[.stop], [.closeEndpoint, .wipe], rfl, hfree.1, Option.isNone_iff_eq_none.mp hfree.2⟩
  exact ⟨e, hstart, hempty, hsecret _, hrefused _ rfl⟩

end Engine

end ForgeswornLink
