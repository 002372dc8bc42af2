import ForgeswornLink.EngineRoutes

/-!
# Replacing a route

Three calls change the routes of a running engine, and each does so in one turn at the
lock: `upsert_route` and `remove_route` as a whole, `pair_route` when the server has
answered. The reply of a turn says whether it changed anything, so a call that ends in
an error changed nothing in any of its turns. Both installing calls compare the new card
with the retained one at the moment they install it, each by its own rule, and no
interleaving brings a retained serial back down.
-/

namespace ForgeswornLink
open Runs ByteString OrderedChecks

def Reply.changesRoutes : Option Reply → Bool
  | some (.installed _) | some (.removed _) | some .wiped => true
  | _ => false

theorem Reply.routeOps_of_unchanged {reply : Option Reply}
    (h : Reply.changesRoutes reply = false) : Reply.routeOps reply = [] := by
  cases reply with
  | none => rfl
  | some reply =>
    cases reply with
    | refused error => rfl
    | stream call routeId session => rfl
    | _ => cases h

theorem Reply.unchanged_of_refusal {reply : Option Reply} (h : Reply.isRefusal reply = true) :
    Reply.changesRoutes reply = false := by
  cases reply with
  | none => rfl
  | some reply =>
    cases reply with
    | refused error => rfl
    | _ => cases h

namespace Engine
variable {P : Primitives} {hostOf : String → Option String} {e : Engine}

def row (e : Engine) (routeId : String) : Option (NodeId × UInt64 × Card) :=
  (e.routes.lookup routeId).map fun route => (route.node, route.serial, route.card)

theorem row_cache (routeId : String) (session : ℕ) (id : String) :
    ((e.cache routeId session).lookup id).map
    (fun route => (route.node, route.serial, route.card)) =
      e.row id := by
  unfold cache row
  cases hroute : e.routes.lookup routeId with
  | none => rfl
  | some route =>
    rw [Option.elim_some, Table.lookup_insert_ite]
    split_ifs with hid
    · rw [hid, hroute]
      rfl
    · rfl

theorem Moves.row_eq {event : EngineEvent} {t : EngineTurn} (h : Moves P hostOf e event t)
    (hreply : Reply.changesRoutes t.reply = false) : t.next.row = e.row := by
  cases h with
  | connects => exact funext fun id => row_cache _ _ id
  | installs => cases hreply
  | removes => cases hreply
  | wipes => cases hreply
  | stops =>
    funext id
    simp only [row, Table.lookup_mapValues, Option.map_map]
    rfl
  | _ => rfl

theorem Mirrors.secretOf_eq {s : RouteLedger} (h : Mirrors P e s) {event : EngineEvent}
    (hreply : Reply.changesRoutes (e.turn P hostOf event).reply = false) :
    (e.step P hostOf event).secretOf = e.secretOf := by
  have hafter : Mirrors P (e.step P hostOf event)
      (run Filing.step s (Reply.routeOps (e.turn P hostOf event).reply)) :=
    (moves_turn e event).mirrors h
  rw [Reply.routeOps_of_unchanged hreply] at hafter
  exact hafter.store.trans h.store.symm

section Serials

theorem serial_of_row {e' : Engine} {id : String} {old new : RouteState}
    (hrow : e'.row id = e.row id) (hold : e.routes.lookup id = some old)
    (hnew : e'.routes.lookup id = some new) :
    new.serial = old.serial := by
  rw [row, row, hold, hnew] at hrow
  exact (Prod.mk.inj (Prod.mk.inj (Option.some.inj hrow)).2).1

theorem Replaces.serial {route : Route} {node : NodeId} {dropped : List NodeId}
    {previous : Option ℕ} (h : e.Replaces route node dropped previous) {old : RouteState}
    (hold : e.routes.lookup route.routeId = some old) : old.serial ≤ route.cardSerial := by
  rcases h with ⟨hnone, -⟩ | ⟨old', hold', -, hserial⟩
  · cases hnone.symm.trans hold
  · obtain rfl := Option.some.inj (hold'.symm.trans hold)
    rcases hserial with ⟨-, hlt⟩ | ⟨-, -, hle⟩
    · exact UInt64.le_of_lt hlt
    · exact hle

theorem Moves.serial_le {event : EngineEvent} {t : EngineTurn} (h : Moves P hostOf e event t)
    {id : String} {old new : RouteState} (hold : e.routes.lookup id = some old)
    (hnew : t.next.routes.lookup id = some new) : old.serial ≤ new.serial := by
  by_cases hreply : Reply.changesRoutes t.reply = false
  · rw [serial_of_row (congrFun (h.row_eq hreply) id) hold hnew]
    exact UInt64.le_refl _
  cases h with
  | @installs event route _ _ _ _ _ _ _ _ _ _ _ hreplaces =>
    change (e.routes.insert _ _).lookup id = some new at hnew
    rw [Table.lookup_insert_ite] at hnew
    split_ifs at hnew with hid
    · rw [← Option.some.inj hnew]
      subst hid
      exact hreplaces.serial hold
    · rw [← Option.some.inj (hold.symm.trans hnew)]
      exact UInt64.le_refl _
  | removes =>
    change (e.routes.erase _).lookup id = some new at hnew
    rw [Table.lookup_erase_ite] at hnew
    split_ifs at hnew
    rw [← Option.some.inj (hold.symm.trans hnew)]
    exact UInt64.le_refl _
  | wipes => cases hnew
  | rests hrefusal => exact absurd (Reply.unchanged_of_refusal hrefusal) hreply
  | givesUp _ hrefusal => exact absurd (Reply.unchanged_of_refusal hrefusal) hreply
  | enrols _ _ hrefusal => exact absurd (Reply.unchanged_of_refusal hrefusal) hreply
  | _ => exact absurd rfl hreply

theorem serial_run {id : String} {old new : RouteState} (hold : e.routes.lookup id = some old)
    {later : List EngineEvent}
    (hkept : ∀ mid rest, later = mid ++ rest → id ∈ (run (step P hostOf) e mid).routes)
    (hnew : (run (step P hostOf) e later).routes.lookup id = some new) :
    old.serial ≤ new.serial := by
  induction later using List.reverseRecOn generalizing new with
  | nil =>
    rw [← Option.some.inj (hold.symm.trans hnew)]
    exact UInt64.le_refl _
  | append_singleton later event ih =>
    have hthere := hkept later [event] rfl
    obtain ⟨mid, hmid⟩ := Option.isSome_iff_exists.mp (AList.lookup_isSome.mpr hthere)
    have hbefore := ih (fun first rest hlater => hkept first (rest ++ [event])
      (by rw [hlater, List.append_assoc])) hmid
    rw [run_snoc] at hnew
    exact UInt64.le_trans hbefore ((moves_turn _ event).serial_le hmid hnew)

end Serials

section Installing

theorem upsertRoute_installed {route route' : Route}
    (h : (e.upsertRoute P route).reply = some (.installed route')) :
    route' = route ∧ ∃ new, (e.upsertRoute P route).next.routes.lookup route.routeId = some new ∧
      new.serial = route.cardSerial ∧
      ∀ old, e.routes.lookup route.routeId = some old → old.serial < new.serial := by
  unfold upsertRoute at h ⊢
  cases hverify : verifyRoute P route with
  | error error =>
    rw [hverify] at h
    cases h
  | ok pair =>
    cases hsecret : secret route.pairedRouteSecret with
    | error error =>
      rw [hverify, hsecret] at h
      cases h
    | ok held =>
      rw [hverify, hsecret] at h
      dsimp only at h ⊢
      split_ifs at h ⊢ with hlock hstopped
      · cases h
      · cases h
      cases hold : e.routes.lookup route.routeId with
      | none =>
        rw [hold] at h
        cases h
        exact ⟨rfl, _, AList.lookup_insert _, rfl, fun old hsome => by cases hsome⟩
      | some existing =>
        rw [hold] at h
        dsimp only at h ⊢
        split_ifs at h ⊢ with hserial
        · cases h
        · cases h
          refine ⟨rfl, _, AList.lookup_insert _, rfl, fun old hsome => ?_⟩
          rw [← Option.some.inj hsome]
          exact UInt64.not_le.mp hserial

theorem installPairing_installed {session : ℕ} {route : Route}
    (h : (e.installPairing session).reply = some (.installed route)) :
    ∃ new, (e.installPairing session).next.routes.lookup route.routeId = some new ∧
      ∀ old, e.routes.lookup route.routeId = some old → new.node = old.node := by
  unfold installPairing at h ⊢
  cases hlookup : e.enrolments.lookup session with
  | none =>
    rw [hlookup] at h
    cases h
  | some enrolment =>
    rw [hlookup] at h
    dsimp only at h ⊢
    cases hstage : enrolment.stage with
    | dialling =>
      rw [hstage] at h
      cases h
    | connected =>
      rw [hstage] at h
      cases h
    | answered card held verifiedAt =>
      rw [hstage] at h
      dsimp only at h ⊢
      split_ifs at h ⊢ with hlock hstopped
      · cases h
      · cases h
      cases hold : e.routes.lookup enrolment.routeId with
      | none =>
        rw [hold] at h
        cases h
        refine ⟨_, AList.lookup_insert _, fun old hsome => ?_⟩
        cases hold.symm.trans hsome
      | some existing =>
        rw [hold] at h
        dsimp only at h ⊢
        split_ifs at h ⊢ with hnode hserial
        · cases h
        · cases h
        · cases h
          refine ⟨_, AList.lookup_insert _, fun old hsome => ?_⟩
          rw [← Option.some.inj (hold.symm.trans hsome)]
          exact (not_ne_iff.mp hnode).symm

end Installing

/-- After every history a turn that does not report a change leaves every row of the routes and
every secret of the book as it was. While a route stays installed its serial does not go down,
every upsert takes it up, and no pairing gives its ID to another node. -/
theorem route_replacement_atomic (P : Primitives) (hostOf : String → Option String) (udp : Bool)
    (config : EngineConfig) (now unixNow : ℕ) {start : Engine}
    (hstart : Engine.start P udp config now unixNow = .ok start) (before : List EngineEvent) :
    let e := run (step P hostOf) start before
    (∀ event, Reply.changesRoutes (e.turn P hostOf event).reply = false →
      (e.step P hostOf event).row = e.row ∧ (e.step P hostOf event).secretOf = e.secretOf) ∧
    (∀ routeId old new later,
      (∀ mid rest, later = mid ++ rest → routeId ∈ (run (step P hostOf) e mid).routes) →
      e.routes.lookup routeId = some old →
      (run (step P hostOf) e later).routes.lookup routeId = some new → old.serial ≤ new.serial) ∧
    (∀ route installed, (e.turn P hostOf (.upsertRoute route)).reply = some (.installed installed) →
      installed = route ∧
      ∃ new, (e.step P hostOf (.upsertRoute route)).routes.lookup route.routeId = some new ∧
        new.serial = route.cardSerial ∧
        ∀ old, e.routes.lookup route.routeId = some old → old.serial < new.serial) ∧
    ∀ session route, (e.turn P hostOf (.installPairing session)).reply = some (.installed route) →
      ∃ new, (e.step P hostOf (.installPairing session)).routes.lookup route.routeId = some new ∧
        ∀ old, e.routes.lookup route.routeId = some old → new.node = old.node := by
  intro e
  refine ⟨fun event hreply => ⟨(moves_turn e event).row_eq hreply, ?_⟩, ?_, ?_, ?_⟩
  · exact (mirrors_run hstart before).secretOf_eq hreply
  · intro routeId old new later hkept hold hnew
    exact serial_run hold hkept hnew
  · intro route installed hreply
    exact upsertRoute_installed hreply
  · intro session route hreply
    exact installPairing_installed hreply

theorem stale_card_changes_nothing :
    ∃ e, Engine.start Primitives.standIn false oneRoute 0 0 = .ok e ∧
      (e.turn Primitives.standIn some (.upsertRoute (storedRoute "a" 1 6 7))).reply =
        some (.refused (.route "live card serial must increase")) ∧
      (e.step Primitives.standIn some (.upsertRoute (storedRoute "a" 1 6 7))).row = e.row ∧
      (e.step Primitives.standIn some (.upsertRoute (storedRoute "a" 1 6 7))).secretOf =
        e.secretOf := by
  obtain ⟨e, hstart, hreply⟩ : ∃ e, Engine.start Primitives.standIn false oneRoute 0 0 = .ok e ∧
      (e.turn Primitives.standIn some (.upsertRoute (storedRoute "a" 1 6 7))).reply =
        some (.refused (.route "live card serial must increase")) :=
    exists_ok_of_any (by decide +kernel)
  have hkept := (route_replacement_atomic Primitives.standIn some false oneRoute 0 0 hstart []).1
    (.upsertRoute (storedRoute "a" 1 6 7)) (congrArg Reply.changesRoutes hreply)
  exact ⟨e, hstart, hreply, hkept⟩

end Engine

end ForgeswornLink
