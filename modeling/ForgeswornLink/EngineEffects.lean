import ForgeswornLink.Engine
import ForgeswornLink.CardBytes

/-!
# What one event of an engine does

Every branch of every call is one of a few moves: the table of routes changes only
when a route is installed or removed, when a dial under the lock is over, and when
the engine stops; and only a route that comes or goes touches the durable secrets
of the endpoint's book.
-/

namespace ForgeswornLink
open Runs ByteString OrderedChecks

def Route.filed (route : Route) : Option (NodeId × Block 32) :=
  match nodeFromCardBytes route.card, secret route.pairedRouteSecret with
  | .ok node, .ok secret => some (node, secret)
  | _, _ => none

theorem Route.filed_of_ok {route : Route} {node : NodeId} {held : Block 32}
    (hnode : nodeFromCardBytes route.card = .ok node)
    (hsecret : secret route.pairedRouteSecret = .ok held) : route.filed = some (node, held) := by
  rw [Route.filed, hnode, hsecret]

theorem nodeFromCardBytes_eq_ok {bytes : List UInt8} {node : NodeId} :
    nodeFromCardBytes bytes = .ok node ↔ slice bytes 5 37 = node.asBytes := by
  rw [← NodeId.fromSlice_eq_some, nodeFromCardBytes]
  cases NodeId.fromSlice (slice bytes 5 37) with
  | none => exact iff_of_false nofun nofun
  | some found => exact ⟨fun h => by rw [Except.ok.inj h], fun h => by rw [Option.some.inj h]⟩

theorem secret_toList (held : Block 32) : secret held.toList = .ok held := by
  rw [secret, blockOr, block?_toList]

theorem verifyCard_eq_ok {P : Primitives} {bytes : List UInt8} {ctx : VerifyContext} {card : Card} :
    verifyCard P bytes ctx = .ok card ↔ Card.verify P bytes ctx = .ok card := by
  unfold verifyCard
  cases Card.verify P bytes ctx with
  | error violation => exact iff_of_false nofun nofun
  | ok found =>
    constructor
    · intro h
      rw [← Except.ok.inj h]
    · intro h
      rw [← Except.ok.inj h]
      rfl

theorem node_of_verify {P : Primitives} {bytes : List UInt8} {ctx : VerifyContext} {card : Card}
    (h : Card.verify P bytes ctx = .ok card) :
    nodeFromCardBytes bytes = .ok card.nodeId ∧ card.asBytes = bytes := by
  have hsize := ((Card.verify_settles P bytes ctx).ok card h) 1 le_rfl
  simp only [Card.Violates, not_or, not_lt] at hsize
  obtain ⟨hints, -, rfl⟩ := Card.verify_returns h
  have hlong : 5 + 32 ≤ bytes.length := le_trans (by decide) hsize.1
  exact ⟨nodeFromCardBytes_eq_ok.mpr (readBlock_toList hlong).symm, rfl⟩

theorem verifyRoute_spec {P : Primitives} {route : Route} {node : NodeId} {card : Card}
    (h : verifyRoute P route = .ok (node, card)) :
    nodeFromCardBytes route.card = .ok node ∧ card.nodeId = node := by
  simp only [verifyRoute, bind_eq_ok, deny_eq_ok, exists_const] at h
  obtain ⟨-, node', hnode, -, card', hverify, -, hpair⟩ := h
  obtain ⟨rfl, rfl⟩ := Prod.mk.inj (Except.ok.inj hpair)
  obtain ⟨hread, -⟩ := node_of_verify (verifyCard_eq_ok.mp hverify)
  exact ⟨hnode, Except.ok.inj (hread.symm.trans hnode)⟩

def EndpointEvent.isEnrolment : EndpointEvent → Bool
  | .environment (.book (.registerPairing _ _ _)) | .environment (.book (.removePairing _))
  | .connectPairing _ _ _ _ _ | .rendezvous _ _ _ | .dialled _ _ | .closed _ _ => true
  | _ => false

def Reply.isRefusal : Option Reply → Bool
  | none | some (.refused _) => true
  | _ => false

def VerifiedAnswers (P : Primitives) (enrolments : Table ℕ Enrolment) : Prop :=
  ∀ session enrolment card held now, enrolments.lookup session = some enrolment →
    enrolment.stage = .answered card held now →
    Card.verify P card.asBytes ((VerifyContext.new now).expecting enrolment.serverNode) = .ok card

section VerifiedAnswers
variable {P : Primitives} {enrolments : Table ℕ Enrolment}

theorem VerifiedAnswers.insert (h : VerifiedAnswers P enrolments) {session : ℕ}
    {enrolment : Enrolment} (hnew : ∀ card held now, enrolment.stage = .answered card held now →
      Card.verify P card.asBytes ((VerifyContext.new now).expecting enrolment.serverNode) =
        .ok card) :
    VerifiedAnswers P (enrolments.insert session enrolment) := by
  intro session' enrolment' card held now hlookup hstage
  rw [Table.lookup_insert_ite] at hlookup
  split_ifs at hlookup
  · obtain rfl := Option.some.inj hlookup
    exact hnew card held now hstage
  · exact h session' enrolment' card held now hlookup hstage

theorem VerifiedAnswers.erase (h : VerifiedAnswers P enrolments) (session : ℕ) :
    VerifiedAnswers P (enrolments.erase session) := by
  intro session' enrolment' card held now hlookup hstage
  rw [Table.lookup_erase_ite] at hlookup
  split_ifs at hlookup
  exact h session' enrolment' card held now hlookup hstage

theorem readAnswer_verified {enrolment : Enrolment} {answer : Answer} {card : Card}
    {held : Block 32} {now : UInt64}
    (h : Engine.readAnswer P enrolment answer = .ok (card, held, now)) :
    Card.verify P card.asBytes ((VerifyContext.new now).expecting enrolment.serverNode) =
      .ok card := by
  cases answer with
  | failed error => cases h
  | frame held' bytes now' =>
    simp only [Engine.readAnswer, bind_eq_ok, deny_eq_ok, exists_const] at h
    obtain ⟨cardBytes, -, card', hverify, -, hread⟩ := h
    cases hread
    rw [verifyCard_eq_ok] at hverify
    rw [(node_of_verify hverify).2]
    exact hverify

end VerifiedAnswers

namespace Engine
variable (P : Primitives) (hostOf : String → Option String)

structure Admits (e : Engine) (call : StreamCall) (routeId : String) (route : RouteState) :
    Prop where
  lock : e.lock = none
  running : e.stopped = false
  installed : e.routes.lookup routeId = some route
  check : call.check route.node = .ok ()

def cache (e : Engine) (routeId : String) (session : ℕ) : Table String RouteState :=
  (e.routes.lookup routeId).elim e.routes fun route =>
    e.routes.insert routeId { route with session := some session }

/-- A route may be installed under the ID: what it replaces, and what becomes of that. -/
def Replaces (e : Engine) (route : Route) (node : NodeId) (dropped : List NodeId)
    (previous : Option ℕ) : Prop :=
  (e.routes.lookup route.routeId = none ∧ dropped = [] ∧ previous = none) ∨
  ∃ old, e.routes.lookup route.routeId = some old ∧ previous = old.session ∧
    (dropped = [old.node] ∧ old.serial < route.cardSerial ∨
      dropped = [] ∧ old.node = node ∧ old.serial ≤ route.cardSerial)

inductive Moves (e : Engine) : EngineEvent → EngineTurn → Prop where
  | rests {event reply} (hreply : Reply.isRefusal reply = true) : Moves e event ⟨e, [], reply⟩
  | reuses {call routeId route session} (h : e.Admits call routeId route)
      (hcached : e.cached route call = some session) :
      Moves e (.stream call routeId) ⟨e, [], some (.stream call routeId session)⟩
  | dials {call routeId route} (h : e.Admits call routeId route)
      (hcached : e.cached route call = none) (hstop : e.stop = false)
      (houtcome : ∀ reason, (e.endpoint.turn P hostOf
        (.connect route.card.nodeId route.card.relayUrls)).outcome ≠ some (.failed reason)) :
      Moves e (.stream call routeId)
        ⟨{ e with lock := some ⟨call, routeId, e.endpoint.socket.inner.nextSession⟩ },
          [.connect route.card.nodeId route.card.relayUrls], none⟩
  | dialRefused {call routeId route reason} (h : e.Admits call routeId route)
      (hcached : e.cached route call = none) (hstop : e.stop = false)
      (houtcome : (e.endpoint.turn P hostOf
        (.connect route.card.nodeId route.card.relayUrls)).outcome = some (.failed reason)) :
      Moves e (.stream call routeId)
        ⟨e, [.connect route.card.nodeId route.card.relayUrls],
          some (.refused (.transport reason.text))⟩
  | givesUp {why d reply} (hlock : e.lock = some d) (hreply : Reply.isRefusal reply = true) :
      Moves e (.giveUp why)
        ⟨{ e with lock := none, abandoned := d.session :: e.abandoned }, [], reply⟩
  | passes {event} (hbeside : event.isBeside = true) (hdial : ∀ d, e.lock = some d →
      event.dial = some d.session → ∀ o, (e.endpoint.turn P hostOf event).outcome = some o →
        (∀ session, o ≠ .connected session) ∧ ∀ reason, o ≠ .failed reason) :
      Moves e (.endpoint event) ⟨e, [event], none⟩
  | connects {event d session} (hbeside : event.isBeside = true) (hlock : e.lock = some d)
      (hdial : event.dial = some d.session) (hstop : e.stop = false)
      (houtcome : (e.endpoint.turn P hostOf event).outcome = some (.connected session)) :
      Moves e (.endpoint event)
        ⟨{ e with lock := none, routes := e.cache d.routeId session }, [event],
          some (.stream d.call d.routeId session)⟩
  | failsDial {event d reason} (hbeside : event.isBeside = true) (hlock : e.lock = some d)
      (hdial : event.dial = some d.session) (hstop : e.stop = false)
      (houtcome : (e.endpoint.turn P hostOf event).outcome = some (.failed reason)) :
      Moves e (.endpoint event)
        ⟨{ e with lock := none }, [event], some (.refused (.transport reason.text))⟩
  | enrols {event enrolments abandoned events reply}
      (hverified : VerifiedAnswers P e.enrolments → VerifiedAnswers P enrolments)
      (hevents : ∀ event ∈ events, event.isEnrolment = true)
      (hreply : Reply.isRefusal reply = true) :
      Moves e event ⟨{ e with enrolments := enrolments, abandoned := abandoned }, events, reply⟩
  | installs {event route node card held enrolments dropped previous after} (hlock : e.lock = none)
      (hrunning : e.stopped = false)
      (hfiled : VerifiedAnswers P e.enrolments → route.filed = some (node, held))
      (hcard : card.nodeId = node) (hreplaces : e.Replaces route node dropped previous)
      (hverified : VerifiedAnswers P e.enrolments → VerifiedAnswers P enrolments)
      (hafter : ∀ event ∈ after, event.isEnrolment = true) :
      Moves e event
        ⟨{ e with
            routes := e.routes.insert route.routeId ⟨node, route.cardSerial, card, none⟩
            enrolments := enrolments
            closing := previous.toList ++ e.closing },
          dropped.map removePaired ++ upsertPaired node held :: after, some (.installed route)⟩
  | removes {routeId route} (hlock : e.lock = none) (hrunning : e.stopped = false)
      (hroute : e.routes.lookup routeId = some route) :
      Moves e (.removeRoute routeId)
        ⟨{ e with
            routes := e.routes.erase routeId
            closing := route.session.toList ++ e.closing },
          [removePaired route.node], some (.removed routeId)⟩
  | closes {session} :
      Moves e (.closeSession session)
        ⟨{ e with closing := e.closing.erase session }, [.closed session .locallyClosed], none⟩
  | reannounces : Moves e .reannounce ⟨e, e.sessions.map .reannounce, none⟩
  | signals : Moves e .stop ⟨{ e with stop := true }, [], none⟩
  | stops (hstop : e.stop = true) (hlock : e.lock = none) :
      Moves e .stopRoutes
        ⟨{ e with
            stopped := true
            routes := e.routes.mapValues fun route => { route with session := none }
            closing := e.sessions ++ e.closing }, [], none⟩
  | closesEndpoint (hstopped : e.stopped = true) :
      Moves e .closeEndpoint
        ⟨e, (e.endpoint.sessions.keys.map fun session => .closed session .locallyClosed) ++
          [.environment .closeRelays], none⟩
  | wipes (hstopped : e.stopped = true) (hlock : e.lock = none) :
      Moves e .wipe
        ⟨{ e with routes := ∅ }, e.routes.entries.map fun entry => removePaired entry.2.node,
          some .wiped⟩

variable {P hostOf} {e : Engine}

theorem moves_stay (e : Engine) (event : EngineEvent) : Moves P hostOf e event e.stay := .rests rfl

theorem moves_refuse (e : Engine) (event : EngineEvent) (error : EngineError) :
    Moves P hostOf e event (e.refuse error) := .rests rfl

theorem lock_none (h : ¬ e.lock.isSome = true) : e.lock = none :=
  Option.not_isSome_iff_eq_none.mp h

theorem moves_streamCall (call : StreamCall) (routeId : String) :
    Moves P hostOf e (.stream call routeId) (e.streamCall P hostOf call routeId) := by
  unfold streamCall
  split_ifs with hlock hstopped
  · exact moves_stay e _
  · exact moves_refuse e _ _
  cases hroute : e.routes.lookup routeId with
  | none => exact moves_refuse e _ _
  | some route =>
    dsimp only
    cases hcheck : call.check route.node with
    | error error => exact moves_refuse e _ _
    | ok =>
      have h : e.Admits call routeId route :=
        ⟨lock_none hlock, Bool.not_eq_true _ ▸ hstopped, hroute, hcheck⟩
      dsimp only
      cases hcached : e.cached route call with
      | some session => exact .reuses h hcached
      | none =>
        dsimp only [dial]
        split_ifs with hstop
        · exact moves_refuse e _ _
        rw [Bool.not_eq_true] at hstop
        split
        · rename_i reason houtcome
          exact .dialRefused h hcached hstop houtcome
        · rename_i hother
          exact .dials h hcached hstop hother

theorem moves_giveUp (why : GiveUp) : Moves P hostOf e (.giveUp why) (e.giveUp why) := by
  unfold giveUp
  cases hlock : e.lock with
  | none => exact moves_stay e _
  | some d =>
    cases why with
    | stopped =>
      dsimp only
      split_ifs
      · exact .givesUp hlock rfl
      · exact moves_stay e _
    | timedOut =>
      dsimp only
      split_ifs
      · exact .givesUp hlock rfl
      · exact moves_stay e _
    | dropped => exact .givesUp hlock rfl

theorem moves_upsertRoute (route : Route) :
    Moves P hostOf e (.upsertRoute route) (e.upsertRoute P route) := by
  unfold upsertRoute
  cases hverify : verifyRoute P route with
  | error error => exact moves_refuse e _ _
  | ok pair =>
    obtain ⟨node, card⟩ := pair
    cases hsecret : secret route.pairedRouteSecret with
    | error error => exact moves_refuse e _ _
    | ok held =>
      obtain ⟨hnode, hcard⟩ := verifyRoute_spec hverify
      have hfiled := Route.filed_of_ok hnode hsecret
      dsimp only
      split_ifs with hlock hstopped
      · exact moves_stay e _
      · exact moves_refuse e _ _
      rw [Bool.not_eq_true] at hstopped
      cases hold : e.routes.lookup route.routeId with
      | none =>
        exact .installs (lock_none hlock) hstopped (fun _ => hfiled) hcard
          (Or.inl ⟨hold, rfl, rfl⟩) id (List.forall_mem_nil _)
      | some old =>
        dsimp only
        split_ifs with hserial
        · exact moves_refuse e _ _
        · exact .installs (lock_none hlock) hstopped (fun _ => hfiled) hcard
            (Or.inr ⟨old, hold, rfl, Or.inl ⟨rfl, UInt64.not_le.mp hserial⟩⟩) id
            (List.forall_mem_nil _)

theorem moves_removeRoute (routeId : String) :
    Moves P hostOf e (.removeRoute routeId) (e.removeRoute routeId) := by
  unfold removeRoute
  split_ifs with hlock hstopped
  · exact moves_stay e _
  · exact moves_refuse e _ _
  rw [Bool.not_eq_true] at hstopped
  cases hroute : e.routes.lookup routeId with
  | none => exact moves_refuse e _ _
  | some route => exact .removes (lock_none hlock) hstopped hroute

theorem moves_pairRoute (bundle : PairingBundle) (now : UInt64) (draw : NodeId) :
    Moves P hostOf e (.pairRoute bundle now draw) (e.pairRoute P hostOf bundle now draw) := by
  unfold pairRoute
  cases readBundle P bundle now with
  | error error => exact moves_refuse e _ _
  | ok read =>
    obtain ⟨lifetime, secret, serverNode, offered⟩ := read
    dsimp only
    split_ifs
    · exact moves_stay e _
    · exact moves_refuse e _ _
    · exact moves_refuse e _ _
    · exact moves_stay e _
    · exact .enrols id (by simp [dropRegistration, EndpointEvent.isEnrolment]) rfl
    · split
      · exact .enrols id (by simp [dropRegistration, EndpointEvent.isEnrolment]) rfl
      · exact .enrols (fun h => h.insert nofun) (by simp [EndpointEvent.isEnrolment]) rfl

theorem moves_pairingAnswered (session : ℕ) (answer : Answer) :
    Moves P hostOf e (.pairingAnswered session answer) (e.pairingAnswered P session answer) := by
  unfold pairingAnswered
  cases e.enrolments.lookup session with
  | none => exact moves_stay e _
  | some enrolment =>
    dsimp only
    cases enrolment.stage with
    | dialling => exact moves_stay e _
    | answered card secret now => exact moves_stay e _
    | connected =>
      dsimp only
      split_ifs
      · exact moves_stay e _
      cases hread : readAnswer P enrolment answer with
      | error error =>
        exact .enrols (fun h => h.erase session)
          (by simp [closePairing, dropRegistration, EndpointEvent.isEnrolment]) rfl
      | ok read =>
        obtain ⟨card, held, now⟩ := read
        have hnew : ∀ card' held' now',
            EnrolmentStage.answered card held now = .answered card' held' now' →
            Card.verify P card'.asBytes ((VerifyContext.new now').expecting enrolment.serverNode) =
              .ok card' := by
          intro card' held' now' heq
          cases heq
          exact readAnswer_verified hread
        exact .enrols (fun h => h.insert hnew)
          (by simp [closePairing, EndpointEvent.isEnrolment]) rfl

theorem moves_pairingStopped (session : ℕ) :
    Moves P hostOf e (.pairingStopped session) (e.pairingStopped session) := by
  unfold pairingStopped
  cases e.enrolments.lookup session with
  | none => exact moves_stay e _
  | some enrolment =>
    dsimp only
    split_ifs
    · cases enrolment.stage with
      | dialling =>
        exact .enrols (fun h => h.erase session)
          (by simp [dropRegistration, EndpointEvent.isEnrolment]) rfl
      | connected =>
        exact .enrols (fun h => h.erase session)
          (by simp [closePairing, dropRegistration, EndpointEvent.isEnrolment]) rfl
      | answered card secret now => exact moves_stay e _
    · exact moves_stay e _

theorem moves_installPairing (session : ℕ) :
    Moves P hostOf e (.installPairing session) (e.installPairing session) := by
  unfold installPairing
  cases hlookup : e.enrolments.lookup session with
  | none => exact moves_stay e _
  | some enrolment =>
    dsimp only
    cases hstage : enrolment.stage with
    | dialling => exact moves_stay e _
    | connected => exact moves_stay e _
    | answered card held now =>
      have hdropped : ∀ event ∈ [dropRegistration enrolment.registration],
          event.isEnrolment = true := by
        simp [dropRegistration, EndpointEvent.isEnrolment]
      have herase := fun h : VerifiedAnswers P e.enrolments => h.erase session
      have hfiled (h : VerifiedAnswers P e.enrolments) :
          (enrolled enrolment card held now).filed = some (card.nodeId, held) := by
        obtain ⟨hnode, -⟩ := node_of_verify (h session enrolment card held now hlookup hstage)
        exact Route.filed_of_ok hnode (secret_toList held)
      dsimp only
      split_ifs with hlock hstopped
      · exact moves_stay e _
      · exact .enrols herase hdropped rfl
      rw [Bool.not_eq_true] at hstopped
      cases hold : e.routes.lookup enrolment.routeId with
      | none =>
        exact .installs (lock_none hlock) hstopped hfiled rfl (Or.inl ⟨hold, rfl, rfl⟩)
          herase hdropped
      | some old =>
        dsimp only
        split_ifs with hnode hserial
        · exact .enrols herase hdropped rfl
        · exact .enrols herase hdropped rfl
        · refine .installs (lock_none hlock) hstopped hfiled rfl
            (Or.inr ⟨old, hold, rfl, Or.inr ?_⟩) herase hdropped
          exact ⟨rfl, not_ne_iff.mp hnode, UInt64.not_lt.mp hserial⟩

theorem dialEvent_isEnrolment {event : EndpointEvent} {session : ℕ}
    (h : event.dial = some session) :
    event.isEnrolment = true := by
  cases event with
  | rendezvous session conn admission => rfl
  | dialled session handshake => rfl
  | _ => cases h

theorem moves_beside (event : EndpointEvent) :
    Moves P hostOf e (.endpoint event) (e.beside P hostOf event) := by
  unfold beside
  by_cases hbeside : event.isBeside = false
  · rw [if_pos hbeside]
    exact moves_stay e _
  rw [if_neg hbeside]
  rw [Bool.not_eq_false] at hbeside
  cases hdial : event.dial with
  | none => exact .passes hbeside fun d _ hd => by cases hdial.symm.trans hd
  | some session =>
    dsimp only
    by_cases habandoned : session ∈ e.abandoned
    · rw [if_pos habandoned]
      exact moves_stay e _
    rw [if_neg habandoned]
    have hown := dialEvent_isEnrolment hdial
    cases hfilter : e.lock.filter fun d => d.session = session with
    | some d =>
      obtain ⟨hlock, hsession⟩ := Option.filter_eq_some_iff.mp hfilter
      obtain rfl := of_decide_eq_true hsession
      dsimp only
      split_ifs with hstop
      · exact moves_stay e _
      rw [Bool.not_eq_true] at hstop
      cases houtcome : (e.endpoint.turn P hostOf event).outcome with
      | none => exact .passes hbeside fun _ _ _ o ho => by cases houtcome.symm.trans ho
      | some outcome =>
        have hother (hconnected : ∀ session, outcome ≠ .connected session)
            (hfailed : ∀ reason, outcome ≠ .failed reason) :
            Moves P hostOf e (.endpoint event) ⟨e, [event], none⟩ :=
          .passes hbeside fun _ _ _ o ho => by
            obtain rfl := Option.some.inj (houtcome.symm.trans ho)
            exact ⟨hconnected, hfailed⟩
        cases outcome with
        | connected session => exact .connects hbeside hlock hdial hstop houtcome
        | failed reason => exact .failsDial hbeside hlock hdial hstop houtcome
        | pinned session => exact hother nofun nofun
        | pairing session => exact hother nofun nofun
    | none =>
      have hpasses : Moves P hostOf e (.endpoint event) ⟨e, [event], none⟩ := by
        refine .passes hbeside fun d hd heq => ?_
        obtain rfl := Option.some.inj (hdial.symm.trans heq)
        rw [hd] at hfilter
        simp at hfilter
      cases e.enrolments.lookup session with
      | none => exact hpasses
      | some enrolment =>
        dsimp only
        split_ifs
        · exact moves_stay e _
        cases (e.endpoint.turn P hostOf event).outcome with
        | none => exact hpasses
        | some outcome =>
          cases outcome with
          | pairing session => exact .enrols (fun h => h.insert nofun) (by simp [hown]) rfl
          | failed reason =>
            exact .enrols (fun h => h.erase session)
              (List.forall_mem_cons.mpr ⟨hown, List.forall_mem_singleton.mpr rfl⟩) rfl
          | connected session => exact hpasses
          | pinned session => exact hpasses

theorem moves_turn (e : Engine) (event : EngineEvent) :
    Moves P hostOf e event (e.turn P hostOf event) := by
  cases event with
  | endpoint event => exact moves_beside event
  | stream call routeId => exact moves_streamCall call routeId
  | giveUp why => exact moves_giveUp why
  | upsertRoute route => exact moves_upsertRoute route
  | removeRoute routeId => exact moves_removeRoute routeId
  | pairRoute bundle now draw => exact moves_pairRoute bundle now draw
  | pairingAnswered session answer => exact moves_pairingAnswered session answer
  | pairingStopped session => exact moves_pairingStopped session
  | installPairing session => exact moves_installPairing session
  | closeSession session =>
    simp only [turn]
    split_ifs
    · exact .closes
    · exact moves_stay e _
  | reannounce =>
    simp only [turn]
    split_ifs
    · exact moves_stay e _
    · exact moves_refuse e _ _
    · exact .reannounces
  | stop => exact .signals
  | stopRoutes =>
    simp only [turn]
    split_ifs with h
    · exact moves_stay e _
    · rw [not_or, Bool.not_eq_false] at h
      exact .stops h.1 (lock_none h.2)
  | closeEndpoint =>
    simp only [turn]
    split_ifs with h
    · exact .closesEndpoint h
    · exact moves_stay e _
  | wipe =>
    simp only [turn]
    split_ifs with h
    · exact moves_stay e _
    · rw [not_or, Bool.not_eq_false] at h
      exact .wipes h.1 (lock_none h.2)

theorem Moves.verified {event : EngineEvent} {t : EngineTurn} (h : Moves P hostOf e event t)
    (hbefore : VerifiedAnswers P e.enrolments) : VerifiedAnswers P t.next.enrolments := by
  cases h with
  | enrols hverified => exact hverified hbefore
  | installs _ _ _ _ _ hverified => exact hverified hbefore
  | _ => exact hbefore

theorem start_eq_ok {udp : Bool} {config : EngineConfig} {now unixNow : ℕ}
    (h : start P udp config now unixNow = .ok e) :
    ∃ seed routes paired, block? 32 config.transportSeed = some seed ∧
      config.routes.foldlM (loadRoute P) (∅, ∅) = .ok (routes, paired) ∧
      e = ⟨Endpoint.openOn udp (endpointConfig P config seed paired) now unixNow, false,
        false, routes, none, ∅, [], []⟩ := by
  unfold start at h
  cases hseed : block? 32 config.transportSeed with
  | none =>
    rw [hseed] at h
    cases h
  | some seed =>
    rw [hseed] at h
    simp only [bind_eq_ok] at h
    obtain ⟨⟨routes, paired⟩, hfold, hengine⟩ := h
    exact ⟨seed, routes, paired, rfl, hfold, (Except.ok.inj hengine).symm⟩

end Engine

end ForgeswornLink
