import ForgeswornLink.NodeText
import ForgeswornLink.Card
import ForgeswornLink.Endpoint

/-!
# The paired-route engine

A table of installed routes over one endpoint in tag mode. One lock covers the
table and every first dial: a call that has to dial keeps it until the dial is
over, and a call that finds it taken waits, so its event does nothing. The stop
signal lives outside the lock, and a dial gives way to it. `pair_route` takes the
lock twice, before its own dial and when the server has answered, and stands in a
table in between. What the server answered, which route ID was drawn and when a
call gives up come in with the event. A request is one that passed
`validate_http_request`, which touches nothing of the engine.
-/

namespace ForgeswornLink
open ByteString OrderedChecks Runs

def RuleViolation.text (v : RuleViolation) : String :=
  "card rule " ++ toString v.rule ++ " failed: " ++ v.detail

def FailReason.text : FailReason → String
  | .relay => "relay"
  | .rendezvous => "rendezvous"
  | .identity => "identity"
  | .timeout => "timeout"
  | .superseded => "superseded"

def Hint.asRelay (hint : Hint) : Option String :=
  if hint.kind ≠ hintRelay then none else String.fromUTF8? ⟨hint.value.toArray⟩

def Card.relayUrls (card : Card) : List String := card.hints.filterMap Hint.asRelay

namespace VerifyContext

def new (now : UInt64) : VerifyContext := ⟨now, 0, none⟩

def expecting (ctx : VerifyContext) (nodeId : NodeId) : VerifyContext :=
  { ctx with expectedNodeId := some nodeId }

def afterSerial (ctx : VerifyContext) (serial : UInt64) : VerifyContext :=
  { ctx with highestSeenSerial := serial }

end VerifyContext

/-- Whether the engine would reuse a session: it has neither ended nor failed. -/
def Session.isLive (s : Session) : Bool := s.closed.isNone && !s.report.status.isFailed

def Endpoint.live (e : Endpoint) (session : ℕ) : Bool :=
  (e.sessions.lookup session).any Session.isLive

inductive EngineError where
  | config (detail : String)
  | route (detail : String)
  | transport (detail : String)
  | socket (detail : String)
  | stopped
deriving DecidableEq

structure Route where
  routeId : String
  card : List UInt8
  pairedRouteSecret : List UInt8
  cardSerial : UInt64
  cardVerifiedAt : UInt64
deriving DecidableEq

structure PairingBundle where
  routeId : String
  serverCard : List UInt8
  pairingSecret : List UInt8
  expiresAt : UInt64

structure EngineConfig where
  transportSeed : List UInt8
  relayUrls : List String
  allowDirect : Bool
  routes : List Route

def pairingClockSkew : ℕ := 60
def maxPairingLifetime : ℕ := 600
def routeMagic : List UInt8 := [0x45, 0x56, 0x52, 0x31]
def routePrefixBytes : ℕ := routeMagic.length + 2

def blockOr (n : ℕ) (detail : String) (bytes : List UInt8) : Except EngineError (Block n) :=
  match block? n bytes with
  | some block => .ok block
  | none => .error (.route detail)

def secret (bytes : List UInt8) : Except EngineError (Block 32) :=
  blockOr 32 "paired route secret must be 32 bytes" bytes

def pairingSecret (bytes : List UInt8) : Except EngineError (Block 16) :=
  blockOr 16 "pairing secret must be 16 bytes" bytes

def pairingLifetime (expiresAt now : UInt64) : Except EngineError ℕ :=
  if expiresAt ≤ now then .error (.route "pairing bundle is expired")
  else
    let remaining := (expiresAt - now).toNat
    if remaining > maxPairingLifetime + pairingClockSkew then
      .error (.route "pairing bundle lifetime is too long")
    else .ok (min remaining maxPairingLifetime)

def nodeFromCardBytes (bytes : List UInt8) : Except EngineError NodeId :=
  match NodeId.fromSlice (slice bytes 5 37) with
  | some node => .ok node
  | none => .error (.route "card has no node id")

def verifyCard (P : Primitives) (bytes : List UInt8) (ctx : VerifyContext) :
    Except EngineError Card :=
  (Card.verify P bytes ctx).mapError fun violation => .route violation.text

/-- A persisted card is verified again at the serial and the time it was accepted. -/
def verifyRoute (P : Primitives) (route : Route) : Except EngineError (NodeId × Card) := do
  deny (route.routeId = "") (.route "route id must not be empty")
  let node ← nodeFromCardBytes route.card
  deny (route.cardSerial = 0) (.route "card serial must be positive")
  let card ← verifyCard P route.card
    (((VerifyContext.new route.cardVerifiedAt).expecting node).afterSerial (route.cardSerial - 1))
  deny (card.serial ≠ route.cardSerial) (.route "card serial does not match retained serial")
  return (node, card)

def routeCard (frame : List UInt8) : Except EngineError (List UInt8) :=
  if frame.length < routePrefixBytes ∨ frame.take 4 ≠ routeMagic then
    .error (.route "server returned a malformed route frame")
  else
    let length := ofBe (slice frame 4 6)
    if length > maxCardBytes ∨ frame.length ≠ routePrefixBytes + length then
      .error (.route "server returned a malformed route frame")
    else .ok (frame.drop routePrefixBytes)

structure RouteState where
  node : NodeId
  serial : UInt64
  card : Card
  session : Option ℕ

inductive StreamCall where
  | openSocket (url : VirtualUrl)
  | requestJson
  | retireRoute
  | finalizeRoute
deriving DecidableEq

structure Dialling where
  call : StreamCall
  routeId : String
  session : ℕ

inductive EnrolmentStage where
  | dialling
  | connected
  -- The answer was checked and the provisional session closed.
  | answered (card : Card) (secret : Block 32) (verifiedAt : UInt64)

structure Enrolment where
  routeId : String
  serverNode : NodeId
  offered : Card
  registration : NodeId
  stage : EnrolmentStage

inductive Answer where
  | failed (error : EngineError)
  | frame (secret : Block 32) (bytes : List UInt8) (now : UInt64)

inductive GiveUp where
  | stopped
  | timedOut
  | dropped

structure Engine where
  endpoint : Endpoint
  stop : Bool
  stopped : Bool
  routes : Table String RouteState
  lock : Option Dialling
  enrolments : Table ℕ Enrolment
  -- Sessions a call has taken out of the table and is about to close.
  closing : List ℕ
  -- Dials whose call is gone.
  abandoned : List ℕ

inductive EngineEvent where
  -- Something of the endpoint that no call of the engine asks for.
  | endpoint (event : EndpointEvent)
  | stream (call : StreamCall) (routeId : String)
  | giveUp (why : GiveUp)
  | upsertRoute (route : Route)
  | removeRoute (routeId : String)
  | pairRoute (bundle : PairingBundle) (now : UInt64) (draw : NodeId)
  | pairingAnswered (session : ℕ) (answer : Answer)
  | pairingStopped (session : ℕ)
  | installPairing (session : ℕ)
  | closeSession (session : ℕ)
  | reannounce
  | stop
  | stopRoutes
  | closeEndpoint
  | wipe

inductive Reply where
  | refused (error : EngineError)
  | installed (route : Route)
  | removed (routeId : String)
  | wiped
  | stream (call : StreamCall) (routeId : String) (session : ℕ)
deriving DecidableEq

structure EngineTurn where
  next : Engine
  events : List EndpointEvent
  reply : Option Reply := none

def TagBook.Op.isCleanup : TagBook.Op → Bool
  | .removePairing _ | .removeLivePairing _ _ | .prune _ => true
  | _ => false

/-- What happens to an endpoint beside the calls of the engine, which alone dial and change
its routes, and which never accept. -/
def EndpointEvent.isBeside : EndpointEvent → Bool
  | .environment (.book op) => op.isCleanup
  | .connect _ _ | .connectPairing _ _ _ _ _ | .incoming _ _ _ | .arrived _ _ => false
  | _ => true

def EndpointEvent.dial : EndpointEvent → Option ℕ
  | .rendezvous session _ _ => some session
  | .dialled session _ => some session
  | _ => none

def StreamCall.check (node : NodeId) : StreamCall → Except EngineError Unit
  | .openSocket url => (validateVirtualUrl url node).mapError fun error => .socket error.text
  | _ => .ok ()

namespace Engine

def stay (e : Engine) : EngineTurn := ⟨e, [], none⟩

def refuse (e : Engine) (error : EngineError) : EngineTurn := ⟨e, [], some (.refused error)⟩

def upsertPaired (node : NodeId) (secret : Block 32) : EndpointEvent :=
  .environment (.book (.upsertPaired node secret))

def removePaired (node : NodeId) : EndpointEvent := .environment (.book (.removePaired node))

def dropRegistration (route : NodeId) : EndpointEvent := .environment (.book (.removePairing route))

/-- The cached session a call takes: `open_socket` and the requests pass over one that has
ended or failed, the two calls that delete a route at the server do not look. -/
def cached (e : Engine) (route : RouteState) : StreamCall → Option ℕ
  | .openSocket _ | .requestJson => route.session.filter e.endpoint.live
  | .retireRoute | .finalizeRoute => route.session

def install (e : Engine) (route : Route) (node : NodeId) (card : Card) (secret : Block 32)
    (dropped : List NodeId) (previous : Option ℕ) (after : List EndpointEvent) : EngineTurn :=
  ⟨{ e with
      routes := e.routes.insert route.routeId ⟨node, route.cardSerial, card, none⟩
      closing := previous.toList ++ e.closing },
    dropped.map removePaired ++ upsertPaired node secret :: after, some (.installed route)⟩

variable (P : Primitives) (hostOf : String → Option String)

def upsertRoute (e : Engine) (route : Route) : EngineTurn :=
  match verifyRoute P route, secret route.pairedRouteSecret with
  | .error error, _ => e.refuse error
  | .ok _, .error error => e.refuse error
  | .ok (node, card), .ok secret =>
    if e.lock.isSome then e.stay
    else if e.stopped then e.refuse .stopped
    else
      match e.routes.lookup route.routeId with
      | none => e.install route node card secret [] none []
      | some existing =>
        if route.cardSerial ≤ existing.serial then
          e.refuse (.route "live card serial must increase")
        else e.install route node card secret [existing.node] existing.session []

def removeRoute (e : Engine) (routeId : String) : EngineTurn :=
  if e.lock.isSome then e.stay
  else if e.stopped then e.refuse .stopped
  else
    match e.routes.lookup routeId with
    | none => e.refuse (.route "route is not installed")
    | some route =>
      ⟨{ e with
          routes := e.routes.erase routeId
          closing := route.session.toList ++ e.closing },
        [removePaired route.node], some (.removed routeId)⟩

def dial (e : Engine) (call : StreamCall) (routeId : String) (card : Card) : EngineTurn :=
  if e.stop then e.refuse .stopped
  else
    let connect := EndpointEvent.connect card.nodeId card.relayUrls
    match (e.endpoint.turn P hostOf connect).outcome with
    | some (.failed reason) => ⟨e, [connect], some (.refused (.transport reason.text))⟩
    | _ =>
      ⟨{ e with lock := some ⟨call, routeId, e.endpoint.socket.inner.nextSession⟩ },
        [connect], none⟩

def streamCall (e : Engine) (call : StreamCall) (routeId : String) : EngineTurn :=
  if e.lock.isSome then e.stay
  else if e.stopped then e.refuse .stopped
  else
    match e.routes.lookup routeId with
    | none => e.refuse (.route "route is not installed")
    | some route =>
      match call.check route.node with
      | .error error => e.refuse error
      | .ok () =>
        match e.cached route call with
        | some session => ⟨e, [], some (.stream call routeId session)⟩
        | none => e.dial P hostOf call routeId route.card

def release (e : Engine) (d : Dialling) (reply : Option Reply) : EngineTurn :=
  ⟨{ e with lock := none, abandoned := d.session :: e.abandoned }, [], reply⟩

def giveUp (e : Engine) (why : GiveUp) : EngineTurn :=
  match e.lock with
  | none => e.stay
  | some d =>
    match why with
    | .stopped => if e.stop then e.release d (some (.refused .stopped)) else e.stay
    | .timedOut =>
      if d.call = .requestJson then
        e.release d (some (.refused (.transport "request timed out during connection")))
      else e.stay
    | .dropped => e.release d none

def readBundle (bundle : PairingBundle) (now : UInt64) :
    Except EngineError (ℕ × Block 16 × NodeId × Card) := do
  deny (bundle.routeId = "") (.route "route id must not be empty")
  let lifetime ← pairingLifetime bundle.expiresAt now
  let secret ← pairingSecret bundle.pairingSecret
  let serverNode ← nodeFromCardBytes bundle.serverCard
  let offered ← verifyCard P bundle.serverCard ((VerifyContext.new now).expecting serverNode)
  return (lifetime, secret, serverNode, offered)

/-- The first half of `pair_route`. A draw that is not new to the book is drawn again. -/
def pairRoute (e : Engine) (bundle : PairingBundle) (now : UInt64) (draw : NodeId) : EngineTurn :=
  match readBundle P bundle now with
  | .error error => e.refuse error
  | .ok (lifetime, secret, serverNode, offered) =>
    if e.lock.isSome then e.stay
    else if e.stopped then e.refuse .stopped
    else if (e.routes.lookup bundle.routeId).any (fun existing => existing.node ≠ serverNode) then
      e.refuse (.route "route id is already bound to another node")
    else if e.endpoint.socket.book.any (fun book => book.unusedRoute draw) = false then e.stay
    else
      let expiresAt := e.endpoint.socket.unixNow + lifetime
      let register := EndpointEvent.environment (.book (.registerPairing draw secret expiresAt))
      if e.stop then ⟨e, [register, dropRegistration draw], some (.refused .stopped)⟩
      else
        let connect :=
          EndpointEvent.connectPairing offered.nodeId offered.relayUrls draw expiresAt true
        match ((e.endpoint.step P hostOf register).turn P hostOf connect).outcome with
        | some (.failed reason) =>
          ⟨e, [register, connect, dropRegistration draw], some (.refused (.transport reason.text))⟩
        | _ =>
          ⟨{ e with
              enrolments := e.enrolments.insert e.endpoint.socket.inner.nextSession
                ⟨bundle.routeId, serverNode, offered, draw, .dialling⟩ },
            [register, connect], none⟩

def setStage (e : Engine) (session : ℕ) (enrolment : Enrolment) (stage : EnrolmentStage) : Engine :=
  { e with enrolments := e.enrolments.insert session { enrolment with stage } }

def dropEnrolment (e : Engine) (session : ℕ) : Engine :=
  { e with enrolments := e.enrolments.erase session }

def closePairing (session : ℕ) : EndpointEvent := .closed session .locallyClosed

def readAnswer (enrolment : Enrolment) : Answer → Except EngineError (Card × Block 32 × UInt64)
  | .failed error => .error error
  | .frame secret bytes now => do
    let cardBytes ← routeCard bytes
    let card ← verifyCard P cardBytes ((VerifyContext.new now).expecting enrolment.serverNode)
    deny (card.serial < enrolment.offered.serial)
      (.route "server returned an older card than the pairing bundle")
    return (card, secret, now)

def pairingAnswered (e : Engine) (session : ℕ) (answer : Answer) : EngineTurn :=
  match e.enrolments.lookup session with
  | some enrolment =>
    match enrolment.stage with
    | .connected =>
      if e.stop then e.stay
      else
        match readAnswer P enrolment answer with
        | .error error =>
          ⟨e.dropEnrolment session, [closePairing session, dropRegistration enrolment.registration],
            some (.refused error)⟩
        | .ok (card, secret, now) =>
          ⟨e.setStage session enrolment (.answered card secret now), [closePairing session], none⟩
    | _ => e.stay
  | none => e.stay

def pairingStopped (e : Engine) (session : ℕ) : EngineTurn :=
  match e.enrolments.lookup session with
  | some enrolment =>
    if e.stop then
      match enrolment.stage with
      | .dialling =>
        ⟨{ e.dropEnrolment session with abandoned := session :: e.abandoned },
          [dropRegistration enrolment.registration], some (.refused .stopped)⟩
      | .connected =>
        ⟨e.dropEnrolment session, [closePairing session, dropRegistration enrolment.registration],
          some (.refused .stopped)⟩
      | .answered _ _ _ => e.stay
    else e.stay
  | none => e.stay

def enrolled (enrolment : Enrolment) (card : Card) (secret : Block 32) (verifiedAt : UInt64) :
    Route :=
  ⟨enrolment.routeId, card.asBytes, secret.toList, card.serial, verifiedAt⟩

def installPairing (e : Engine) (session : ℕ) : EngineTurn :=
  match e.enrolments.lookup session with
  | some enrolment =>
    match enrolment.stage with
    | .answered card secret verifiedAt =>
      let dropped := dropRegistration enrolment.registration
      let refuse (error : EngineError) : EngineTurn :=
        ⟨e.dropEnrolment session, [dropped], some (.refused error)⟩
      let route := enrolled enrolment card secret verifiedAt
      if e.lock.isSome then e.stay
      else if e.stopped then refuse .stopped
      else
        match e.routes.lookup enrolment.routeId with
        | none => (e.dropEnrolment session).install route card.nodeId card secret [] none [dropped]
        | some existing =>
          if existing.node ≠ card.nodeId then
            refuse (.route "route id is already bound to another node")
          else if card.serial < existing.serial then
            refuse (.route "server card serial moved backwards")
          else
            (e.dropEnrolment session).install route card.nodeId card secret [] existing.session
              [dropped]
    | _ => e.stay
  | none => e.stay

/-- The endpoint goes on by itself. A dial whose call is gone goes no further, and one whose
call is told to stop gives way first. -/
def beside (e : Engine) (event : EndpointEvent) : EngineTurn :=
  if event.isBeside = false then e.stay
  else
    match event.dial with
    | none => ⟨e, [event], none⟩
    | some session =>
      let outcome := (e.endpoint.turn P hostOf event).outcome
      if session ∈ e.abandoned then e.stay
      else
        match e.lock.filter fun d => d.session = session, e.enrolments.lookup session with
        | some d, _ =>
          if e.stop then e.stay
          else
            match outcome with
            | some (.connected session) =>
              ⟨{ e with
                  lock := none
                  routes := (e.routes.lookup d.routeId).elim e.routes fun route =>
                    e.routes.insert d.routeId { route with session := some session } },
                [event], some (.stream d.call d.routeId session)⟩
            | some (.failed reason) =>
              ⟨{ e with lock := none }, [event], some (.refused (.transport reason.text))⟩
            | _ => ⟨e, [event], none⟩
        | none, some enrolment =>
          if e.stop then e.stay
          else
            match outcome with
            | some (.pairing session) => ⟨e.setStage session enrolment .connected, [event], none⟩
            | some (.failed reason) =>
              ⟨e.dropEnrolment session, [event, dropRegistration enrolment.registration],
                some (.refused (.transport reason.text))⟩
            | _ => ⟨e, [event], none⟩
        | none, none => ⟨e, [event], none⟩

def sessions (e : Engine) : List ℕ := e.routes.entries.filterMap fun entry => entry.2.session

def turn (e : Engine) : EngineEvent → EngineTurn
  | .endpoint event => e.beside P hostOf event
  | .stream call routeId => e.streamCall P hostOf call routeId
  | .giveUp why => e.giveUp why
  | .upsertRoute route => e.upsertRoute P route
  | .removeRoute routeId => e.removeRoute routeId
  | .pairRoute bundle now draw => e.pairRoute P hostOf bundle now draw
  | .pairingAnswered session answer => e.pairingAnswered P session answer
  | .pairingStopped session => e.pairingStopped session
  | .installPairing session => e.installPairing session
  | .closeSession session =>
    if session ∈ e.closing then
      ⟨{ e with closing := e.closing.erase session }, [.closed session .locallyClosed], none⟩
    else e.stay
  | .reannounce =>
    if e.lock.isSome then e.stay
    else if e.stopped then e.refuse .stopped
    else ⟨e, e.sessions.map .reannounce, none⟩
  | .stop => ⟨{ e with stop := true }, [], none⟩
  -- `stop` takes the lock once the dial under it has given way
  | .stopRoutes =>
    if e.stop = false ∨ e.lock.isSome then e.stay
    else
      ⟨{ e with
          stopped := true
          routes := e.routes.mapValues fun route => { route with session := none }
          closing := e.sessions ++ e.closing }, [], none⟩
  | .closeEndpoint =>
    if e.stopped then
      ⟨e, (e.endpoint.sessions.keys.map fun session => .closed session .locallyClosed) ++
        [.environment .closeRelays], none⟩
    else e.stay
  -- `wipe` has stopped the engine before
  | .wipe =>
    if e.stopped = false ∨ e.lock.isSome then e.stay
    else
      ⟨{ e with routes := ∅ }, e.routes.entries.map fun entry => removePaired entry.2.node,
        some .wiped⟩

def events (e : Engine) (event : EngineEvent) : List EndpointEvent := (e.turn P hostOf event).events

def step (e : Engine) (event : EngineEvent) : Engine :=
  let t := e.turn P hostOf event
  { t.next with endpoint := run (Endpoint.step P hostOf) e.endpoint t.events }

abbrev trace (start : Engine) (es : List EngineEvent) : List EndpointEvent :=
  Runs.trace (step P hostOf) (events P hostOf) start es

section Start

def loadRoute (loaded : Table String RouteState × Table NodeId (Block 32)) (route : Route) :
    Except EngineError (Table String RouteState × Table NodeId (Block 32)) := do
  let (node, card) ← verifyRoute P route
  deny (route.routeId ∈ loaded.1) (.config "duplicate route id")
  let secret ← secret route.pairedRouteSecret
  return (loaded.1.insert route.routeId ⟨node, route.cardSerial, card, none⟩,
    loaded.2.insert node secret)

def endpointConfig (config : EngineConfig) (seed : Block 32) (paired : Table NodeId (Block 32)) :
    EndpointConfig :=
  { EndpointConfig.new (TransportKey.nodeId P ⟨seed⟩) with
    relays := config.relayUrls
    allowDirect := config.allowDirect
    rendezvousTimeout := 60 * second
    pairedRoutes := some paired }

/-- `Engine::start` on a host whose sockets open. -/
def start (udp : Bool) (config : EngineConfig) (now unixNow : ℕ) : Except EngineError Engine :=
  match block? 32 config.transportSeed with
  | none => .error (.config "transport seed must be 32 bytes")
  | some seed => do
    let (routes, paired) ← config.routes.foldlM (loadRoute P) (∅, ∅)
    return {
      endpoint := Endpoint.openOn udp (endpointConfig P config seed paired) now unixNow
      stop := false
      stopped := false
      routes := routes
      lock := none
      enrolments := ∅
      closing := []
      abandoned := [] }

end Start

variable {P hostOf}

theorem endpoint_run (start : Engine) (es : List EngineEvent) :
    (run (step P hostOf) start es).endpoint =
      run (Endpoint.step P hostOf) start.endpoint (start.trace P hostOf es) :=
  component_run Engine.endpoint (fun _ _ => rfl) start es

end Engine

end ForgeswornLink
