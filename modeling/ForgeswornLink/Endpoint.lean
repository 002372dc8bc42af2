import ForgeswornLink.Session
import ForgeswornLink.Lib.Expansion

/-!
# The endpoint

The path socket with the calls that dial, the accept loop and the sessions that
run over it. A call that has taken a slot and waits, for a relay or for a
handshake, stands in a table until the wait is over. What QUIC and TLS decide
comes in with the event: whether a handshake failed, which key was presented,
what both ends exported. Each event makes its calls on the path socket in the
order of the source, so a run of the endpoint is a run of the socket.

The tasks that close a pairing session after a minute and take its live route out
of the book are the events `closed` and the book operations of the environment.
-/

namespace ForgeswornLink
open Runs ByteString

/-- The events of the socket that no code of the endpoint calls for: time, the
network, the relay drivers, QUIC's own sends and the shell's book. -/
def Event.isEnvironment : Event → Bool
  | .tick _ | .clock _ | .queryReflector _ _ | .driver _ _ | .closeRelays | .book _
  | .recvRelay _ _ _ | .recvDirect _ _ _ | .trySend _ _ _ | .pollRecv _ => true
  | _ => false

def classify : ConnectionError → FailReason
  | .timedOut => .timeout
  | .transportError code => if 0x100 ≤ code ∧ code ≤ 0x1ff then .identity else .relay
  | _ => .relay

/-- A call of `connect` or `connect_pairing` that has taken its slot. -/
structure Dial where
  peer : NodeId
  -- Whom the datagrams are addressed to: the peer, or the pairing route.
  route : NodeId
  pairing : Bool
  driver : ℕ
  since : ℕ
  -- The connection, once QUIC has started.
  conn : Option ℕ

/-- A connection of the accept loop whose handshake is under way. An ordinary
one has taken the slot of its route, a pairing one none yet. -/
structure Arrival where
  route : NodeId
  session : Option ℕ

/-- What QUIC makes of a connection it is asked to start or to accept. -/
inductive Admission where
  | started
  | refused
  -- No TLS configuration could be built.
  | noConfig
deriving DecidableEq

inductive Handshake where
  | failed (error : ConnectionError)
  | done (presented : Option NodeId) (keys : Option (ProbeKeyId × ProbeKey))
      (routeSecret : Option (Block 16)) (generation : ℕ)

inductive Outcome where
  | failed (reason : FailReason)
  | connected (session : ℕ)
  | pinned (session : ℕ)
  | pairing (session : ℕ)
deriving DecidableEq

structure EndpointConfig where
  nodeId : NodeId
  relays : List String
  allowDirect : Bool
  bind : SocketAddr
  reflector : Option SocketAddr
  probeDelay : ℕ
  rendezvousTimeout : ℕ
  rendezvous : Option (Table NodeId RendezvousPeer)
  pairedRoutes : Option (Table NodeId (Block 32))

def EndpointConfig.new (nodeId : NodeId) : EndpointConfig where
  nodeId := nodeId
  relays := []
  allowDirect := true
  bind := .v4 (List.Vector.replicate 4 0) 0
  reflector := none
  probeDelay := 0
  rendezvousTimeout := 30 * second
  rendezvous := none
  pairedRoutes := none

structure Endpoint where
  nodeId : NodeId
  allowDirect : Bool
  probeDelay : ℕ
  rendezvousTimeout : ℕ
  socket : PathSocket
  dials : Table ℕ Dial
  arrivals : Table ℕ Arrival
  sessions : Table ℕ Session

inductive EndpointEvent where
  | environment (e : Event)
  | connect (peer : NodeId) (relays : List String)
  -- The registration handle is its route and expiry, and whether it is of this endpoint's book.
  | connectPairing (peer : NodeId) (relays : List String) (route : NodeId) (expiresAt : ℕ)
      (belongs : Bool)
  -- A dial looks whether its relay is ready; QUIC then starts as `conn`.
  | rendezvous (session : ℕ) (conn : ℕ) (admission : Admission)
  | dialled (session : ℕ) (handshake : Handshake)
  | incoming (remote : SocketAddr) (conn : ℕ) (admission : Admission)
  | arrived (conn : ℕ) (handshake : Handshake)
  | drive (session : ℕ) (wake : Wake) (nonce : Nonce) (draws : ℕ → Nonce × Bool)
  | control (session : ℕ) (message : Control)
  | controlSent (session : ℕ)
  | requestDirect (session : ℕ)
  | reannounce (session : ℕ)
  | closed (session : ℕ) (reason : ConnectionError)

structure Turn where
  next : Endpoint
  calls : List Event
  outcome : Option Outcome := none

namespace Endpoint

def bookOf (config : EndpointConfig) : Option TagBook :=
  if config.rendezvous.isSome ∨ config.pairedRoutes.isSome then
    some (TagBook.withPaired (config.rendezvous.getD ∅) (config.pairedRoutes.getD ∅))
  else none

/-- `Endpoint::open`; in a browser there is no UDP socket. The reflector is asked by an event. -/
def openOn (udp : Bool) (config : EndpointConfig) (now unixNow : ℕ) : Endpoint where
  nodeId := config.nodeId
  allowDirect := config.allowDirect
  probeDelay := config.probeDelay
  rendezvousTimeout := config.rendezvousTimeout
  socket := PathSocket.assemble config.nodeId udp config.bind config.relays (bookOf config)
    config.reflector now unixNow
  dials := ∅
  arrivals := ∅
  sessions := ∅

def stay (e : Endpoint) : Turn := ⟨e, [], none⟩

def fail (e : Endpoint) (calls : List Event) (reason : FailReason) : Turn :=
  ⟨e, calls, some (.failed reason)⟩

def dropDial (e : Endpoint) (session : ℕ) : Endpoint := { e with dials := e.dials.erase session }

def dropArrival (e : Endpoint) (conn : ℕ) : Endpoint := { e with arrivals := e.arrivals.erase conn }

def setSession (e : Endpoint) (session : ℕ) (s : Session) : Endpoint :=
  { e with sessions := e.sessions.insert session s }

def connect (e : Endpoint) (peer : NodeId) (relays : List String) : Turn :=
  if peer = e.nodeId then e.fail [] .identity
  else if e.socket.book.any (fun book => !book.contains peer) then e.fail [] .rendezvous
  else
    let dial : Dial :=
      ⟨peer, peer, false, (e.socket.relay.driverFor relays).2, e.socket.now, none⟩
    ⟨{ e with dials := e.dials.insert e.socket.inner.nextSession dial },
      [.registerPeer peer, .beginSession peer, .setPeerRelays peer relays], none⟩

def pairingActive (e : Endpoint) (route : NodeId) : Bool :=
  e.socket.book.any fun book => (book.pairingActive route e.socket.unixNow).2

def pruneCalls (e : Endpoint) : List Event := [.book (.prune e.socket.unixNow)]

def connectPairing (e : Endpoint) (peer : NodeId) (relays : List String) (route : NodeId)
    (expiresAt : ℕ) (belongs : Bool) : Turn :=
  if peer = e.nodeId then e.fail [] .identity
  else if e.socket.book.isNone then e.fail [] .rendezvous
  else if belongs = false ∨ expiresAt ≤ e.socket.unixNow then e.fail [] .rendezvous
  else if e.pairingActive route = false ∨ route = e.nodeId then e.fail e.pruneCalls .rendezvous
  else
    let dial : Dial :=
      ⟨peer, route, true, (e.socket.relay.driverFor relays).2, e.socket.now, none⟩
    ⟨{ e with dials := e.dials.insert e.socket.inner.nextSession dial },
      e.pruneCalls ++ [.registerPeer route, .registerPeer peer, .beginSession peer,
        .setPeerRelays route relays, .copyRelayRoute route peer], none⟩

def failDial (e : Endpoint) (session : ℕ) (dial : Dial) (calls : List Event) (reason : FailReason) :
    Turn :=
  (e.dropDial session).fail (calls ++ [.endSession dial.peer session]) reason

def rendezvous (e : Endpoint) (session conn : ℕ) (admission : Admission) : Turn :=
  match e.dials.lookup session with
  | none => e.stay
  | some dial =>
    if dial.conn.isSome then e.stay
    else
      match (e.socket.relay.driver dial.driver).map RelayDriver.status with
      | some (.up _) =>
        match admission with
        | .started =>
          ⟨{ e with dials := e.dials.insert session { dial with conn := some conn } }, [], none⟩
        | .refused => e.failDial session dial [] .relay
        -- the error returns at once, and the slot stays taken
        | .noConfig => (e.dropDial session).fail [] .identity
      | some .superseded => e.failDial session dial [] .superseded
      | some .failed => e.failDial session dial [] .relay
      | _ =>
        if dial.since + e.rendezvousTimeout ≤ e.socket.now then e.failDial session dial [] .timeout
        else e.stay

variable (P : Primitives) (hostOf : String → Option String)

def startSession (e : Endpoint) (calls : List Event) (peer : NodeId) (id conn : ℕ)
    (allowDirect : Bool) (probeDelay : ℕ) (keys : Option (ProbeKeyId × ProbeKey))
    (outcome : Outcome) : Turn :=
  let (s, started) :=
    Session.start (PathSocket.after P hostOf e.socket calls) peer id conn allowDirect
      probeDelay keys
  ⟨e.setSession id s, calls ++ started, some outcome⟩

/-- `promote_pairing_route`: whether the live route could be installed, and the call that does. -/
def promote (e : Endpoint) (route : NodeId) (secret : Option (Block 16)) (generation : ℕ) :
    List Event × Option FailReason :=
  match secret, e.socket.book with
  | none, _ => ([], some .relay)
  | some _, none => ([], some .rendezvous)
  | some secret, some book =>
    ([.book (.promotePairing route secret generation e.socket.unixNow)],
      if (book.promotePairing route secret generation e.socket.unixNow).2 then none
      else some .rendezvous)

def dialled (e : Endpoint) (session : ℕ) (handshake : Handshake) : Turn :=
  match e.dials.lookup session with
  | none => e.stay
  | some dial =>
    match dial.conn with
    | none => e.stay
    | some conn =>
      match handshake with
      | .failed error => e.failDial session dial [] (classify error)
      | .done _ keys secret generation =>
        if dial.pairing then
          match e.promote dial.route secret generation with
          | (calls, some reason) => e.failDial session dial calls reason
          | (calls, none) =>
            (e.dropDial session).startSession P hostOf calls dial.peer session conn false 0 keys
              (.pairing session)
        else
          (e.dropDial session).startSession P hostOf [] dial.peer session conn e.allowDirect
            e.probeDelay keys (.connected session)

/-- The accept loop takes a connection. Its route is the peer its source address
names; without an admission for it the slot is taken before the handshake. -/
def incoming (e : Endpoint) (remote : SocketAddr) (conn : ℕ) (admission : Admission) : Turn :=
  match e.socket.inner.bySynthetic.lookup remote with
  | none => e.stay
  | some route =>
    let read := if e.socket.book.isSome then e.pruneCalls else []
    if e.pairingActive route then
      match admission with
      | .started => ⟨{ e with arrivals := e.arrivals.insert conn ⟨route, none⟩ }, read, none⟩
      | .refused => ⟨e, read, none⟩
      | .noConfig => e.fail read .identity
    else
      let session := e.socket.inner.nextSession
      let taken := read ++ [.beginSession route]
      match admission with
      | .started =>
        ⟨{ e with arrivals := e.arrivals.insert conn ⟨route, some session⟩ }, taken, none⟩
      | .refused => ⟨e, taken ++ [.endSession route session], none⟩
      -- the error returns at once, and the slot stays taken
      | .noConfig => e.fail taken .identity

def release (arrival : Arrival) : List Event :=
  match arrival.session with
  | some session => [.endSession arrival.route session]
  | none => []

def arrived (e : Endpoint) (conn : ℕ) (handshake : Handshake) : Turn :=
  match e.arrivals.lookup conn with
  | none => e.stay
  | some arrival =>
    let e := e.dropArrival conn
    match handshake with
    | .failed _ | .done none _ _ _ => ⟨e, release arrival, none⟩
    | .done (some presented) keys secret generation =>
      match arrival.session with
      | none =>
        if presented = e.nodeId then e.stay
        else
          match e.promote arrival.route secret generation with
          | (calls, some _) => ⟨e, calls, none⟩
          | (calls, none) =>
            let session := e.socket.inner.nextSession
            e.startSession P hostOf
              (calls ++ [.registerPeer presented, .copyRelayRoute arrival.route presented,
                .beginSession presented])
              presented session conn false 0 keys (.pairing session)
      | some session =>
        if presented ≠ arrival.route then
          e.fail [.endSession arrival.route session] .identity
        else
          e.startSession P hostOf [] arrival.route session conn e.allowDirect e.probeDelay keys
            (.pinned session)

def onSession (e : Endpoint) (session : ℕ) (f : Session → Session × List Event) : Turn :=
  match e.sessions.lookup session with
  | none => e.stay
  | some s => ⟨e.setSession session (f s).1, (f s).2, none⟩

def turn (e : Endpoint) : EndpointEvent → Turn
  | .environment event => if event.isEnvironment then ⟨e, [event], none⟩ else e.stay
  | .connect peer relays => e.connect peer relays
  | .connectPairing peer relays route expiresAt belongs =>
    e.connectPairing peer relays route expiresAt belongs
  | .rendezvous session conn admission => e.rendezvous session conn admission
  | .dialled session handshake => e.dialled P hostOf session handshake
  | .incoming remote conn admission =>
    if conn ∈ e.arrivals then e.stay else e.incoming remote conn admission
  | .arrived conn handshake => e.arrived P hostOf conn handshake
  | .drive session wake nonce draws =>
    e.onSession session fun s => s.drive e.socket wake nonce draws
  | .control session message =>
    e.onSession session fun s => if s.closed.isNone then s.receiveControl message else (s, [])
  | .controlSent session =>
    e.onSession session fun s => ({ s with requests := s.requests.tail }, [])
  | .requestDirect session => e.onSession session fun s => (s.requestDirect, [])
  | .reannounce session => e.onSession session fun s => (s.reannounce, [])
  | .closed session reason => e.onSession session fun s => (s.closeWith reason, [])

def calls (e : Endpoint) (event : EndpointEvent) : List Event := (e.turn P hostOf event).calls

def step (e : Endpoint) (event : EndpointEvent) : Endpoint :=
  let t := e.turn P hostOf event
  { t.next with socket := PathSocket.after P hostOf e.socket t.calls }

abbrev trace (start : Endpoint) (es : List EndpointEvent) : List Event :=
  Runs.trace (step P hostOf) (calls P hostOf) start es

variable {P hostOf}

theorem socket_run (start : Endpoint) (es : List EndpointEvent) :
    (run (step P hostOf) start es).socket =
      PathSocket.after P hostOf start.socket (start.trace P hostOf es) :=
  component_run Endpoint.socket (fun _ _ => rfl) start es

end Endpoint

end ForgeswornLink
