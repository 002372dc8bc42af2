import ForgeswornLink.Paths
import ForgeswornLink.Lib.Runs

/-!
# The path socket as a machine

The socket QUIC drives, with its tables, its relay pool, its rendezvous book and
both clocks. An event is one call into it, one datagram its receive tasks take,
one step of a relay driver, or the passing of time; what the random source, the
operating system and the network contribute stands in the event. An event that
cannot happen leaves the state as it is. `exec` gives the next state and what
was handed to the UDP socket.
-/

namespace ForgeswornLink
open Runs

def inboundCapacity : ℕ := 512
def receiveBuffer : ℕ := 2048

structure Inbound where
  source : SocketAddr
  data : List UInt8

structure PathSocket where
  nodeId : NodeId
  -- Whether there is a UDP socket; without one the path socket is relay-only.
  udp : Bool
  udpLocal : SocketAddr
  relay : RelayClient
  book : Option TagBook
  inner : Inner
  inbound : List Inbound
  reflexive : Option SocketAddr
  reflectorNonce : Option Nonce
  reflector : Option SocketAddr
  -- The driver whose full queue last refused a send.
  blockedOn : Option ℕ
  now : ℕ
  unixNow : ℕ

inductive UdpResult where
  | ok
  | wouldBlock
  | error
deriving DecidableEq

inductive SendResult where
  | ok
  | wouldBlock
  | invalidInput
  | error
deriving DecidableEq

inductive Poll where
  | pending
  | ready
  | error
deriving DecidableEq

inductive Event where
  | tick (elapsed : ℕ)
  | clock (unix : ℕ)
  | registerPeer (p : NodeId)
  | setPeerCandidates (p : NodeId) (candidates : List SocketAddr)
  | beginSession (p : NodeId)
  | endSession (p : NodeId) (session : ℕ)
  | dropDirect (p : NodeId) (session : ℕ)
  -- The call made by the start of `session`; the number only says which session made it.
  | registerProbeKey (session : ℕ) (p : NodeId) (keyId : ProbeKeyId) (key : ProbeKey)
  | unregisterProbeKey (keyId : ProbeKeyId)
  -- The drive task of `session` takes the permit of its handle.
  | takeNotice (session : ℕ)
  | sendProbes (p : NodeId) (draws : ℕ → Nonce × Bool)
  | queryReflector (reflector : SocketAddr) (nonce : Nonce)
  | requeryReflector (nonce : Nonce)
  | setPeerRelays (p : NodeId) (urls : List String)
  | copyRelayRoute (route p : NodeId)
  | driver (id : ℕ) (e : DriverEvent)
  | closeRelays
  | book (op : TagBook.Op)
  | recvRelay (source : NodeId) (datagram : List UInt8) (driver : ℕ)
  | recvDirect (source : SocketAddr) (data : List UInt8) (draw : Nonce × Bool)
  | trySend (destination : SocketAddr) (contents : List UInt8) (result : UdpResult)
  | pollRecv (slots : ℕ)

namespace PathSocket

def assemble (nodeId : NodeId) (udp : Bool) (udpLocal : SocketAddr) (relays : List String)
    (book : Option TagBook) (reflector : Option SocketAddr) (now unixNow : ℕ) : PathSocket where
  nodeId := nodeId
  udp := udp
  udpLocal := udpLocal
  relay := RelayClient.spawn relays
  book := book
  inner := {}
  inbound := []
  reflexive := none
  reflectorNonce := none
  reflector := reflector
  blockedOn := none
  now := now
  unixNow := unixNow

def canReach (s : PathSocket) (addr : SocketAddr) : Bool :=
  s.udp && s.udpLocal.isIpv4 == addr.isIpv4

def provenDirect (s : PathSocket) (p : NodeId) : Option Proven :=
  if s.udp then (s.inner.entry p).direct else none

def deliver (s : PathSocket) (source : SocketAddr) (data : List UInt8) : PathSocket :=
  if s.inbound.length < inboundCapacity then { s with inbound := s.inbound ++ [⟨source, data⟩] }
  else s

/-- The driver a peer is reached on, with its number: the one noted for it, or home. -/
def relayFor (s : PathSocket) (p : NodeId) : ℕ × RelayDriver :=
  match (s.inner.entry p).driver.bind fun id => (s.relay.driver id).map fun d => (id, d) with
  | some found => found
  | none => (0, s.relay.home)

def setPeerRelays (s : PathSocket) (p : NodeId) (urls : List String) : PathSocket :=
  let (relay, id) := s.relay.driverFor urls
  { s with relay := relay, inner := s.inner.setDriver p id }

def queryReflector (s : PathSocket) (reflector : SocketAddr) (nonce : Nonce) :
    PathSocket × List UdpSend :=
  if s.udp then
    ({ s with reflectorNonce := some nonce }, [.reflect reflector nonce])
  else (s, [])

variable (P : Primitives)

def recvRelay (s : PathSocket) (source : NodeId) (datagram : List UInt8) (driver : ℕ) :
    PathSocket :=
  if (s.relay.driver driver).isSome then
    { s with inner := (s.inner.registerPeer P source).heardOn source driver }.deliver
      (source.syntheticAddr P) datagram
  else s

def recvReflect (s : PathSocket) (data : List UInt8) : PathSocket :=
  match parseReflectReply data with
  | some (nonce, observed) =>
    if s.reflectorNonce = some nonce then
      { s with reflectorNonce := none, reflexive := some observed.unmapIpv6 }
    else s
  | none => s

/-- The direct receive task takes one datagram: a probe, a reflector reply, or
data from a proved address. -/
def recvDirect (s : PathSocket) (source : SocketAddr) (data : List UInt8) (draw : Nonce × Bool) :
    PathSocket × List UdpSend :=
  if s.udp = false then (s, [])
  else
    let source := source.unmapIpv6
    let data := data.take receiveBuffer
    match Probe.peekKeyId data with
    | some keyId =>
      match s.inner.probeSession keyId with
      | none => (s, [])
      | some (p, key) =>
        match Probe.openProbe P data key with
        | none => (s, [])
        | some probe =>
          let (inner, out) := s.inner.handleProbe s.udp p key probe source s.now draw
          ({ s with inner := inner }, out)
    | none =>
      if data.length = reflectReplyBytes ∧ data.take 4 = reflectMagic then (s.recvReflect data, [])
      else
        match s.inner.byDirect.lookup source with
        | some p => (s.deliver (p.syntheticAddr P) data, [])
        | none => (s, [])

variable (hostOf : String → Option String)

def sendRelayed (s : PathSocket) (p : NodeId) (contents : List UInt8) : PathSocket × SendResult :=
  let (id, d) := s.relayFor p
  let (d, book, outcome) := d.trySend P hostOf s.book p contents s.unixNow
  let s := { s with relay := s.relay.setDriver id d, book := book }
  match outcome with
  | .queued | .dropped => ({ s with blockedOn := none }, .ok)
  | .wouldBlock => ({ s with blockedOn := some id }, .wouldBlock)

def trySend (s : PathSocket) (destination : SocketAddr) (contents : List UInt8)
    (result : UdpResult) : PathSocket × List UdpSend × SendResult :=
  if contents.length > maxDatagram then (s, [], .invalidInput)
  else
    match s.inner.bySynthetic.lookup destination with
    | none => (s, [], .ok)
    | some p =>
      match (s.provenDirect p).filter fun proven => s.now - proven.provedAt < directFresh with
      | some proven =>
        (s, [.quic p proven.addr contents], match result with
          | .ok | .wouldBlock => .ok
          | .error => .error)
      | none =>
        let (s, sent) := s.sendRelayed P hostOf p contents
        (s, [], sent)

def hasCapacity (s : PathSocket) : Bool :=
  match s.blockedOn with
  | some id => (s.relay.driver id).all RelayDriver.hasCapacity
  | none => true

def pollWritable (s : PathSocket) (udpReady : Poll) : Poll :=
  if s.udp ∧ udpReady = .pending then .pending
  else if s.udp ∧ udpReady = .error then .error
  else if s.hasCapacity then .ready
  else .pending

def exec (s : PathSocket) : Event → PathSocket × List UdpSend
  | .tick elapsed => ({ s with now := s.now + elapsed }, [])
  | .clock unix => ({ s with unixNow := unix }, [])
  | .registerPeer p => ({ s with inner := s.inner.registerPeer P p }, [])
  | .setPeerCandidates p candidates =>
    let usable := (candidates.map SocketAddr.unmapIpv6).filter s.canReach
    ({ s with inner := s.inner.setPeerCandidates p usable }, [])
  | .beginSession p => ({ s with inner := (s.inner.beginSession p).1 }, [])
  | .endSession p session => ({ s with inner := s.inner.endSession p session }, [])
  | .dropDirect p session => ({ s with inner := s.inner.dropDirect p session }, [])
  | .registerProbeKey _ p keyId key =>
    ({ s with inner := s.inner.registerProbeKey p keyId key }, [])
  | .unregisterProbeKey keyId => ({ s with inner := s.inner.unregisterProbeKey keyId }, [])
  | .takeNotice session =>
    ({ s with inner := { s.inner with notified := s.inner.notified.erase session } }, [])
  | .sendProbes p draws =>
    let (inner, out, _) := s.inner.sendProbes s.udp p s.now draws
    ({ s with inner := inner }, out)
  | .queryReflector reflector nonce => s.queryReflector reflector nonce
  | .requeryReflector nonce =>
    match s.reflector with
    | some reflector => s.queryReflector reflector nonce
    | none => (s, [])
  | .setPeerRelays p urls => (s.setPeerRelays p urls, [])
  | .copyRelayRoute route p => ({ s with inner := s.inner.copyRelayRoute route p }, [])
  | .driver id e => ({ s with relay := s.relay.step s.book s.now id e }, [])
  | .closeRelays => ({ s with relay := s.relay.close }, [])
  | .book op => ({ s with book := s.book.map fun book => book.apply op }, [])
  | .recvRelay source datagram driver => (s.recvRelay P source datagram driver, [])
  | .recvDirect source data draw => s.recvDirect P source data draw
  | .trySend destination contents result =>
    let (s, out, _) := s.trySend P hostOf destination contents result
    (s, out)
  | .pollRecv slots => ({ s with inbound := s.inbound.drop slots }, [])

def step (s : PathSocket) (e : Event) : PathSocket := (s.exec P hostOf e).1

def sends (s : PathSocket) (e : Event) : List UdpSend := (s.exec P hostOf e).2

abbrev after (start : PathSocket) (es : List Event) : PathSocket := run (step P hostOf) start es

theorem after_append (start : PathSocket) (es fs : List Event) :
    after P hostOf start (es ++ fs) = after P hostOf (after P hostOf start es) fs :=
  run_append (step P hostOf) start es fs

end PathSocket

end ForgeswornLink
