import ForgeswornLink.Probe
import ForgeswornLink.RelayClient

/-!
# The tables of the path socket

Everything behind the one lock of the path socket, spec 4.1 to 4.3: what is
known of each peer, which session holds its slot, and the indices from a
synthetic address, a proved address and a probe key id back to the peer. Each
operation is what one call does under the lock. Sends on the UDP socket come
back as a list. A missing peer reads as one with nothing in it.
-/

namespace ForgeswornLink

def directFresh : ℕ := 15 * second
def probeTimeout : ℕ := 5 * second
def counterProbeInterval : ℕ := second
def pongInterval : ℕ := second
def learnedTtl : ℕ := 10 * second

structure Proven where
  addr : SocketAddr
  provedAt : ℕ
deriving DecidableEq

structure Peer where
  candidates : List SocketAddr := []
  updates : ℕ := 0
  -- Nonces this side issued, with the address probed and when.
  pending : Table Nonce (SocketAddr × ℕ) := ∅
  lastPing : Table SocketAddr ℕ := ∅
  lastPong : Table SocketAddr ℕ := ∅
  learned : Table SocketAddr ℕ := ∅
  probeKey : Option (ProbeKeyId × ProbeKey) := none
  direct : Option Proven := none
  driver : Option ℕ := none

/-- What a new session leaves of a peer's path state: the key and the route. -/
def Peer.clean (e : Peer) : Peer :=
  { e with
    candidates := [], learned := ∅, pending := ∅, lastPing := ∅, lastPong := ∅, direct := none }

def Peer.prove (e : Peer) (nonce : Nonce) (source : SocketAddr) (now : ℕ) : Peer :=
  { e with
    pending := e.pending.erase nonce
    direct := some ⟨source, now⟩
    learned := e.learned.erase source }

/-- What is handed to the UDP socket, and by which call. -/
inductive UdpSend where
  | ping (peer : NodeId) (dest : SocketAddr) (probe : Probe) (key : ProbeKey)
  | pong (peer : NodeId) (dest : SocketAddr) (probe : Probe) (key : ProbeKey)
  | reflect (dest : SocketAddr) (nonce : Nonce)
  | quic (peer : NodeId) (dest : SocketAddr) (contents : List UInt8)
deriving DecidableEq

def UdpSend.wire (P : Primitives) : UdpSend → SocketAddr × List UInt8
  | .ping _ dest probe key | .pong _ dest probe key => (dest, probe.sealProbe P key)
  | .reflect dest nonce => (dest, reflectRequest nonce)
  | .quic _ dest contents => (dest, contents)

structure Inner where
  peers : Table NodeId Peer := ∅
  sessions : Table NodeId ℕ := ∅
  nextSession : ℕ := 0
  -- The sessions whose `superseded` handle holds a permit.
  notified : List ℕ := []
  bySynthetic : Table SocketAddr NodeId := ∅
  byDirect : Table SocketAddr NodeId := ∅
  byKeyId : Table ProbeKeyId NodeId := ∅

namespace Inner

def entry (i : Inner) (p : NodeId) : Peer := (i.peers.lookup p).getD {}

def modify (i : Inner) (p : NodeId) (f : Peer → Peer) : Inner :=
  { i with peers := i.peers.insert p (f (i.entry p)) }

def modifyExisting (i : Inner) (p : NodeId) (f : Peer → Peer) : Inner :=
  if p ∈ i.peers then i.modify p f else i

theorem entry_modify (i : Inner) (p q : NodeId) (f : Peer → Peer) :
    (i.modify p f).entry q = if q = p then f (i.entry p) else i.entry q := by
  simp only [entry, modify, Table.lookup_insert_ite]
  split_ifs <;> rfl

theorem entry_modifyExisting (i : Inner) (p q : NodeId) {f : Peer → Peer} (hf : f {} = {}) :
    (i.modifyExisting p f).entry q = if q = p then f (i.entry p) else i.entry q := by
  unfold modifyExisting
  split_ifs with hmem hq hq
  · rw [entry_modify, if_pos hq]
  · rw [entry_modify, if_neg hq]
  · have hnone : i.peers.lookup p = none := AList.lookup_eq_none.mpr hmem
    rw [hq, entry, hnone, Option.getD_none, hf]
  · rfl

def registerPeer (P : Primitives) (i : Inner) (p : NodeId) : Inner :=
  let i := i.modify p id
  { i with bySynthetic := i.bySynthetic.insert (p.syntheticAddr P) p }

def setPeerCandidates (i : Inner) (p : NodeId) (usable : List SocketAddr) : Inner :=
  i.modify p fun e => { e with candidates := usable, updates := e.updates + 1 }

def unindex (i : Inner) : Option Proven → Inner
  | some proven => { i with byDirect := i.byDirect.erase proven.addr }
  | none => i

def dropDirect (i : Inner) (p : NodeId) (session : ℕ) : Inner :=
  if i.sessions.lookup p ≠ some session then i
  else (i.modifyExisting p fun e => { e with direct := none }).unindex (i.entry p).direct

def beginSession (i : Inner) (p : NodeId) : Inner × ℕ :=
  let taken := { i with
    nextSession := i.nextSession + 1
    sessions := i.sessions.insert p i.nextSession
    notified := match i.sessions.lookup p with
      | some previous => i.notified ++ [previous]
      | none => i.notified }
  ((taken.modifyExisting p Peer.clean).unindex (i.entry p).direct, i.nextSession)

def endSession (i : Inner) (p : NodeId) (session : ℕ) : Inner :=
  if i.sessions.lookup p = some session then { i with sessions := i.sessions.erase p } else i

def registerProbeKey (i : Inner) (p : NodeId) (keyId : ProbeKeyId) (key : ProbeKey) : Inner :=
  let byKeyId := match (i.entry p).probeKey with
    | some previous => i.byKeyId.erase previous.1
    | none => i.byKeyId
  { i.modify p fun e => { e with probeKey := some (keyId, key) } with
    byKeyId := byKeyId.insert keyId p }

def unregisterProbeKey (i : Inner) (keyId : ProbeKeyId) : Inner :=
  match i.byKeyId.lookup keyId with
  | none => i
  | some p =>
    let i := { i with byKeyId := i.byKeyId.erase keyId }
    if (i.entry p).probeKey.any (fun held => held.1 == keyId) then
      i.modifyExisting p fun e => { e with probeKey := none }
    else i

def probeTargets (i : Inner) (p : NodeId) (now : ℕ) : List SocketAddr :=
  let e := i.entry p
  e.learned.entries.foldl
    (fun out seen => if now - seen.2 < learnedTtl ∧ seen.1 ∉ out then out ++ [seen.1] else out)
    e.candidates

def pruneLearned (i : Inner) (p : NodeId) (now : ℕ) : Inner :=
  i.modifyExisting p fun e =>
    { e with learned := e.learned.retain fun _ seen => now - seen < learnedTtl }

def prunePending (i : Inner) (p : NodeId) (now : ℕ) : Inner :=
  i.modify p fun e =>
    { e with pending := e.pending.retain fun _ ping => now - ping.2 < probeTimeout }

/-- A ping is issued only under a session's probe key; the draw is the nonce
and whether the socket took the datagram. -/
def sendPing (i : Inner) (udp : Bool) (p : NodeId) (addr : SocketAddr) (now : ℕ)
    (draw : Nonce × Bool) : Inner × List UdpSend × Bool :=
  if udp = false then (i, [], false)
  else
    match (i.entry p).probeKey with
    | none => (i.modify p id, [], false)
    | some (keyId, key) =>
      let i := i.modify p fun e => { e with
        pending := e.pending.insert draw.1 (addr, now)
        lastPing := e.lastPing.insert addr now }
      (i, [.ping p addr ⟨probePing, keyId, draw.1⟩ key], draw.2)

def sendPings (udp : Bool) (p : NodeId) (now : ℕ) :
    Inner → (ℕ → Nonce × Bool) → List SocketAddr → Inner × List UdpSend × ℕ
  | i, _, [] => (i, [], 0)
  | i, draws, addr :: rest =>
    let (i, out, ok) := i.sendPing udp p addr now (draws 0)
    let (i, outs, sent) := sendPings udp p now i (fun k => draws (k + 1)) rest
    (i, out ++ outs, if ok then sent + 1 else sent)

def sendProbes (i : Inner) (udp : Bool) (p : NodeId) (now : ℕ)
    (draws : ℕ → Nonce × Bool) : Inner × List UdpSend × ℕ :=
  let i := (i.prunePending p now).pruneLearned p now
  sendPings udp p now i draws (i.probeTargets p now)

def probeSession (i : Inner) (keyId : ProbeKeyId) : Option (NodeId × ProbeKey) :=
  match i.byKeyId.lookup keyId with
  | none => none
  | some p => (i.entry p).probeKey.map fun held => (p, held.2)

def pingDue (e : Peer) (source : SocketAddr) (now : ℕ) : Bool × Bool :=
  let answer := (e.lastPong.lookup source).all fun sent => pongInterval ≤ now - sent
  let proved := e.direct.any fun d => d.addr = source ∧ now - d.provedAt < directFresh
  let recent := (e.lastPing.lookup source).any fun sent => now - sent < counterProbeInterval
  (answer, !proved && !recent)

def notePing (e : Peer) (source : SocketAddr) (now : ℕ) (answer : Bool) : Peer :=
  { e with
    lastPong := if answer then e.lastPong.insert source now else e.lastPong
    learned := if source ∈ e.candidates then e.learned else e.learned.insert source now }

def acceptPong (i : Inner) (p : NodeId) (nonce : Nonce) (source : SocketAddr) (now : ℕ) : Inner :=
  if ((i.entry p).pending.lookup nonce).isNone then i
  else
    { i.modify p fun e => e.prove nonce source now with
      byDirect := i.byDirect.insert source p }

/-- A ping is answered at most once a second for each source, and probed back
until this side has its own fresh proof. -/
def handlePing (i : Inner) (p : NodeId) (key : ProbeKey) (probe : Probe) (source : SocketAddr)
    (now : ℕ) (draw : Nonce × Bool) : Inner × List UdpSend :=
  let (answer, probeBack) := pingDue (i.entry p) source now
  let i := i.modify p fun e => notePing e source now answer
  let pong := if answer then
    [UdpSend.pong p source ⟨probePong, probe.keyId, probe.nonce⟩ key] else []
  if probeBack then
    let (i, out, _) := i.sendPing true p source now draw
    (i, pong ++ out)
  else (i, pong)

def handleProbe (i : Inner) (udp : Bool) (p : NodeId) (key : ProbeKey) (probe : Probe)
    (source : SocketAddr) (now : ℕ) (draw : Nonce × Bool) : Inner × List UdpSend :=
  if udp = false then (i, [])
  else if probe.kind = probePing then i.handlePing p key probe source now draw
  else if probe.kind = probePong then (i.acceptPong p probe.nonce source now, [])
  else (i, [])

def copyRelayRoute (i : Inner) (route p : NodeId) : Inner :=
  i.modify p fun e => { e with driver := (i.entry route).driver }

def setDriver (i : Inner) (p : NodeId) (driver : ℕ) : Inner :=
  i.modify p fun e => { e with driver := some driver }

def heardOn (i : Inner) (p : NodeId) (driver : ℕ) : Inner :=
  i.modify p fun e => if e.driver ≠ some driver then { e with driver := some driver } else e

end Inner

end ForgeswornLink
