import ForgeswornLink.PathSocket

/-!
# A session and its drive task

One QUIC connection to one peer, and the state machine of spec 4.3 that runs
beside it. The connection is known here by a number, by why it was closed if it
was, and by the key material both ends exported from it. `drive` is one pass of
the task's loop: `wake` says which branch of the select was ready, and the calls
the pass makes on the path socket come back in order. A pass that is not ready
changes nothing. A task that has returned is `none`.
-/

namespace ForgeswornLink

def probeRound : ℕ := 5 * second
def probeCooldown : ℕ := 30 * second
def reproveInterval : ℕ := 5 * second
def historyCap : ℕ := 256
def controlQueue : ℕ := 8
def eventCapacity : ℕ := 64
def reflectorGrace : ℕ := 300000000

inductive FailReason where
  | relay
  | rendezvous
  | identity
  | timeout
  | superseded
deriving DecidableEq

inductive PathStatus where
  | idle
  | rendezvous
  | relayed
  | probing
  | direct
  | reconnecting
  | failed (reason : FailReason)
deriving DecidableEq

def PathStatus.isFailed : PathStatus → Bool
  | .failed _ => true
  | _ => false

inductive ConnectionError where
  | versionMismatch
  | transportError (code : ℕ)
  | connectionClosed
  | applicationClosed
  | reset
  | timedOut
  | locallyClosed
  | cidsExhausted
deriving DecidableEq

inductive RoundCause where
  | settleDelay
  | cooldown
  | punchNow
  | requestedHere
deriving DecidableEq

inductive Cause where
  | connect
  | handshakeOk
  | newerSession
  | idleTimeout
  | connectionEnded (error : ConnectionError)
  | relaySlotTaken
  | noRelay
  | relayLost
  | newWelcome (waitedMillis : ℕ)
  | declinedDirect
  | proved (addr : SocketAddr)
  | noCandidates
  | candidates (count : ℕ) (round : RoundCause)
  | probesTimedOut
  | directLost
deriving DecidableEq

structure PathReport where
  status : PathStatus
  relay : Option String
  direct : Option SocketAddr
  since : ℕ
  cause : Cause
deriving DecidableEq

inductive ProbeNow where
  | idle
  | here
  | peer
deriving DecidableEq

inductive Control where
  | candidates (addrs : List SocketAddr)
  | punchNow
  | unknown

inductive ControlSend where
  | candidates
  | punchNow
deriving DecidableEq

structure Drive where
  previousBeforeReconnect : PathStatus
  reconnectSince : Option ℕ
  probeRoundEnds : Option ℕ
  nextProbeAttempt : ℕ
  lastProbeSent : ℕ
  candidatesAnnounced : Bool
  roundCause : RoundCause
  netAlive : Bool
  reannounceAt : Option ℕ
  driver : ℕ
  -- How many of the driver's published statuses this subscription is past.
  read : ℕ
  relayState : RelayStatus

structure Session where
  peer : NodeId
  id : ℕ
  conn : ℕ
  allowDirect : Bool
  probeKeyId : Option ProbeKeyId
  report : PathReport
  history : List PathReport
  probeNow : ProbeNow
  requests : List ControlSend
  punchRequests : ℕ
  closed : Option ConnectionError
  task : Option Drive

def reproveDue (now : ℕ) : ℕ := if reproveInterval ≤ now then now - reproveInterval else now

namespace Drive

def subscribe (t : Drive) (k : PathSocket) (peer : NodeId) : Drive :=
  let (id, d) := k.relayFor peer
  { t with driver := id, read := d.events.length, relayState := d.status }

def start (k : PathSocket) (peer : NodeId) (probeDelay : ℕ) : Drive :=
  subscribe
    { previousBeforeReconnect := .relayed
      reconnectSince := none
      probeRoundEnds := none
      nextProbeAttempt := k.now + probeDelay
      lastProbeSent := reproveDue k.now
      candidatesAnnounced := false
      roundCause := .settleDelay
      netAlive := true
      reannounceAt := none
      driver := 0
      read := 0
      relayState := .connecting } k peer

/-- Receive the next published status; a subscription that fell behind starts
again at the oldest one kept and takes the current status. -/
def receive (t : Drive) (d : RelayDriver) : Option Drive :=
  if t.read + eventCapacity < d.events.length then
    some { t with read := d.events.length - eventCapacity, relayState := d.status }
  else (d.events[t.read]?).map fun next => { t with read := t.read + 1, relayState := next }

def follow (t : Drive) (k : PathSocket) (peer : NodeId) : Drive :=
  if (k.relayFor peer).1 ≠ t.driver then t.subscribe k peer else t

end Drive

inductive Wake where
  | superseded
  | closed
  | relayEvent
  | interfaceChange
  | monitorEnded
  | tick
deriving DecidableEq

namespace Session

def transition (s : Session) (k : PathSocket) (status : PathStatus) (cause : Cause) : Session :=
  let relay := match (k.relayFor s.peer).2.status with
    | .up url => some url
    | _ => none
  let direct := match status with
    | .direct => (k.provenDirect s.peer).map Proven.addr
    | _ => none
  if s.report.status = status then { s with report :=
    { s.report with relay := relay, direct := direct } }
  else
    let report : PathReport := ⟨status, relay, direct, k.now, cause⟩
    { s with
      report := report
      history := if s.history.length < historyCap then s.history ++ [report] else s.history }

/-- `Session::start`: the exported probe key is registered whether or not direct
paths are allowed, and the drive task starts. -/
def start (k : PathSocket) (peer : NodeId) (id conn : ℕ) (allowDirect : Bool) (probeDelay : ℕ)
    (keys : Option (ProbeKeyId × ProbeKey)) : Session × List Event :=
  let relay := match (k.relayFor peer).2.status with
    | .up url => some url
    | _ => none
  let initial : PathReport := ⟨.rendezvous, relay, none, k.now, .connect⟩
  let s : Session :=
    { peer := peer, id := id, conn := conn, allowDirect := allowDirect
      probeKeyId := keys.map Prod.fst
      report := initial, history := [initial], probeNow := .idle, requests := [], punchRequests := 0
      closed := none, task := some (Drive.start k peer probeDelay) }
  (s.transition k .relayed .handshakeOk,
    match keys with
    | some (keyId, key) => [.registerProbeKey id peer keyId key]
    | none => [])

def request (s : Session) (r : ControlSend) : Session :=
  if s.requests.length < controlQueue then { s with requests := s.requests ++ [r] } else s

def requestDirect (s : Session) : Session := { s with probeNow := .here }.request .punchNow

def reannounce (s : Session) : Session := (s.request .candidates).requestDirect

def receiveControl (s : Session) : Control → Session × List Event
  | .candidates addrs => (s, [.setPeerCandidates s.peer addrs])
  | .punchNow => ({ s with punchRequests := s.punchRequests + 1, probeNow := .peer }, [])
  | .unknown => (s, [])

def closeWith (s : Session) (reason : ConnectionError) : Session :=
  { s with closed := s.closed.or (some reason) }

def forgetKey (s : Session) : List Event :=
  match s.probeKeyId with
  | some keyId => [.unregisterProbeKey keyId]
  | none => []

def noteClosed (s : Session) (k : PathSocket) (reason : ConnectionError) : Session :=
  if s.report.status.isFailed then s
  else
    match reason with
    | .locallyClosed | .applicationClosed => s
    | .timedOut => s.transition k (.failed .timeout) .idleTimeout
    | other => s.transition k (.failed .relay) (.connectionEnded other)

def resume (s : Session) (t : Drive) : Session := { s with task := some t }

def finish (s : Session) : Session := { s with task := none }

def prepare (s : Session) (t : Drive) (k : PathSocket) : Session × Drive :=
  let due := t.reannounceAt.any (fun instant => instant ≤ k.now)
  let s := if due then
    { (s.request .candidates).request .punchNow with probeNow := .here } else s
  let t := if due then { t with reannounceAt := none } else t
  let t := match s.probeNow with
    | .idle => t
    | .peer => { t with
        nextProbeAttempt := k.now, roundCause := .punchNow, lastProbeSent := reproveDue k.now }
    | .here => { t with
        nextProbeAttempt := k.now, roundCause := .requestedHere, lastProbeSent := reproveDue k.now }
  ({ s with probeNow := .idle }, t)

def advance (s : Session) (t : Drive) (k : PathSocket) (draws : ℕ → Nonce × Bool) :
    Session × List Event :=
  let candidates := (k.inner.entry s.peer).candidates
  let fresh := (k.provenDirect s.peer).filter fun proven => k.now - proven.provedAt < directFresh
  match s.report.status with
  | .relayed =>
    match fresh with
    | some proven => ((s.transition k .direct (.proved proven.addr)).resume t, [])
    | none =>
      if candidates = [] then
        if t.candidatesAnnounced then (s.resume t, [])
        else
          ((s.transition k .relayed .noCandidates).resume
            { t with candidatesAnnounced := true }, [])
      else if k.now < t.nextProbeAttempt then (s.resume t, [])
      else
        ((s.transition k .probing (.candidates candidates.length t.roundCause)).resume { t with
            roundCause := .cooldown
            probeRoundEnds := some (k.now + probeRound)
            lastProbeSent := k.now },
          [.sendProbes s.peer draws])
  | .probing =>
    match fresh with
    | some proven =>
      ((s.transition k .direct (.proved proven.addr)).resume { t with probeRoundEnds := none }, [])
    | none =>
      let again := 500000000 ≤ k.now - t.lastProbeSent
      let t := if again then { t with lastProbeSent := k.now } else t
      let calls := if again then [Event.sendProbes s.peer draws] else []
      if t.probeRoundEnds.any (fun ends => ends ≤ k.now) then
        ((s.transition k .relayed .probesTimedOut).resume { t with
          probeRoundEnds := none, nextProbeAttempt := k.now + probeCooldown }, calls)
      else (s.resume t, calls)
  | .direct =>
    match fresh with
    | some _ =>
      if reproveInterval ≤ k.now - t.lastProbeSent then
        (s.resume { t with lastProbeSent := k.now }, [.sendProbes s.peer draws])
      else (s.resume t, [])
    | none =>
      ((s.transition k .relayed .directLost).resume
        { t with nextProbeAttempt := k.now + probeCooldown }, [.dropDirect s.peer s.id])
  | _ => (s.resume t, [])

def welcome (s : Session) (t : Drive) (k : PathSocket) : Session × Drive :=
  if s.report.status = .reconnecting then
    let waited := (t.reconnectSince.map fun since => (k.now - since) / 1000000).getD 0
    (s.transition k t.previousBeforeReconnect (.newWelcome waited),
      { t with reconnectSince := none })
  else (s, t)

def stayRelayed (s : Session) (t : Drive) (k : PathSocket) : Session :=
  if s.report.status = .relayed ∧ t.candidatesAnnounced = false then
    (s.transition k .relayed .declinedDirect).resume { t with candidatesAnnounced := true }
  else s.resume t

def relayUp (s : Session) (t : Drive) (k : PathSocket) (draws : ℕ → Nonce × Bool) :
    Session × List Event :=
  let (s, t) := s.welcome t k
  if s.allowDirect = false then (s.stayRelayed t k, [])
  else
    let (s, t) := s.prepare t k
    s.advance t k draws

def relayDown (s : Session) (t : Drive) (k : PathSocket) : Session :=
  if s.report.status ≠ .reconnecting then
    (s.transition k .reconnecting .relayLost).resume
      { t with previousBeforeReconnect := s.report.status, reconnectSince := some k.now }
  else s.resume t

def iterate (s : Session) (t : Drive) (k : PathSocket) (draws : ℕ → Nonce × Bool) :
    Session × List Event :=
  let t := t.follow k s.peer
  if s.report.status.isFailed then (s.finish, [])
  else
    match t.relayState with
    | .superseded => ((s.transition k (.failed .superseded) .relaySlotTaken).finish, [])
    | .failed => ((s.transition k (.failed .relay) .noRelay).finish, [])
    | .reconnecting | .connecting => (s.relayDown t k, [])
    | .up _ => s.relayUp t k draws

/-- One pass of the loop. The superseded branch forgets the key and closes the
connection but does not touch the slot; the closed branch frees the slot. -/
def drive (s : Session) (k : PathSocket) (wake : Wake) (nonce : Nonce) (draws : ℕ → Nonce × Bool) :
    Session × List Event :=
  match s.task with
  | none => (s, [])
  | some t =>
    match wake with
    | .superseded =>
      if s.id ∈ k.inner.notified then
        (((s.transition k (.failed .superseded) .newerSession).closeWith .locallyClosed).finish,
          .takeNotice s.id :: s.forgetKey)
      else (s, [])
    | .closed =>
      match s.closed with
      | some reason => ((s.noteClosed k reason).finish, s.forgetKey ++ [.endSession s.peer s.id])
      | none => (s, [])
    | .relayEvent =>
      match (k.relay.driver t.driver).bind t.receive with
      | some t => s.iterate t k draws
      | none => (s, [])
    | .interfaceChange =>
      if t.netAlive then
        let (s, calls) := s.iterate { t with reannounceAt := some (k.now + reflectorGrace) } k draws
        (s, .requeryReflector nonce :: calls)
      else (s, [])
    | .monitorEnded => s.iterate { t with netAlive := false } k draws
    | .tick => s.iterate t k draws

end Session

end ForgeswornLink
