import ForgeswornLink.Lib.Runs
import ForgeswornLink.Lib.Seats
import ForgeswornLink.RelayClient

/-!
# The relay server

The relay runs one task for each connection, `serve_session`, and the tasks
share a registry under one lock. A session's outbound queue is named by its
session ID. One event is one stretch of a task that touches the registry at most
once: looking up the receivers of a datagram and handing it to each of them are
separate events, and anything may happen in between. A message that arrives
while the task is busy is not read until the task is back in its loop, so an
event that is not the task's next leaves the relay as it is.

The byte budget is a verdict that comes with the frame, and what is written to
the socket changes nothing here but whether the write fails.
-/

namespace ForgeswornLink
open ByteString Runs

def closeReasonSuperseded : UInt16 := 2

def tagEnds : ℕ := 2

def relayAuthDomain : List UInt8 := "forgesworn-link/relay-auth/v1".toUTF8.data.toList ++ [0]

def relayAuthSigningInput (relayHost : String) (challenge : Block 32) : List UInt8 :=
  let host := relayHost.toUTF8.data.toList
  relayAuthDomain ++ toBe 2 (host.length % 2 ^ 16) ++ host ++ challenge.toList

def verifyRelayAuth (P : Primitives) (nodeId : NodeId) (relayHost : String) (challenge : Block 32)
    (signature : Block 64) : Bool :=
  nodeId.verify P (relayAuthSigningInput relayHost challenge) signature

structure RelayConfig where
  hosts : List String
  maxSessions : ℕ
  -- Zero means no cap for one source address.
  maxSessionsPerSource : ℕ

def RelayConfig.default : RelayConfig := ⟨["127.0.0.1"], 1024, 16⟩

inductive Message where
  | binary (bytes : List UInt8)
  | ping
  | pong
  | close
  | other
deriving DecidableEq

def Frame.isClose : Frame → Bool
  | .close _ => true
  | _ => false

def decodeBinary : Message → Option Frame
  | .binary bytes => Frame.decode bytes
  | _ => none

inductive Mode where
  | identity (nodeId : NodeId)
  | tags (current : List Tag)
deriving DecidableEq

def Mode.nodeId? : Mode → Option NodeId
  | .identity nodeId => some nodeId
  | .tags _ => none

theorem Mode.eq_identity {mode : Mode} {nodeId : NodeId} (h : mode.nodeId? = some nodeId) :
    mode = .identity nodeId := by
  cases mode with
  | identity node =>
    cases h
    rfl
  | tags current => cases h

theorem Mode.eq_tags {mode : Mode} (h : mode.nodeId? = none) : ∃ current, mode = .tags current := by
  cases mode with
  | identity node => cases h
  | tags current => exact ⟨current, rfl⟩

/-- Where the task of a session is, once it has its session ID. -/
inductive RelayStage where
  | opening (challenge : Block 32) (first : Message)
  | routing (mode : Mode)
  -- The loop has ended, the clean-up has not run.
  | leaving (mode : Mode)
deriving DecidableEq

def RelayStage.mode? : RelayStage → Option Mode
  | .opening _ _ => none
  | .routing mode => some mode
  | .leaving mode => some mode

def RelayStage.tags? : RelayStage → Option (List Tag)
  | .routing (.tags current) => some current
  | .leaving (.tags current) => some current
  | _ => none

structure RelaySession where
  source : IpAddr
  stage : RelayStage
  queue : List Frame
  -- Receivers found for the frame at hand that have not been tried yet.
  deliveries : List (ℕ × Frame)
deriving DecidableEq

/-- `try_send`: a full queue drops the frame. -/
def RelaySession.enqueue (s : RelaySession) (frame : Frame) : RelaySession :=
  if s.queue.length < maxQueuedFrames then { s with queue := s.queue ++ [frame] } else s

structure Relay where
  sessions : Table NodeId ℕ
  tags : Seats.Chart Tag ℕ
  live : ℕ
  bySource : Table IpAddr ℕ
  nextSessionId : ℕ
  serving : Table ℕ RelaySession
  -- Sources of the connections admitted whose first message is not in.
  arriving : List IpAddr
  -- Sources of the connections that are over but not yet taken off the counters.
  departing : List IpAddr

inductive RelayEvent where
  | accept (source : IpAddr)
  | hangUp (source : IpAddr)
  | arrive (source : IpAddr) (challenge : Block 32) (first : Message)
  | enter (id : ℕ)
  | receive (id : ℕ) (message : Message) (allowed : Bool)
  -- The session hands its frame to the next receiver.
  | deliver (id : ℕ)
  | drain (id : ℕ) (written : Bool)
  -- The relay stops, the session idles, or its socket fails.
  | leave (id : ℕ)
  | cleanUp (id : ℕ)
  | settle (source : IpAddr)

namespace Relay

def start : Relay := ⟨∅, ∅, 0, ∅, 1, ∅, [], []⟩

def put (r : Relay) (id : ℕ) (s : RelaySession) : Relay :=
  { r with serving := r.serving.insert id s }

def alter (r : Relay) (id : ℕ) (f : RelaySession → RelaySession) : Relay :=
  match r.serving.lookup id with
  | none => r
  | some s => r.put id (f s)

def trySend (r : Relay) (target : ℕ) (frame : Frame) : Relay :=
  r.alter target (fun s => s.enqueue frame)

def supersede (r : Relay) (ids : List ℕ) : Relay :=
  ids.foldl (fun r id => r.trySend id (.close closeReasonSuperseded)) r

def registerTags (r : Relay) (id : ℕ) (current next : List Tag) : Relay :=
  let taken := Seats.register tagEnds id current next r.tags
  ({ r with tags := taken.1 } : Relay).supersede taken.2

def setStage (r : Relay) (id : ℕ) (stage : RelayStage) : Relay :=
  r.alter id (fun s => { s with stage := stage })

def finish (r : Relay) (id : ℕ) (s : RelaySession) : Relay :=
  { r with serving := r.serving.erase id, departing := r.departing ++ [s.source] }

def accept (config : RelayConfig) (r : Relay) (source : IpAddr) : Relay :=
  let fromSource := (r.bySource.lookup source).getD 0
  if r.live ≥ config.maxSessions then r
  else if config.maxSessionsPerSource > 0 ∧ fromSource ≥ config.maxSessionsPerSource then r
  else
    { r with
      bySource := r.bySource.insert source (fromSource + 1)
      live := r.live + 1
      arriving := r.arriving ++ [source] }

def hangUp (r : Relay) (source : IpAddr) : Relay :=
  if source ∈ r.arriving then
    { r with arriving := r.arriving.erase source, departing := r.departing ++ [source] }
  else r

def arrive (r : Relay) (source : IpAddr) (challenge : Block 32) (first : Message) : Relay :=
  if source ∈ r.arriving then
    ({ r with
      arriving := r.arriving.erase source
      nextSessionId := r.nextSessionId + 1 } : Relay).put r.nextSessionId
        ⟨source, .opening challenge first, [], []⟩
  else r

def authenticate (r : Relay) (id : ℕ) (nodeId : NodeId) : Relay :=
  let previous := r.sessions.lookup nodeId
  (({ r with sessions := r.sessions.insert nodeId id } : Relay).supersede
    previous.toList).setStage id (.routing (.identity nodeId))

def enter (P : Primitives) (config : RelayConfig) (r : Relay) (id : ℕ) : Relay :=
  match r.serving.lookup id with
  | some s =>
    match s.stage with
    | .opening challenge first =>
      match decodeBinary first with
      | some (.auth nodeId signature) =>
        if config.hosts.any (fun host => verifyRelayAuth P nodeId host challenge signature) then
          r.authenticate id nodeId
        else r.finish id s
      | some (.register tags) =>
        if tags = [] then r.finish id s
        else (r.registerTags id [] tags).setStage id (.routing (.tags tags))
      | _ => r.finish id s
    | _ => r
  | none => r

def route (r : Relay) (id : ℕ) (mode : Mode) (frame : Frame) (allowed : Bool) : Relay :=
  let leave := r.setStage id (.leaving mode)
  match frame, mode with
  | .send destination datagram, .identity source =>
    if allowed then
      let target := r.sessions.lookup destination
      r.alter id fun s =>
        { s with deliveries := target.toList.map fun t => (t, .recv source datagram) }
    else r
  | .sendTag tag datagram, .tags _ =>
    if allowed then
      let targets := (Seats.holders r.tags tag).filter (· ≠ id)
      r.alter id fun s => { s with deliveries := targets.map fun t => (t, .recvTag tag datagram) }
    else r
  | .register next, .tags current =>
    (r.registerTags id current next).setStage id (.routing (.tags next))
  | .ping _, _ => r
  | .pong _, _ => r
  | _, _ => leave

def receive (r : Relay) (id : ℕ) (message : Message) (allowed : Bool) : Relay :=
  match r.serving.lookup id with
  | some s =>
    match s.stage, s.deliveries with
    | .routing mode, [] =>
      match message with
      | .ping => r
      | .pong => r
      | .close => r.setStage id (.leaving mode)
      | message =>
        match decodeBinary message with
        | none => r.setStage id (.leaving mode)
        | some frame => r.route id mode frame allowed
    | _, _ => r
  | none => r

def deliver (r : Relay) (id : ℕ) : Relay :=
  match r.serving.lookup id with
  | some s =>
    match s.deliveries with
    | [] => r
    | (target, frame) :: rest => (r.put id { s with deliveries := rest }).trySend target frame
  | none => r

def drain (r : Relay) (id : ℕ) (written : Bool) : Relay :=
  match r.serving.lookup id with
  | some s =>
    match s.stage, s.deliveries, s.queue with
    | .routing mode, [], frame :: rest =>
      let stage := if written && !frame.isClose then .routing mode else .leaving mode
      r.put id { s with queue := rest, stage := stage }
    | _, _, _ => r
  | none => r

def leave (r : Relay) (id : ℕ) : Relay :=
  match r.serving.lookup id with
  | some s =>
    match s.stage, s.deliveries with
    | .routing mode, [] => r.setStage id (.leaving mode)
    | _, _ => r
  | none => r

def cleanUp (r : Relay) (id : ℕ) : Relay :=
  match r.serving.lookup id with
  | some s =>
    match s.stage with
    | .leaving (.identity nodeId) =>
      let sessions :=
        if r.sessions.lookup nodeId = some id then r.sessions.erase nodeId else r.sessions
      ({ r with sessions := sessions } : Relay).finish id s
    | .leaving (.tags current) => (r.registerTags id current []).finish id s
    | _ => r
  | none => r

def settle (r : Relay) (source : IpAddr) : Relay :=
  if source ∈ r.departing then
    let bySource := match r.bySource.lookup source with
      | some count =>
        if count - 1 = 0 then r.bySource.erase source else r.bySource.insert source (count - 1)
      | none => r.bySource
    { r with
      departing := r.departing.erase source
      live := r.live - 1
      bySource := bySource }
  else r

def step (P : Primitives) (config : RelayConfig) (r : Relay) : RelayEvent → Relay
  | .accept source => r.accept config source
  | .hangUp source => r.hangUp source
  | .arrive source challenge first => r.arrive source challenge first
  | .enter id => r.enter P config id
  | .receive id message allowed => r.receive id message allowed
  | .deliver id => r.deliver id
  | .drain id written => r.drain id written
  | .leave id => r.leave id
  | .cleanUp id => r.cleanUp id
  | .settle source => r.settle source

/-! ### Sessions, one lookup at a time -/

section Lookups
variable (r : Relay) (id j : ℕ)

def stageOf : Option RelayStage := (r.serving.lookup id).map RelaySession.stage

def isRouting : Bool :=
  match r.stageOf id with
  | some (.routing _) => true
  | _ => false

theorem lookup_put (s : RelaySession) :
    (r.put id s).serving.lookup j = if j = id then some s else r.serving.lookup j :=
  Table.lookup_insert_ite _ _ _ _

theorem lookup_alter (f : RelaySession → RelaySession) :
    (r.alter id f).serving.lookup j =
      if j = id then (r.serving.lookup j).map f else r.serving.lookup j := by
  unfold alter
  cases h : r.serving.lookup id with
  | none =>
    by_cases hj : j = id
    · subst hj
      simp [h]
    · simp [hj]
  | some s =>
    rw [lookup_put]
    by_cases hj : j = id
    · subst hj
      simp [h]
    · simp [hj]

theorem alter_eq (f : RelaySession → RelaySession) :
    r.alter id f = { r with serving := (r.alter id f).serving } := by
  unfold alter
  cases r.serving.lookup id <;> rfl

theorem supersede_eq (ids : List ℕ) :
    r.supersede ids = { r with serving := (r.supersede ids).serving } := by
  induction ids generalizing r with
  | nil => rfl
  | cons i ids ih =>
    have hcons : r.supersede (i :: ids) =
      (r.trySend i (.close closeReasonSuperseded)).supersede ids := rfl
    rw [hcons, ih, trySend, alter_eq]

end Lookups

end Relay
end ForgeswornLink
