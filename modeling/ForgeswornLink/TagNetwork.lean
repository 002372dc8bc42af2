import ForgeswornLink.BookAgreement
import ForgeswornLink.RelayQueues
import ForgeswornLink.TagQueue

/-!
# Tag-mode drivers around one relay

Any number of drivers, each working for an endpoint with its rendezvous book,
share one relay with strangers who may send it anything. A connection is two
lists of messages, one for each direction; it outlives the driver that opened it,
since what was written before a loss may still arrive. The relay is the machine of
`Relay`, and a driver is `RelayDriver` with the session of its socket. Challenge,
welcome, pings and pongs are not on the wires: a driver goes up once the relay
routes its session, and keeping a session alive touches neither book nor registry.
A book lists its tags in the order of its hash maps, which is anything; the event of a
registration says which order it is.
-/

namespace ForgeswornLink
open ByteString Runs

namespace Relay

def nextFrame (r : Relay) (id : ℕ) : Option Frame :=
  match r.serving.lookup id with
  | some s =>
    match s.stage, s.deliveries, s.queue with
    | .routing _, [], frame :: _ => some frame
    | _, _, _ => none
  | none => none

theorem queued_of_nextFrame {r : Relay} {id : ℕ} {frame : Frame} (h : r.nextFrame id = some frame) :
    r.Queued id frame := by
  unfold nextFrame at h
  split at h
  · rename_i s hs
    split at h
    · rename_i hqueue
      cases h
      exact ⟨s, hs, by rw [hqueue]; exact List.mem_cons_self⟩
    · cases h
  · cases h

end Relay

structure Wire where
  up : List (List UInt8)
  down : List (List UInt8)

structure TagNetwork (ι κ : Type) where
  relay : Relay
  books : κ → TagBook
  drivers : ι → RelayDriver
  -- The session of a driver's socket, from its registration on.
  session : ι → Option ℕ
  -- The connections that drivers opened, by session, also those they have given up.
  wires : Table ℕ Wire

inductive NetworkEvent (ι κ : Type) where
  | book (k : κ) (e : TagBook.BookEvent)
  -- Anything else at the relay, strangers included.
  | relay (e : RelayEvent)
  -- `connect`, up to the registration it sends.
  | dial (i : ι) (source : IpAddr) (challenge : Block 32) (nowUnix : ℕ) (listed : List Tag)
  | welcome (i : ι) (now : ℕ)
  | task (i : ι) (now : ℕ) (e : DriverEvent)
  | register (i : ι) (nowUnix : ℕ) (listed : List Tag)
  | trySend (i : ι) (destination : NodeId) (datagram : List UInt8) (nowUnix : ℕ)
  | write (i : ι) (now : ℕ)
  | carry (id : ℕ) (allowed : Bool)
  | drain (id : ℕ) (written : Bool)
  | read (i : ι) (nowUnix now : ℕ)

def DriverEvent.isOwn : DriverEvent → Bool
  | .connected => false
  | .sent => false
  | _ => true

def DriverEvent.isIdle : DriverEvent → Bool
  | .noRelays => true
  | .idle => true
  | _ => false

namespace TagNetwork
variable {ι κ : Type} [DecidableEq ι] [DecidableEq κ]
variable (P : Primitives) (config : RelayConfig) (hostOf : String → Option String) (owner : ι → κ)

def start (peers : κ → Table NodeId RendezvousPeer) (paired : κ → Table NodeId (Block 32))
    (urls : ι → List String) : TagNetwork ι κ where
  relay := .start
  books := fun k => .withPaired (peers k) (paired k)
  drivers := fun i => .spawn 0 (urls i)
  session := fun _ => none
  wires := ∅

def setBook (n : TagNetwork ι κ) (k : κ) (book : TagBook) : TagNetwork ι κ :=
  { n with books := Function.update n.books k book }

def sendUp (n : TagNetwork ι κ) (id : ℕ) (frame : Frame) : TagNetwork ι κ :=
  match n.wires.lookup id with
  | some w => { n with wires := n.wires.insert id { w with up := w.up ++ [frame.encode] } }
  | none => n

def host (n : TagNetwork ι κ) (i : ι) : String := (hostOf (n.drivers i).current).getD ""

/-- A driver that is not in its pump any more has dropped its socket. -/
def task (n : TagNetwork ι κ) (i : ι) (now : ℕ) (e : DriverEvent) : TagNetwork ι κ :=
  let d := (n.drivers i).step (some (n.books (owner i))) now e
  { n with
    drivers := Function.update n.drivers i d
    session := if d.phase = .pumping then n.session else Function.update n.session i none }

def dial (n : TagNetwork ι κ) (i : ι) (source : IpAddr) (challenge : Block 32) (nowUnix : ℕ)
    (listed : List Tag) : TagNetwork ι κ :=
  match n.session i, hostOf (n.drivers i).current with
  | none, some host =>
    let (book, tags) := (n.books (owner i)).registration P host nowUnix
    if (n.drivers i).phase = .trying ∧ (n.drivers i).urls ≠ [] ∧ source ∈ n.relay.arriving ∧
        listed.Perm tags then
      let n := n.setBook (owner i) book
      if listed = [] then n
      else
        { n with
          relay := n.relay.arrive source challenge (.binary (Frame.register listed).encode)
          session := Function.update n.session i (some n.relay.nextSessionId)
          wires := n.wires.insert n.relay.nextSessionId ⟨[], []⟩ }
    else n
  | _, _ => n

def welcome (n : TagNetwork ι κ) (i : ι) (now : ℕ) : TagNetwork ι κ :=
  match n.session i with
  | some id => if n.relay.isRouting id then n.task owner i now .connected else n
  | none => n

def register (n : TagNetwork ι κ) (i : ι) (nowUnix : ℕ) (listed : List Tag) : TagNetwork ι κ :=
  match n.session i, (n.drivers i).phase with
  | some id, .pumping =>
    let (book, tags) := (n.books (owner i)).registration P (n.host hostOf i) nowUnix
    if listed.Perm tags then (n.setBook (owner i) book).sendUp id (.register listed) else n
  | _, _ => n

def trySend (n : TagNetwork ι κ) (i : ι) (destination : NodeId) (datagram : List UInt8)
    (nowUnix : ℕ) : TagNetwork ι κ :=
  let book := n.books (owner i)
  let (d, next, _) := (n.drivers i).trySend P hostOf (some book) destination datagram nowUnix
  { n.setBook (owner i) (next.getD book) with drivers := Function.update n.drivers i d }

def write (n : TagNetwork ι κ) (i : ι) (now : ℕ) : TagNetwork ι κ :=
  match n.session i, (n.drivers i).phase, (n.drivers i).outbound with
  | some id, .pumping, frame :: _ => (n.task owner i now .sent).sendUp id frame
  | _, _, _ => n

def carry (n : TagNetwork ι κ) (id : ℕ) (allowed : Bool) : TagNetwork ι κ :=
  match n.wires.lookup id with
  | some w =>
    match w.up with
    | bytes :: rest =>
      if n.relay.reads (.receive id (.binary bytes) allowed) = some id then
        { n with
          relay := n.relay.receive id (.binary bytes) allowed
          wires := n.wires.insert id { w with up := rest } }
      else n
    | [] => n
  | none => n

def drain (n : TagNetwork ι κ) (id : ℕ) (written : Bool) : TagNetwork ι κ :=
  match n.wires.lookup id, n.relay.nextFrame id with
  | some w, some frame =>
    { n with
      relay := n.relay.drain id written
      wires :=
        if written then n.wires.insert id { w with down := w.down ++ [frame.encode] } else n.wires }
  | _, _ => n

def nextDown (n : TagNetwork ι κ) (i : ι) : Option (ℕ × Wire × List UInt8) :=
  match n.session i, (n.drivers i).phase with
  | some id, .pumping =>
    match n.wires.lookup id with
    | some ⟨up, bytes :: rest⟩ => some (id, ⟨up, rest⟩, bytes)
    | _ => none
  | _, _ => none

def take (n : TagNetwork ι κ) (i : ι) (nowUnix now : ℕ) : Option Frame → TagNetwork ι κ
  | some (.recvTag tag _) =>
    n.setBook (owner i) ((n.books (owner i)).resolve P tag (n.host hostOf i) nowUnix).1
  | some (.pong _) => n
  | some (.close reason) => n.task owner i now (.ended (reason == closeReasonSuperseded))
  | _ => n.task owner i now (.ended false)

def read (n : TagNetwork ι κ) (i : ι) (nowUnix now : ℕ) : TagNetwork ι κ :=
  match n.nextDown i with
  | some (id, w, bytes) =>
    ({ n with wires := n.wires.insert id w } : TagNetwork ι κ).take P hostOf owner i nowUnix now
      (Frame.decode bytes)
  | none => n

/-- A stranger's event does not touch the streams of the drivers. -/
def stranger (n : TagNetwork ι κ) : RelayEvent → Bool
  | .receive id _ _ => (n.wires.lookup id).isNone
  | .drain id _ => (n.wires.lookup id).isNone
  | _ => true

def step (n : TagNetwork ι κ) : NetworkEvent ι κ → TagNetwork ι κ
  | .book k e => n.setBook k ((n.books k).step P e)
  | .relay e => if n.stranger e then { n with relay := n.relay.step P config e } else n
  | .dial i source challenge nowUnix listed =>
    n.dial P hostOf owner i source challenge nowUnix listed
  | .welcome i now => n.welcome owner i now
  | .task i now e =>
    if e.isOwn ∧ (e.isIdle → (n.session i).isNone) then n.task owner i now e else n
  | .register i nowUnix listed => n.register P hostOf owner i nowUnix listed
  | .trySend i destination datagram nowUnix =>
    n.trySend P hostOf owner i destination datagram nowUnix
  | .write i now => n.write owner i now
  | .carry id allowed => n.carry id allowed
  | .drain id written => n.drain id written
  | .read i nowUnix now => n.read P hostOf owner i nowUnix now

/-- The datagram that an event hands to the endpoint of driver `i`, with the peer it is taken to
come from. -/
def handsUp (n : TagNetwork ι κ) : NetworkEvent ι κ → Option (NodeId × List UInt8)
  | .read i nowUnix _ =>
    match n.nextDown i with
    | some (_, _, bytes) =>
      match Frame.decode bytes with
      | some (.recvTag tag datagram) =>
        ((n.books (owner i)).resolve P tag (n.host hostOf i) nowUnix).2.map fun peer =>
          (peer, datagram)
      | _ => none
    | none => none
  | _ => none

/-- The same for books that list their peers in any order. -/
def mayHandUp (n : TagNetwork ι κ) : NetworkEvent ι κ → List (NodeId × List UInt8)
  | .read i nowUnix _ =>
    match n.nextDown i with
    | some (_, _, bytes) =>
      match Frame.decode bytes with
      | some (.recvTag tag datagram) =>
        ((n.books (owner i)).candidates P tag (n.host hostOf i) nowUnix).map fun peer =>
          (peer, datagram)
      | _ => []
    | none => []
  | _ => []

variable {P hostOf owner}

omit [DecidableEq ι] [DecidableEq κ] in
/-- Whatever order the hash maps have, what is handed up is among what may be. -/
theorem handsUp_mem_mayHandUp {n : TagNetwork ι κ} {books : κ → TagBook}
    (hbooks : ∀ k, (n.books k).Reordered (books k)) {e : NetworkEvent ι κ}
    {x : NodeId × List UInt8} (h : { n with books := books }.handsUp P hostOf owner e = some x) :
    x ∈ n.mayHandUp P hostOf owner e := by
  have hnext (i : ι) : { n with books := books }.nextDown i = n.nextDown i := rfl
  cases e with
  | read i nowUnix now =>
    simp only [handsUp, hnext] at h
    split at h
    · rename_i hdown
      split at h
      · rename_i tag datagram hframe
        obtain ⟨peer, hresolve, rfl⟩ := Option.map_eq_some_iff.mp h
        rw [TagBook.resolve_eq_head?] at hresolve
        have hcandidate := ((hbooks (owner i)).candidates tag _ nowUnix).mem_iff.mp
          (List.mem_of_head? hresolve)
        simp only [mayHandUp, hdown, hframe]
        exact List.mem_map.mpr ⟨peer, hcandidate, rfl⟩
      · cases h
    · cases h
  | _ => cases h

end TagNetwork
end ForgeswornLink
