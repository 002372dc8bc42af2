import ForgeswornLink.TagBook

/-!
# Relay drivers and the pool

A driver owns one bounded outbound queue and walks its relay list with
failover, spec 3.1 and 4.3. What its task can do next is one `DriverEvent`; what
the rest of the endpoint can do with it is `trySend` and `hasCapacity`. The pool
is the home driver, number 0, and one driver for each other relay list a card
has named. Times are instants in nanoseconds. The host of a relay URL is the
parameter `hostOf`; the backoff between two attempts changes no state here, and
`DriverSchedule` has it.
-/

namespace ForgeswornLink

def second : ℕ := 1000000000
def reconnectDeadline : ℕ := 60 * second
def maxQueuedFrames : ℕ := 64
def maxExtraDrivers : ℕ := 16

inductive RelayStatus where
  | connecting
  | up (url : String)
  | reconnecting
  | superseded
  | failed
deriving DecidableEq

def RelayStatus.isUp : RelayStatus → Bool
  | .up _ => true
  | _ => false

/-- Where the task of a driver is. Once it is over, the receiver of its queue is gone. -/
inductive DriverPhase where
  | trying
  | pumping
  | over
deriving DecidableEq

structure RelayDriver where
  id : ℕ
  urls : List String
  outbound : List Frame
  status : RelayStatus
  -- Every status published so far, oldest first.
  events : List RelayStatus
  stop : Bool
  phase : DriverPhase
  index : ℕ
  downSince : Option ℕ

inductive QueueOutcome where
  | queued
  | wouldBlock
  | dropped
deriving DecidableEq

inductive DriverEvent where
  | noRelays
  | idle
  | connected
  | connectFailed
  | sent
  -- The pump returns; the flag says that the relay named a newer session.
  | ended (superseded : Bool)
  | stopped

namespace RelayDriver

def spawn (id : ℕ) (urls : List String) : RelayDriver where
  id := id
  urls := urls
  outbound := []
  status := .connecting
  events := []
  stop := false
  phase := .trying
  index := 0
  downSince := none

def setStatus (d : RelayDriver) (next : RelayStatus) : RelayDriver :=
  if d.status = next then d else { d with status := next, events := d.events ++ [next] }

theorem setStatus_eq (d : RelayDriver) (next : RelayStatus) :
    ∃ events, d.setStatus next = { d with status := next, events := events } := by
  unfold setStatus
  split_ifs with h
  · exact ⟨d.events, by rw [← h]⟩
  · exact ⟨_, rfl⟩

theorem phase_setStatus (d : RelayDriver) (next : RelayStatus) :
    (d.setStatus next).phase = d.phase := by
  obtain ⟨events, heq⟩ := d.setStatus_eq next
  rw [heq]

def hasCapacity (d : RelayDriver) : Bool := d.outbound.length < maxQueuedFrames

def current (d : RelayDriver) : String := d.urls.getD (d.index % d.urls.length) ""

def finish (d : RelayDriver) (status : RelayStatus) : RelayDriver :=
  { d.setStatus status with phase := .over, outbound := [] }

def step (d : RelayDriver) (book : Option TagBook) (now : ℕ) : DriverEvent → RelayDriver
  | .noRelays =>
    if d.phase = .trying ∧ d.urls = [] then d.finish .failed else d
  | .idle =>
    if d.phase = .trying ∧ d.urls ≠ [] ∧ book.any TagBook.isEmpty then
      { d.setStatus .connecting with downSince := none }
    else d
  | .connected =>
    if d.phase = .trying ∧ d.urls ≠ [] then
      { { d with outbound := [] }.setStatus (.up d.current) with phase := .pumping }
    else d
  | .connectFailed =>
    if d.phase = .trying ∧ d.urls ≠ [] then
      let since := d.downSince.getD now
      let status := if now - since > reconnectDeadline then .failed else .reconnecting
      { d.setStatus status with downSince := some since, index := d.index + 1 }
    else d
  | .sent =>
    if d.phase = .pumping then { d with outbound := d.outbound.tail } else d
  | .ended superseded =>
    if d.phase = .pumping then
      if superseded ∧ book.isNone then d.finish .superseded
      else
        { d.setStatus .reconnecting with
          phase := .trying, downSince := some now, index := d.index + 1 }
    else d
  | .stopped =>
    if d.stop ∧ d.phase ≠ .over then d.finish .failed else d

/-- The bounded channel: a closed one refuses, a full one is backpressure only while up. -/
def enqueue (d : RelayDriver) (frame : Frame) : RelayDriver × QueueOutcome :=
  if d.phase = .over then (d, .dropped)
  else if d.hasCapacity then ({ d with outbound := d.outbound ++ [frame] }, .queued)
  else if d.status.isUp then (d, .wouldBlock)
  else (d, .dropped)

def tagFor (P : Primitives) (hostOf : String → Option String) (d : RelayDriver) (book : TagBook)
    (destination : NodeId) (nowUnix : ℕ) : TagBook × Option Tag :=
  match d.status with
  | .up url =>
    match hostOf url with
    | some host => book.tagForSend P destination host nowUnix
    | none => (book, none)
  | _ => (book, none)

def trySend (P : Primitives) (hostOf : String → Option String) (d : RelayDriver)
    (book : Option TagBook) (destination : NodeId) (datagram : List UInt8) (nowUnix : ℕ) :
    RelayDriver × Option TagBook × QueueOutcome :=
  if d.stop then (d, book, .dropped)
  else
    match book with
    | none =>
      let (d, outcome) := d.enqueue (.send destination datagram)
      (d, none, outcome)
    | some book =>
      match d.tagFor P hostOf book destination nowUnix with
      | (book, none) => (d, some book, .dropped)
      | (book, some tag) =>
        let (d, outcome) := d.enqueue (.sendTag tag datagram)
        (d, some book, outcome)

end RelayDriver

structure RelayClient where
  byId : Table ℕ RelayDriver
  extra : Table (List String) ℕ
  nextId : ℕ
  homeMem : 0 ∈ byId

namespace RelayClient

def spawn (urls : List String) : RelayClient where
  byId := AList.singleton 0 (RelayDriver.spawn 0 urls)
  extra := ∅
  nextId := 1
  homeMem := by rw [← AList.lookup_isSome]; rfl

def home (c : RelayClient) : RelayDriver :=
  (c.byId.lookup 0).get (AList.lookup_isSome.mpr c.homeMem)

def driver (c : RelayClient) (id : ℕ) : Option RelayDriver := c.byId.lookup id

theorem driver_zero (c : RelayClient) : c.driver 0 = some c.home := (Option.some_get _).symm

def setDriver (c : RelayClient) (id : ℕ) (d : RelayDriver) : RelayClient where
  byId := c.byId.insert id d
  extra := c.extra
  nextId := c.nextId
  homeMem := AList.mem_insert _ |>.mpr (Or.inr c.homeMem)

theorem driver_setDriver (c : RelayClient) (id other : ℕ) (d : RelayDriver) :
    (c.setDriver id d).driver other = if other = id then some d else c.driver other :=
  Table.lookup_insert_ite _ _ _ _

def step (c : RelayClient) (book : Option TagBook) (now : ℕ) (id : ℕ) (e : DriverEvent) :
    RelayClient :=
  match c.driver id with
  | some d => c.setDriver id (d.step book now e)
  | none => c

def close (c : RelayClient) : RelayClient where
  byId := c.byId.mapValues (fun d => { d with stop := true })
  extra := c.extra
  nextId := c.nextId
  homeMem := by
    have h := c.homeMem
    rw [← AList.lookup_isSome] at h ⊢
    rw [Table.lookup_mapValues, Option.isSome_map, h]

theorem driver_close (c : RelayClient) (id : ℕ) :
    c.close.driver id = (c.driver id).map (fun d => { d with stop := true }) :=
  Table.lookup_mapValues _ _ _

def driverFor (c : RelayClient) (urls : List String) : RelayClient × ℕ :=
  if urls = [] ∨ urls = c.home.urls then (c, 0)
  else if c.home.stop then (c, 0)
  else
    match c.extra.lookup urls with
    | some id => (c, id)
    | none =>
      if c.extra.entries.length ≥ maxExtraDrivers then (c, 0)
      else
        let next := c.setDriver c.nextId (RelayDriver.spawn c.nextId urls)
        ({ next with extra := c.extra.insert urls c.nextId, nextId := c.nextId + 1 }, c.nextId)

end RelayClient

end ForgeswornLink
