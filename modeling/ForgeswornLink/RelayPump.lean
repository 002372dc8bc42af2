import ForgeswornLink.CacheTransparency

/-!
# The pump and the rendezvous book

The tag-mode part of a relay driver. It subscribes to the changes of the book,
registers what the book holds while it connects, and then waits in `select`: a
refresh tick registers again when the epoch or the version moved, a change of
the book registers again at once, and an inbound tag is resolved. Its calls of
the book run as thread 0 of the book's threads. Sockets appear as the outcome of
a send; pings, and the datagrams that leave the queue, do not touch the book.
-/

namespace ForgeswornLink
open ByteString Runs Sections

inductive RegisterCause where
  | connect
  | refresh (tick : ℕ)
  | change
deriving DecidableEq

inductive PumpStage where
  | down
  -- `connect` has still to compute its registration.
  | subscribed
  | computing (cause : RegisterCause) (nowUnix : ℕ)
  -- The relay owes its welcome.
  | awaiting
  | welcomed
  | selecting
  | refreshing (tick : ℕ)
  -- A change was taken from the channel.
  | noticing
  | noted
  | resolving
deriving DecidableEq

/-- A `Register` that was sent, with the book and the clock reading it was computed from. -/
structure Registered where
  source : TagBook
  tags : List Tag
  computedAt : ℕ

structure Pump where
  stage : PumpStage
  relayHost : String
  -- What the receiver has seen of the change channel.
  seen : ℕ
  lastEpoch : ℕ
  lastVersion : ℕ
  sent : Option Registered
  -- The last reading of the wall clock.
  clock : ℕ

structure TagClient where
  pool : SharedBook.BookPool
  pump : Pump

def PumpStage.waits : PumpStage → Bool
  | .computing _ _ => false
  | .resolving => false
  | _ => true

def PumpStage.registered : PumpStage → Bool
  | .awaiting => true
  | .welcomed => true
  | .selecting => true
  | .resolving => true
  | _ => false

inductive PumpEvent where
  | work (m : Move BookCall)
  | attempt (relayHost : String)
  | compute (nowUnix : ℕ)
  -- The computed tags are sent; the flag says whether the socket took them.
  | register (ok : Bool)
  | welcome
  | start (nowUnix : ℕ)
  | tick (nowUnix : ℕ)
  | changed
  | note (nowUnix : ℕ)
  | recvTag (tag : Tag) (nowUnix : ℕ)
  | resolved
  | lost

namespace TagClient
open SharedBook

def opened (peers : Table NodeId RendezvousPeer) (paired : Table NodeId (Block 32)) : TagClient :=
  ⟨SharedBook.opened peers paired, ⟨.down, "", 0, 0, 0, none, 0⟩⟩

def version (c : TagClient) : ℕ := c.pool.shared.book.version

def changes (c : TagClient) : ℕ := c.pool.shared.changes

def thread (c : TagClient) : Thread BookSection BookAnswer := c.pool.threads 0

def call (P : Primitives) (c : TagClient) (stage : PumpStage) (nowUnix : ℕ) (b : BookCall) :
    TagClient :=
  ⟨SharedBook.step P c.pool (.call 0 b), { c.pump with stage := stage, clock := nowUnix }⟩

def closed (c : TagClient) : TagClient :=
  { c with pump := { c.pump with stage := .down, sent := none } }

def remember (c : TagClient) (stage : PumpStage) (nowUnix : ℕ) : TagClient :=
  { c with pump := { c.pump with
    stage := stage, lastEpoch := epochIndex nowUnix, lastVersion := c.version, clock := nowUnix } }

def compute (P : Primitives) (c : TagClient) (cause : RegisterCause) (nowUnix : ℕ) : TagClient :=
  c.call P (.computing cause nowUnix) nowUnix (.registration c.pump.relayHost nowUnix)

def register (c : TagClient) (cause : RegisterCause) (nowUnix : ℕ) (source : TagBook)
    (tags : List Tag) (ok : Bool) : TagClient :=
  if cause = .connect ∧ tags = [] then c.closed
  else if ok then
    { c with pump := { c.pump with
      stage := if cause = .connect then .awaiting else .selecting
      sent := some ⟨source, tags, nowUnix⟩ } }
  else c.closed

def step (P : Primitives) (c : TagClient) : PumpEvent → TagClient
  | .work (.call 0 _) => c
  | .work m => { c with pool := SharedBook.step P c.pool m }
  | .attempt relayHost =>
    if c.pump.stage = .down then
      { c with pump := { c.pump with
        stage := .subscribed, relayHost := relayHost, seen := c.changes, sent := none } }
    else c
  | .compute nowUnix =>
    match c.pump.stage with
    | .subscribed => c.compute P .connect nowUnix
    | .refreshing tick => c.compute P (.refresh tick) nowUnix
    | .noted => c.compute P .change nowUnix
    | _ => c
  | .register ok =>
    match c.pump.stage, c.thread with
    | .computing cause nowUnix, ⟨[], some (.tags source tags)⟩ =>
      c.register cause nowUnix source tags ok
    | _, _ => c
  | .welcome =>
    if c.pump.stage = .awaiting then { c with pump := { c.pump with stage := .welcomed } } else c
  | .start nowUnix => if c.pump.stage = .welcomed then c.remember .selecting nowUnix else c
  | .tick nowUnix =>
    if c.pump.stage = .selecting then
      if epochIndex nowUnix ≠ c.pump.lastEpoch ∨ c.version ≠ c.pump.lastVersion then
        c.remember (.refreshing nowUnix) nowUnix
      else { c with pump := { c.pump with clock := nowUnix } }
    else c
  | .changed =>
    if c.pump.stage = .selecting ∧ c.pump.seen ≠ c.changes then
      { c with pump := { c.pump with stage := .noticing, seen := c.changes } }
    else c
  | .note nowUnix => if c.pump.stage = .noticing then c.remember .noted nowUnix else c
  | .recvTag tag nowUnix =>
    if c.pump.stage = .selecting then
      c.call P .resolving nowUnix (.resolve tag c.pump.relayHost nowUnix)
    else c
  | .resolved =>
    if c.pump.stage = .resolving ∧ c.thread.todo.isEmpty then
      { c with pump := { c.pump with stage := .selecting } }
    else c
  | .lost =>
    if c.pump.stage = .subscribed ∨ c.pump.stage = .awaiting ∨
      c.pump.stage = .selecting then c.closed
    else c

/-! ### What an event can do -/

def Asks (stage : PumpStage) (cause : RegisterCause) : Prop :=
  stage = .subscribed ∧ cause = .connect ∨
    (∃ tick, stage = .refreshing tick ∧ cause = .refresh tick) ∨
    stage = .noted ∧ cause = .change

inductive Moved (P : Primitives) (c : TagClient) : PumpEvent → TagClient → Prop
  | stays (e : PumpEvent) : Moved P c e c
  | works (m : Move BookCall) (h : ∀ b, m ≠ .call 0 b) :
    Moved P c (.work m) { c with pool := SharedBook.step P c.pool m }
  | attempts (relayHost : String) (h : c.pump.stage = .down) :
    Moved P c (.attempt relayHost) { c with pump := { c.pump with
      stage := .subscribed, relayHost := relayHost, seen := c.changes, sent := none } }
  | computes (cause : RegisterCause) (nowUnix : ℕ) (h : Asks c.pump.stage cause) :
    Moved P c (.compute nowUnix) (c.compute P cause nowUnix)
  | registers (cause : RegisterCause) (nowUnix : ℕ) (source : TagBook) (tags : List Tag)
      (h : c.pump.stage = .computing cause nowUnix)
      (hthread : c.thread = ⟨[], some (.tags source tags)⟩) :
    Moved P c (.register true) { c with pump := { c.pump with
      stage := if cause = .connect then .awaiting else .selecting
      sent := some ⟨source, tags, nowUnix⟩ } }
  | ends (e : PumpEvent) (h : c.pump.stage.waits = true ∨ c.thread.todo = []) : Moved P c e c.closed
  | welcomes (h : c.pump.stage = .awaiting) :
    Moved P c .welcome { c with pump := { c.pump with stage := .welcomed } }
  | starts (nowUnix : ℕ) (h : c.pump.stage = .welcomed) :
    Moved P c (.start nowUnix) (c.remember .selecting nowUnix)
  | refreshes (nowUnix : ℕ) (h : c.pump.stage = .selecting) :
    Moved P c (.tick nowUnix) (c.remember (.refreshing nowUnix) nowUnix)
  | ticks (nowUnix : ℕ) (h : c.pump.stage = .selecting)
      (hepoch : epochIndex nowUnix = c.pump.lastEpoch) :
    Moved P c (.tick nowUnix) { c with pump := { c.pump with clock := nowUnix } }
  | notices (h : c.pump.stage = .selecting) :
    Moved P c .changed { c with pump := { c.pump with stage := .noticing, seen := c.changes } }
  | notes (nowUnix : ℕ) (h : c.pump.stage = .noticing) :
    Moved P c (.note nowUnix) (c.remember .noted nowUnix)
  | receives (tag : Tag) (nowUnix : ℕ) (h : c.pump.stage = .selecting) :
    Moved P c (.recvTag tag nowUnix)
      (c.call P .resolving nowUnix (.resolve tag c.pump.relayHost nowUnix))
  | resolves (h : c.pump.stage = .resolving) (hidle : c.thread.todo = []) :
    Moved P c .resolved { c with pump := { c.pump with stage := .selecting } }

theorem moved_register (P : Primitives) {c : TagClient} {cause : RegisterCause} {nowUnix : ℕ}
    {source : TagBook} {tags : List Tag} (h : c.pump.stage = .computing cause nowUnix)
    (hthread : c.thread = ⟨[], some (.tags source tags)⟩) (ok : Bool) :
    Moved P c (.register ok) (c.register cause nowUnix source tags ok) := by
  have hends : c.pump.stage.waits = true ∨ c.thread.todo = [] := Or.inr (by rw [hthread])
  unfold register
  split
  · exact .ends _ hends
  · split
    · rename_i hok
      rw [hok]
      exact .registers cause nowUnix source tags h hthread
    · exact .ends _ hends

theorem moved_step (P : Primitives) (c : TagClient) (e : PumpEvent) : Moved P c e (c.step P e) := by
  cases e with
  | work m =>
    by_cases hm : ∃ b, m = .call 0 b
    · obtain ⟨b, rfl⟩ := hm
      exact .stays _
    · have hstep : c.step P (.work m) = { c with pool := SharedBook.step P c.pool m } := by
        cases m with
        | go t => rfl
        | call t b =>
          cases t with
          | zero => exact absurd ⟨b, rfl⟩ hm
          | succ t => rfl
      rw [hstep]
      exact .works m fun b hb => hm ⟨b, hb⟩
  | attempt relayHost =>
    simp only [step]
    split
    · rename_i h
      exact .attempts relayHost h
    · exact .stays _
  | compute nowUnix =>
    simp only [step]
    split
    · rename_i h
      exact .computes .connect nowUnix (Or.inl ⟨h, rfl⟩)
    · rename_i tick h
      exact .computes (.refresh tick) nowUnix (Or.inr (Or.inl ⟨tick, h, rfl⟩))
    · rename_i h
      exact .computes .change nowUnix (Or.inr (Or.inr ⟨h, rfl⟩))
    · exact .stays _
  | register ok =>
    simp only [step]
    split
    · rename_i cause nowUnix source tags h hthread
      exact moved_register P h hthread ok
    · exact .stays _
  | welcome =>
    simp only [step]
    split
    · rename_i h
      exact .welcomes h
    · exact .stays _
  | start nowUnix =>
    simp only [step]
    split
    · rename_i h
      exact .starts nowUnix h
    · exact .stays _
  | tick nowUnix =>
    simp only [step]
    split
    · rename_i h
      split
      · exact .refreshes nowUnix h
      · rename_i hdue
        exact .ticks nowUnix h (not_ne_iff.mp fun hne => hdue (Or.inl hne))
    · exact .stays _
  | changed =>
    simp only [step]
    split
    · rename_i h
      exact .notices h.1
    · exact .stays _
  | note nowUnix =>
    simp only [step]
    split
    · rename_i h
      exact .notes nowUnix h
    · exact .stays _
  | recvTag tag nowUnix =>
    simp only [step]
    split
    · rename_i h
      exact .receives tag nowUnix h
    · exact .stays _
  | resolved =>
    simp only [step]
    split
    · rename_i h
      exact .resolves h.1 (List.isEmpty_iff.mp h.2)
    · exact .stays _
  | lost =>
    simp only [step]
    split
    · rename_i h
      refine .ends _ (Or.inl ?_)
      rcases h with h | h | h <;> simp [h, PumpStage.waits]
    · exact .stays _

end TagClient
end ForgeswornLink
