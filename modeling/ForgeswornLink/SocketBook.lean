import ForgeswornLink.PairingLifecycle
import ForgeswornLink.WriteReadiness
import ForgeswornLink.EndpointEffects

/-!
# The book of an endpoint

The socket changes its book in two ways: an operation of the shell or of the
endpoint, and the reading a relayed datagram makes for its tag. So the book of a
socket, and of the endpoint that runs it, is a run of the book over those uses,
and what is known of such runs is known of the endpoint's book.
-/

namespace ForgeswornLink
open Runs

namespace TagBook

def useIn (P : Primitives) (book : Option TagBook) (e : BookEvent) : Option TagBook :=
  book.map fun book => book.step P e

theorem run_useIn (P : Primitives) (book : Option TagBook) (es : List BookEvent) :
    run (useIn P) book es = book.map fun book => run (step P) book es := by
  induction es generalizing book with
  | nil => cases book <;> rfl
  | cons e es ih =>
    rw [run_cons, ih]
    cases book <;> rfl

end TagBook

def RelayDriver.bookEvents (hostOf : String → Option String) (d : RelayDriver) (p : NodeId)
    (nowUnix : ℕ) : List TagBook.BookEvent :=
  if d.stop then []
  else
    match d.status with
    | .up url =>
      match hostOf url with
      | some host => [.send p host nowUnix]
      | none => []
    | _ => []

namespace RelayDriver
variable {P : Primitives} {hostOf : String → Option String} {d : RelayDriver}

theorem book_tagFor (hrunning : d.stop = false) (book : TagBook) (p : NodeId) (nowUnix : ℕ) :
    (d.tagFor P hostOf book p nowUnix).1 = run (TagBook.step P) book
    (d.bookEvents hostOf p nowUnix) := by
  unfold tagFor bookEvents
  rw [if_neg (by rw [hrunning]; simp)]
  cases d.status with
  | up url =>
    dsimp only
    cases hostOf url <;> rfl
  | _ => rfl

theorem book_trySend (book : Option TagBook) (p : NodeId) (contents : List UInt8) (nowUnix : ℕ) :
    (d.trySend P hostOf book p contents nowUnix).2.1 =
      run (TagBook.useIn P) book (d.bookEvents hostOf p nowUnix) := by
  rw [TagBook.run_useIn]
  unfold trySend
  split_ifs with hstop
  · rw [bookEvents, if_pos hstop]
    cases book <;> rfl
  · cases book with
    | none => rfl
    | some book =>
      rw [Bool.not_eq_true] at hstop
      rw [Option.map_some, ← book_tagFor hstop]
      dsimp only
      cases d.tagFor P hostOf book p nowUnix with
      | mk book tag => cases tag <;> rfl

end RelayDriver

namespace PathSocket
variable (P : Primitives) (hostOf : String → Option String)

/-- The uses of the book an event of the socket makes. -/
def bookEvents (s : PathSocket) : Event → List TagBook.BookEvent
  | .book op => [.change op]
  | .trySend destination contents _ =>
    if contents.length > maxDatagram then []
    else
      match s.inner.bySynthetic.lookup destination with
      | none => []
      | some p =>
        match (s.provenDirect p).filter fun proven => s.now - proven.provedAt < directFresh with
        | some _ => []
        | none => (s.relayFor p).2.bookEvents hostOf p s.unixNow
  | _ => []

variable {P hostOf}

theorem book_sendRelayed (s : PathSocket) (p : NodeId) (contents : List UInt8) :
    (s.sendRelayed P hostOf p contents).1.book =
      ((s.relayFor p).2.trySend P hostOf s.book p contents s.unixNow).2.1 := by
  unfold sendRelayed
  dsimp only
  cases ((s.relayFor p).2.trySend P hostOf s.book p contents s.unixNow).2.2 <;> rfl

theorem book_step (s : PathSocket) (e : Event) :
    (s.step P hostOf e).book = run (TagBook.useIn P) s.book (s.bookEvents hostOf e) := by
  have hrest (hsend : e.isSend = false) (hop : ∀ op, e ≠ .book op) :
      (s.step P hostOf e).book = s.book := by
    obtain ⟨-, -, -, hsame | ⟨op, heq, -⟩⟩ := rest_step P hostOf s hsend
    · exact hsame
    · exact absurd heq (hop op)
  cases e with
  | book op => rfl
  | trySend destination contents result =>
    simp only [step, exec, trySend, bookEvents]
    split_ifs
    · rfl
    · cases s.inner.bySynthetic.lookup destination with
      | none => rfl
      | some p =>
        dsimp only
        cases (s.provenDirect p).filter fun proven => s.now - proven.provedAt < directFresh with
        | some proven => rfl
        | none =>
          dsimp only
          rw [book_sendRelayed, RelayDriver.book_trySend]
  | _ => exact hrest rfl fun _ heq => by cases heq

theorem book_after {s : PathSocket} {calls : List Event}
    (h : ∀ s, ∀ c ∈ calls, bookEvents hostOf s c = []) :
    (after P hostOf s calls).book = s.book := by
  induction calls generalizing s with
  | nil => rfl
  | cons c calls ih =>
    have hfirst : (s.step P hostOf c).book = s.book := by
      rw [book_step, h s c List.mem_cons_self]
      rfl
    rw [after, run_cons, ih fun s c hc => h s c (List.mem_cons_of_mem _ hc), hfirst]

end PathSocket

namespace Endpoint
variable (P : Primitives) (hostOf : String → Option String)

def bookTrace (start : Endpoint) (es : List EndpointEvent) : List TagBook.BookEvent :=
  Runs.trace (PathSocket.step P hostOf) (PathSocket.bookEvents hostOf) start.socket
    (start.trace P hostOf es)

variable {P hostOf}

theorem book_run (start : Endpoint) (es : List EndpointEvent) :
    (run (step P hostOf) start es).socket.book =
      start.socket.book.map fun book => run (TagBook.step P) book
        (start.bookTrace P hostOf es) := by
  rw [socket_run, ← TagBook.run_useIn]
  exact component_run PathSocket.book PathSocket.book_step start.socket (start.trace P hostOf es)

theorem routeOf_open {udp : Bool} {config : EndpointConfig} {now unixNow : ℕ} {book : TagBook}
    (h : (openOn udp config now unixNow).socket.book = some book) (route : NodeId) :
    book.routeOf route = .none := by
  have hbook : bookOf config = some book := h
  unfold bookOf at hbook
  split_ifs at hbook
  cases hbook
  rfl

end Endpoint

end ForgeswornLink
