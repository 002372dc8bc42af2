import ForgeswornLink.Lib.BoundedChannel
import ForgeswornLink.Lib.Runs

/-!
# Sockets over a Link stream

One task drives a socket. It waits for the overflow mark, a command of the
application and a message of the peer at once, and takes whichever is ready: the
events of a run say which. Commands and messages go through bounded queues. Each
way out of the loop reports its reason as the last event, and waits for room in the
queue to do so.
-/

namespace ForgeswornLink.WebSocket
open BoundedChannel Runs

def maxTextBytes : ℕ := 1048576
def outboundQueue : ℕ := 64
def inboundQueue : ℕ := 64

inductive SendError where
  | textTooLarge
  | queueFull
  | closed
deriving DecidableEq

inductive IncomingMessage where
  | text (text : String)
  | closed (reason : String)
deriving DecidableEq

inductive Command where
  | text (text : String)
  | close

inductive Message where
  | text (text : String)
  | binary (bytes : List UInt8)
  | ping (payload : List UInt8)
  | pong (payload : List UInt8)
  | close
  | frame

inductive CloseReason where
  | outboundOverflow
  | closedLocally
  | writeFailed
  | textTooLong
  | inboundOverflow
  | pongFailed
  | closedByPeer
  | notText
  | protocolError
  | connectionEnded

def CloseReason.text : CloseReason → String
  | .outboundOverflow => "outbound queue overflow"
  | .closedLocally => "closed locally"
  | .writeFailed => "write failed"
  | .textTooLong => "text frame exceeds limit"
  | .inboundOverflow => "inbound queue overflow"
  | .pongFailed => "pong failed"
  | .closedByPeer => "closed by peer"
  | .notText => "binary frames are not supported"
  | .protocolError => "WebSocket protocol error"
  | .connectionEnded => "connection ended"

inductive Stage where
  | selecting
  | writing (text : String)
  | ponging (payload : List UInt8)
  -- The close frame is on its way; then the reason is reported.
  | closing (reason : CloseReason)
  | reporting (reason : CloseReason)
  | returned

inductive StreamItem where
  | message (m : Message)
  | error

structure State where
  commands : BoundedChannel Command outboundQueue
  overflow : Bool
  handles : ℕ
  incoming : BoundedChannel IncomingMessage inboundQueue
  -- What the stream has not yielded.
  inbox : List StreamItem
  ended : Bool
  stage : Stage
  wire : List Message
  -- What the peer sent so far.
  peer : List Message
  accepted : List String
  received : List IncomingMessage

def opened : State where
  commands := .empty
  overflow := false
  handles := 1
  incoming := .empty
  inbox := []
  ended := false
  stage := .selecting
  wire := []
  peer := []
  accepted := []
  received := []

inductive Branch where
  | overflow
  | command
  | message

/-- How a write ends. A failed one may have reached the wire. -/
inductive WriteResult where
  | sent
  | failed (reached : Bool)

inductive Event where
  | peerSends (m : Message)
  | streamFails
  | streamEnds
  | sendText (text : String)
  | close
  | cloneHandle
  | dropHandle
  | receive
  | dropReceiver
  | select (branch : Branch)
  | written (result : WriteResult)
  | reported

namespace State

/-! ### Handles -/

def submit (s : State) (command : Command) : State × Except SendError Unit :=
  match s.commands.trySend command with
  | .ok commands => ({ s with commands := commands }, .ok ())
  | .error .full => ({ s with overflow := true }, .error .queueFull)
  | .error .closed => (s, .error .closed)

def sendText (s : State) (text : String) : State × Except SendError Unit :=
  if text.utf8ByteSize > maxTextBytes then (s, .error .textTooLarge) else s.submit (.text text)

def close (s : State) : State × Except SendError Unit := s.submit .close

/-! ### The task -/

def onOverflow (s : State) : State :=
  if s.overflow then { s with overflow := false, stage := .closing .outboundOverflow }
  else if s.handles = 0 then { s with stage := .closing .closedLocally }
  else s

def onCommand (s : State) : State :=
  match s.commands.recv? with
  | some (.text text, commands) => { s with commands := commands, stage := .writing text }
  | some (.close, commands) => { s with commands := commands, stage := .closing .closedLocally }
  | none => if s.handles = 0 then { s with stage := .closing .closedLocally } else s

def onText (s : State) (text : String) : State :=
  if text.utf8ByteSize > maxTextBytes then { s with stage := .closing .textTooLong }
  else
    match s.incoming.trySend (.text text) with
    | .ok incoming => { s with incoming := incoming }
    | .error _ => { s with stage := .closing .inboundOverflow }

def onMessage (s : State) : State :=
  match s.inbox with
  | .message (.text text) :: inbox => { s with inbox := inbox }.onText text
  | .message (.ping payload) :: inbox => { s with inbox := inbox, stage := .ponging payload }
  | .message (.pong _) :: inbox => { s with inbox := inbox }
  | .message .close :: inbox => { s with inbox := inbox, stage := .closing .closedByPeer }
  | .message (.binary _) :: inbox => { s with inbox := inbox, stage := .closing .notText }
  | .message .frame :: inbox => { s with inbox := inbox, stage := .closing .notText }
  | .error :: inbox => { s with inbox := inbox, stage := .reporting .protocolError }
  | [] => if s.ended then { s with stage := .reporting .connectionEnded } else s

def select (s : State) : Branch → State
  | .overflow => s.onOverflow
  | .command => s.onCommand
  | .message => s.onMessage

def write (s : State) (m : Message) : WriteResult → State
  | .failed false => s
  | _ => { s with wire := s.wire ++ [m] }

def written (s : State) (result : WriteResult) : State :=
  match s.stage with
  | .writing text =>
    { s.write (.text text) result with
      stage := match result with
        | .sent => .selecting
        | .failed _ => .reporting .writeFailed }
  | .ponging payload =>
    { s.write (.pong payload) result with
      stage := match result with
        | .sent => .selecting
        | .failed _ => .reporting .pongFailed }
  -- the result of the close frame is ignored
  | .closing reason => { s.write .close result with stage := .reporting reason }
  | _ => s

def finish (s : State) : State := { s with commands := s.commands.dropReceiver, stage := .returned }

def reported (s : State) : State :=
  match s.stage with
  | .reporting reason =>
    match s.incoming.trySend (.closed reason.text) with
    | .ok incoming => { s with incoming := incoming }.finish
    | .error .closed => s.finish
    | .error .full => s
  | _ => s

/-! ### Steps -/

def step (s : State) : Event → State
  | .peerSends m =>
    if s.ended then s else { s with inbox := s.inbox ++ [.message m], peer := s.peer ++ [m] }
  | .streamFails => { s with inbox := s.inbox ++ [.error] }
  | .streamEnds => { s with ended := true }
  | .sendText text =>
    if s.handles = 0 then s
    else
      match s.sendText text with
      | (s, .ok ()) => { s with accepted := s.accepted ++ [text] }
      | (s, .error _) => s
  | .close => if s.handles = 0 then s else s.close.1
  | .cloneHandle => if s.handles = 0 then s else { s with handles := s.handles + 1 }
  | .dropHandle => { s with handles := s.handles - 1 }
  | .receive =>
    match s.incoming.recv? with
    | some (m, incoming) => { s with incoming := incoming, received := s.received ++ [m] }
    | none => s
  | .dropReceiver => { s with incoming := s.incoming.dropReceiver }
  | .select branch =>
    match s.stage with
    | .selecting => s.select branch
    | _ => s
  | .written result => s.written result
  | .reported => s.reported

end State

end ForgeswornLink.WebSocket
