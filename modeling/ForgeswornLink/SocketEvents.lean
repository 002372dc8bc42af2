import ForgeswornLink.WebSocket

/-!
# What comes out of a socket

Between the peer and the application texts wait in the stream and in a queue, and
between the application and the wire in a queue and in a write that is not done.
Both ways an invariant accounts for every text while the task is in its loop; once
it has left the loop, what was passed on before is all there is.
-/

namespace ForgeswornLink.WebSocket
open BoundedChannel Runs

/-! ### Texts -/

def Message.text? : Message → Option String
  | .text t => some t
  | _ => none

def StreamItem.text? : StreamItem → Option String
  | .message m => m.text?
  | .error => none

def Command.text? : Command → Option String
  | .text t => some t
  | .close => none

def texts (messages : List Message) : List String := messages.filterMap Message.text?

def Stage.running : Stage → Bool
  | .selecting => true
  | .writing _ => true
  | .ponging _ => true
  | _ => false

def Stage.inFlight : Stage → List String
  | .writing text => [text]
  | _ => []

/-! ### What one event can do -/

/-- Every step of a socket, by what it does to the texts on their way. -/
inductive Moved (s : State) : State → Prop
  -- Handles, the overflow mark and the end of the stream: no text passes through them.
  | aside (overflow : Bool) (handles : ℕ) (ended : Bool) :
      Moved s { s with overflow := overflow, handles := handles, ended := ended }
  | peerSends (m : Message) :
      Moved s { s with inbox := s.inbox ++ [.message m], peer := s.peer ++ [m] }
  | streamFails : Moved s { s with inbox := s.inbox ++ [.error] }
  | accepts {text : String} {commands : BoundedChannel Command outboundQueue}
      (hsend : s.commands.trySend (.text text) = .ok commands) :
      Moved s { s with commands := commands, accepted := s.accepted ++ [text] }
  | closes {commands : BoundedChannel Command outboundQueue}
      (hsend : s.commands.trySend .close = .ok commands) : Moved s { s with commands := commands }
  | receives {m : IncomingMessage} {incoming : BoundedChannel IncomingMessage inboundQueue}
      (hrecv : s.incoming.recv? = some (m, incoming)) :
      Moved s { s with incoming := incoming, received := s.received ++ [m] }
  | dropsReceiver : Moved s { s with incoming := s.incoming.dropReceiver }
  | takes {text : String} {commands : BoundedChannel Command outboundQueue}
      (hstage : s.stage = .selecting) (hrecv : s.commands.recv? = some (.text text, commands)) :
      Moved s { s with commands := commands, stage := .writing text }
  | delivers {text : String} {inbox : List StreamItem}
      {incoming : BoundedChannel IncomingMessage inboundQueue} (hstage : s.stage = .selecting)
      (hinbox : s.inbox = .message (.text text) :: inbox)
      (hsend : s.incoming.trySend (.text text) = .ok incoming) :
      Moved s { s with inbox := inbox, incoming := incoming }
  | pinged {payload : List UInt8} {inbox : List StreamItem} (hstage : s.stage = .selecting)
      (hinbox : s.inbox = .message (.ping payload) :: inbox) :
      Moved s { s with inbox := inbox, stage := .ponging payload }
  | ponged {payload : List UInt8} {inbox : List StreamItem} (hstage : s.stage = .selecting)
      (hinbox : s.inbox = .message (.pong payload) :: inbox) : Moved s { s with inbox := inbox }
  -- A text reaches the wire, whether or not the write is reported to have failed.
  | writes {text : String} (hstage : s.stage = .writing text) {stage : Stage}
      (hnext : stage = .selecting ∨ stage = .reporting .writeFailed) :
      Moved s { s with wire := s.wire ++ [.text text], stage := stage }
  | pongs {payload : List UInt8} (hstage : s.stage = .ponging payload) :
      Moved s { s with wire := s.wire ++ [.pong payload], stage := .selecting }
  -- The task is on its way out: it reads and writes no more texts.
  | leaves (overflow : Bool) (commands : BoundedChannel Command outboundQueue)
      (inbox : List StreamItem) {wire : List Message} {stage : Stage} (hstage : s.stage ≠ .returned)
      (hwire : texts wire = texts s.wire) (hrunning : stage.running = false)
      (hreturned : stage ≠ .returned) :
      Moved s { s with
        overflow := overflow, commands := commands, inbox := inbox, wire := wire, stage := stage }
  | reports {reason : CloseReason} {incoming : BoundedChannel IncomingMessage inboundQueue}
      (hstage : s.stage = .reporting reason)
      (hsend : s.incoming.trySend (.closed reason.text) = .ok incoming) :
      Moved s ({ s with incoming := incoming } : State).finish
  | finishes {reason : CloseReason} (hstage : s.stage = .reporting reason)
      (hreceiver : s.incoming.receiver = false) : Moved s s.finish

namespace State
variable {s : State}

theorem moved_self (s : State) : Moved s s := .aside s.overflow s.handles s.ended

theorem moved_sendText (s : State) (text : String) : Moved s (s.step (.sendText text)) := by
  unfold step sendText submit
  dsimp only
  by_cases hhandles : s.handles = 0
  · rw [if_pos hhandles]
    exact s.moved_self
  by_cases hlong : text.utf8ByteSize > maxTextBytes
  · rw [if_neg hhandles, if_pos hlong]
    exact s.moved_self
  rw [if_neg hhandles, if_neg hlong]
  cases hsend : s.commands.trySend (.text text) with
  | ok commands => exact .accepts hsend
  | error refusal =>
    cases refusal with
    | full => exact .aside true s.handles s.ended
    | closed => exact s.moved_self

theorem moved_close (s : State) : Moved s (s.step .close) := by
  unfold step close submit
  dsimp only
  split_ifs
  · exact s.moved_self
  cases hsend : s.commands.trySend .close with
  | ok commands => exact .closes hsend
  | error refusal =>
    cases refusal with
    | full => exact .aside true s.handles s.ended
    | closed => exact s.moved_self

section Selecting
variable (hstage : s.stage = .selecting)
include hstage

theorem moved_out (overflow : Bool) (commands : BoundedChannel Command outboundQueue)
    (inbox : List StreamItem) {stage : Stage} (hrunning : stage.running = false)
    (hreturned : stage ≠ .returned) :
    Moved s { s with overflow := overflow, commands := commands, inbox := inbox, stage := stage } :=
  .leaves overflow commands inbox (by rw [hstage]; nofun) rfl hrunning hreturned

theorem moved_onOverflow : Moved s s.onOverflow := by
  unfold onOverflow
  split_ifs
  · exact moved_out hstage false s.commands s.inbox rfl nofun
  · exact moved_out hstage s.overflow s.commands s.inbox rfl nofun
  · exact s.moved_self

theorem moved_onCommand : Moved s s.onCommand := by
  unfold onCommand
  split
  · next hrecv => exact .takes hstage hrecv
  · next commands hrecv => exact moved_out hstage s.overflow commands s.inbox rfl nofun
  · split_ifs
    · exact moved_out hstage s.overflow s.commands s.inbox rfl nofun
    · exact s.moved_self

theorem moved_onText {text : String} {inbox : List StreamItem}
    (hinbox : s.inbox = .message (.text text) :: inbox) :
    Moved s (({ s with inbox := inbox } : State).onText text) := by
  unfold onText
  dsimp only
  split_ifs
  · exact moved_out hstage s.overflow s.commands inbox rfl nofun
  · split
    · next hsend => exact .delivers hstage hinbox hsend
    · exact moved_out hstage s.overflow s.commands inbox rfl nofun

theorem moved_onMessage : Moved s s.onMessage := by
  unfold onMessage
  split
  · next hinbox => exact moved_onText hstage hinbox
  · next hinbox => exact .pinged hstage hinbox
  · next hinbox => exact .ponged hstage hinbox
  · next inbox _ => exact moved_out hstage s.overflow s.commands inbox rfl nofun
  · next inbox _ => exact moved_out hstage s.overflow s.commands inbox rfl nofun
  · next inbox _ => exact moved_out hstage s.overflow s.commands inbox rfl nofun
  · next inbox _ => exact moved_out hstage s.overflow s.commands inbox rfl nofun
  · split_ifs
    · exact moved_out hstage s.overflow s.commands s.inbox rfl nofun
    · exact s.moved_self

end Selecting

theorem moved_written (s : State) (result : WriteResult) : Moved s (s.written result) := by
  have hcontrol : ∀ m : Message, m.text? = none → texts (s.wire ++ [m]) = texts s.wire := by
    intro m hm
    rw [texts, List.filterMap_append, List.filterMap_cons_none hm]
    exact List.append_nil _
  unfold written
  split
  · next text hstage =>
    match result with
    | .sent => exact .writes hstage (Or.inl rfl)
    | .failed true => exact .writes hstage (Or.inr rfl)
    | .failed false =>
      exact .leaves s.overflow s.commands s.inbox (by rw [hstage]; nofun) rfl rfl nofun
  · next payload hstage =>
    match result with
    | .sent => exact .pongs hstage
    | .failed true =>
      exact .leaves s.overflow s.commands s.inbox (by rw [hstage]; nofun) (hcontrol _ rfl) rfl nofun
    | .failed false =>
      exact .leaves s.overflow s.commands s.inbox (by rw [hstage]; nofun) rfl rfl nofun
  · next reason hstage =>
    match result with
    | .sent | .failed true =>
      exact .leaves s.overflow s.commands s.inbox (by rw [hstage]; nofun) (hcontrol _ rfl) rfl nofun
    | .failed false =>
      exact .leaves s.overflow s.commands s.inbox (by rw [hstage]; nofun) rfl rfl nofun
  · exact s.moved_self

theorem moved_reported (s : State) : Moved s s.reported := by
  unfold reported
  split
  · next hstage =>
    split
    · next hsend => exact .reports hstage hsend
    · next hsend => exact .finishes hstage (of_trySend_closed hsend)
    · exact s.moved_self
  · exact s.moved_self

theorem moved_step (s : State) (e : Event) : Moved s (s.step e) := by
  cases e with
  | peerSends m =>
    unfold step
    dsimp only
    split_ifs
    · exact s.moved_self
    · exact .peerSends m
  | streamFails => exact .streamFails
  | streamEnds => exact .aside s.overflow s.handles true
  | sendText text => exact s.moved_sendText text
  | close => exact s.moved_close
  | cloneHandle =>
    unfold step
    dsimp only
    split_ifs
    · exact s.moved_self
    · exact .aside s.overflow (s.handles + 1) s.ended
  | dropHandle => exact .aside s.overflow (s.handles - 1) s.ended
  | receive =>
    unfold step
    dsimp only
    split
    · next hrecv => exact .receives hrecv
    · exact s.moved_self
  | dropReceiver => exact .dropsReceiver
  | select branch =>
    unfold step
    dsimp only
    split
    · next hstage =>
      cases branch with
      | overflow => exact moved_onOverflow hstage
      | command => exact moved_onCommand hstage
      | message => exact moved_onMessage hstage
    · exact s.moved_self
  | written result => exact s.moved_written result
  | reported => exact s.moved_reported

end State

/-! ### From the peer to the application -/

/-- The application has or can still get `delivered` and then `ends`. -/
structure Account (received : List IncomingMessage)
    (incoming : BoundedChannel IncomingMessage inboundQueue) (inbox : List StreamItem)
    (peer : List Message) (stage : Stage) (delivered : List String) (ends : List IncomingMessage) :
    Prop where
  fifo : received ++ incoming.items <+: delivered.map .text ++ ends
  kept : incoming.receiver = true → received ++ incoming.items = delivered.map .text ++ ends
  sent : delivered <+: texts peer
  reading : stage.running = true → delivered ++ inbox.filterMap StreamItem.text? = texts peer
  once : ends = [] ∨ ∃ reason : CloseReason, ends = [.closed reason.text]
  before : stage ≠ .returned → ends = []
  after : stage = .returned → incoming.receiver = true → ends ≠ []

namespace Account
variable {received : List IncomingMessage} {incoming : BoundedChannel IncomingMessage inboundQueue}
  {inbox : List StreamItem} {peer : List Message} {stage : Stage} {delivered : List String}
  {ends : List IncomingMessage}

theorem stay (h : Account received incoming inbox peer stage delivered ends)
    {inbox' : List StreamItem} {stage' : Stage} (hrunning : stage.running = true)
    (hrunning' : stage'.running = true)
    (hinbox : inbox.filterMap StreamItem.text? = inbox'.filterMap StreamItem.text?) :
    Account received incoming inbox' peer stage' delivered ends where
  fifo := h.fifo
  kept := h.kept
  sent := h.sent
  reading := fun _ => hinbox ▸ h.reading hrunning
  once := h.once
  before := fun _ => h.before (by rintro rfl; cases hrunning)
  after := by
    rintro rfl
    cases hrunning'

theorem leave (h : Account received incoming inbox peer stage delivered ends)
    {inbox' : List StreamItem} {stage' : Stage} (hstage : stage ≠ .returned)
    (hrunning : stage'.running = false) (hreturned : stage' ≠ .returned) :
    Account received incoming inbox' peer stage' delivered ends where
  fifo := h.fifo
  kept := h.kept
  sent := h.sent
  reading := fun hloop => Bool.noConfusion (hloop.symm.trans hrunning)
  once := h.once
  before := fun _ => h.before hstage
  after := fun hend => absurd hend hreturned

theorem deliver {text : String}
    (h : Account received incoming (.message (.text text) :: inbox) peer stage delivered ends)
    (hrunning : stage.running = true) {incoming' : BoundedChannel IncomingMessage inboundQueue}
    (hsend : incoming.trySend (.text text) = .ok incoming') :
    Account received incoming' inbox peer stage (delivered ++ [text]) ends := by
  obtain ⟨hitems, hreceiver, -⟩ := of_trySend_ok hsend
  have hstage : stage ≠ .returned := by rintro rfl; cases hrunning
  have hends := h.before hstage
  have hread : delivered ++ text :: inbox.filterMap StreamItem.text? = texts peer :=
    h.reading hrunning
  have hall : received ++ incoming'.items = (delivered ++ [text]).map .text ++ ends := by
    have hkept := h.kept hreceiver
    rw [hends, List.append_nil] at hkept
    rw [hitems, hends, List.append_nil, List.map_append, ← hkept, List.append_assoc]
    rfl
  refine ⟨hall ▸ List.prefix_rfl, fun _ => hall, ?_, fun _ => ?_, h.once, h.before,
    fun hreturned => absurd hreturned hstage⟩
  · exact ⟨inbox.filterMap StreamItem.text?, by rw [← hread, List.append_assoc]; rfl⟩
  · rw [← hread, List.append_assoc]
    rfl

theorem report {reason : CloseReason}
    (h : Account received incoming inbox peer (.reporting reason) delivered ends)
    {incoming' : BoundedChannel IncomingMessage inboundQueue}
    (hsend : incoming.trySend (.closed reason.text) = .ok incoming') :
    Account received incoming' inbox peer .returned delivered [.closed reason.text] := by
  obtain ⟨hitems, hreceiver, -⟩ := of_trySend_ok hsend
  have hall : received ++ incoming'.items = delivered.map .text ++ [.closed reason.text] := by
    have hkept := h.kept hreceiver
    rw [h.before nofun, List.append_nil] at hkept
    rw [hitems, ← hkept, List.append_assoc]
  exact ⟨hall ▸ List.prefix_rfl, fun _ => hall, h.sent, nofun, Or.inr ⟨reason, rfl⟩,
    fun hne => absurd rfl hne, nofun⟩

theorem finish (h : Account received incoming inbox peer stage delivered ends)
    (hreceiver : incoming.receiver = false) :
    Account received incoming inbox peer .returned delivered ends :=
  ⟨h.fifo, h.kept, h.sent, nofun, h.once, fun hne => absurd rfl hne,
    fun _ hkept => Bool.noConfusion (hkept.symm.trans hreceiver)⟩

theorem receive (h : Account received incoming inbox peer stage delivered ends)
    {m : IncomingMessage} {incoming' : BoundedChannel IncomingMessage inboundQueue}
    (hrecv : incoming.recv? = some (m, incoming')) :
    Account (received ++ [m]) incoming' inbox peer stage delivered ends := by
  obtain ⟨hitems, hreceiver⟩ := of_recv?_eq_some hrecv
  have hsame : received ++ [m] ++ incoming'.items = received ++ incoming.items := by
    rw [hitems, List.append_assoc, List.singleton_append]
  refine ⟨hsame ▸ h.fifo, ?_, h.sent, h.reading, h.once, h.before, ?_⟩
  · intro hkept
    rw [hsame]
    exact h.kept (hreceiver ▸ hkept)
  · intro hreturned hkept
    exact h.after hreturned (hreceiver ▸ hkept)

theorem dropReceiver (h : Account received incoming inbox peer stage delivered ends) :
    Account received incoming.dropReceiver inbox peer stage delivered ends := by
  refine ⟨?_, nofun, h.sent, h.reading, h.once, h.before, nofun⟩
  have hnone : incoming.dropReceiver.items = [] := rfl
  rw [hnone, List.append_nil]
  exact (List.prefix_append _ _).trans h.fifo

theorem peerSends (h : Account received incoming inbox peer stage delivered ends) (m : Message) :
    Account received incoming (inbox ++ [.message m]) (peer ++ [m]) stage delivered ends := by
  have htexts : texts (peer ++ [m]) = texts peer ++ [m].filterMap Message.text? :=
    List.filterMap_append
  refine ⟨h.fifo, h.kept, ?_, fun hrunning => ?_, h.once, h.before, h.after⟩
  · rw [htexts]
    exact h.sent.trans (List.prefix_append _ _)
  · rw [htexts, List.filterMap_append, ← List.append_assoc, h.reading hrunning]
    rfl

theorem streamFails (h : Account received incoming inbox peer stage delivered ends) :
    Account received incoming (inbox ++ [.error]) peer stage delivered ends := by
  refine ⟨h.fifo, h.kept, h.sent, fun hrunning => ?_, h.once, h.before, h.after⟩
  rw [List.filterMap_append, ← List.append_assoc, h.reading hrunning]
  exact List.append_nil _

end Account

namespace State
variable {s : State}

def Delivers (s : State) : Prop :=
  ∃ delivered ends, Account s.received s.incoming s.inbox s.peer s.stage delivered ends

theorem delivers_opened : opened.Delivers :=
  ⟨[], [], List.prefix_rfl, fun _ => rfl, List.prefix_rfl, fun _ => rfl, Or.inl rfl,
    fun _ => rfl, nofun⟩

theorem Delivers.step (h : s.Delivers) (e : Event) : (s.step e).Delivers := by
  obtain ⟨delivered, ends, h⟩ := h
  have hmoved := s.moved_step e
  generalize s.step e = next at hmoved
  cases hmoved with
  | aside => exact ⟨delivered, ends, h⟩
  | peerSends m => exact ⟨delivered, ends, h.peerSends m⟩
  | streamFails => exact ⟨delivered, ends, h.streamFails⟩
  | accepts => exact ⟨delivered, ends, h⟩
  | closes => exact ⟨delivered, ends, h⟩
  | receives hrecv => exact ⟨delivered, ends, h.receive hrecv⟩
  | dropsReceiver => exact ⟨delivered, ends, h.dropReceiver⟩
  | takes hstage => exact ⟨delivered, ends, h.stay (by rw [hstage]; rfl) rfl rfl⟩
  | delivers hstage hinbox hsend =>
    rw [hinbox] at h
    exact ⟨_, ends, h.deliver (by rw [hstage]; rfl) hsend⟩
  | pinged hstage hinbox =>
    exact ⟨delivered, ends, h.stay (by rw [hstage]; rfl) rfl (by rw [hinbox]; rfl)⟩
  | ponged hstage hinbox =>
    have hrunning : s.stage.running = true := by rw [hstage]; rfl
    exact ⟨delivered, ends, h.stay hrunning hrunning (by rw [hinbox]; rfl)⟩
  | writes hstage hnext =>
    rcases hnext with rfl | rfl
    · exact ⟨delivered, ends, h.stay (by rw [hstage]; rfl) rfl rfl⟩
    · exact ⟨delivered, ends, h.leave (by rw [hstage]; nofun) rfl nofun⟩
  | pongs hstage => exact ⟨delivered, ends, h.stay (by rw [hstage]; rfl) rfl rfl⟩
  | leaves _ _ _ hstage _ hrunning hreturned =>
    exact ⟨delivered, ends, h.leave hstage hrunning hreturned⟩
  | reports hstage hsend => exact ⟨delivered, _, (hstage ▸ h).report hsend⟩
  | finishes _ hreceiver => exact ⟨delivered, ends, h.finish hreceiver⟩

end State

/-! ### From the application to the wire -/

structure Ledger (wire : List Message) (accepted : List String) (commands : List Command)
    (stage : Stage) : Prop where
  written : texts wire <+: accepted
  queued : stage.running = true →
    texts wire ++ stage.inFlight ++ commands.filterMap Command.text? = accepted

namespace Ledger
variable {wire : List Message} {accepted : List String} {commands : List Command} {stage : Stage}

theorem leave (h : Ledger wire accepted commands stage) {wire' : List Message}
    {commands' : List Command} {stage' : Stage} (hwire : texts wire' = texts wire)
    (hrunning : stage'.running = false) : Ledger wire' accepted commands' stage' :=
  ⟨hwire ▸ h.written, fun hloop => Bool.noConfusion (hloop.symm.trans hrunning)⟩

theorem accept (h : Ledger wire accepted commands stage) (text : String) :
    Ledger wire (accepted ++ [text]) (commands ++ [.text text]) stage := by
  refine ⟨h.written.trans (List.prefix_append _ _), fun hrunning => ?_⟩
  rw [List.filterMap_append, ← List.append_assoc, h.queued hrunning]
  rfl

theorem close (h : Ledger wire accepted commands stage) :
    Ledger wire accepted (commands ++ [.close]) stage := by
  refine ⟨h.written, fun hrunning => ?_⟩
  rw [List.filterMap_append, ← List.append_assoc, h.queued hrunning]
  exact List.append_nil _

theorem take {text : String} (h : Ledger wire accepted (.text text :: commands) .selecting) :
    Ledger wire accepted commands (.writing text) := by
  refine ⟨h.written, fun _ => ?_⟩
  have hqueued : texts wire ++ [] ++ text :: commands.filterMap Command.text? = accepted :=
    h.queued rfl
  rw [List.append_nil] at hqueued
  rw [← hqueued, List.append_assoc]
  rfl

theorem reach {text : String} (h : Ledger wire accepted commands (.writing text)) :
    Ledger (wire ++ [.text text]) accepted commands .selecting := by
  have hqueued : texts wire ++ [text] ++ commands.filterMap Command.text? = accepted := h.queued rfl
  have hwire : texts (wire ++ [.text text]) = texts wire ++ [text] := List.filterMap_append
  refine ⟨?_, fun _ => ?_⟩
  · rw [hwire, ← hqueued]
    exact List.prefix_append _ _
  · rw [hwire, ← hqueued]
    exact congrArg (· ++ _) (List.append_nil _)

theorem pong {payload : List UInt8} (h : Ledger wire accepted commands (.ponging payload)) :
    Ledger (wire ++ [.pong payload]) accepted commands .selecting := by
  have hwire : texts (wire ++ [.pong payload]) = texts wire :=
    List.filterMap_append.trans (List.append_nil _)
  exact ⟨hwire ▸ h.written, fun _ => hwire ▸ h.queued rfl⟩

end Ledger

namespace State
variable {s : State}

def Writes (s : State) : Prop := Ledger s.wire s.accepted s.commands.items s.stage

theorem Writes.step (h : s.Writes) (e : Event) : (s.step e).Writes := by
  have hmoved := s.moved_step e
  generalize s.step e = next at hmoved
  cases hmoved with
  | aside => exact h
  | peerSends => exact h
  | streamFails => exact h
  | @accepts text commands hsend =>
    have haccepted := h.accept text
    rw [← (of_trySend_ok hsend).1] at haccepted
    exact haccepted
  | closes hsend =>
    have hclosed := h.close
    rw [← (of_trySend_ok hsend).1] at hclosed
    exact hclosed
  | receives => exact h
  | dropsReceiver => exact h
  | takes hstage hrecv =>
    rw [Writes, hstage, (of_recv?_eq_some hrecv).1] at h
    exact h.take
  | delivers => exact h
  | pinged hstage =>
    rw [Writes, hstage] at h
    exact ⟨h.written, h.queued⟩
  | ponged => exact h
  | writes hstage hnext =>
    rw [Writes, hstage] at h
    rcases hnext with rfl | rfl
    · exact h.reach
    · exact h.reach.leave rfl rfl
  | pongs hstage =>
    rw [Writes, hstage] at h
    exact h.pong
  | leaves _ _ _ _ hwire hrunning => exact h.leave hwire hrunning
  | reports => exact h.leave rfl rfl
  | finishes => exact h.leave rfl rfl

/-! ### After the end -/

def events (s : State) : List IncomingMessage := s.received ++ s.incoming.items

theorem step_returned (h : s.stage = .returned) (e : Event) :
    (s.step e).stage = .returned ∧
      ((s.step e).incoming.receiver = true →
        s.incoming.receiver = true ∧ (s.step e).events = s.events) := by
  have hmoved := s.moved_step e
  generalize s.step e = next at hmoved
  cases hmoved with
  | aside => exact ⟨h, fun hkept => ⟨hkept, rfl⟩⟩
  | peerSends => exact ⟨h, fun hkept => ⟨hkept, rfl⟩⟩
  | streamFails => exact ⟨h, fun hkept => ⟨hkept, rfl⟩⟩
  | accepts => exact ⟨h, fun hkept => ⟨hkept, rfl⟩⟩
  | closes => exact ⟨h, fun hkept => ⟨hkept, rfl⟩⟩
  | receives hrecv =>
    obtain ⟨hitems, hreceiver⟩ := of_recv?_eq_some hrecv
    refine ⟨h, fun hkept => ⟨hreceiver ▸ hkept, ?_⟩⟩
    rw [events, events, hitems, List.append_assoc, List.singleton_append]
  | dropsReceiver => exact ⟨h, nofun⟩
  | leaves _ _ _ hstage => exact absurd h hstage
  -- all else is done by the task
  | takes hstage | delivers hstage | pinged hstage | ponged hstage | writes hstage | pongs hstage
  | reports hstage | finishes hstage => cases h.symm.trans hstage

theorem run_returned (h : s.stage = .returned) (es : List Event) :
    (run step s es).stage = .returned ∧
      ((run step s es).incoming.receiver = true →
        s.incoming.receiver = true ∧ (run step s es).events = s.events) := by
  induction es generalizing s with
  | nil => exact ⟨h, fun hkept => ⟨hkept, rfl⟩⟩
  | cons e es ih =>
    obtain ⟨hstage, hstep⟩ := step_returned h e
    obtain ⟨hend, hrun⟩ := ih hstage
    refine ⟨hend, fun hkept => ?_⟩
    obtain ⟨hthere, hevents⟩ := hrun hkept
    obtain ⟨hbefore, hsame⟩ := hstep hthere
    exact ⟨hbefore, hevents.trans hsame⟩

end State

/-- Whatever the peer, the application and the scheduler do: the application receives the texts of
the peer in their order, up to some point, and then, if it keeps the receiver until the task has
returned, one closing event and nothing else. The texts on the wire are the texts that were
accepted, in their order, up to some point. -/
theorem events_end_once (es : List Event) :
    let s := run State.step opened es
    (∃ delivered ends, s.events <+: delivered.map .text ++ ends ∧
        (s.incoming.receiver = true → s.events = delivered.map .text ++ ends) ∧
        delivered <+: texts s.peer ∧
        (ends = [] ∨ ∃ reason : CloseReason, ends = [.closed reason.text]) ∧
        (s.stage ≠ .returned → ends = []) ∧
        (s.stage = .returned → s.incoming.receiver = true → ends ≠ [])) ∧
      (s.stage = .returned → ∀ fs, (run State.step s fs).stage = .returned ∧
        ((run State.step s fs).incoming.receiver = true →
          (run State.step s fs).events = s.events)) ∧
      texts s.wire <+: s.accepted := by
  intro s
  obtain ⟨delivered, ends, haccount⟩ : s.Delivers :=
    Runs.invariant State.step State.delivers_opened (fun _ e h => h.step e) es
  have hwrites : s.Writes :=
    Runs.invariant State.step (⟨List.prefix_rfl, fun _ => rfl⟩ : opened.Writes)
      (fun _ e h => h.step e) es
  refine ⟨⟨delivered, ends, haccount.fifo, haccount.kept, haccount.sent, haccount.once,
    haccount.before, haccount.after⟩, ?_, Ledger.written hwrites⟩
  intro hreturned fs
  obtain ⟨hstage, hevents⟩ := State.run_returned hreturned fs
  exact ⟨hstage, fun hkept => (hevents hkept).2⟩

example :
    (run State.step opened [.peerSends (.text "a"), .peerSends .close, .peerSends (.text "b"),
      .select .message, .sendText "c", .select .message, .written (.failed false), .reported,
      .receive, .receive, .receive]).received = [.text "a", .closed "closed by peer"] := by
  decide +kernel

end ForgeswornLink.WebSocket
