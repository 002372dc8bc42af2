import ForgeswornLink.RelayFrame
import ForgeswornLink.Lib.Runs
import ForgeswornLink.Lib.Shedding

/-!
# The receive queue of a browser's relay socket

The page delivers messages whether or not the session keeps up, so the queue is bounded
by count and by bytes. A push past a bound first sheds the oldest deliveries of a peer's
datagrams, and is refused only where a control frame would have to go. The byte counter
is the source's own, kept beside the queue; that it is the sum of the queued lengths is
proved and not assumed. The loop of `push` is then the loop of `Shedding`.
-/

namespace ForgeswornLink
open Runs Shedding

inductive WsMessage where
  | binary (bytes : List UInt8)
  | ping (payload : List UInt8)
  | pong
  | other
deriving DecidableEq

def inboundBound : ℕ := 1024
def inboundBytes : ℕ := 2 <<< 20

def messageLen : WsMessage → ℕ
  | .binary bytes => bytes.length
  | _ => 0

/-- A relay delivery of a peer's datagram, whose loss QUIC recovers from. -/
def isDatagram : WsMessage → Bool
  | .binary (kind :: _) => kind == Frame.frameRecv || kind == Frame.frameRecvTag
  | _ => false

structure InboundQueue where
  queue : List WsMessage := []
  bytes : ℕ := 0

namespace InboundQueue

/-- The loop of `push`: the oldest datagram goes until a message of `len` bytes fits. -/
def makeRoom (q : InboundQueue) (len : ℕ) : InboundQueue × Bool :=
  if q.queue.length ≥ inboundBound ∨ q.bytes + len > inboundBytes then
    match _h : q.queue.find? isDatagram with
    | none => (q, false)
    | some dropped =>
      makeRoom ⟨q.queue.eraseP isDatagram, q.bytes - messageLen dropped⟩ len
  else (q, true)
termination_by q.queue.countP isDatagram
decreasing_by
  have hcount := countP_eraseP _h
  omega

def push (q : InboundQueue) (message : WsMessage) : InboundQueue × Bool :=
  match q.makeRoom (messageLen message) with
  | (room, false) => (room, false)
  | (room, true) => (⟨room.queue ++ [message], room.bytes + messageLen message⟩, true)

def pop (q : InboundQueue) : InboundQueue × Option WsMessage :=
  match q.queue with
  | [] => (q, none)
  | message :: rest => (⟨rest, q.bytes - messageLen message⟩, some message)

end InboundQueue

def totalLen (messages : List WsMessage) : ℕ := (messages.map messageLen).sum

def fitsBehind (len : ℕ) (messages : List WsMessage) : Bool :=
  messages.length < inboundBound && totalLen messages + len ≤ inboundBytes

theorem fitsBehind_iff {len : ℕ} {messages : List WsMessage} :
    fitsBehind len messages = true ↔
      messages.length < inboundBound ∧ totalLen messages + len ≤ inboundBytes := by
  simp [fitsBehind]

theorem totalLen_sublist {l l' : List WsMessage} (h : l'.Sublist l) : totalLen l' ≤ totalLen l :=
  (h.map messageLen).sum_le_sum fun _ _ => Nat.zero_le _

theorem fitsBehind_mono (len : ℕ) {l l' : List WsMessage} (h : l'.Sublist l)
    (hfits : fitsBehind len l = true) : fitsBehind len l' = true := by
  rw [fitsBehind_iff] at hfits ⊢
  have hlength := h.length_le
  have hload := totalLen_sublist h
  omega

namespace InboundQueue

def ofMessages (messages : List WsMessage) : InboundQueue := ⟨messages, totalLen messages⟩

theorem makeRoom_ofMessages (messages : List WsMessage) (len : ℕ) :
    (ofMessages messages).makeRoom len =
      ((Shedding.makeRoom isDatagram (fitsBehind len) messages).map ofMessages id) := by
  induction hcount : messages.countP isDatagram using Nat.strong_induction_on
    generalizing messages with
  | _ n ih =>
    have hover : ((ofMessages messages).queue.length ≥ inboundBound ∨
        (ofMessages messages).bytes + len > inboundBytes) ↔ fitsBehind len messages = false := by
      rw [← Bool.not_eq_true, fitsBehind_iff]
      simp only [ofMessages]
      omega
    rw [makeRoom]
    cases hfits : fitsBehind len messages with
    | true =>
      rw [if_neg (by rw [hover, hfits]; simp), makeRoom_of_fits hfits]
      rfl
    | false =>
      rw [if_pos (hover.mpr hfits)]
      split
      · rename_i hfind
        rw [makeRoom_of_none hfits hfind]
        rfl
      · rename_i dropped hfind
        replace hfind : messages.find? isDatagram = some dropped := hfind
        have hless := countP_eraseP hfind
        have hload : totalLen messages - messageLen dropped =
            totalLen (messages.eraseP isDatagram) := by
          have hsum := sum_eraseP messageLen hfind
          simp only [totalLen]
          omega
        rw [makeRoom_of_some hfits hfind, ← ih _ (by omega) _ rfl]
        change makeRoom ⟨messages.eraseP isDatagram, totalLen messages - messageLen dropped⟩ len = _
        rw [hload]
        rfl

theorem push_spec (messages : List WsMessage) (message : WsMessage) :
    ∃ n ≤ messages.countP isDatagram,
      (∀ m < n, fitsBehind (messageLen message) (shed isDatagram m messages) = false) ∧
      if fitsBehind (messageLen message) (hold isDatagram messages) then
        fitsBehind (messageLen message) (shed isDatagram n messages) = true ∧
          (ofMessages messages).push message =
            (ofMessages (shed isDatagram n messages ++ [message]), true)
      else (ofMessages messages).push message =
        (ofMessages (shed isDatagram n messages), false) := by
  obtain ⟨n, hn, hroom, hmin, -⟩ :=
    Shedding.makeRoom_spec isDatagram (fitsBehind (messageLen message)) messages
  have hdecides := makeRoom_snd (p := isDatagram) (fitsBehind_mono (messageLen message)) messages
  rw [hroom] at hdecides
  refine ⟨n, hn, hmin, ?_⟩
  rw [← hdecides]
  cases hfits : fitsBehind (messageLen message) (shed isDatagram n messages) with
  | true =>
    refine ⟨rfl, ?_⟩
    simp only [push, makeRoom_ofMessages, hroom, Prod.map, hfits, id]
    simp [ofMessages, totalLen]
  | false =>
    rw [if_neg (by simp)]
    simp only [push, makeRoom_ofMessages, hroom, Prod.map, hfits, id]

theorem pop_ofMessages (messages : List WsMessage) :
    (ofMessages messages).pop = (ofMessages messages.tail, messages.head?) := by
  cases messages with
  | nil => rfl
  | cons message rest => simp [pop, ofMessages, totalLen]

end InboundQueue

inductive QueueCall where
  | push (message : WsMessage)
  | pop

/-- The queue with what its callers have seen: the messages it took and the ones it gave out. -/
structure Inbox where
  inbound : InboundQueue := {}
  accepted : List WsMessage := []
  popped : List WsMessage := []

namespace Inbox

def step (x : Inbox) : QueueCall → Inbox
  | .push message =>
    match x.inbound.push message with
    | (inbound, true) => { x with inbound, accepted := x.accepted ++ [message] }
    | (inbound, false) => { x with inbound }
  | .pop =>
    match x.inbound.pop with
    | (inbound, some message) => { x with inbound, popped := x.popped ++ [message] }
    | (inbound, none) => { x with inbound }

structure Sound (x : Inbox) : Prop where
  exact : x.inbound = .ofMessages x.inbound.queue
  count : x.inbound.queue.length ≤ inboundBound
  size : totalLen x.inbound.queue ≤ inboundBytes
  spares : Spares isDatagram (x.popped ++ x.inbound.queue) x.accepted

theorem Sound.push {x : Inbox} (h : x.Sound) (message : WsMessage) :
    (x.step (.push message)).Sound := by
  obtain ⟨n, -, -, hpush⟩ := InboundQueue.push_spec x.inbound.queue message
  rw [← h.exact] at hpush
  have hshed := spares_shed (p := isDatagram) n x.inbound.queue
  have hspares : Spares isDatagram (x.popped ++ shed isDatagram n x.inbound.queue) x.accepted :=
    (Spares.append (.refl x.popped) hshed).trans h.spares
  split_ifs at hpush with hfits
  · obtain ⟨hroom, hpush⟩ := hpush
    rw [fitsBehind_iff] at hroom
    simp only [step, hpush]
    refine ⟨rfl, ?_, ?_, ?_⟩
    · simp only [InboundQueue.ofMessages, List.length_append, List.length_singleton]
      omega
    · simp only [InboundQueue.ofMessages, totalLen, List.map_append, List.sum_append] at hroom ⊢
      simpa using hroom.2
    · rw [InboundQueue.ofMessages, ← List.append_assoc]
      exact hspares.append (.refl [message])
  · simp only [step, hpush]
    refine ⟨rfl, ?_, ?_, hspares⟩
    · exact hshed.sublist.length_le.trans h.count
    · exact (totalLen_sublist hshed.sublist).trans h.size

theorem Sound.pop {x : Inbox} (h : x.Sound) : (x.step .pop).Sound := by
  have hpop := InboundQueue.pop_ofMessages x.inbound.queue
  rw [← h.exact] at hpop
  cases hqueue : x.inbound.queue with
  | nil =>
    rw [hqueue] at hpop
    simp only [step, hpop, List.head?_nil, List.tail_nil]
    have hspares := h.spares
    rw [hqueue] at hspares
    exact ⟨rfl, by simp [InboundQueue.ofMessages], by simp [InboundQueue.ofMessages, totalLen],
      hspares⟩
  | cons message rest =>
    rw [hqueue] at hpop
    simp only [step, hpop, List.head?_cons, List.tail_cons]
    have htail : rest.Sublist x.inbound.queue := by
      rw [hqueue]
      exact List.sublist_cons_self message rest
    refine ⟨rfl, htail.length_le.trans h.count, (totalLen_sublist htail).trans h.size, ?_⟩
    have hspares := h.spares
    rw [hqueue, ← List.singleton_append, ← List.append_assoc] at hspares
    exact hspares

theorem sound_run (calls : List QueueCall) : (run step {} calls).Sound :=
  invariant step (I := Sound) ⟨rfl, Nat.zero_le _, Nat.zero_le _, .refl []⟩
    (fun x call h => by
      cases call with
      | push message => exact h.push message
      | pop => exact h.pop) calls

/-- After every sequence of calls the counter is exact, both bounds hold and only datagrams
were lost; and every next push sheds the least that makes room or cannot make any. -/
theorem inbound_queue_keeps_control_frames (calls : List QueueCall) :
    let x := run step {} calls
    x.inbound.bytes = totalLen x.inbound.queue ∧
    x.inbound.queue.length ≤ 1024 ∧ totalLen x.inbound.queue ≤ 2 * 1024 * 1024 ∧
    (x.popped ++ x.inbound.queue).Sublist x.accepted ∧
    hold isDatagram (x.popped ++ x.inbound.queue) = hold isDatagram x.accepted ∧
    ∀ message,
      ((x.inbound.push message).2 = true →
        ∃ n ≤ x.inbound.queue.countP isDatagram,
          (x.inbound.push message).1.queue = shed isDatagram n x.inbound.queue ++ [message] ∧
          fitsBehind (messageLen message) (shed isDatagram n x.inbound.queue) = true ∧
          ∀ m < n, fitsBehind (messageLen message) (shed isDatagram m x.inbound.queue) = false) ∧
      ((x.inbound.push message).2 = false ↔
        fitsBehind (messageLen message) (hold isDatagram x.inbound.queue) = false) := by
  intro x
  have h : x.Sound := sound_run calls
  refine ⟨congrArg InboundQueue.bytes h.exact, h.count, h.size, h.spares.sublist, h.spares.held,
    fun message => ?_⟩
  obtain ⟨n, hn, hmin, hpush⟩ := InboundQueue.push_spec x.inbound.queue message
  rw [← h.exact] at hpush
  cases hfits : fitsBehind (messageLen message) (hold isDatagram x.inbound.queue) with
  | true =>
    rw [if_pos hfits] at hpush
    rw [hpush.2]
    exact ⟨fun _ => ⟨n, hn, rfl, hpush.1, hmin⟩, by simp⟩
  | false =>
    rw [if_neg (by simp [hfits])] at hpush
    rw [hpush]
    simp

end Inbox

end ForgeswornLink
