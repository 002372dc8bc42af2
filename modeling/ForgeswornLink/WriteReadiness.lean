import ForgeswornLink.RelayEffects
import ForgeswornLink.DirectSends

/-!
# Write readiness

The poller of the path socket judges the one driver whose full queue last refused
a datagram, and nothing but its queue; `trySend` also reads the proof of the peer,
its route, the relay session and the book. `Waiting` remembers the refused
datagram beside the socket. As long as nothing but the pump touches what that
datagram depends on, the poller says pending only where the send would be refused
again.
-/

namespace ForgeswornLink
open Runs

namespace PathSocket

variable {P : Primitives} {hostOf : String → Option String} {s : PathSocket} {e : Event}

theorem hasCapacity_eq_false :
    s.hasCapacity = false ↔
      ∃ id d, s.blockedOn = some id ∧ s.relay.driver id = some d ∧ d.hasCapacity = false := by
  unfold hasCapacity
  cases s.blockedOn with
  | none => simp
  | some id =>
    dsimp only
    cases hd : s.relay.driver id <;> simp [hd]

theorem pollWritable_ready : s.pollWritable .ready = .pending ↔ s.hasCapacity = false := by
  unfold pollWritable
  simp only [reduceCtorEq, and_false, if_false]
  cases s.hasCapacity <;> simp

theorem hasCapacity_step (he : e.isSend = false) (h : s.hasCapacity = true) :
    (s.step P hostOf e).hasCapacity = true := by
  by_contra hfull
  rw [Bool.not_eq_true, hasCapacity_eq_false] at hfull
  obtain ⟨id, d', hblocked, hd', hfull⟩ := hfull
  rw [(rest_step P hostOf s he).2.1] at hblocked
  have hbefore : ∀ d, s.relay.driver id = some d → d.hasCapacity = true := by
    intro d hd
    rw [hasCapacity, hblocked] at h
    dsimp only at h
    rw [hd] at h
    exact h
  rcases driver_step he hd' with ⟨d, hd, rfl | ⟨-, rfl⟩ | ⟨de, -, rfl⟩⟩ | ⟨urls, rfl⟩
  · exact Bool.noConfusion (hfull.symm.trans (hbefore d' hd))
  · exact Bool.noConfusion (hfull.symm.trans (hbefore d hd))
  · rw [RelayDriver.hasCapacity_step (hbefore d hd)] at hfull
    cases hfull
  · cases hfull

variable (P hostOf) in
structure Undisturbed (s : PathSocket) (destination : SocketAddr) (p : NodeId)
    (id : ℕ) (e : Event) : Prop where
  -- The address still names the peer.
  route : (s.step P hostOf e).inner.bySynthetic.lookup destination = some p
  -- The peer is still reached on that driver.
  driver : ((s.step P hostOf e).relayFor p).1 = id
  -- No pong proves a direct path to the peer.
  unproved : ∀ a n, ¬ s.AcceptsPong P e p a n
  -- The relay session of the driver is not lost.
  session : ∀ superseded, e = .driver id (.ended superseded) → superseded = true ∧ s.book = none
  pool : e ≠ .closeRelays
  -- In tag mode there is still material for the peer.
  material : ∀ b, (s.step P hostOf e).book = some b →
    (b.pruneExpired (s.step P hostOf e).unixNow).sendable p = true

variable {destination : SocketAddr} {contents : List UInt8} {p : NodeId} {id : ℕ} {d : RelayDriver}

theorem Refuses.driver_step (h : s.Refuses hostOf destination contents p id d)
    (he : e.isSend = false) (hquiet : s.Undisturbed P hostOf destination p id e) {d' : RelayDriver}
    (hd' : (s.step P hostOf e).relay.driver id = some d') (hfull : d'.hasCapacity = false) :
    d'.stop = false ∧ d'.phase = .pumping ∧ d'.status = d.status := by
  have hd := s.relayFor_driver p
  rw [h.driver] at hd
  rcases PathSocket.driver_step he hd' with ⟨d₀, hd₀, hcases⟩ | ⟨urls, rfl⟩
  · obtain rfl : d₀ = d := Option.some.inj (hd₀.symm.trans hd)
    rcases hcases with rfl | ⟨hclose, -⟩ | ⟨de, rfl, rfl⟩
    · exact ⟨h.running, h.pumping, rfl⟩
    · exact absurd hclose hquiet.pool
    · rcases RelayDriver.step_of_pumping h.pumping h.running s.book s.now de with
        hsame | hsent | ⟨superseded, rfl⟩
      · rw [hsame]
        exact ⟨h.running, h.pumping, rfl⟩
      · rw [hsent]
        exact ⟨h.running, h.pumping, rfl⟩
      · obtain ⟨rfl, hbook⟩ := hquiet.session superseded rfl
        rw [hbook, RelayDriver.hasCapacity_superseded _ h.pumping] at hfull
        cases hfull
  · cases hfull

theorem Refuses.step (h : s.Refuses hostOf destination contents p id d) (he : e.isSend = false)
    (hquiet : s.Undisturbed P hostOf destination p id e) {d' : RelayDriver}
    (hd' : (s.step P hostOf e).relay.driver id = some d') (hfull : d'.hasCapacity = false) :
    (s.step P hostOf e).Refuses hostOf destination contents p id d' := by
  obtain ⟨hrunning, hpumping, hstatus⟩ := h.driver_step he hquiet hd' hfull
  obtain ⟨hudp, -, hnow, hbook⟩ := rest_step P hostOf s he
  have hroute := (s.step P hostOf e).relayFor_driver p
  rw [hquiet.driver, hd'] at hroute
  refine ⟨h.fits, hquiet.route, ?_, ?_, hrunning, hpumping, by rw [hstatus, h.up], hfull, ?_⟩
  · -- time only passes, and without a new proof an old one is all there can be
    intro proven hproven
    rw [provenDirect, hudp] at hproven
    by_cases hs : s.udp = true
    · rw [if_pos hs] at hproven
      rcases direct_step hproven with ⟨n, haccepts, -⟩ | ⟨hbefore, -⟩
      · exact absurd haccepts (hquiet.unproved _ n)
      · have hold := h.stale proven (by rw [provenDirect, if_pos hs, hbefore])
        omega
    · rw [if_neg hs] at hproven
      cases hproven
  · exact Prod.ext hquiet.driver (Option.some.inj hroute).symm
  · intro b hb
    obtain ⟨b₀, hb₀⟩ : ∃ b₀, s.book = some b₀ := by
      rcases hbook with hsame | ⟨op, -, hop⟩
      · exact ⟨b, hsame.symm.trans hb⟩
      · obtain ⟨b₀, hb₀, -⟩ := Option.map_eq_some_iff.mp (hop.symm.trans hb)
        exact ⟨b₀, hb₀⟩
    obtain ⟨url, host, hup, hhost, -⟩ := h.tagged b₀ hb₀
    exact ⟨url, host, hstatus.trans hup, hhost, hquiet.material b hb⟩

theorem Refuses.wouldBlock (h : s.Refuses hostOf destination contents p id d)
    (hbook : ∀ b, s.book = some b → b.CacheBacked) (result : UdpResult) :
    (s.trySend P hostOf destination contents result).2.2 = .wouldBlock := by
  have hrefused := (RelayDriver.trySend_wouldBlock_iff (P := P) hbook contents).mpr
    ⟨h.running, by rw [h.pumping]; decide, h.full, h.up, h.tagged⟩
  rw [trySend_relayed h.fits h.route h.stale,
    sendRelayed_of_wouldBlock (by rw [h.driver, hrefused])]

theorem relayFor_congr {t : PathSocket} (hinner : t.inner = s.inner)
    (hdriver : ∀ k, t.relay.driver k = s.relay.driver k) : t.relayFor p = s.relayFor p := by
  have hhome : t.relay.home = s.relay.home := by
    have h := hdriver 0
    rw [RelayClient.driver_zero, RelayClient.driver_zero] at h
    exact Option.some.inj h
  unfold relayFor
  simp only [hinner, hdriver, hhome]

theorem refuses_relayed (hbook : ∀ b, s.book = some b → b.CacheBacked)
    (hpumps : (s.relayFor p).2.UpPumps) (hfits : contents.length ≤ maxDatagram)
    (hroute : s.inner.bySynthetic.lookup destination = some p)
    (hstale : ∀ proven, s.provenDirect p = some proven → directFresh ≤ s.now - proven.provedAt)
    (hblock : ((s.relayFor p).2.trySend P hostOf s.book p contents s.unixNow).2.2 = .wouldBlock) :
    (s.relayed P hostOf p contents (some (s.relayFor p).1)).Refuses hostOf destination contents p
      (s.relayFor p).1 (s.relayFor p).2 := by
  obtain ⟨hrunning, -, hfull, hup, htagged⟩ :=
    (RelayDriver.trySend_wouldBlock_iff hbook contents).mp hblock
  refine ⟨hfits, hroute, hstale, ?_, hrunning, hpumps hup, hup, hfull, ?_⟩
  · refine relayFor_congr rfl fun k => ?_
    rw [relayed, RelayDriver.trySend_of_wouldBlock hblock, RelayClient.driver_setDriver]
    split_ifs with hk
    · rw [hk, relayFor_driver]
    · rfl
  · exact RelayDriver.tagged_trySend htagged

end PathSocket

structure Waiting where
  socket : PathSocket
  refused : Option (SocketAddr × List UInt8)

namespace Waiting

variable (P : Primitives) (hostOf : String → Option String)

def step (w : Waiting) (e : Event) : Waiting where
  socket := w.socket.step P hostOf e
  refused :=
    match e with
    | .trySend destination contents result =>
      let sent := w.socket.trySend P hostOf destination contents result
      if sent.2.2 = .wouldBlock then some (destination, contents)
      else if sent.1.blockedOn = none then none
      else w.refused
    | _ => w.refused

/-- While the poller waits for a full queue, the event does not disturb the refused datagram. -/
def KeepsRefusal (w : Waiting) (e : Event) : Prop :=
  ∀ destination contents p id, w.refused = some (destination, contents) →
    w.socket.blockedOn = some id → w.socket.hasCapacity = false → e.isSend = false →
    w.socket.inner.bySynthetic.lookup destination = some p →
    w.socket.Undisturbed P hostOf destination p id e

structure Sound (w : Waiting) : Prop where
  backed : ∀ b, w.socket.book = some b → b.CacheBacked
  pumps : ∀ id d, w.socket.relay.driver id = some d → d.UpPumps
  refused : w.socket.hasCapacity = false → ∃ destination contents p id d,
    w.refused = some (destination, contents) ∧ w.socket.blockedOn = some id ∧
      w.socket.Refuses hostOf destination contents p id d

variable {P hostOf} {w : Waiting} {e : Event}

theorem Sound.step_quiet (h : w.Sound hostOf) (he : e.isSend = false)
    (hkeeps : w.KeepsRefusal P hostOf e) : (w.step P hostOf e).Sound hostOf := by
  obtain ⟨-, hblocked, -, hbook⟩ := PathSocket.rest_step P hostOf w.socket he
  refine ⟨?_, ?_, ?_⟩
  · intro b hb
    rcases hbook with hsame | ⟨op, -, hop⟩
    · exact h.backed b (hsame.symm.trans hb)
    · obtain ⟨b₀, hb₀, rfl⟩ := Option.map_eq_some_iff.mp (hop.symm.trans hb)
      exact TagBook.cacheBacked_apply (h.backed b₀ hb₀) op
  · intro id d' hd'
    rcases PathSocket.driver_step he hd' with ⟨d, hd, rfl | ⟨-, rfl⟩ | ⟨de, -, rfl⟩⟩ | ⟨urls, rfl⟩
    · exact h.pumps id d' hd
    · exact h.pumps id d hd
    · exact RelayDriver.upPumps_step (h.pumps id d hd) _ _ de
    · exact RelayDriver.upPumps_spawn id urls
  · intro hfull
    have hbefore : w.socket.hasCapacity = false := by
      by_contra hcapacity
      rw [Bool.not_eq_false] at hcapacity
      exact Bool.noConfusion (hfull.symm.trans (PathSocket.hasCapacity_step he hcapacity))
    obtain ⟨destination, contents, p, id, d, hrefused, hid, hrefuses⟩ := h.refused hbefore
    have hquiet := hkeeps destination contents p id hrefused hid hbefore he hrefuses.route
    obtain ⟨id', d', hid', hd', hd'full⟩ := PathSocket.hasCapacity_eq_false.mp hfull
    obtain rfl : id' = id := Option.some.inj (hid'.symm.trans (hblocked.trans hid))
    refine ⟨destination, contents, p, id', d', ?_, hid', hrefuses.step he hquiet hd' hd'full⟩
    cases e with
    | trySend destination contents result => cases he
    | _ => exact hrefused

theorem Sound.relayed (h : w.Sound hostOf) (p : NodeId) (contents : List UInt8)
    (refusedBy : Option ℕ) :
    (∀ b, (w.socket.relayed P hostOf p contents refusedBy).book = some b → b.CacheBacked) ∧
      ∀ id d, (w.socket.relayed P hostOf p contents refusedBy).relay.driver id = some d →
        d.UpPumps := by
  refine ⟨RelayDriver.cacheBacked_trySend h.backed contents, ?_⟩
  intro id d hd
  obtain ⟨d₀, hd₀, frames, rfl⟩ := PathSocket.driver_relayed hd
  have hpumps := h.pumps id d₀ hd₀
  exact hpumps

theorem Sound.step_send (h : w.Sound hostOf) (destination : SocketAddr) (contents : List UInt8)
    (result : UdpResult) :
    (w.step P hostOf (.trySend destination contents result)).Sound hostOf := by
  rcases @PathSocket.trySend_cases P hostOf w.socket destination contents result with
    ⟨hsame, hne⟩ | ⟨p, hfits, hroute, hstale⟩
  · have hsocket : (w.step P hostOf (.trySend destination contents result)).socket =
        w.socket := hsame
    refine ⟨by rw [hsocket]; exact h.backed, by rw [hsocket]; exact h.pumps, ?_⟩
    rw [hsocket]
    intro hfull
    obtain ⟨destination', contents', p, id, d, hrefused, hid, hrefuses⟩ := h.refused hfull
    refine ⟨destination', contents', p, id, d, ?_, hid, hrefuses⟩
    simp only [step]
    rw [if_neg hne, hsame, hid, if_neg nofun, hrefused]
  · have hsend := @PathSocket.trySend_relayed P hostOf w.socket destination contents p hfits
      hroute hstale result
    by_cases hblock : ((w.socket.relayFor p).2.trySend P hostOf w.socket.book p contents
        w.socket.unixNow).2.2 = .wouldBlock
    · rw [PathSocket.sendRelayed_of_wouldBlock hblock] at hsend
      have hsocket : (w.step P hostOf (.trySend destination contents result)).socket =
          w.socket.relayed P hostOf p contents (some (w.socket.relayFor p).1) :=
            congrArg Prod.fst hsend
      obtain ⟨hbacked, hpumps⟩ := h.relayed p contents (some (w.socket.relayFor p).1)
      refine ⟨by rw [hsocket]; exact hbacked, by rw [hsocket]; exact hpumps, ?_⟩
      intro _
      refine ⟨destination, contents, p, (w.socket.relayFor p).1,
        (w.socket.relayFor p).2, ?_, ?_, ?_⟩
      · simp only [step]
        rw [hsend, if_pos rfl]
      · rw [hsocket]
        rfl
      · rw [hsocket]
        exact PathSocket.refuses_relayed h.backed (h.pumps _ _ (w.socket.relayFor_driver p)) hfits
          hroute hstale hblock
    · rw [PathSocket.sendRelayed_of_ne hblock] at hsend
      have hsocket : (w.step P hostOf (.trySend destination contents result)).socket =
          w.socket.relayed P hostOf p contents none := congrArg Prod.fst hsend
      obtain ⟨hbacked, hpumps⟩ := h.relayed p contents none
      refine ⟨by rw [hsocket]; exact hbacked, by rw [hsocket]; exact hpumps, ?_⟩
      rw [hsocket]
      nofun

theorem Sound.step (h : w.Sound hostOf) (hkeeps : w.KeepsRefusal P hostOf e) :
    (w.step P hostOf e).Sound hostOf := by
  cases e with
  | trySend destination contents result => exact h.step_send destination contents result
  | _ => exact h.step_quiet rfl hkeeps

theorem socket_run (w : Waiting) (es : List Event) :
    (run (Waiting.step P hostOf) w es).socket = PathSocket.after P hostOf w.socket es := by
  induction es generalizing w with
  | nil => rfl
  | cons e es ih => exact ih (w.step P hostOf e)

/-- In a run in which nothing disturbs a refused datagram while the poller waits
for its queue, the poller says pending with a writable UDP socket only where the
datagram would be refused again: its peer has no fresh proof and the remembered
driver is up and full. -/
theorem pending_only_if_refused (P : Primitives) (hostOf : String → Option String)
    (nodeId : NodeId) (udp : Bool) (udpLocal : SocketAddr) (relays : List String)
    (rendezvous : Option (Table NodeId RendezvousPeer × Table NodeId (ByteString.Block 32)))
    (reflector : Option SocketAddr) (now unixNow : ℕ) (es : List Event)
    (hkeeps : Always (Waiting.step P hostOf) (KeepsRefusal P hostOf)
      ⟨PathSocket.assemble nodeId udp udpLocal relays
        (rendezvous.map fun m => TagBook.withPaired m.1 m.2) reflector now unixNow, none⟩ es) :
    let start := PathSocket.assemble nodeId udp udpLocal relays
      (rendezvous.map fun m => TagBook.withPaired m.1 m.2) reflector now unixNow
    let s := PathSocket.after P hostOf start es
    s.pollWritable .ready = .pending →
      ∃ destination contents p id d,
        (run (Waiting.step P hostOf) ⟨start, none⟩ es).refused = some (destination, contents) ∧
        s.inner.bySynthetic.lookup destination = some p ∧
        (∀ proven, s.provenDirect p = some proven → directFresh ≤ s.now - proven.provedAt) ∧
        s.blockedOn = some id ∧ s.relay.driver id = some d ∧ d.status.isUp = true ∧
        d.hasCapacity = false ∧
        ∀ result, (s.trySend P hostOf destination contents result).2.2 = .wouldBlock := by
  intro start s hpending
  have hstart : Sound hostOf ⟨start, none⟩ := by
    refine ⟨?_, ?_, nofun⟩
    · intro b hb
      obtain ⟨m, -, rfl⟩ := Option.map_eq_some_iff.mp hb
      exact TagBook.cacheBacked_withPaired m.1 m.2
    · intro id d hd
      rw [RelayClient.eq_of_driver_spawn hd]
      exact RelayDriver.upPumps_spawn 0 relays
  have hsound := invariant_of_always (Waiting.step P hostOf) hstart
    (fun _ _ h hk => h.step hk) hkeeps
  have hsocket : (run (Waiting.step P hostOf) ⟨start, none⟩ es).socket = s := socket_run _ es
  have hfull := PathSocket.pollWritable_ready.mp hpending
  obtain ⟨destination, contents, p, id, d, hrefused, hid, hrefuses⟩ :=
    hsound.refused (by rw [hsocket]; exact hfull)
  have hbacked := hsound.backed
  rw [hsocket] at hid hrefuses hbacked
  have hdriver := s.relayFor_driver p
  rw [hrefuses.driver] at hdriver
  exact ⟨destination, contents, p, id, d, hrefused, hrefuses.route, hrefuses.stale, hid, hdriver,
    hrefuses.up, hrefuses.full, hrefuses.wouldBlock hbacked⟩

def oneTooMany (p : NodeId) : List Event :=
  [.registerPeer p, .driver 0 .connected] ++
    List.replicate 65 (.trySend (p.syntheticAddr Primitives.standIn) [0] .ok)

theorem keepsRefusal_of_hasCapacity (h : w.socket.hasCapacity = true) : w.KeepsRefusal P hostOf e :=
  fun _ _ _ _ _ _ hfull => Bool.noConfusion (hfull.symm.trans h)

theorem keepsRefusal_of_isSend (h : e.isSend = true) : w.KeepsRefusal P hostOf e :=
  fun _ _ _ _ _ _ _ hquiet => Bool.noConfusion (hquiet.symm.trans h)

theorem pending_only_if_refused_oneTooMany :
    let p : NodeId := ⟨List.Vector.replicate 32 1⟩
    let start := PathSocket.assemble ⟨List.Vector.replicate 32 0⟩ true
      (.v4 (List.Vector.replicate 4 0) 0) ["wss://relay.example"] none none 0 0
    let es := oneTooMany p ++ [.tick 1]
    let s := PathSocket.after Primitives.standIn (fun _ => none) start es
    Always (Waiting.step Primitives.standIn fun _ => none)
        (KeepsRefusal Primitives.standIn fun _ => none) ⟨start, none⟩ es ∧
      s.pollWritable .ready = .pending ∧
      ∃ destination contents, ∀ result,
        (s.trySend Primitives.standIn (fun _ => none) destination contents result).2.2 =
          .wouldBlock := by
  intro p start es s
  have hkeeps : Always (Waiting.step Primitives.standIn fun _ => none)
      (KeepsRefusal Primitives.standIn fun _ => none) ⟨start, none⟩ es := by
    refine (always_snoc _).mpr ⟨(always_append _).mpr ⟨?_, ?_⟩, ?_⟩
    · have hup : Always (Waiting.step Primitives.standIn fun _ => none)
          (KeepsRefusal Primitives.standIn fun _ => none) ⟨start, none⟩
          ([] ++ [.registerPeer p] ++ [.driver 0 .connected]) :=
        (always_snoc _).mpr ⟨(always_snoc _).mpr ⟨always_nil _ _ _,
          keepsRefusal_of_hasCapacity (by decide +kernel)⟩,
          keepsRefusal_of_hasCapacity (by decide +kernel)⟩
      exact hup
    · intro pre e post hes
      have hmem := List.mem_append_right pre (List.mem_cons_self (a := e) (l := post))
      rw [← hes] at hmem
      rw [List.eq_of_mem_replicate hmem]
      exact keepsRefusal_of_isSend rfl
    · intro destination contents q id hrefused hid _ _ hroute
      have hdest : some (p.syntheticAddr Primitives.standIn, [0]) = some (destination, contents) :=
        Eq.trans (by decide +kernel) hrefused
      have hzero : some 0 = some id := Eq.trans (by decide +kernel) hid
      cases hdest
      cases hzero
      have hpeer : some p = some q := Eq.trans (by decide +kernel) hroute
      cases hpeer
      refine ⟨by decide +kernel, by decide +kernel,
        fun a n => PathSocket.not_acceptsPong_of_not_recvDirect rfl, nofun, nofun, fun b hb => ?_⟩
      have hnone : Option.isNone _ = false := congrArg Option.isNone hb
      exact absurd hnone (by decide +kernel)
  have hpending : s.pollWritable .ready = .pending := by decide +kernel
  obtain ⟨destination, contents, -, -, -, -, -, -, -, -, -, -, hagain⟩ :=
    pending_only_if_refused Primitives.standIn (fun _ => none) _ _ _ _ none _ _ _ es hkeeps hpending
  exact ⟨hkeeps, hpending, destination, contents, hagain⟩

/-- The relay is lost while the queue is full: the poller waits for a queue that
nobody drains, although the datagram would now be dropped and reported as sent. -/
theorem pending_after_relay_loss :
    let p : NodeId := ⟨List.Vector.replicate 32 1⟩
    let start := PathSocket.assemble ⟨List.Vector.replicate 32 0⟩ true
      (.v4 (List.Vector.replicate 4 0) 0) ["wss://relay.example"] none none 0 0
    let es := oneTooMany p ++ [.driver 0 (.ended false)]
    let s := PathSocket.after Primitives.standIn (fun _ => none) start es
    (run (Waiting.step Primitives.standIn fun _ => none) ⟨start, none⟩ es).refused =
        some (p.syntheticAddr Primitives.standIn, [0]) ∧
      s.pollWritable .ready = .pending ∧ s.relay.home.status = .reconnecting ∧
      (s.trySend Primitives.standIn (fun _ => none) (p.syntheticAddr Primitives.standIn)
        [0] .ok).2.2 = .ok := by
  decide +kernel

end Waiting

end ForgeswornLink
