import ForgeswornLink.EndpointEffects

/-!
# Declined direct paths

An owner who declines direct paths has sessions whose drive tasks never probe.
The path socket knows nothing of that: the session's probe key is registered all
the same, so a ping the peer seals under it is answered and probed back, and the
pong to that probe is a proof that later sends follow. Direct paths stay declined
exactly as long as no such ping arrives.
-/

namespace ForgeswornLink
open Runs NewestWins ByteString

def Peer.probed (e : Peer) : Table Nonce (SocketAddr × ℕ) × Table SocketAddr ℕ × Option Proven :=
  (e.pending, e.lastPong, e.direct)

def Inner.Unprobed (i : Inner) : Prop := ∀ p, (i.entry p).probed = (∅, ∅, none)

def UdpSend.isReflect : UdpSend → Bool
  | .reflect _ _ => true
  | _ => false

def Event.isSendProbes : Event → Bool
  | .sendProbes _ _ => true
  | _ => false

namespace PathSocket

variable (P : Primitives) (hostOf : String → Option String)

/-- A ping sealed under the key on record of some peer arrives. -/
def PingArrives (s : PathSocket) (e : Event) : Prop :=
  ∃ p source keyId key nonce, s.ProbeArrives P e probePing p source keyId key nonce

/-- No peer has a proof, and a datagram for a known peer that fits goes to its relay. -/
structure StaysRelayed (s : PathSocket) : Prop where
  unproved : ∀ p, (s.inner.entry p).direct = none
  relayed : ∀ destination contents result p, contents.length ≤ maxDatagram →
    s.inner.bySynthetic.lookup destination = some p →
    s.trySend P hostOf destination contents result =
      ((s.sendRelayed P hostOf p contents).1, [], (s.sendRelayed P hostOf p contents).2)

def SendsNoProbe (s : PathSocket) (e : Event) : Prop := ∀ out ∈ s.sends P hostOf e,
    out.isReflect = true

variable {P hostOf} {s : PathSocket} {e : Event}

theorem direct_of_unprobed (h : s.inner.Unprobed) (p : NodeId) : (s.inner.entry p).direct = none :=
  congrArg (fun probed => probed.2.2) (h p)

theorem pending_of_unprobed (h : s.inner.Unprobed) (p : NodeId) (n : Nonce) :
    (s.inner.entry p).pending.lookup n = none := by
  have hpending : (s.inner.entry p).pending = ∅ := congrArg (fun probed => probed.1) (h p)
  rw [hpending]
  rfl

theorem provenDirect_of_unprobed (h : s.inner.Unprobed) (p : NodeId) : s.provenDirect p = none := by
  unfold provenDirect
  split_ifs
  · exact direct_of_unprobed h p
  · rfl

theorem staysRelayed_of_unprobed (h : s.inner.Unprobed) : s.StaysRelayed P hostOf := by
  refine ⟨direct_of_unprobed h, ?_⟩
  intro destination contents result p hfits hroute
  refine trySend_relayed hfits hroute ?_ result
  intro proven hproven
  rw [provenDirect_of_unprobed h] at hproven
  cases hproven

theorem unprobed_step (h : s.inner.Unprobed) (he : e.isSendProbes = false)
    (hping : ¬ s.PingArrives P e) : (s.step P hostOf e).inner.Unprobed := by
  intro p
  cases e with
  | beginSession q =>
    simp only [step, exec, Inner.entry_beginSession]
    split_ifs
    · rfl
    · exact h p
  | dropDirect q session =>
    simp only [step, exec, Inner.entry_dropDirect]
    split_ifs with hq
    · have hq' := h q
      simp only [Peer.probed, Prod.mk.injEq] at hq' ⊢
      exact ⟨hq'.1, hq'.2.1, trivial⟩
    · exact h p
  | registerProbeKey session q keyId key =>
    exact (Inner.proj_registerProbeKey Peer.probed (fun _ _ => rfl) s.inner q p keyId key).trans
      (h p)
  | unregisterProbeKey keyId =>
    exact (Inner.proj_unregisterProbeKey Peer.probed (fun _ _ => rfl) s.inner p keyId).trans (h p)
  | sendProbes q draws => cases he
  | recvDirect sender data draw =>
    rw [step, exec]
    rcases recvDirect_cases P s sender data draw with
      ⟨q, keyId, key, nonce, harrives, -⟩ | ⟨q, keyId, key, nonce, -, hexec⟩ |
      ⟨inbound, reflexive, reflectorNonce, hexec⟩
    · exact absurd ⟨q, _, keyId, key, nonce, harrives⟩ hping
    · rw [hexec, Inner.acceptPong_of_none (pending_of_unprobed h q nonce)]
      exact h p
    · rw [hexec]
      exact h p
  | _ => exact (proj_step_of_quiet P hostOf Peer.probed (fun _ _ _ _ => rfl) s rfl p).trans (h p)

theorem pong_sent_of_unprobed (h : s.inner.Unprobed) (hping : s.PingArrives P e) :
    ¬ s.SendsNoProbe P hostOf e := by
  obtain ⟨p, source, keyId, key, nonce, harrives⟩ := hping
  obtain ⟨-, -, sender, draw, rfl, -⟩ := id harrives
  have hanswer : (Inner.pingDue (s.inner.entry p) source s.now).1 = true := by
    have hpong : (s.inner.entry p).lastPong = ∅ := congrArg (fun probed => probed.2.1) (h p)
    unfold Inner.pingDue
    rw [hpong]
    rfl
  intro hnone
  have hsent : UdpSend.pong p source ⟨probePong, keyId, nonce⟩ key ∈
      s.sends P hostOf
        (.recvDirect sender (Probe.sealProbe P ⟨probePing, keyId, nonce⟩ key) draw) := by
    rw [sends, exec, recvDirect_of_arrives harrives (Or.inl rfl), Inner.handleProbe,
      if_neg (by decide), if_pos rfl, Inner.handlePing_snd, if_pos hanswer]
    exact List.mem_append_left _ (List.mem_singleton_self _)
  exact Bool.noConfusion (hnone _ hsent)

theorem sendsNoProbe_iff (h : s.inner.Unprobed) (he : e.isSendProbes = false) :
    s.SendsNoProbe P hostOf e ↔ ¬ s.PingArrives P e := by
  refine ⟨fun hnone hping => pong_sent_of_unprobed h hping hnone, ?_⟩
  intro hping out hout
  rcases sends_cases hout with ⟨q, -, hprobes, -⟩ | ⟨q, source, keyId, key, nonce, harrives, -⟩ |
    ⟨reflector, nonce, rfl⟩ | ⟨destination, contents, result, q, proven, -, -, hproven, -, -⟩
  · rcases hprobes with ⟨draws, rfl⟩ | harrives
    · cases he
    · exact absurd ⟨q, harrives⟩ hping
  · exact absurd ⟨q, source, keyId, key, nonce, harrives⟩ hping
  · rfl
  · rw [provenDirect_of_unprobed h] at hproven
    cases hproven

theorem sendsNoProbe_always {start : PathSocket} (hstart : start.inner.Unprobed) {es : List Event}
    (hes : ∀ e ∈ es, e.isSendProbes = false) :
    (Always (step P hostOf) (SendsNoProbe P hostOf) start es ↔
      Always (step P hostOf) (fun s e => ¬ s.PingArrives P e) start es) ∧
    (Always (step P hostOf) (fun s e => ¬ s.PingArrives P e) start es →
      (after P hostOf start es).inner.Unprobed) := by
  refine always_iff_of_invariant (step P hostOf) (I := fun s => s.inner.Unprobed) hstart ?_ ?_ hes
  · exact fun _ _ he h => sendsNoProbe_iff h he
  · exact fun _ _ he h hping => unprobed_step h he hping

end PathSocket

namespace Endpoint

variable {P : Primitives} {hostOf : String → Option String} {e : Endpoint}

structure Declines (e : Endpoint) : Prop where
  owner : e.allowDirect = false
  sessions : ∀ id s, e.sessions.lookup id = some s → s.allowDirect = false ∧ s.Sound fun _ => True

theorem declines_open (udp : Bool) (config : EndpointConfig) (now unixNow : ℕ) :
    (openOn udp { config with allowDirect := false } now unixNow).Declines := by
  refine ⟨rfl, fun id s hs => ?_⟩
  rw [openOn, AList.lookup_empty] at hs
  cases hs

theorem allowDirect_turn {event : EndpointEvent} {t : Turn} (h : Does P hostOf e event t) :
    t.next.allowDirect = e.allowDirect := by
  cases h <;> rfl

theorem declines_step (h : e.Declines) (event : EndpointEvent) :
    (e.step P hostOf event).Declines := by
  refine ⟨(allowDirect_turn (does_turn e event)).trans h.owner, ?_⟩
  refine (moves_turn e event).sessions h.sessions (fun s hs => hs) ?_ ?_ ?_
  · intro calls rest peer id conn allowDirect probeDelay keys _ hallow
    refine ⟨?_, Session.sound_start (fun _ _ => trivial) peer id conn allowDirect probeDelay keys⟩
    rw [started, (Session.start_spec _ peer id conn allowDirect probeDelay keys).2.2.2.1]
    by_contra hallowed
    rw [Bool.not_eq_false] at hallowed
    exact Bool.noConfusion (h.owner.symm.trans (hallow hallowed))
  · intro session s wake nonce draws _ _ _ hs
    have hdriven := Session.drive_spec (k := e.socket) hs.2 (fun _ _ => trivial) wake nonce draws
    exact ⟨hdriven.same.allowDirect.trans hs.1, hdriven.sound⟩
  · intro s n hs
    obtain ⟨hsame, -, -, htask⟩ := s.note_spec n
    refine ⟨hsame.allowDirect.trans hs.1, ?_⟩
    intro t ht
    exact hs.2 t (htask ▸ ht)

theorem Declines.calls (h : e.Declines) {event : EndpointEvent} {t : Turn}
    (hdoes : Does P hostOf e event t) : ∀ c ∈ t.calls, c.isSendProbes = false := by
  have hquiet : ∀ {calls : List Event}, Quiet calls → ∀ c ∈ calls, c.isSendProbes = false := by
    intro calls hcalls c hc
    cases c with
    | sendProbes p draws => exact Bool.noConfusion (hcalls _ hc)
    | _ => rfl
  cases hdoes with
  | quiet hcalls => exact hquiet hcalls
  | dials hbefore hafter hover =>
    exact List.forall_mem_append.mpr
      ⟨hquiet hbefore, List.forall_mem_cons.mpr ⟨rfl, hquiet hafter⟩⟩
  | launches hdial => exact List.forall_mem_nil _
  | abandons => exact List.forall_mem_nil _
  | failsDial hdial hcalls =>
    exact List.forall_mem_append.mpr ⟨hquiet hcalls, List.forall_mem_singleton.mpr rfl⟩
  | startsDial hdial hconn hcalls hallow hr =>
    exact List.forall_mem_append.mpr ⟨hquiet hcalls, hquiet (quiet_started hr)⟩
  | admits hcalls => exact hquiet hcalls
  | accepts hbefore hover =>
    exact List.forall_mem_append.mpr ⟨hquiet hbefore, List.forall_mem_singleton.mpr rfl⟩
  | refuses hbefore hafter hover =>
    refine List.forall_mem_append.mpr ⟨hquiet hbefore, List.forall_mem_cons.mpr ⟨rfl, ?_⟩⟩
    rcases hafter with rfl | rfl
    · exact List.forall_mem_nil _
    · exact List.forall_mem_singleton.mpr rfl
  | dropsArrival harrival hcalls =>
    refine List.forall_mem_append.mpr ⟨hquiet hcalls, fun c hc => ?_⟩
    obtain ⟨session, rfl⟩ := mem_release hc
    rfl
  | startsArrival harrival hr =>
    exact hquiet (quiet_started hr)
  | startsPairing hbefore hover hid hr =>
    exact List.forall_mem_append.mpr
      ⟨hquiet hbefore, List.forall_mem_cons.mpr ⟨rfl, hquiet (quiet_started hr)⟩⟩
  | drives hs hr =>
    obtain ⟨hdeclined, hsound⟩ := h.sessions _ _ hs
    intro c hc
    cases c with
    | sendProbes p draws =>
      rw [hr] at hc
      exact absurd hc
        ((Session.drive_spec hsound (fun _ _ => trivial) _ _ _).declined hdeclined p draws)
    | _ => rfl
  | closes hs => exact List.forall_mem_nil _
  | notes hs hkept hreport htask hcalls => exact hquiet hcalls

theorem Declines.trace {start : Endpoint} (h : start.Declines) (es : List EndpointEvent) :
    ∀ c ∈ start.trace P hostOf es, c.isSendProbes = false := by
  induction es using List.reverseRecOn with
  | nil => exact List.forall_mem_nil _
  | append_singleton es event ih =>
    have hdeclines : (run (step P hostOf) start es).Declines :=
      invariant (step P hostOf) h (fun e event he => declines_step he event) es
    rw [Endpoint.trace, trace_snoc]
    exact List.forall_mem_append.mpr ⟨ih, hdeclines.calls (does_turn _ event)⟩

/-- An endpoint opened with UDP whose owner declined direct paths: in every run,
the path socket proves nothing, sends every datagram to the relay and sends no
ping and no pong, if and only if no ping sealed under a session's probe key arrives. -/
theorem declined_iff_no_ping_arrives (P : Primitives) (hostOf : String → Option String)
    (config : EndpointConfig) (now unixNow : ℕ) (es : List EndpointEvent) :
    let start := openOn true { config with allowDirect := false } now unixNow
    ((∀ pre post, start.trace P hostOf es = pre ++ post →
        (PathSocket.after P hostOf start.socket pre).StaysRelayed P hostOf) ∧
      Always (PathSocket.step P hostOf) (PathSocket.SendsNoProbe P hostOf) start.socket
        (start.trace P hostOf es)) ↔
    Always (PathSocket.step P hostOf) (fun s e => ¬ s.PingArrives P e) start.socket
      (start.trace P hostOf es) := by
  intro start
  have hdeclines : start.Declines := declines_open _ _ _ _
  have hunprobed : start.socket.inner.Unprobed := fun p => rfl
  constructor
  · rintro ⟨-, hsends⟩
    exact (PathSocket.sendsNoProbe_always hunprobed (hdeclines.trace es)).1.mp hsends
  · intro hpings
    refine ⟨?_, (PathSocket.sendsNoProbe_always hunprobed (hdeclines.trace es)).1.mpr hpings⟩
    intro pre post htrace
    have hpre : ∀ c ∈ pre, c.isSendProbes = false := by
      intro c hc
      exact hdeclines.trace es c (by rw [htrace]; exact List.mem_append_left _ hc)
    rw [htrace] at hpings
    exact PathSocket.staysRelayed_of_unprobed
      ((PathSocket.sendsNoProbe_always hunprobed hpre).2 (Always.initial _ hpings))

def answeredPing (p : NodeId) (a : SocketAddr) (keyId : ProbeKeyId) (key : ProbeKey)
    (n n' : Nonce) : List EndpointEvent :=
  [.environment (.driver 0 .connected), .environment (.recvRelay p [0] 0),
    .incoming (p.syntheticAddr Primitives.standIn) 0 .started,
    .arrived 0 (.done (some p) (some (keyId, key)) none 0),
    .environment (.recvDirect a
      (Probe.sealProbe Primitives.standIn ⟨probePing, keyId, n⟩ key) (n', true)),
    .environment (.recvDirect a
      (Probe.sealProbe Primitives.standIn ⟨probePong, keyId, n'⟩ key) (n', true))]

/-- The declined endpoint has answered, probed, recorded a proof and sends to it. -/
theorem ping_opens_declined_path :
    let p : NodeId := ⟨List.Vector.replicate 32 1⟩
    let a := SocketAddr.v4 (List.Vector.replicate 4 1) 4000
    let config := EndpointConfig.new ⟨List.Vector.replicate 32 0⟩
    let start := openOn true { config with relays := ["wss://relay"], allowDirect := false } 0 0
    let es := answeredPing p a (List.Vector.replicate 8 3) (List.Vector.replicate 32 4)
      (List.Vector.replicate 16 5) (List.Vector.replicate 16 6)
    let k := (run (step Primitives.standIn fun _ => none) start es).socket
    (k.inner.entry p).direct = some ⟨a, 0⟩ ∧
      k.sends Primitives.standIn (fun _ => none)
        (.trySend (p.syntheticAddr Primitives.standIn) [7] .ok) = [.quic p a [7]] ∧
      ¬ ((∀ pre post, start.trace Primitives.standIn (fun _ => none) es = pre ++ post →
          (PathSocket.after Primitives.standIn (fun _ => none) start.socket pre).StaysRelayed
            Primitives.standIn fun _ => none) ∧
        Always (PathSocket.step Primitives.standIn fun _ => none)
          (PathSocket.SendsNoProbe Primitives.standIn fun _ => none) start.socket
          (start.trace Primitives.standIn (fun _ => none) es)) := by
  intro p a config start es k
  have hdirect : (k.inner.entry p).direct = some ⟨a, 0⟩ := by decide +kernel
  refine ⟨hdirect, by decide +kernel, ?_⟩
  rintro ⟨hrelayed, -⟩
  have hnone := (hrelayed _ [] (List.append_nil _).symm).unproved p
  rw [← socket_run start es] at hnone
  cases hdirect.symm.trans hnone

end Endpoint

end ForgeswornLink
