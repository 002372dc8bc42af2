import ForgeswornLink.ProbeEffects
import ForgeswornLink.ProbeKeys

/-!
# What a proved path proves

Any number of path sockets exchange probes over a network that may lose, repeat,
reorder and redirect datagrams, and may give any address as their source. Others
send what they like, only that they seal no probe, and no two pings carry the same
nonce. A path is proved then exactly by an exchange: a ping of this side, an answer
of a socket that holds the key of its id, and the answer's arrival. The side that
pinged holds the key as well, and a probe does not say who sealed it, so a ping that
comes back to its sender is answered and proves a path like any other.
-/

namespace ForgeswornLink
open Runs

def UdpSend.isProbe : UdpSend → Bool
  | .ping _ _ _ _ => true
  | .pong _ _ _ _ => true
  | _ => false

def UdpSend.pingNonce : UdpSend → Option Nonce
  | .ping _ _ probe _ => some probe.nonce
  | _ => none

def PathSocket.opens (P : Primitives) (s : PathSocket) (data : List UInt8) : Bool :=
  (Probe.peekKeyId data).any fun keyId =>
    (s.inner.probeSession keyId).any fun session => (Probe.openProbe P data session.2).isSome

namespace PathSocket
variable {P : Primitives} {hostOf : String → Option String} {s : PathSocket} {e : Event}
  {p q : NodeId} {source a : SocketAddr} {keyId : ProbeKeyId} {key : ProbeKey} {nonce : Nonce}

theorem opens_of_arrives {kind : UInt8} (hkind : kind = probePing ∨ kind = probePong)
    {data : List UInt8} {sender : SocketAddr} {draw : Nonce × Bool}
    (h : s.ProbeArrives P (.recvDirect sender data draw) kind p source keyId key nonce) :
    s.opens P data = true := by
  obtain ⟨-, hsession, sender', draw', hevent, -⟩ := h
  obtain ⟨-, rfl, -⟩ := Event.recvDirect.inj hevent
  have hopen := Probe.openProbe_eq_some.mpr
    ⟨hkind, (rfl : Probe.sealProbe P ⟨kind, keyId, nonce⟩ key =
      Probe.sealProbe P ⟨kind, keyId, nonce⟩ key)⟩
  simp only [opens, Probe.peekKeyId_sealProbe, Option.any_some, hsession, hopen, Option.isSome_some]

theorem pings_agree {dest dest' : SocketAddr} {probe probe' : Probe} {key' : ProbeKey}
    (h : UdpSend.ping p dest probe key ∈ s.sends P hostOf e)
    (h' : UdpSend.ping q dest' probe' key' ∈ s.sends P hostOf e) :
    p = q ∧ probe.keyId = probe'.keyId := by
  obtain ⟨hprobes, hkey⟩ := key_of_ping h
  obtain ⟨hprobes', hkey'⟩ := key_of_ping h'
  have hpeer : p = q := by
    rcases hprobes with ⟨draws, rfl⟩ | ⟨_, _, _, _, harrives⟩
    · rcases hprobes' with ⟨draws', he⟩ | ⟨_, _, _, _, harrives'⟩
      · exact (Event.sendProbes.inj he).1
      · obtain ⟨-, -, _, _, he, -⟩ := harrives'
        cases he
    · rcases hprobes' with ⟨draws', rfl⟩ | ⟨_, _, _, _, harrives'⟩
      · obtain ⟨-, -, _, _, he, -⟩ := harrives
        cases he
      · exact (harrives.unique harrives').2.1
  subst hpeer
  rw [hkey] at hkey'
  exact ⟨rfl, (Prod.mk.inj (Option.some.inj hkey')).1⟩

theorem probe_sent {out : UdpSend} (h : out ∈ s.sends P hostOf e) {probe : Probe}
    (hprobe : out.isProbe) (hwire : (out.wire P).2 = probe.sealProbe P key) :
    (∃ q dest key', out = .ping q dest probe key' ∧ probe.kind = probePing) ∨
      ∃ q back key', out = .pong q back probe key' ∧ probe.kind = probePong ∧
        s.ProbeArrives P e probePing q back probe.keyId key' probe.nonce := by
  rcases sends_cases h with ⟨q, -, -, dest, keyId, key', nonce, rfl, -⟩ |
    ⟨q, back, keyId, key', nonce, harrives, rfl⟩ | ⟨reflector, nonce, rfl⟩ |
    ⟨destination, contents, result, q, proven, -, -, -, -, rfl⟩
  · obtain rfl := Probe.eq_of_sealProbe_eq hwire
    exact Or.inl ⟨q, dest, key', rfl, rfl⟩
  · obtain rfl := Probe.eq_of_sealProbe_eq hwire
    exact Or.inr ⟨q, back, key', rfl, rfl, harrives⟩
  · cases hprobe
  · cases hprobe

structure Awaits (P : Primitives) (s : PathSocket) (p : NodeId) (keyId : ProbeKeyId)
    (key : ProbeKey) (nonce : Nonce) : Prop where
  udp : s.udp = true
  session : s.inner.probeSession keyId = some (p, key)
  outstanding : ((s.inner.entry p).pending.lookup nonce).isSome
  known : s.inner.bySynthetic.lookup (p.syntheticAddr P) = some p

structure Answering (s : PathSocket) (q : NodeId) (keyId : ProbeKeyId) (key : ProbeKey)
    (a : SocketAddr) : Prop where
  udp : s.udp = true
  session : s.inner.probeSession keyId = some (q, key)
  due : ((s.inner.entry q).lastPong.lookup a.unmapIpv6).all fun sent => pongInterval ≤ s.now - sent

theorem Answering.sends (h : s.Answering q keyId key a) (P : Primitives)
    (hostOf : String → Option String) (nonce : Nonce) (draw : Nonce × Bool) :
    ∃ rest, s.sends P hostOf
      (.recvDirect a (Probe.sealProbe P ⟨probePing, keyId, nonce⟩ key) draw) =
      .pong q a.unmapIpv6 ⟨probePong, keyId, nonce⟩ key :: rest := by
  have harrives :
      s.ProbeArrives P (.recvDirect a (Probe.sealProbe P ⟨probePing, keyId, nonce⟩ key) draw)
      probePing q a.unmapIpv6 keyId key nonce := ⟨h.udp, h.session, a, draw, rfl, rfl⟩
  have hanswer : (Inner.pingDue (s.inner.entry q) a.unmapIpv6 s.now).1 = true := h.due
  rw [PathSocket.sends, exec, recvDirect_of_arrives harrives (Or.inl rfl), Inner.handleProbe,
    if_neg (by decide), if_pos rfl, Inner.handlePing_snd, if_pos hanswer]
  exact ⟨_, rfl⟩

theorem Awaits.takes (h : s.Awaits P p keyId key nonce) (hostOf : String → Option String)
    (a : SocketAddr) (draw : Nonce × Bool) {s' : PathSocket}
    (hs : s' = s.step P hostOf
      (.recvDirect a (Probe.sealProbe P ⟨probePong, keyId, nonce⟩ key) draw)) :
    (s'.inner.entry p).direct = some ⟨a.unmapIpv6, s.now⟩ ∧
    ∀ contents result, contents.length ≤ maxDatagram →
      s'.sends P hostOf (.trySend (p.syntheticAddr P) contents result) =
        [.quic p a.unmapIpv6 contents] := by
  have harrives :
      s.ProbeArrives P (.recvDirect a (Probe.sealProbe P ⟨probePong, keyId, nonce⟩ key) draw)
      probePong p a.unmapIpv6 keyId key nonce := ⟨h.udp, h.session, a, draw, rfl, rfl⟩
  have hdirect : (s'.inner.entry p).direct = some ⟨a.unmapIpv6, s.now⟩ := by
    rw [hs]
    exact direct_of_accepted ⟨⟨keyId, key, harrives⟩, h.outstanding⟩
  have hafter : s' = { s with inner := s.inner.acceptPong p nonce a.unmapIpv6 s.now } := by
    rw [hs, step, exec, recvDirect_of_arrives harrives (Or.inr rfl)]
    rfl
  have hknown : s'.inner.bySynthetic.lookup (p.syntheticAddr P) = some p := by
    rw [hafter, ← h.known]
    dsimp only
    unfold Inner.acceptPong
    split_ifs <;> rfl
  have hproven : (s'.provenDirect p).filter (fun proven => s'.now - proven.provedAt < directFresh) =
      some ⟨a.unmapIpv6, s.now⟩ := by
    have hudp : s'.udp = true := by rw [hafter]; exact h.udp
    have hnow : s'.now = s.now := by rw [hafter]
    rw [provenDirect, if_pos hudp, hdirect, hnow]
    simp [Option.filter, directFresh, second]
  refine ⟨hdirect, fun contents result hlen => ?_⟩
  simp only [PathSocket.sends, exec, trySend, if_neg (not_lt.mpr hlen), hknown, hproven]

theorem Awaits.echo (h : s.Awaits P p keyId key nonce) (hostOf : String → Option String)
    (a : SocketAddr) (draw : Nonce × Bool) {s' : PathSocket}
    (hs : s' = s.step P hostOf
      (.recvDirect a (Probe.sealProbe P ⟨probePing, keyId, nonce⟩ key) draw)) :
    s'.Awaits P p keyId key nonce ∧ s'.now = s.now := by
  have harrives :
      s.ProbeArrives P (.recvDirect a (Probe.sealProbe P ⟨probePing, keyId, nonce⟩ key) draw)
      probePing p a.unmapIpv6 keyId key nonce := ⟨h.udp, h.session, a, draw, rfl, rfl⟩
  rw [step, exec, recvDirect_of_arrives harrives (Or.inl rfl), Inner.handleProbe,
    if_neg (by decide), if_pos rfl] at hs
  subst hs
  refine ⟨?_, rfl⟩
  have honly := Inner.onlyPeers_handlePing s.inner p key ⟨probePing, keyId, nonce⟩
    a.unmapIpv6 s.now draw
  obtain ⟨hindex, held, hheld⟩ := Inner.probeSession_eq_some.mp h.session
  refine ⟨h.udp, Inner.probeSession_eq_some.mpr ⟨?_, held, ?_⟩, ?_, ?_⟩
  · rw [honly.byKeyId, hindex]
  · rw [Inner.proj_handlePing Peer.probeKey (fun _ _ _ => rfl) (fun _ _ _ => rfl), hheld]
  · -- a counter-probe may reuse the nonce, which keeps it outstanding
    rw [← Option.isSome_map (f := Prod.snd)]
    have hsent := Inner.sentAt_handlePing s.inner p key ⟨probePing, keyId, nonce⟩ a.unmapIpv6
      s.now draw nonce
    by_cases hcarries : Inner.Carries p nonce
        (s.inner.handlePing p key ⟨probePing, keyId, nonce⟩ a.unmapIpv6 s.now draw).2
    · exact Option.isSome_of_mem (hsent.1 hcarries)
    · have hkept := hsent.2 hcarries
      unfold Inner.sentAt at hkept
      rw [hkept, Option.isSome_map]
      exact h.outstanding
  · have hsame := congrArg (fun i => i.bySynthetic.lookup (p.syntheticAddr P)) honly
    exact hsame.symm.trans h.known

end PathSocket

structure ProbeNetwork (ι : Type) where
  sockets : ι → PathSocket
  -- Every probe that a socket has sent, oldest first, with the socket.
  probes : List (ι × UdpSend)

inductive Transit (ι : Type) where
  | socket (i : ι) (e : Event)
  -- A probe that was sent reaches a socket, now or again.
  | carry (k : ℕ) (i : ι) (sender : SocketAddr) (draw : Nonce × Bool)

namespace ProbeNetwork
variable {ι : Type} [DecidableEq ι] (P : Primitives) (hostOf : String → Option String)

def call (n : ProbeNetwork ι) : Transit ι → Option (ι × Event)
  | .socket i e => some (i, e)
  | .carry k i sender draw =>
    n.probes[k]?.map fun sent => (i, .recvDirect sender (sent.2.wire P).2 draw)

def act (n : ProbeNetwork ι) (i : ι) (e : Event) : ProbeNetwork ι where
  sockets := Function.update n.sockets i ((n.sockets i).step P hostOf e)
  probes := n.probes ++ (((n.sockets i).sends P hostOf e).filter UdpSend.isProbe).map
    fun out => (i, out)

def step (n : ProbeNetwork ι) (t : Transit ι) : ProbeNetwork ι :=
  match n.call P t with
  | some (i, e) => n.act P hostOf i e
  | none => n

def forged (n : ProbeNetwork ι) : Transit ι → Bool
  | .socket i (.recvDirect _ data _) => (n.sockets i).opens P data
  | _ => false

/-- No ping has the nonce of an earlier one. -/
def Fresh (n : ProbeNetwork ι) (t : Transit ι) : Prop :=
  ∀ c ∈ n.call P t, ∀ out ∈ (n.sockets c.1).sends P hostOf c.2, ∀ nonce ∈ out.pingNonce,
    ∀ sent ∈ n.probes, sent.2.pingNonce ≠ some nonce

def Fair (n : ProbeNetwork ι) (t : Transit ι) : Prop := n.forged P t = false ∧ n.Fresh P hostOf t

def Asks (i : ι) (p : NodeId) (keyId : ProbeKeyId) (nonce : Nonce) (n : ProbeNetwork ι)
    (t : Transit ι) : Prop :=
  ∃ e dest key, n.call P t = some (i, e) ∧
    UdpSend.ping p dest ⟨probePing, keyId, nonce⟩ key ∈ (n.sockets i).sends P hostOf e

def AnswersPing (i j : ι) (p q : NodeId) (keyId : ProbeKeyId) (nonce : Nonce) (n : ProbeNetwork ι)
    (t : Transit ι) : Prop :=
  ∃ k sender draw dest back key key', t = .carry k j sender draw ∧
    n.probes[k]? = some (i, .ping p dest ⟨probePing, keyId, nonce⟩ key) ∧
    (n.sockets j).inner.probeSession keyId = some (q, key') ∧ ∃ e, n.call P t = some (j, e) ∧
    UdpSend.pong q back ⟨probePong, keyId, nonce⟩ key' ∈ (n.sockets j).sends P hostOf e

def TakesAnswer (i j : ι) (p q : NodeId) (keyId : ProbeKeyId) (nonce : Nonce) (a : SocketAddr)
    (n : ProbeNetwork ι) (t : Transit ι) : Prop :=
  ∃ k sender draw back key, t = .carry k i sender draw ∧ sender.unmapIpv6 = a ∧
    n.probes[k]? = some (j, .pong q back ⟨probePong, keyId, nonce⟩ key) ∧
    ((n.sockets i).inner.entry p).pending.lookup nonce ≠ none

/-- No ping comes back to the socket that sent it. -/
def NoEcho (n : ProbeNetwork ι) : Transit ι → Prop
  | .carry k i _ _ => ∀ sent ∈ n.probes[k]?, sent.2.pingNonce.isSome → sent.1 ≠ i
  | _ => True

instance (n : ProbeNetwork ι) : DecidablePred (n.Fresh P hostOf) := fun t =>
  -- by the ping's nonce, not by going through all nonces
  have (out : UdpSend) :
      Decidable (∀ nonce ∈ out.pingNonce, ∀ sent ∈ n.probes, sent.2.pingNonce ≠ some nonce) :=
    Option.decidableForallMem _
  inferInstanceAs (Decidable (∀ c ∈ n.call P t, _))

instance (n : ProbeNetwork ι) : DecidablePred (n.Fair P hostOf) := fun t =>
  inferInstanceAs (Decidable (n.forged P t = false ∧ n.Fresh P hostOf t))

section Step
variable {P hostOf} {n : ProbeNetwork ι} {t : Transit ι} {i j : ι} {p q : NodeId} {e : Event}

theorem step_of_call (h : n.call P t = some (i, e)) : n.step P hostOf t = n.act P hostOf i e := by
  rw [step, h]

theorem socket_step (n : ProbeNetwork ι) (t : Transit ι) (i : ι) :
    (n.step P hostOf t).sockets i = n.sockets i ∨
      ∃ e, n.call P t = some (i, e) ∧ (n.step P hostOf t).sockets i =
        (n.sockets i).step P hostOf e := by
  cases hcall : n.call P t with
  | none =>
    rw [step, hcall]
    exact Or.inl rfl
  | some c =>
    rw [step_of_call hcall, act]
    by_cases hi : i = c.1
    · subst hi
      exact Or.inr ⟨c.2, rfl, Function.update_self _ _ _⟩
    · exact Or.inl (Function.update_of_ne hi _ _)

def Emits (P : Primitives) (hostOf : String → Option String) (sent : ι × UdpSend)
    (n : ProbeNetwork ι) (t : Transit ι) : Prop :=
  ∃ e, n.call P t = some (sent.1, e) ∧ sent.2 ∈ (n.sockets sent.1).sends P hostOf e ∧ sent.2.isProbe

theorem mem_probes_step {sent : ι × UdpSend} :
    sent ∈ (n.step P hostOf t).probes ↔ sent ∈ n.probes ∨ Emits P hostOf sent n t := by
  cases hcall : n.call P t with
  | none => simp [step, Emits, hcall]
  | some c =>
    rw [step_of_call hcall, act, List.mem_append, Emits, hcall]
    refine or_congr_right ⟨fun h => ?_, ?_⟩
    · obtain ⟨out, hout, rfl⟩ := List.mem_map.mp h
      exact ⟨c.2, rfl, List.mem_filter.mp hout⟩
    · rintro ⟨e, hc, hout⟩
      cases hc
      exact List.mem_map.mpr ⟨sent.2, List.mem_filter.mpr hout, rfl⟩

theorem probes_extended (n : ProbeNetwork ι) (ts : List (Transit ι)) :
    n.probes <+: (run (step P hostOf) n ts).probes := by
  induction ts generalizing n with
  | nil => exact List.prefix_rfl
  | cons t ts ih =>
    refine List.IsPrefix.trans ?_ (ih (n.step P hostOf t))
    unfold step
    split
    · exact List.prefix_append _ _
    · exact List.prefix_rfl

omit [DecidableEq ι] in
theorem carried (hfair : n.Fair P hostOf t) (hcall : n.call P t = some (i, e)) {kind : UInt8}
    (hkind : kind = probePing ∨ kind = probePong) {a : SocketAddr} {keyId : ProbeKeyId}
    {key : ProbeKey} {nonce : Nonce} (h : (n.sockets i).ProbeArrives P e kind p a keyId key nonce) :
    ∃ k sender draw sent, t = .carry k i sender draw ∧ sender.unmapIpv6 = a ∧
      n.probes[k]? = some sent ∧
      (sent.2.wire P).2 = Probe.sealProbe P ⟨kind, keyId, nonce⟩ key := by
  obtain ⟨-, -, sender, draw, rfl, hsource⟩ := id h
  cases t with
  | socket i' e' =>
    obtain ⟨rfl, rfl⟩ := Prod.mk.inj (Option.some.inj hcall)
    have hopens := PathSocket.opens_of_arrives hkind h
    exact absurd (hopens.symm.trans hfair.1) (by decide)
  | carry k i' sender' draw' =>
    obtain ⟨sent, hsent, heq⟩ := Option.map_eq_some_iff.mp hcall
    obtain ⟨rfl, hevent⟩ := Prod.mk.inj heq
    obtain ⟨rfl, hwire, -⟩ := Event.recvDirect.inj hevent
    exact ⟨k, sender', draw', sent, rfl, hsource, hsent, hwire⟩

structure Recorded (n : ProbeNetwork ι) : Prop where
  issued : ∀ i p nonce, ((n.sockets i).inner.entry p).pending.lookup nonce ≠ none →
    ∃ dest keyId key, (i, UdpSend.ping p dest ⟨probePing, keyId, nonce⟩ key) ∈ n.probes
  unique : ∀ i j p q dest dest' probe probe' key key',
    (i, UdpSend.ping p dest probe key) ∈ n.probes →
    (j, UdpSend.ping q dest' probe' key') ∈ n.probes → probe.nonce = probe'.nonce →
      i = j ∧ p = q ∧ probe.keyId = probe'.keyId

omit [DecidableEq ι] in
theorem Recorded.start {sockets : ι → PathSocket} (h : ∀ i, (sockets i).inner = {}) :
    Recorded ⟨sockets, []⟩ where
  issued i p nonce hpending := by
    rw [h] at hpending
    exact absurd rfl hpending
  unique _ _ _ _ _ _ _ _ _ _ hmem := absurd hmem List.not_mem_nil

theorem Recorded.step (h : n.Recorded) (hfresh : n.Fresh P hostOf t) :
    (n.step P hostOf t).Recorded where
  issued i p nonce hpending := by
    have hbefore : ((n.sockets i).inner.entry p).pending.lookup nonce ≠ none →
        ∃ dest keyId key, (i, UdpSend.ping p dest ⟨probePing, keyId, nonce⟩ key) ∈
          (n.step P hostOf t).probes := fun hbefore => by
      obtain ⟨dest, keyId, key, hmem⟩ := h.issued i p nonce hbefore
      exact ⟨dest, keyId, key, mem_probes_step.mpr (Or.inl hmem)⟩
    rcases socket_step n t i with hsame | ⟨e, hcall, hstep⟩
    · rw [hsame] at hpending
      exact hbefore hpending
    · rw [hstep] at hpending
      obtain ⟨x, hx⟩ := Option.ne_none_iff_exists'.mp hpending
      rcases PathSocket.pending_step hx with ⟨keyId, key, hsent⟩ | ⟨hold, -, -⟩
      · exact ⟨x.1, keyId, key, mem_probes_step.mpr (Or.inr ⟨e, hcall, hsent, rfl⟩)⟩
      · exact hbefore (by rw [hold]; exact Option.some_ne_none x)
  unique i j p q dest dest' probe probe' key key' hmem hmem' hnonce := by
    rcases mem_probes_step.mp hmem with hold | ⟨e, hcall, hsent, -⟩
    · rcases mem_probes_step.mp hmem' with hold' | ⟨e', hcall', hsent', -⟩
      · exact h.unique i j p q dest dest' probe probe' key key' hold hold' hnonce
      · exact absurd (congrArg some hnonce) (hfresh _ hcall' _ hsent' _ rfl _ hold)
    · rcases mem_probes_step.mp hmem' with hold' | ⟨e', hcall', hsent', -⟩
      · exact absurd (congrArg some hnonce.symm) (hfresh _ hcall _ hsent _ rfl _ hold')
      · -- both were sent now, by one socket to one peer
        obtain ⟨rfl, rfl⟩ := Prod.mk.inj (Option.some.inj (hcall.symm.trans hcall'))
        exact ⟨rfl, PathSocket.pings_agree hsent hsent'⟩

end Step

section Run
variable {P hostOf} {sockets : ι → PathSocket} {ts : List (Transit ι)} {i : ι} {p : NodeId}

theorem recorded_run (hstart : ∀ i, (sockets i).inner = {})
    (hfair : Always (step P hostOf) (Fair P hostOf) ⟨sockets, []⟩ ts) :
    (run (step P hostOf) ⟨sockets, []⟩ ts).Recorded :=
  invariant_of_always (step P hostOf) (Recorded.start hstart)
    (fun _ _ h hfair => h.step hfair.2) hfair

theorem emitted {sent : ι × UdpSend} (h : sent ∈ (run (step P hostOf) ⟨sockets, []⟩ ts).probes) :
    Once (step P hostOf) (Emits P hostOf sent) ⟨sockets, []⟩ ts :=
  once_of_holds (step P hostOf) (I := fun _ => True) (p := fun n => sent ∈ n.probes)
    (fun _ => trivial) List.not_mem_nil (fun _ _ _ h => mem_probes_step.mp h) h

theorem proved_once (hstart : ∀ i, (sockets i).inner = {}) {proven : Proven}
    (h : (((run (step P hostOf) ⟨sockets, []⟩ ts).sockets i).inner.entry p).direct = some proven) :
    Once (step P hostOf) (fun n t => ∃ e nonce, n.call P t = some (i, e) ∧
      (n.sockets i).AcceptsPong P e p proven.addr nonce ∧ proven.provedAt = (n.sockets i).now)
      ⟨sockets, []⟩ ts := by
  refine once_of_holds (step P hostOf) (I := fun _ => True)
    (p := fun n => ((n.sockets i).inner.entry p).direct = some proven) (fun _ => trivial) ?_ ?_ h
  · dsimp only
    rw [hstart]
    exact nofun
  · intro n t _ hdirect
    rcases socket_step n t i with hsame | ⟨e, hcall, hstep⟩
    · rw [hsame] at hdirect
      exact Or.inl hdirect
    · rw [hstep] at hdirect
      rcases PathSocket.direct_step hdirect with ⟨nonce, haccepts, htime⟩ | ⟨hbefore, -⟩
      · exact Or.inr ⟨e, nonce, hcall, haccepts, htime⟩
      · exact Or.inl hbefore

theorem answered_of_pong (hfair : Always (step P hostOf) (Fair P hostOf) ⟨sockets, []⟩ ts)
    {sent : ι × UdpSend} (hsent : sent ∈ (run (step P hostOf) ⟨sockets, []⟩ ts).probes)
    {keyId : ProbeKeyId} {key : ProbeKey} {nonce : Nonce}
    (hwire : (sent.2.wire P).2 = Probe.sealProbe P ⟨probePong, keyId, nonce⟩ key) :
    ∃ q back key', sent.2 = .pong q back ⟨probePong, keyId, nonce⟩ key' ∧
      ∃ i p, Once (step P hostOf) (AnswersPing P hostOf i sent.1 p q keyId nonce)
        ⟨sockets, []⟩ ts := by
  obtain ⟨pre, t, post, rfl, e, hcall, hout, hprobe⟩ := emitted hsent
  rcases PathSocket.probe_sent hout hprobe hwire with ⟨_, _, _, -, hkind⟩ |
    ⟨q, back, key', heq, -, harrives⟩
  · exact absurd hkind (show probePong ≠ probePing by decide)
  · obtain ⟨k, sender, draw, ping, rfl, -, hk, hping⟩ :=
      carried (hfair _ _ _ rfl) hcall (Or.inl rfl) harrives
    obtain ⟨pre', t', post', hpre, e', hcall', hout', hprobe'⟩ := emitted (List.mem_of_getElem? hk)
    rcases PathSocket.probe_sent hout' hprobe' hping with ⟨p, dest, key'', hasked, -⟩ |
      ⟨_, _, _, -, hkind, -⟩
    · refine ⟨q, back, key', heq, ping.1, p, pre, _, post, rfl, k, sender, draw, dest,
        back, key'', key', rfl, ?_, harrives.2.1, e, hcall, ?_⟩
      · rw [hk, ← hasked]
      · rw [← heq]
        exact hout
    · exact absurd hkind (show probePing ≠ probePong by decide)

theorem asked_of_answered {i j : ι} {p q : NodeId} {keyId : ProbeKeyId} {nonce : Nonce}
    {t : Transit ι}
    (h : AnswersPing P hostOf i j p q keyId nonce (run (step P hostOf) ⟨sockets, []⟩ ts) t) :
    Once (step P hostOf) (Asks P hostOf i p keyId nonce) ⟨sockets, []⟩ ts := by
  obtain ⟨k, sender, draw, dest, back, key, key', -, hk, -⟩ := h
  obtain ⟨pre, t, post, rfl, e, hcall, hout, -⟩ := emitted (List.mem_of_getElem? hk)
  exact ⟨pre, t, post, rfl, e, dest, key, hcall, hout⟩

end Run

/-- In this order: `i` pings `p`, `j` answers that ping, and `i` takes the answer, which proves the
path. -/
def Exchanged (start : ProbeNetwork ι) (ts : List (Transit ι)) (i j : ι) (p q : NodeId)
    (proven : Proven) : Prop :=
  ∃ before asks between answers later takes after keyId nonce,
    ts = before ++ asks :: (between ++ answers :: (later ++ takes :: after)) ∧
    Asks P hostOf i p keyId nonce (run (step P hostOf) start before) asks ∧
    AnswersPing P hostOf i j p q keyId nonce
      (run (step P hostOf) start (before ++ asks :: between)) answers ∧
    TakesAnswer i j p q keyId nonce proven.addr
      (run (step P hostOf) start (before ++ asks :: (between ++ answers :: later))) takes ∧
    proven.provedAt =
      ((run (step P hostOf) start (before ++ asks :: (between ++ answers :: later))).sockets i).now

/-- Whatever the network does to the datagrams: a path that a socket has proved was proved by an
exchange with a socket that has a key under the id of the ping. Unless the network brings a socket
its own pings, that is another socket. -/
theorem proved_path_was_answered (sockets : ι → PathSocket) (hstart : ∀ i, (sockets i).inner = {})
    (ts : List (Transit ι)) (hfair : Always (step P hostOf) (Fair P hostOf) ⟨sockets, []⟩ ts)
    (i : ι) (p : NodeId) (proven : Proven)
    (h : (((run (step P hostOf) ⟨sockets, []⟩ ts).sockets i).inner.entry p).direct = some proven) :
    ∃ j q, Exchanged P hostOf ⟨sockets, []⟩ ts i j p q proven ∧
      (Always (step P hostOf) NoEcho ⟨sockets, []⟩ ts → j ≠ i) := by
  obtain ⟨pre, takes, after, rfl, e, nonce, hcall, ⟨⟨keyId, key, harrives⟩, hpending⟩, htime⟩ :=
    proved_once hstart h
  have hrecorded := recorded_run hstart (Always.initial _ hfair)
  obtain ⟨k, sender, draw, pong, rfl, hsource, hk, hwire⟩ :=
    carried (hfair _ _ _ rfl) hcall (Or.inr rfl) harrives
  obtain ⟨q, back, key', hpong, i', p', pre', answers, later, rfl, hanswers⟩ :=
    answered_of_pong (Always.initial _ hfair) (List.mem_of_getElem? hk) hwire
  obtain ⟨before, asks, between, rfl, hasks⟩ := asked_of_answered hanswers
  -- the ping that was answered and the one that is outstanding have the same nonce
  obtain ⟨rfl, rfl⟩ : i' = i ∧ p' = p := by
    obtain ⟨k', _, _, dest, _, key'', _, -, hk', -⟩ := id hanswers
    obtain ⟨dest', keyId', key₁, hissued⟩ :=
      hrecorded.issued i p nonce (Option.isSome_iff_ne_none.mp hpending)
    have hanswered : (i', UdpSend.ping p' dest ⟨probePing, keyId, nonce⟩ key'') ∈
        (run (step P hostOf) ⟨sockets, []⟩
          (before ++ asks :: between ++ answers :: later)).probes := by
      rw [run_append]
      exact (probes_extended _ _).subset (List.mem_of_getElem? hk')
    obtain ⟨hi, hp, -⟩ := hrecorded.unique _ _ _ _ _ _ _ _ _ _ hanswered hissued rfl
    exact ⟨hi, hp⟩
  have hsplit : before ++ asks :: between ++ answers :: later =
      before ++ asks :: (between ++ answers :: later) := by simp
  rw [hsplit] at hk hpending htime
  refine ⟨pong.1, q,
    ⟨before, asks, between, answers, later, _, after, keyId, nonce, by simp, hasks, hanswers,
      ⟨k, sender, draw, back, key', rfl, hsource, ?_, Option.isSome_iff_ne_none.mp hpending⟩,
      htime⟩, ?_⟩
  · rw [hk, ← hpong]
  · rintro hecho rfl
    obtain ⟨k', sender', draw', dest, _, _, _, rfl, hk', -⟩ := hanswers
    exact Always.initial _ hecho _ _ _ rfl _ hk' rfl rfl

def exampleAddr (last : UInt8) : SocketAddr := .v4 ⟨[192, 0, 2, last], rfl⟩ 5000

def examplePeer (last : UInt8) : NodeId := ⟨⟨List.replicate 31 0 ++ [last], rfl⟩⟩

def exampleKeyId : ProbeKeyId := ⟨List.replicate 8 7, rfl⟩

def exampleKey : ProbeKey := ⟨List.replicate 32 9, rfl⟩

def exampleNonce (last : UInt8) : Nonce := ⟨List.replicate 15 0 ++ [last], rfl⟩

def exampleSockets (i : Bool) : PathSocket :=
  .assemble (examplePeer (if i then 2 else 1)) true (.v4 ⟨[0, 0, 0, 0], rfl⟩ 5000) [] none none 0 0

def exampleSession : List (Transit Bool) :=
  [.socket false (.registerPeer (examplePeer 2)), .socket false (.beginSession (examplePeer 2)),
    .socket false (.registerProbeKey 0 (examplePeer 2) exampleKeyId exampleKey),
    .socket true (.registerPeer (examplePeer 1)), .socket true (.beginSession (examplePeer 1)),
    .socket true (.registerProbeKey 0 (examplePeer 1) exampleKeyId exampleKey),
    .socket false (.setPeerCandidates (examplePeer 2) [exampleAddr 2]),
    .socket false (.sendProbes (examplePeer 2) fun _ => (exampleNonce 1, true))]

def exampleExchange : List (Transit Bool) :=
  exampleSession ++ [.carry 0 true (exampleAddr 1) (exampleNonce 2, true),
    .carry 1 false (exampleAddr 2) (exampleNonce 3, true)]

theorem example_was_answered :
    ∃ j q, Exchanged .standIn (fun _ => none) ⟨exampleSockets, []⟩ exampleExchange false j
      (examplePeer 2) q ⟨exampleAddr 2, 0⟩ ∧
      (Always (step .standIn fun _ => none) NoEcho ⟨exampleSockets, []⟩ exampleExchange →
        j ≠ false) :=
  proved_path_was_answered .standIn (fun _ => none) exampleSockets (fun _ => rfl) exampleExchange
    (by decide +kernel) false (examplePeer 2) ⟨exampleAddr 2, 0⟩ (by decide +kernel)

section Converse
variable {P} {n : ProbeNetwork ι} {i j : ι} {p q : NodeId} {dest a b : SocketAddr}
  {keyId : ProbeKeyId} {key : ProbeKey} {nonce : Nonce} {k : ℕ}

omit [DecidableEq ι] in
theorem call_carry {sent : ι × UdpSend} (h : n.probes[k]? = some sent) (i : ι) (a : SocketAddr)
    (draw : Nonce × Bool) :
    n.call P (.carry k i a draw) = some (i, .recvDirect a (sent.2.wire P).2 draw) := by
  rw [call, h]
  rfl

theorem answer_recorded
    (hsent : n.probes[k]? = some (i, .ping p dest ⟨probePing, keyId, nonce⟩ key))
    (hanswering : (n.sockets j).Answering q keyId key a) (draw : Nonce × Bool)
    (ts : List (Transit ι)) :
    (run (step P hostOf) n (.carry k j a draw :: ts)).probes[n.probes.length]? =
      some (j, .pong q a.unmapIpv6 ⟨probePong, keyId, nonce⟩ key) := by
  obtain ⟨rest, hrest⟩ := hanswering.sends P hostOf nonce draw
  have hnext : (n.step P hostOf (.carry k j a draw)).probes = n.probes ++
      (j, .pong q a.unmapIpv6 ⟨probePong, keyId, nonce⟩ key) ::
        (rest.filter UdpSend.isProbe).map fun out => (j, out) := by
    rw [step_of_call (call_carry hsent j a draw), act]
    dsimp only [UdpSend.wire]
    rw [hrest, List.filter_cons_of_pos rfl, List.map_cons]
  have hprefix : (n.step P hostOf (.carry k j a draw)).probes <+:
      (run (step P hostOf) n (.carry k j a draw :: ts)).probes := probes_extended _ ts
  obtain ⟨more, hmore⟩ := hprefix
  rw [← hmore, hnext, List.append_assoc, List.getElem?_append_right le_rfl, Nat.sub_self]
  rfl

theorem proves_of_answer {n' : ProbeNetwork ι}
    (hawaits : (n'.sockets i).Awaits P p keyId key nonce)
    (hpong : n'.probes[k]? = some (j, .pong q a ⟨probePong, keyId, nonce⟩ key)) (b : SocketAddr)
    (draw : Nonce × Bool) :
    let s := (n'.step P hostOf (.carry k i b draw)).sockets i
    (s.inner.entry p).direct = some ⟨b.unmapIpv6, (n'.sockets i).now⟩ ∧
    ∀ contents result, contents.length ≤ maxDatagram →
      s.sends P hostOf (.trySend (p.syntheticAddr P) contents result) =
        [.quic p b.unmapIpv6 contents] := by
  intro s
  refine hawaits.takes hostOf b draw ?_
  have hcall := call_carry (P := P) hpong i b draw
  exact (congrArg (fun m => m.sockets i) (step_of_call hcall)).trans (Function.update_self _ _ _)

end Converse

/-- The other way round, in every state: a ping that reaches a socket with the same key under its id
while an answer is due there proves a path as soon as the answer reaches the socket that sent it, if
that socket still waits for it, whatever happens in between. What it then sends to the peer goes to
the address the answer came from. -/
theorem answered_ping_proves (n : ProbeNetwork ι) (i j : ι) (p q : NodeId) (dest a b : SocketAddr)
    (keyId : ProbeKeyId) (key : ProbeKey) (nonce : Nonce) (k : ℕ) (draw draw' : Nonce × Bool)
    (ts : List (Transit ι))
    (hsent : n.probes[k]? = some (i, .ping p dest ⟨probePing, keyId, nonce⟩ key))
    (hanswering : (n.sockets j).Answering q keyId key a)
    (hawaits : ((run (step P hostOf) n (.carry k j a draw :: ts)).sockets i).Awaits P p
      keyId key nonce) :
    let n' := run (step P hostOf) n (.carry k j a draw :: ts)
    let s := (n'.step P hostOf (.carry n.probes.length i b draw')).sockets i
    (s.inner.entry p).direct = some ⟨b.unmapIpv6, (n'.sockets i).now⟩ ∧
    ∀ contents result, contents.length ≤ maxDatagram →
      s.sends P hostOf (.trySend (p.syntheticAddr P) contents result) =
        [.quic p b.unmapIpv6 contents] :=
  proves_of_answer hostOf hawaits (answer_recorded hostOf hsent hanswering draw ts) b draw'

theorem example_answered_proves :
    let n := run (step .standIn fun _ => none) ⟨exampleSockets, []⟩ exampleSession
    let n' := run (step .standIn fun _ => none) n
      [.carry 0 true (exampleAddr 1) (exampleNonce 2, true)]
    let s := (n'.step .standIn (fun _ => none)
      (.carry n.probes.length false (exampleAddr 2) (exampleNonce 3, true))).sockets false
    (s.inner.entry (examplePeer 2)).direct = some ⟨exampleAddr 2, 0⟩ :=
  (answered_ping_proves .standIn (fun _ => none)
    (run _ ⟨exampleSockets, []⟩ exampleSession) false true (examplePeer 2) (examplePeer 1)
    (exampleAddr 2) (exampleAddr 1) (exampleAddr 2) exampleKeyId exampleKey (exampleNonce 1) 0
    (exampleNonce 2, true) (exampleNonce 3, true) [] (by decide +kernel)
    ⟨by decide +kernel, by decide +kernel, by decide +kernel⟩
    ⟨by decide +kernel, by decide +kernel, by decide +kernel, by decide +kernel⟩).1

/-- An echo proves a path: a socket that gets its own ping back from an address answers it, and
takes its own answer, when that comes back too, for the peer's. No other socket takes part, and what
it has for the peer goes to the address of the echo. -/
theorem echoed_ping_proves (n : ProbeNetwork ι) (i : ι) (p : NodeId) (dest a : SocketAddr)
    (keyId : ProbeKeyId) (key : ProbeKey) (nonce : Nonce) (k : ℕ) (draw draw' : Nonce × Bool)
    (hsent : n.probes[k]? = some (i, .ping p dest ⟨probePing, keyId, nonce⟩ key))
    (hawaits : (n.sockets i).Awaits P p keyId key nonce)
    (hdue : (((n.sockets i).inner.entry p).lastPong.lookup a.unmapIpv6).all
      fun sent => pongInterval ≤ (n.sockets i).now - sent) :
    let n' := run (step P hostOf) n [.carry k i a draw, .carry n.probes.length i a draw']
    (((n'.sockets i).inner.entry p).direct = some ⟨a.unmapIpv6, (n.sockets i).now⟩ ∧
      ∀ contents result, contents.length ≤ maxDatagram →
        (n'.sockets i).sends P hostOf (.trySend (p.syntheticAddr P) contents result) =
          [.quic p a.unmapIpv6 contents]) ∧
    ∀ j, j ≠ i → n'.sockets j = n.sockets j := by
  intro n'
  have hfirst : (n.step P hostOf (.carry k i a draw)).sockets i = (n.sockets i).step P hostOf
      (.recvDirect a (Probe.sealProbe P ⟨probePing, keyId, nonce⟩ key) draw) := by
    rw [step_of_call (call_carry hsent i a draw), act]
    exact Function.update_self _ _ _
  obtain ⟨hwaiting, hnow⟩ := hawaits.echo hostOf a draw hfirst
  have hanswer := answer_recorded (P := P) hostOf hsent ⟨hawaits.udp, hawaits.session, hdue⟩ draw []
  have hproves := proves_of_answer hostOf hwaiting hanswer a draw'
  rw [hnow] at hproves
  refine ⟨hproves, fun j hj => ?_⟩
  have hother : ∀ (m : ProbeNetwork ι) (k : ℕ) (draw : Nonce × Bool),
      (m.step P hostOf (.carry k i a draw)).sockets j = m.sockets j := fun m k draw => by
    rcases socket_step m (.carry k i a draw) j with hsame | ⟨e, hcall, -⟩
    · exact hsame
    · obtain ⟨sent, -, heq⟩ := Option.map_eq_some_iff.mp hcall
      exact absurd (Prod.mk.inj heq).1.symm hj
  exact (hother _ _ _).trans (hother _ _ _)

theorem example_echo_proves :
    let n := run (step .standIn fun _ => none) ⟨exampleSockets, []⟩ exampleSession
    let n' := run (step .standIn fun _ => none) n
      [.carry 0 false (exampleAddr 3) (exampleNonce 2, true), .carry n.probes.length false
        (exampleAddr 3) (exampleNonce 3, true)]
    ((n'.sockets false).inner.entry (examplePeer 2)).direct = some ⟨exampleAddr 3, 0⟩ :=
  (echoed_ping_proves .standIn (fun _ => none) (run _ ⟨exampleSockets, []⟩ exampleSession) false
    (examplePeer 2) (exampleAddr 2) (exampleAddr 3) exampleKeyId exampleKey (exampleNonce 1) 0
    (exampleNonce 2, true) (exampleNonce 3, true) (by decide +kernel)
    ⟨by decide +kernel, by decide +kernel, by decide +kernel, by decide +kernel⟩
      (by decide +kernel)).1.1

end ProbeNetwork
end ForgeswornLink
