import ForgeswornLink.SessionSlots

/-!
# Whose proof it is

A session's probe key outlives its slot: the start of a new session forgets
proofs and nonces of the peer but not the key on record. As long as no ping goes
out under a key that the session in the slot did not register itself, a proof on
record always belongs to that session.
-/

namespace ForgeswornLink
open Runs

namespace PathSocket

variable (P : Primitives) (hostOf : String → Option String)

/-- Every ping that goes out is sealed with a key that the session in its peer's slot registered. -/
def PingsUnderOwnKey (start : PathSocket) (es : List Event) : Prop :=
  ∀ pre e post, es = pre ++ e :: post → ∀ p dest probe key,
    UdpSend.ping p dest probe key ∈ (after P hostOf start pre).sends P hostOf e →
    ∀ session, (after P hostOf start pre).inner.sessions.lookup p = some session →
      Event.registerProbeKey session p probe.keyId key ∈ pre

def IssuesUnder (start : PathSocket) (session : ℕ) (p : NodeId) (n : Nonce) (pre : List Event)
    (e : Event) : Prop :=
  ∃ dest keyId key, Event.registerProbeKey session p keyId key ∈ pre ∧
    UdpSend.ping p dest ⟨probePing, keyId, n⟩ key ∈ (after P hostOf start pre).sends P hostOf e

/-- Since the peer's last session began, a pong from the address was accepted for
a nonce issued under a key of the session and not consumed before. -/
def ProvedUnder (start : PathSocket) (session : ℕ) (p : NodeId) (a : SocketAddr) (es : List Event) :
    Prop :=
  ∃ n, Since (fun pre e => (after P hostOf start pre).AcceptsPong P e p a n ∧
      Since (IssuesUnder P hostOf start session p n)
        (fun pre e => e ≠ .beginSession p ∧
          ∀ b, ¬ (after P hostOf start pre).AcceptsPong P e p b n) pre)
    (fun _ e => e ≠ .beginSession p) es

variable {P hostOf} {start : PathSocket} {p : NodeId} {session : ℕ}

theorem PingsUnderOwnKey.initial {es fs : List Event}
    (h : PingsUnderOwnKey P hostOf start (es ++ fs)) : PingsUnderOwnKey P hostOf start es := by
  intro pre e post hes
  refine h pre e (post ++ fs) ?_
  rw [hes, List.append_assoc, List.cons_append]

theorem pending_of_session (hstart : start.inner = {}) {es : List Event}
    (hown : PingsUnderOwnKey P hostOf start es) {n : Nonce}
    (hslot : (after P hostOf start es).inner.sessions.lookup p = some session)
    (h : (((after P hostOf start es).inner.entry p).pending.lookup n).isSome) :
    Since (IssuesUnder P hostOf start session p n)
      (fun pre e => e ≠ .beginSession p ∧ ∀ a, ¬ (after P hostOf start pre).AcceptsPong P e p a n)
      es := by
  induction es using List.reverseRecOn with
  | nil =>
    rw [after, run_nil, hstart] at h
    cases h
  | append_singleton es e ih =>
    rw [after, run_snoc] at h hslot
    obtain ⟨x, hx⟩ := Option.isSome_iff_exists.mp h
    rcases session_step hslot with rfl | hslot
    · simp only [step, exec, Inner.entry_beginSession, if_true] at hx
      cases hx
    rcases pending_step hx with ⟨keyId, key, hsent⟩ | ⟨hbefore, hne, haccepts⟩
    · have hregistered := hown es e [] rfl p x.1 _ key hsent session hslot
      exact since_now ⟨x.1, keyId, key, hregistered, hsent⟩
    · exact (ih hown.initial hslot (by rw [hbefore]; rfl)).snoc ⟨hne, haccepts⟩

theorem direct_of_session (hstart : start.inner = {}) {es : List Event}
    (hown : PingsUnderOwnKey P hostOf start es) {proven : Proven}
    (hslot : (after P hostOf start es).inner.sessions.lookup p = some session)
    (h : ((after P hostOf start es).inner.entry p).direct = some proven) :
    ProvedUnder P hostOf start session p proven.addr es := by
  induction es using List.reverseRecOn with
  | nil =>
    rw [after, run_nil, hstart] at h
    cases h
  | append_singleton es e ih =>
    rw [after, run_snoc] at h hslot
    rcases session_step hslot with rfl | hslot
    · simp only [step, exec, Inner.entry_beginSession, if_true] at h
      cases h
    rcases direct_step h with ⟨n, haccepts, -⟩ | ⟨hbefore, hne⟩
    · exact ⟨n, since_now ⟨haccepts, pending_of_session hstart hown.initial hslot haccepts.2⟩⟩
    · obtain ⟨n, hsince⟩ := ih hown.initial hslot hbefore
      exact ⟨n, hsince.snoc hne⟩

/-- In a run that pings peers only under keys of the sessions in their slots, a
proof on record while a session holds the slot answers a nonce issued under a key
that very session registered; a session that has registered none has no proof. -/
theorem proofs_belong_to_session (P : Primitives) (hostOf : String → Option String)
    (nodeId : NodeId) (udp : Bool) (udpLocal : SocketAddr) (relays : List String)
    (book : Option TagBook) (reflector : Option SocketAddr) (now unixNow : ℕ) (es : List Event)
    (hown : PingsUnderOwnKey P hostOf
      (assemble nodeId udp udpLocal relays book reflector now unixNow) es) :
    let start := assemble nodeId udp udpLocal relays book reflector now unixNow
    ∀ p session, (after P hostOf start es).inner.sessions.lookup p = some session →
      (∀ proven, ((after P hostOf start es).inner.entry p).direct = some proven →
        ProvedUnder P hostOf start session p proven.addr es) ∧
      ((∀ keyId key, Event.registerProbeKey session p keyId key ∉ es) →
        ((after P hostOf start es).inner.entry p).direct = none) := by
  intro start p session hslot
  refine ⟨fun proven h => direct_of_session rfl hown hslot h, fun hnone => ?_⟩
  by_contra hdirect
  obtain ⟨proven, h⟩ := Option.ne_none_iff_exists'.mp hdirect
  obtain ⟨n, pre, e, post, rfl, ⟨-, hissued⟩, -⟩ := direct_of_session rfl hown hslot h
  obtain ⟨pre', e', post', rfl, ⟨dest, keyId, key, hregistered, -⟩, -⟩ := hissued
  exact hnone keyId key (List.mem_append_left _ (List.mem_append_left _ hregistered))

def ownProbe (p : NodeId) (a : SocketAddr) (keyId : ProbeKeyId) (key : ProbeKey) (n : Nonce) :
    List Event :=
  [.registerPeer p, .beginSession p, .registerProbeKey 0 p keyId key, .setPeerCandidates p [a],
    .sendProbes p fun _ => (n, true),
    .recvDirect a (Probe.sealProbe Primitives.standIn ⟨probePong, keyId, n⟩ key) (n, true)]

theorem proofs_belong_to_session_ownProbe :
    let p : NodeId := ⟨List.Vector.replicate 32 1⟩
    let a := SocketAddr.v4 (List.Vector.replicate 4 1) 4000
    let start := assemble ⟨List.Vector.replicate 32 0⟩ true (.v4 (List.Vector.replicate 4 0) 0) []
      none none 0 0
    let es := ownProbe p a (List.Vector.replicate 8 3) (List.Vector.replicate 32 4)
      (List.Vector.replicate 16 5)
    PingsUnderOwnKey Primitives.standIn (fun _ => none) start es ∧
      ProvedUnder Primitives.standIn (fun _ => none) start 0 p a es := by
  intro p a start es
  have hown : PingsUnderOwnKey Primitives.standIn (fun _ => none) start es := by
    intro pre e post hes q dest probe key hsent session hslot
    obtain ⟨hprobes, hkey⟩ := key_of_ping hsent
    rcases hprobes with ⟨draws, rfl⟩ | ⟨source, keyId', key', nonce, -, -, sender, draw, rfl, -⟩
    · rcases pre with _ | ⟨_, _ | ⟨_, _ | ⟨_, _ | ⟨_, _ | ⟨_, _ | ⟨_, pre⟩⟩⟩⟩⟩⟩ <;>
        simp only [es, ownProbe, List.cons_append, List.nil_append, List.cons.injEq, reduceCtorEq,
          false_and, and_false, List.nil_eq, List.append_eq_nil_iff] at hes
      obtain ⟨rfl, rfl, rfl, rfl, hprobe, -⟩ := hes
      obtain ⟨rfl, -⟩ := Event.sendProbes.inj hprobe
      have hsession : some 0 = some session := Eq.trans (by decide +kernel) hslot
      have hheld : some (List.Vector.replicate 8 3, List.Vector.replicate 32 4) =
          some (probe.keyId, key) := Eq.trans (by decide +kernel) hkey
      obtain ⟨hkeyId, hkey⟩ := Prod.mk.inj (Option.some.inj hheld)
      cases hsession
      rw [← hkeyId, ← hkey]
      simp only [List.mem_cons, true_or, or_true]
    · rcases pre with _ | ⟨_, _ | ⟨_, _ | ⟨_, _ | ⟨_, _ | ⟨_, _ | ⟨_, pre⟩⟩⟩⟩⟩⟩ <;>
        simp only [es, ownProbe, List.cons_append, List.nil_append, List.cons.injEq, reduceCtorEq,
          false_and, and_false, List.nil_eq, List.append_eq_nil_iff] at hes
      obtain ⟨-, -, -, -, -, hpong, -⟩ := hes
      obtain ⟨-, hdata, -⟩ := Event.recvDirect.inj hpong
      have hkind : probePong = probePing := congrArg Probe.kind (Probe.eq_of_sealProbe_eq hdata)
      exact absurd hkind (by decide)
  have hslot :
      (after Primitives.standIn (fun _ => none) start es).inner.sessions.lookup p = some 0 := by
    decide +kernel
  have hdirect : ((after Primitives.standIn (fun _ => none) start es).inner.entry p).direct =
      some ⟨a, 0⟩ := by
    decide +kernel
  exact ⟨hown, (proofs_belong_to_session Primitives.standIn (fun _ => none) _ _ _ _ _ _ _ _ es hown
    p 0 hslot).1 ⟨a, 0⟩ hdirect⟩

def lateProbe (p : NodeId) (a : SocketAddr) (keyId : ProbeKeyId) (key : ProbeKey) (n n' : Nonce) :
    List Event :=
  [.registerPeer p, .beginSession p, .registerProbeKey 0 p keyId key, .beginSession p,
    .recvDirect a (Probe.sealProbe Primitives.standIn ⟨probePing, keyId, n⟩ key) (n', true),
    .recvDirect a (Probe.sealProbe Primitives.standIn ⟨probePong, keyId, n'⟩ key) (n', true)]

theorem displaced_key_proves :
    let p : NodeId := ⟨List.Vector.replicate 32 1⟩
    let a := SocketAddr.v4 (List.Vector.replicate 4 1) 4000
    let start := assemble ⟨List.Vector.replicate 32 0⟩ true (.v4 (List.Vector.replicate 4 0) 0) []
      none none 0 0
    let es := lateProbe p a (List.Vector.replicate 8 3) (List.Vector.replicate 32 4)
      (List.Vector.replicate 16 5) (List.Vector.replicate 16 6)
    let s := after Primitives.standIn (fun _ => none) start es
    s.inner.sessions.lookup p = some 1 ∧ (s.inner.entry p).direct = some ⟨a, 0⟩ ∧
      ∀ q keyId key, Event.registerProbeKey 1 q keyId key ∉ es := by
  intro p a start es s
  refine ⟨by decide +kernel, by decide +kernel, ?_⟩
  intro q keyId key
  simp [es, lateProbe]

end PathSocket

end ForgeswornLink
