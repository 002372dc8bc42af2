import ForgeswornLink.ProbeEffects

/-!
# How late a pong may be

A pong proves a path if its nonce is outstanding, and the time the nonce was
issued is not looked at. Nonces of five seconds and more are thrown away only by
the next round to the peer, so a pong is late and still proves exactly if no
round ran since its nonce came of age.
-/

namespace ForgeswornLink
open Runs Stamps

namespace PathSocket

def Consumes (P : Primitives) (s : PathSocket) (e : Event) (p : NodeId) (n : Nonce) : Prop :=
  e = .beginSession p ∨ ∃ a, s.AcceptsPong P e p a n

section Step
variable {P : Primitives} {hostOf : String → Option String} {s : PathSocket}
  {e : Event} {p : NodeId} {n : Nonce}

theorem sentAt_of_issues (h : s.Issues P hostOf e p n) :
    (s.step P hostOf e).inner.sentAt p n = some s.now := by
  obtain ⟨dest, keyId, key, hping⟩ := id h
  rcases (key_of_ping hping).1 with ⟨draws, rfl⟩ | ⟨source, keyId', key', n', harrives⟩
  · exact (Inner.sentAt_sendProbes s.inner s.udp p s.now draws n).1 h
  · obtain ⟨-, -, sender, draw, rfl, -⟩ := id harrives
    have hexec := recvDirect_of_arrives harrives (Or.inl rfl)
    rw [Issues, sends, exec, hexec] at h
    rw [step, exec, hexec]
    exact (Inner.sentAt_handlePing s.inner p key' _ source s.now draw n).1 h

theorem sentAt_of_consumes (h : s.Consumes P e p n) :
    (s.step P hostOf e).inner.sentAt p n = none := by
  have hmove := probeMove_step P hostOf s e p
  unfold Inner.sentAt
  rcases h with rfl | ⟨a, haccepts⟩
  · rw [hmove.of_begins]
    rfl
  · rw [hmove.of_accepts haccepts, Peer.prove, AList.lookup_erase]
    rfl

theorem sentAt_otherwise (hissues : ¬ s.Issues P hostOf e p n) (hconsumes : ¬ s.Consumes P e p n) :
    ((∃ draws, e = .sendProbes p draws) → (s.step P hostOf e).inner.sentAt p n =
      (s.inner.sentAt p n).filter fun sent => s.now - sent < probeTimeout) ∧
    ((¬ ∃ draws, e = .sendProbes p draws) →
      (s.step P hostOf e).inner.sentAt p n = s.inner.sentAt p n) := by
  have hmove := probeMove_step P hostOf s e p
  have hentry : (s.step P hostOf e).inner.sentAt p n =
      (((s.step P hostOf e).inner.entry p).pending.lookup n).map Prod.snd := rfl
  rw [hentry]
  generalize (s.step P hostOf e).inner.entry p = entry at hmove ⊢
  cases hmove with
  | keeps hsame haside =>
    rw [hsame.pending]
    exact ⟨fun h => h.elim fun draws he => absurd he (haside.probes draws), fun _ => rfl⟩
  | lists he => exact ⟨fun h => h.elim fun draws he' => (by cases he.symm.trans he'), fun _ => rfl⟩
  | begins he => exact absurd (Or.inl he) hconsumes
  | @probes draws he =>
    subst he
    exact ⟨fun _ => (Inner.sentAt_sendProbes s.inner s.udp p s.now draws n).2 hissues,
      fun hnot => absurd ⟨_, rfl⟩ hnot⟩
  | @hears source keyId key n' draw data sender he hheard =>
    subst he
    have hexec := recvDirect_of_arrives hheard (Or.inl rfl)
    rw [Issues, sends, exec, hexec] at hissues
    exact ⟨fun h => h.elim fun draws he' => (by cases he'), fun _ =>
      (Inner.sentAt_handlePing s.inner p key ⟨probePing, keyId, n'⟩ source s.now draw n).2 hissues⟩
  | @proves source n' haccepts =>
    have hne : n ≠ n' := by
      rintro rfl
      exact hconsumes (Or.inr ⟨_, haccepts⟩)
    obtain ⟨⟨_, _, -, -, _, _, he, -⟩, -⟩ := haccepts
    refine ⟨fun h => h.elim fun draws he' => (by cases he.symm.trans he'), fun _ => ?_⟩
    rw [Peer.prove, AList.lookup_erase_ne hne]
    rfl

end Step

theorem sentAt_stamping (P : Primitives) (hostOf : String → Option String)
    (p : NodeId) (n : Nonce) :
    Stamping (step P hostOf) now (fun s => s.inner.sentAt p n) probeTimeout
      (fun s e => s.Issues P hostOf e p n) (fun s e => s.Consumes P e p n)
      (fun _ e => ∃ draws, e = .sendProbes p draws) where
  forward s e := (clock_step P hostOf s e).2
  set _ _ := sentAt_of_issues
  clear _ _ _ := sentAt_of_consumes
  sweep _ _ hissues hconsumes := (sentAt_otherwise hissues hconsumes).1
  keep _ _ hissues hconsumes := (sentAt_otherwise hissues hconsumes).2

section Run
variable (P : Primitives) (hostOf : String → Option String) (start : PathSocket)

def ProvesInTime (pre : List Event) (e : Event) : Prop :=
  ∀ p a n, (after P hostOf start pre).AcceptsPong P e p a n →
    ∃ before ping between, pre = before ++ ping :: between ∧
      (after P hostOf start before).Issues P hostOf ping p n ∧
      (after P hostOf start pre).now < (after P hostOf start before).now + probeTimeout

/-- The nonce was last issued at `t`, has not been used, the session is the same, and no round to
the peer ran when the nonce was five seconds old. -/
def Unswept (p : NodeId) (n : Nonce) (t : ℕ) (pre : List Event) : Prop :=
  Since (fun pre e => (after P hostOf start pre).Issues P hostOf e p n ∧
      (after P hostOf start pre).now = t)
    (fun pre e => ¬ (after P hostOf start pre).Issues P hostOf e p n ∧
      ¬ (after P hostOf start pre).Consumes P e p n ∧
      ¬ ((∃ draws, e = .sendProbes p draws) ∧
        probeTimeout ≤ (after P hostOf start pre).now - t)) pre

/-- No pong arrives for a nonce that is five seconds old and was not swept. -/
def NoneLate (pre : List Event) (e : Event) : Prop :=
  ∀ p a keyId key n, (after P hostOf start pre).ProbeArrives P e probePong p a keyId key n →
    ∀ t, Unswept P hostOf start p n t pre → (after P hostOf start pre).now < t + probeTimeout

variable {P hostOf start}

theorem sentAt_iff (hstart : start.inner = {}) (pre : List Event) (p : NodeId) (n : Nonce) (t : ℕ) :
    (after P hostOf start pre).inner.sentAt p n = some t ↔ Unswept P hostOf start p n t pre :=
  (sentAt_stamping P hostOf p n).stamp_iff_since (by rw [hstart]; rfl) pre t

theorem provesInTime_iff (hstart : start.inner = {}) (pre : List Event) (e : Event) :
    ProvesInTime P hostOf start pre e ↔ NoneLate P hostOf start pre e := by
  constructor
  · intro h p a keyId key n harrives t hunswept
    rw [← sentAt_iff hstart] at hunswept
    have hpending : (((after P hostOf start pre).inner.entry p).pending.lookup n).isSome := by
      rw [← Option.isSome_map (f := Prod.snd)]
      exact Option.isSome_of_mem hunswept
    obtain ⟨before, ping, between, hpre, hissues, htime⟩ :=
      h p a n ⟨⟨keyId, key, harrives⟩, hpending⟩
    have hlast := (sentAt_stamping P hostOf p n).le_stamp hunswept hpre hissues
    exact lt_of_lt_of_le htime (Nat.add_le_add_right hlast _)
  · rintro h p a n ⟨⟨keyId, key, harrives⟩, hpending⟩
    obtain ⟨x, hx⟩ := Option.isSome_iff_exists.mp hpending
    have hsent : (after P hostOf start pre).inner.sentAt p n = some x.2 := by
      rw [Inner.sentAt, hx]
      rfl
    have hunswept := (sentAt_iff hstart pre p n x.2).mp hsent
    have htime := h p a keyId key n harrives x.2 hunswept
    obtain ⟨before, ping, between, rfl, ⟨hissues, hnow⟩, -⟩ := hunswept
    exact ⟨before, ping, between, rfl, hissues, by rw [hnow]; exact htime⟩

end Run

/-- In every run of a path socket: each proof is made with a nonce issued less than five seconds
before, exactly if no pong arrives for a nonce of five seconds or more that no later round to the
peer has swept, in the session it was issued in and not used before. -/
theorem pongs_prove_in_time_iff (P : Primitives) (hostOf : String → Option String)
    (nodeId : NodeId) (udp : Bool) (udpLocal : SocketAddr) (relays : List String)
    (book : Option TagBook) (reflector : Option SocketAddr) (now unixNow : ℕ) (es : List Event) :
    let start := assemble nodeId udp udpLocal relays book reflector now unixNow
    ((∀ pre e post, es = pre ++ e :: post → ProvesInTime P hostOf start pre e) ↔
      ∀ pre e post, es = pre ++ e :: post → NoneLate P hostOf start pre e) ∧
    ∀ p a n e, (after P hostOf start es).AcceptsPong P e p a n →
      (((after P hostOf start es).step P hostOf e).inner.entry p).direct =
        some ⟨a, (after P hostOf start es).now⟩ := by
  intro start
  refine ⟨?_, fun p a n e h => direct_of_accepted h⟩
  exact forall_congr' fun pre => forall_congr' fun e => forall_congr' fun post =>
    imp_congr_right fun _ => provesInTime_iff rfl pre e

def lateAnswer (p : NodeId) (a : SocketAddr) (keyId : ProbeKeyId) (key : ProbeKey) (n : Nonce) :
    List Event :=
  [.registerPeer p, .beginSession p, .registerProbeKey 0 p keyId key, .setPeerCandidates p [a],
    .sendProbes p fun _ => (n, true), .tick (6 * second)]

theorem late_pong_proves :
    let p : NodeId := ⟨List.Vector.replicate 32 1⟩
    let a := SocketAddr.v4 (List.Vector.replicate 4 1) 4000
    let keyId : ProbeKeyId := List.Vector.replicate 8 3
    let key : ProbeKey := List.Vector.replicate 32 4
    let n : Nonce := List.Vector.replicate 16 5
    let start := assemble ⟨List.Vector.replicate 32 0⟩ true (.v4 (List.Vector.replicate 4 0) 0) []
      none none 0 0
    let s := after Primitives.standIn (fun _ => none) start (lateAnswer p a keyId key n)
    let pong := Event.recvDirect a (Probe.sealProbe Primitives.standIn ⟨probePong, keyId, n⟩ key)
      (n, true)
    ((s.step Primitives.standIn (fun _ => none) pong).inner.entry p).direct =
        some ⟨a, 6 * second⟩ ∧
      ¬ ProvesInTime Primitives.standIn (fun _ => none) start
        (lateAnswer p a keyId key n) pong := by
  intro p a keyId key n start s pong
  refine ⟨by decide +kernel, fun hintime => ?_⟩
  have hsent : s.inner.sentAt p n = some 0 := by decide +kernel
  have hnow : s.now = 6 * second := by decide +kernel
  obtain ⟨before, ping, between, hpre, hissues, htime⟩ :=
    hintime p a n
      ⟨⟨keyId, key, by decide +kernel, by decide +kernel, a, _, rfl, rfl⟩, by decide +kernel⟩
  have hlast := (sentAt_stamping Primitives.standIn (fun _ => none) p n).le_stamp hsent hpre hissues
  have hyoung := lt_of_lt_of_le htime (Nat.add_le_add_right hlast probeTimeout)
  rw [hnow] at hyoung
  exact absurd hyoung (by decide)

end PathSocket

end ForgeswornLink
