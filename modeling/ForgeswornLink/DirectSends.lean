import ForgeswornLink.PathEffects

/-!
# Direct sends are proved

Over a whole run of a path socket that starts empty: what a recorded proof, an
outstanding nonce and a datagram on the UDP socket say about the events before.
-/

namespace ForgeswornLink
open Runs

namespace PathSocket

variable (P : Primitives) (hostOf : String → Option String)

def Issues (s : PathSocket) (e : Event) (p : NodeId) (n : Nonce) : Prop :=
  ∃ dest keyId key, UdpSend.ping p dest ⟨probePing, keyId, n⟩ key ∈ s.sends P hostOf e

variable {P hostOf} {start : PathSocket} {p : NodeId}

theorem direct_since (hstart : start.inner = {}) (es : List Event) {proven : Proven}
    (h : ((after P hostOf start es).inner.entry p).direct = some proven) :
    ∃ n, Since (fun pre e => (after P hostOf start pre).AcceptsPong P e p proven.addr n ∧
        (after P hostOf start pre).now = proven.provedAt)
      (fun _ e => e ≠ .beginSession p) es := by
  induction es using List.reverseRecOn with
  | nil =>
    rw [after, run_nil, hstart] at h
    cases h
  | append_singleton es e ih =>
    rw [after, run_snoc] at h
    rcases direct_step h with ⟨n, haccepts, htime⟩ | ⟨hbefore, hne⟩
    · exact ⟨n, since_now ⟨haccepts, htime.symm⟩⟩
    · obtain ⟨n, hsince⟩ := ih hbefore
      exact ⟨n, hsince.snoc hne⟩

theorem pending_since (hstart : start.inner = {}) (es : List Event) {n : Nonce}
    (h : (((after P hostOf start es).inner.entry p).pending.lookup n).isSome) :
    Since (fun pre e => (after P hostOf start pre).Issues P hostOf e p n)
      (fun pre e => e ≠ .beginSession p ∧ ∀ a, ¬ (after P hostOf start pre).AcceptsPong P e p a n)
      es := by
  induction es using List.reverseRecOn with
  | nil =>
    rw [after, run_nil, hstart] at h
    cases h
  | append_singleton es e ih =>
    rw [after, run_snoc] at h
    obtain ⟨x, hx⟩ := Option.isSome_iff_exists.mp h
    rcases pending_step hx with ⟨keyId, key, hsent⟩ | ⟨hbefore, hne, haccepts⟩
    · exact since_now ⟨x.1, keyId, key, hsent⟩
    · exact (ih (by rw [hbefore]; rfl)).snoc ⟨hne, haccepts⟩

open Classical in
noncomputable def proofs (P : Primitives) (p : NodeId) (n : Nonce) (s : PathSocket)
    (e : Event) : ℕ :=
  if ∃ a, s.AcceptsPong P e p a n then 1 else 0

def UdpSend.isPing (p : NodeId) (n : Nonce) : UdpSend → Bool
  | .ping q _ probe _ => q = p ∧ probe.nonce = n
  | _ => false

def pings (P : Primitives) (hostOf : String → Option String) (p : NodeId) (n : Nonce)
    (s : PathSocket) (e : Event) : ℕ :=
  (s.sends P hostOf e).countP (UdpSend.isPing p n)

theorem one_le_pings {s : PathSocket} {e : Event} {n : Nonce} {dest : SocketAddr}
    {keyId : ProbeKeyId} {key : ProbeKey}
    (h : UdpSend.ping p dest ⟨probePing, keyId, n⟩ key ∈ s.sends P hostOf e) :
    1 ≤ pings P hostOf p n s e :=
  List.countP_pos_iff.mpr ⟨_, h, by simp [UdpSend.isPing]⟩

theorem proofs_step (s : PathSocket) (e : Event) (p : NodeId) (n : Nonce) :
    proofs P p n s e +
        ((((s.step P hostOf e).inner.entry p).pending.lookup n).isSome).toNat ≤
      pings P hostOf p n s e + (((s.inner.entry p).pending.lookup n).isSome).toNat := by
  by_cases haccepts : ∃ a, s.AcceptsPong P e p a n
  · obtain ⟨a, ha⟩ := haccepts
    have hbefore := ha.2
    obtain ⟨⟨keyId, key, -, -, sender, draw, rfl, -⟩, -⟩ := id ha
    rw [proofs, if_pos ⟨a, ha⟩, hbefore, step, exec, pending_of_accepted ha]
    simp
  · rw [proofs, if_neg haccepts]
    cases hafter : ((s.step P hostOf e).inner.entry p).pending.lookup n with
    | none => simp
    | some x =>
      rcases pending_step hafter with ⟨keyId, key, hsent⟩ | ⟨hbefore, -, -⟩
      · have hone := one_le_pings hsent
        simp only [Option.isSome_some, Bool.toNat_true]
        omega
      · rw [hbefore]
        simp

theorem proofs_le_pings (hstart : start.inner = {}) (es : List Event) (p : NodeId) (n : Nonce) :
    total (step P hostOf) (proofs P p n) start es ≤
      total (step P hostOf) (pings P hostOf p n) start es := by
  have h := total_le_total (step P hostOf) (f := proofs P p n) (g := pings P hostOf p n)
    (fun s => (((s.inner.entry p).pending.lookup n).isSome).toNat) (s := start)
    (fun s e => proofs_step s e p n) es
  have hlevel : (((start.inner.entry p).pending.lookup n).isSome).toNat = 0 := by
    rw [hstart]
    rfl
  omega

/-- Whenever a datagram of a peer goes to a UDP address, a pong of that peer from
that address was accepted less than 15 seconds before and in the same session,
for a nonce that was outstanding; and no nonce makes more proofs than pings were
issued with it. -/
theorem direct_sends_proved (nodeId : NodeId) (udpLocal : SocketAddr) (relays : List String)
    (book : Option TagBook) (reflector : Option SocketAddr) (now unixNow : ℕ) (es : List Event) :
    let start := assemble nodeId true udpLocal relays book reflector now unixNow
    (∀ destination contents result p a,
      UdpSend.quic p a contents ∈
        (after P hostOf start es).sends P hostOf (.trySend destination contents result) →
      ∃ n, Since (fun pre e =>
          (after P hostOf start pre).AcceptsPong P e p a n ∧
          (after P hostOf start es).now < (after P hostOf start pre).now + directFresh ∧
          Since (fun pre e => (after P hostOf start pre).Issues P hostOf e p n)
            (fun pre e => e ≠ .beginSession p ∧
              ∀ a, ¬ (after P hostOf start pre).AcceptsPong P e p a n) pre)
        (fun _ e => e ≠ .beginSession p) es) ∧
    ∀ p n, total (step P hostOf) (proofs P p n) start es ≤
      total (step P hostOf) (pings P hostOf p n) start es := by
  intro start
  refine ⟨?_, proofs_le_pings rfl es⟩
  intro destination contents result p a h
  obtain ⟨q, proven, -, hproven, hfresh, hout⟩ := trySend_out h
  obtain ⟨rfl, rfl, -⟩ := UdpSend.quic.inj hout
  have hdirect : ((after P hostOf start es).inner.entry p).direct = some proven := by
    unfold provenDirect at hproven
    split_ifs at hproven
    exact hproven
  obtain ⟨n, hsince⟩ := direct_since rfl es hdirect
  refine ⟨n, hsince.mono ?_ fun _ _ h => h⟩
  rintro pre e ⟨haccepts, htime⟩
  refine ⟨haccepts, by omega, pending_since rfl pre haccepts.2⟩

end PathSocket

end ForgeswornLink
