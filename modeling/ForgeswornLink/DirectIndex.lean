import ForgeswornLink.DirectSends
import ForgeswornLink.Lib.InverseIndex

/-!
# The index of proved addresses

`byDirect` should invert the proofs on record. Sessions that begin and proofs
that are dropped keep it so. An accepted pong inserts its address and overwrites
what was there, but never takes out the address the peer was proved at before;
it keeps the index exact only if neither the peer nor the address moves.
-/

namespace ForgeswornLink
open Runs InverseIndex

namespace Inner

def directAddr (i : Inner) (p : NodeId) : Option SocketAddr := (i.entry p).direct.map Proven.addr

def Coherent (i : Inner) : Prop := Inverse (fun a => i.byDirect.lookup a) i.directAddr

theorem coherent_empty : Coherent {} := inverse_empty

theorem directAddr_clear {i j : Inner} {p : NodeId}
    (h : ∀ q, (j.entry q).direct = if q = p then none else (i.entry q).direct) :
    j.directAddr = Function.update i.directAddr p none := by
  funext q
  rw [directAddr, h]
  split_ifs with hq
  · rw [hq, Function.update_self]
    rfl
  · rw [Function.update_of_ne hq]
    rfl

theorem Coherent.forget {i j : Inner} {p : NodeId} (h : i.Coherent)
    (hdirect : ∀ q, (j.entry q).direct = if q = p then none else (i.entry q).direct)
    (hindex : j.byDirect = (i.unindex (i.entry p).direct).byDirect) : j.Coherent := by
  unfold Coherent at h ⊢
  rw [directAddr_clear hdirect, hindex]
  cases hproof : (i.entry p).direct with
  | none =>
    have hnone : i.directAddr p = none := by rw [directAddr, hproof]; rfl
    rw [← hnone, Function.update_eq_self]
    exact h
  | some proven =>
    have hkey : i.directAddr p = some proven.addr := by rw [directAddr, hproof]; rfl
    have herase : (fun a => (i.unindex (some proven)).byDirect.lookup a) =
        Function.update (fun a => i.byDirect.lookup a) proven.addr none := by
      funext a
      rw [unindex, Table.lookup_erase_ite, Function.update_apply]
    rw [herase]
    exact h.forget hkey

theorem byDirect_beginSession (i : Inner) (p : NodeId) :
    (i.beginSession p).1.byDirect = (i.unindex (i.entry p).direct).byDirect := by
  unfold beginSession modifyExisting
  dsimp only
  split_ifs <;> cases (i.entry p).direct <;> rfl

theorem coherent_beginSession {i : Inner} (h : i.Coherent) (p : NodeId) :
    (i.beginSession p).1.Coherent := by
  refine h.forget (p := p) ?_ (byDirect_beginSession i p)
  intro q
  rw [entry_beginSession]
  split_ifs <;> rfl

theorem coherent_dropDirect {i : Inner} (h : i.Coherent) (p : NodeId) (session : ℕ) :
    (i.dropDirect p session).Coherent := by
  by_cases hslot : i.sessions.lookup p = some session
  · refine h.forget (p := p) ?_ ?_
    · intro q
      rw [entry_dropDirect]
      by_cases hq : q = p
      · rw [if_pos ⟨hq, hslot⟩, if_pos hq]
      · rw [if_neg fun h => hq h.1, if_neg hq]
    · unfold dropDirect modifyExisting
      rw [if_neg (not_ne_iff.mpr hslot)]
      split_ifs <;> cases (i.entry p).direct <;> rfl
  · rw [dropDirect, if_pos hslot]
    exact h

theorem coherent_acceptPong_iff {i : Inner} (h : i.Coherent) {p : NodeId} {nonce : Nonce}
    (hpending : ((i.entry p).pending.lookup nonce).isSome) (source : SocketAddr) (now : ℕ) :
    (i.acceptPong p nonce source now).Coherent ↔
      (∀ a, i.directAddr p = some a → a = source) ∧
        (∀ q, i.byDirect.lookup source = some q → q = p) := by
  have hdirect : (i.acceptPong p nonce source now).directAddr =
      Function.update i.directAddr p (some source) := by
    funext q
    rw [directAddr, entry_acceptPong hpending, Function.update_apply]
    split_ifs <;> rfl
  have hindex : (fun a => (i.acceptPong p nonce source now).byDirect.lookup a) =
      Function.update (fun a => i.byDirect.lookup a) source (some p) := by
    have hne : ¬ ((i.entry p).pending.lookup nonce).isNone = true := by
      rw [Option.isNone_iff_eq_none]
      exact Option.isSome_iff_ne_none.mp hpending
    funext a
    rw [acceptPong, if_neg hne, Function.update_apply]
    exact Table.lookup_insert_ite _ _ _ _
  rw [Coherent, hdirect, hindex]
  exact Inverse.assign_iff h

theorem byDirect_unregisterProbeKey (i : Inner) (keyId : ProbeKeyId) :
    (i.unregisterProbeKey keyId).byDirect = i.byDirect := by
  unfold unregisterProbeKey
  split
  · rfl
  · dsimp only
    split_ifs
    · exact (onlyPeers_modifyExisting _ _ _).byDirect
    · rfl

theorem coherent_congr {i j : Inner} (hdirect : ∀ q, (j.entry q).direct = (i.entry q).direct)
    (hindex : j.byDirect = i.byDirect) : j.Coherent ↔ i.Coherent := by
  have haddr : j.directAddr = i.directAddr := by
    funext q
    rw [directAddr, hdirect]
    rfl
  rw [Coherent, Coherent, haddr, hindex]

end Inner

namespace PathSocket

variable (P : Primitives) (hostOf : String → Option String)

/-- If the event is an accepted pong, its peer was proved at no other address
and its address is indexed for no other peer. -/
def KeepsAddress (s : PathSocket) (e : Event) : Prop :=
  ∀ p a n, s.AcceptsPong P e p a n →
    (∀ b, s.inner.directAddr p = some b → b = a) ∧
      ∀ q, s.inner.byDirect.lookup a = some q → q = p

variable {P hostOf} {s : PathSocket} {e : Event} {p : NodeId}

theorem keepsAddress_of_not_accepts (h : ∀ p a n, ¬ s.AcceptsPong P e p a n) : s.KeepsAddress P e :=
  fun p a n haccepts => absurd haccepts (h p a n)

theorem coherent_step_iff (h : s.inner.Coherent) :
    (s.step P hostOf e).inner.Coherent ↔ s.KeepsAddress P e := by
  cases e with
  | beginSession q =>
    exact iff_of_true (Inner.coherent_beginSession h q)
      (keepsAddress_of_not_accepts fun _ _ _ => not_acceptsPong_of_not_recvDirect rfl)
  | dropDirect q session =>
    exact iff_of_true (Inner.coherent_dropDirect h q session)
      (keepsAddress_of_not_accepts fun _ _ _ => not_acceptsPong_of_not_recvDirect rfl)
  | registerProbeKey session q keyId key =>
    refine iff_of_true ?_
      (keepsAddress_of_not_accepts fun _ _ _ => not_acceptsPong_of_not_recvDirect rfl)
    have hsame := fun r =>
      Inner.proj_registerProbeKey Peer.direct (fun _ _ => rfl) s.inner q r keyId key
    exact (Inner.coherent_congr hsame rfl).mpr h
  | unregisterProbeKey keyId =>
    refine iff_of_true ?_
      (keepsAddress_of_not_accepts fun _ _ _ => not_acceptsPong_of_not_recvDirect rfl)
    refine (Inner.coherent_congr ?_ (Inner.byDirect_unregisterProbeKey s.inner keyId)).mpr h
    exact fun r => Inner.proj_unregisterProbeKey Peer.direct (fun _ _ => rfl) s.inner r keyId
  | sendProbes q draws =>
    refine iff_of_true ?_
      (keepsAddress_of_not_accepts fun _ _ _ => not_acceptsPong_of_not_recvDirect rfl)
    refine (Inner.coherent_congr ?_
      (Inner.onlyPeers_sendProbes s.inner s.udp q s.now draws).byDirect).mpr h
    exact fun r => Inner.proj_sendProbes Peer.direct (fun _ _ _ _ => rfl) s.inner s.udp
      q r s.now draws
  | recvDirect sender data draw =>
    rcases recvDirect_cases P s sender data draw with
      ⟨q, keyId, key, nonce, harrives, hexec⟩ | ⟨q, keyId, key, nonce, harrives, hexec⟩ |
      ⟨inbound, reflexive, reflectorNonce, hexec⟩
    · refine iff_of_true ?_ (keepsAddress_of_not_accepts fun r a n haccepts => ?_)
      · rw [step, exec, hexec]
        refine (Inner.coherent_congr ?_
          (Inner.onlyPeers_handlePing s.inner q key _ _ s.now draw).byDirect).mpr h
        exact fun r => Inner.proj_handlePing Peer.direct (fun _ _ _ => rfl) (fun _ _ _ => rfl)
          s.inner q r key _ _ s.now draw
      · obtain ⟨⟨keyId', key', harrives'⟩, -⟩ := haccepts
        have hkind := (harrives.unique harrives').1
        exact absurd hkind (by decide)
    · rw [step, exec, hexec]
      cases hpending : (s.inner.entry q).pending.lookup nonce with
      | none =>
        rw [Inner.acceptPong_of_none hpending]
        refine iff_of_true h (keepsAddress_of_not_accepts fun r a n haccepts => ?_)
        obtain ⟨⟨keyId', key', harrives'⟩, hsome⟩ := haccepts
        obtain ⟨-, rfl, -, -, -, rfl⟩ := harrives.unique harrives'
        rw [hpending] at hsome
        cases hsome
      | some ping =>
        have hsome : ((s.inner.entry q).pending.lookup nonce).isSome := by rw [hpending]; rfl
        rw [Inner.coherent_acceptPong_iff h hsome]
        constructor
        · rintro hkeeps r a n ⟨⟨keyId', key', harrives'⟩, -⟩
          obtain ⟨-, rfl, rfl, -⟩ := harrives.unique harrives'
          exact hkeeps
        · intro hkeeps
          exact hkeeps q _ nonce ⟨⟨keyId, key, harrives⟩, hsome⟩
    · refine iff_of_true ?_ (keepsAddress_of_not_accepts fun r a n haccepts => ?_)
      · rw [step, exec, hexec]
        exact h
      -- an accepted pong would have taken its nonce out of the tables
      · have hnone := pending_of_accepted haccepts
        have hsome := haccepts.2
        rw [hexec] at hnone
        rw [hnone] at hsome
        cases hsome
  | _ =>
    refine iff_of_true ?_
      (keepsAddress_of_not_accepts fun _ _ _ => not_acceptsPong_of_not_recvDirect rfl)
    refine (Inner.coherent_congr ?_ (byDirect_step_of_quiet P hostOf s rfl)).mpr h
    exact fun r => proj_step_of_quiet P hostOf Peer.direct (fun _ _ _ _ => rfl) s rfl r

variable (P hostOf) in
/-- A direct datagram is taken only from the address proved for the peer it is
attributed to, and for no other peer. -/
def DeliversProved (s : PathSocket) : Prop :=
  ∀ sender data draw, (s.step P hostOf (.recvDirect sender data draw)).inbound = s.inbound ∨
    ∃ p, (s.step P hostOf (.recvDirect sender data draw)).inbound =
        s.inbound ++ [⟨p.syntheticAddr P, data.take receiveBuffer⟩] ∧
      ∀ q, s.inner.directAddr q = some sender.unmapIpv6 ↔ q = p

variable (P hostOf) in
def ForgetsOwn (s : PathSocket) : Prop :=
  ∀ p q a, q ≠ p → s.inner.byDirect.lookup a = some q →
    (s.step P hostOf (.beginSession p)).inner.byDirect.lookup a = some q ∧
      ∀ session, (s.step P hostOf (.dropDirect p session)).inner.byDirect.lookup a = some q

theorem inbound_recvDirect (s : PathSocket) (sender : SocketAddr) (data : List UInt8)
    (draw : Nonce × Bool) :
    (s.recvDirect P sender data draw).1.inbound = s.inbound ∨
      ∃ p, s.inner.byDirect.lookup sender.unmapIpv6 = some p ∧
        (s.recvDirect P sender data draw).1.inbound =
          s.inbound ++ [⟨p.syntheticAddr P, data.take receiveBuffer⟩] := by
  unfold recvDirect
  split_ifs with hudp
  · exact Or.inl rfl
  · dsimp only
    split
    · split
      · exact Or.inl rfl
      · split <;> exact Or.inl rfl
    · split_ifs
      · unfold recvReflect
        split
        · split_ifs <;> exact Or.inl rfl
        · exact Or.inl rfl
      · split
        · rename_i p hindex
          unfold deliver
          split_ifs
          · exact Or.inr ⟨p, hindex, rfl⟩
          · exact Or.inl rfl
        · exact Or.inl rfl

theorem deliversProved_of_coherent (h : s.inner.Coherent) : s.DeliversProved P hostOf := by
  intro sender data draw
  rcases inbound_recvDirect s sender data draw with hsame | ⟨p, hindex, hdelivered⟩
  · exact Or.inl hsame
  · refine Or.inr ⟨p, hdelivered, fun q => ?_⟩
    rw [← h]
    dsimp only
    rw [hindex, Option.some.injEq, eq_comm]

theorem forgetsOwn_of_coherent (h : s.inner.Coherent) : s.ForgetsOwn P hostOf := by
  intro p q a hq hindex
  have hkey := (h a q).mp hindex
  refine ⟨?_, fun session => ?_⟩
  · refine (Inner.coherent_beginSession h p a q).mpr ?_
    rw [Inner.directAddr, Inner.entry_beginSession, if_neg hq]
    exact hkey
  · refine (Inner.coherent_dropDirect h p session a q).mpr ?_
    rw [Inner.directAddr, Inner.entry_dropDirect, if_neg fun hc => hq hc.1]
    exact hkey

variable (P hostOf) in
structure IndexExact (s : PathSocket) : Prop where
  coherent : s.inner.Coherent
  delivers : s.DeliversProved P hostOf
  forgets : s.ForgetsOwn P hostOf

theorem indexExact_iff : s.IndexExact P hostOf ↔ s.inner.Coherent :=
  ⟨IndexExact.coherent, fun h => ⟨h, deliversProved_of_coherent h, forgetsOwn_of_coherent h⟩⟩

/-- In every state of a run the index is exact, direct datagrams are taken only
from the address of their peer, and forgetting a proof leaves the other entries,
if and only if no accepted pong of the run moves a peer or an address. -/
theorem index_exact_iff_addresses_keep (P : Primitives) (hostOf : String → Option String)
    (nodeId : NodeId) (udp : Bool) (udpLocal : SocketAddr) (relays : List String)
    (book : Option TagBook) (reflector : Option SocketAddr) (now unixNow : ℕ) (es : List Event) :
    let start := assemble nodeId udp udpLocal relays book reflector now unixNow
    (∀ pre post, es = pre ++ post → (after P hostOf start pre).IndexExact P hostOf) ↔
      Always (step P hostOf) (KeepsAddress P) start es := by
  intro start
  refine invariant_iff_always (step P hostOf) (indexExact_iff.mpr Inner.coherent_empty) ?_ es
  intro s e h
  rw [indexExact_iff]
  exact coherent_step_iff h.coherent

def twoAnswers (p : NodeId) (first second : SocketAddr) (keyId : ProbeKeyId) (key : ProbeKey)
    (n n' : Nonce) : List Event :=
  [.registerPeer p, .beginSession p, .registerProbeKey 0 p keyId key,
    .setPeerCandidates p [first, second],
    .sendProbes p fun k => if k = 0 then (n, true) else (n', true),
    .recvDirect first (Probe.sealProbe Primitives.standIn ⟨probePong, keyId, n⟩ key) (n, true),
    .recvDirect second (Probe.sealProbe Primitives.standIn ⟨probePong, keyId, n'⟩ key) (n, true)]

/-- The first address stays in the index after the proof has moved to the second. -/
theorem index_keeps_moved_address :
    let self : NodeId := ⟨List.Vector.replicate 32 0⟩
    let p : NodeId := ⟨List.Vector.replicate 32 1⟩
    let first := SocketAddr.v4 (List.Vector.replicate 4 1) 4000
    let second := SocketAddr.v4 (List.Vector.replicate 4 2) 4000
    let start := assemble self true (.v4 (List.Vector.replicate 4 0) 0) [] none none 0 0
    let es := twoAnswers p first second (List.Vector.replicate 8 3) (List.Vector.replicate 32 4)
      (List.Vector.replicate 16 5) (List.Vector.replicate 16 6)
    let s := after Primitives.standIn (fun _ => none) start es
    s.inner.byDirect.lookup first = some p ∧ s.inner.directAddr p = some second ∧
      ¬ s.IndexExact Primitives.standIn fun _ => none := by
  intro self p first second start es s
  have hindex : s.inner.byDirect.lookup first = some p := by decide +kernel
  have hdirect : s.inner.directAddr p = some second := by decide +kernel
  refine ⟨hindex, hdirect, fun hexact => ?_⟩
  have hmoved := (hexact.coherent first p).mp hindex
  rw [hdirect] at hmoved
  exact absurd hmoved (by decide)

end PathSocket

end ForgeswornLink
