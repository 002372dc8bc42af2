import ForgeswornLink.PathSocket

/-!
# What one step does to keys, nonces and proofs

A direct proof of a peer appears only with an accepted pong and goes with a new
session; a nonce is outstanding only after a ping was issued with it and goes
when it is consumed or a new session begins. These step lemmas are all the later
invariants of the path socket use of the operations.
-/

namespace ForgeswornLink

namespace Inner

section Projections

variable {α : Type*} (π : Peer → α)

theorem proj_modify {f : Peer → Peer} (hf : ∀ e, π (f e) = π e) (i : Inner) (p q : NodeId) :
    π ((i.modify p f).entry q) = π (i.entry q) := by
  rw [entry_modify]
  split_ifs with hq
  · rw [hf, hq]
  · rfl

theorem proj_modifyExisting {f : Peer → Peer} (hf : ∀ e, π (f e) = π e) (i : Inner) (p q : NodeId) :
    π ((i.modifyExisting p f).entry q) = π (i.entry q) := by
  unfold modifyExisting
  split_ifs
  · exact proj_modify π hf i p q
  · rfl

end Projections

theorem proj_heardOn {α : Type*} (π : Peer → α) (hπ : ∀ e d, π { e with driver := d } = π e)
    (i : Inner) (p q : NodeId) (driver : ℕ) : π ((i.heardOn p driver).entry q) = π (i.entry q) := by
  unfold heardOn
  refine proj_modify π ?_ i p q
  intro e
  split_ifs
  · exact hπ e _
  · rfl

theorem entry_unindex (i : Inner) (d : Option Proven) (q : NodeId) :
    (i.unindex d).entry q = i.entry q := by
  cases d <;> rfl

theorem entry_beginSession (i : Inner) (p q : NodeId) :
    (i.beginSession p).1.entry q = if q = p then (i.entry p).clean else i.entry q := by
  rw [beginSession, entry_unindex, entry_modifyExisting _ _ _ rfl]
  rfl

theorem entry_dropDirect (i : Inner) (p q : NodeId) (session : ℕ) :
    (i.dropDirect p session).entry q =
      if q = p ∧ i.sessions.lookup p = some session then { i.entry p with direct := none }
      else i.entry q := by
  unfold dropDirect
  split_ifs with hslot hq hq
  · exact absurd hq.2 hslot
  · rfl
  · rw [entry_unindex, entry_modifyExisting _ _ _ rfl, if_pos hq.1]
  · rw [entry_unindex, entry_modifyExisting _ _ _ rfl, if_neg fun h => hq ⟨h, not_ne_iff.mp hslot⟩]

theorem entry_acceptPong {i : Inner} {p : NodeId} {nonce : Nonce}
    (h : ((i.entry p).pending.lookup nonce).isSome) (q : NodeId) (source : SocketAddr) (now : ℕ) :
    (i.acceptPong p nonce source now).entry q =
      if q = p then (i.entry p).prove nonce source now else i.entry q := by
  have hpending : ¬ ((i.entry p).pending.lookup nonce).isNone = true := by
    rw [Option.isNone_iff_eq_none]
    exact Option.isSome_iff_ne_none.mp h
  rw [acceptPong, if_neg hpending]
  exact entry_modify i p q fun e => e.prove nonce source now

theorem acceptPong_of_none {i : Inner} {p : NodeId} {nonce : Nonce}
    (h : (i.entry p).pending.lookup nonce = none) (source : SocketAddr) (now : ℕ) :
    i.acceptPong p nonce source now = i := by
  rw [acceptPong, h, Option.isNone_none, if_pos rfl]

theorem proj_registerProbeKey {α : Type*} (π : Peer → α)
    (hπ : ∀ e k, π { e with probeKey := k } = π e) (i : Inner) (p q : NodeId) (keyId : ProbeKeyId)
    (key : ProbeKey) : π ((i.registerProbeKey p keyId key).entry q) = π (i.entry q) :=
  proj_modify π (fun e => hπ e _) i p q

theorem proj_unregisterProbeKey {α : Type*} (π : Peer → α)
    (hπ : ∀ e k, π { e with probeKey := k } = π e) (i : Inner) (q : NodeId) (keyId : ProbeKeyId) :
    π ((i.unregisterProbeKey keyId).entry q) = π (i.entry q) := by
  unfold unregisterProbeKey
  cases i.byKeyId.lookup keyId with
  | none => rfl
  | some p =>
    dsimp only
    split_ifs
    · exact proj_modifyExisting π (fun e => hπ e _) _ p q
    · rfl

theorem sendPing_of_key {i : Inner} {p : NodeId} {keyId : ProbeKeyId} {key : ProbeKey}
    (h : (i.entry p).probeKey = some (keyId, key)) (addr : SocketAddr) (now : ℕ)
    (draw : Nonce × Bool) :
    i.sendPing true p addr now draw =
      (i.modify p fun e => { e with
        pending := e.pending.insert draw.1 (addr, now)
        lastPing := e.lastPing.insert addr now },
      [.ping p addr ⟨probePing, keyId, draw.1⟩ key], draw.2) := by
  rw [sendPing, if_neg (by decide), h]

theorem sendPing_of_noKey {i : Inner} {p : NodeId} (h : (i.entry p).probeKey = none)
    (addr : SocketAddr) (now : ℕ) (draw : Nonce × Bool) :
    i.sendPing true p addr now draw = (i.modify p id, [], false) := by
  rw [sendPing, if_neg (by decide), h]

theorem sendPing_relayOnly (i : Inner) (p : NodeId) (addr : SocketAddr) (now : ℕ)
    (draw : Nonce × Bool) : i.sendPing false p addr now draw = (i, [], false) := by
  rw [sendPing, if_pos rfl]

theorem proj_sendPing {α : Type*} (π : Peer → α)
    (hπ : ∀ e pending lastPing, π { e with pending := pending, lastPing := lastPing } = π e)
    (i : Inner) (udp : Bool) (p q : NodeId) (addr : SocketAddr) (now : ℕ) (draw : Nonce × Bool) :
    π ((i.sendPing udp p addr now draw).1.entry q) = π (i.entry q) := by
  cases udp with
  | false => rw [sendPing_relayOnly]
  | true =>
    cases hkey : (i.entry p).probeKey with
    | none =>
      rw [sendPing_of_noKey hkey]
      exact proj_modify π (fun _ => rfl) i p q
    | some held =>
      rw [sendPing_of_key hkey]
      exact proj_modify π (fun e => hπ e _ _) i p q

def OnlyPeers (i j : Inner) : Prop := { i with peers := j.peers } = j

theorem OnlyPeers.trans {i j k : Inner} (h : OnlyPeers i j) (h' : OnlyPeers j k) :
    OnlyPeers i k := by
  unfold OnlyPeers at h h' ⊢
  rw [← h', ← h]

theorem OnlyPeers.byDirect {i j : Inner} (h : OnlyPeers i j) : j.byDirect = i.byDirect := by
  rw [← h]

theorem OnlyPeers.byKeyId {i j : Inner} (h : OnlyPeers i j) : j.byKeyId = i.byKeyId := by
  rw [← h]

theorem onlyPeers_modify (i : Inner) (p : NodeId) (f : Peer → Peer) :
    OnlyPeers i (i.modify p f) := rfl

theorem onlyPeers_modifyExisting (i : Inner) (p : NodeId) (f : Peer → Peer) :
    OnlyPeers i (i.modifyExisting p f) := by
  unfold modifyExisting
  split_ifs <;> rfl

theorem onlyPeers_sendPing (i : Inner) (udp : Bool) (p : NodeId) (addr : SocketAddr) (now : ℕ)
    (draw : Nonce × Bool) : OnlyPeers i (i.sendPing udp p addr now draw).1 := by
  unfold sendPing
  split_ifs
  · rfl
  · split <;> rfl

def IsPingOf (i : Inner) (p : NodeId) (out : UdpSend) : Prop :=
  ∃ addr keyId key nonce, out = .ping p addr ⟨probePing, keyId, nonce⟩ key ∧
    (i.entry p).probeKey = some (keyId, key)

theorem sendPing_out {i : Inner} {udp : Bool} {p : NodeId} {addr : SocketAddr} {now : ℕ}
    {draw : Nonce × Bool} {out : UdpSend} (h : out ∈ (i.sendPing udp p addr now draw).2.1) :
    udp = true ∧ i.IsPingOf p out := by
  cases udp with
  | false =>
    rw [sendPing_relayOnly] at h
    cases h
  | true =>
    cases hkey : (i.entry p).probeKey with
    | none =>
      rw [sendPing_of_noKey hkey] at h
      cases h
    | some held =>
      rw [sendPing_of_key hkey, List.mem_singleton] at h
      exact ⟨rfl, addr, held.1, held.2, draw.1, h, hkey⟩

theorem pending_sendPing {i : Inner} {udp : Bool} {p q : NodeId} {addr : SocketAddr} {now : ℕ}
    {draw : Nonce × Bool} {n : Nonce} {x : SocketAddr × ℕ}
    (h : ((i.sendPing udp p addr now draw).1.entry q).pending.lookup n = some x) :
    (∃ keyId key, UdpSend.ping q x.1 ⟨probePing, keyId, n⟩ key ∈
      (i.sendPing udp p addr now draw).2.1) ∨ (i.entry q).pending.lookup n = some x := by
  cases udp with
  | false =>
    rw [sendPing_relayOnly] at h
    exact Or.inr h
  | true =>
    cases hkey : (i.entry p).probeKey with
    | none =>
      rw [sendPing_of_noKey hkey] at h
      have hsame := proj_modify Peer.pending (f := id) (fun _ => rfl) i p q
      exact Or.inr (hsame ▸ h)
    | some held =>
      rw [sendPing_of_key hkey] at h ⊢
      rw [entry_modify] at h
      by_cases hq : q = p
      · subst hq
        rw [if_pos rfl] at h
        dsimp only at h
        rw [Table.lookup_insert_ite] at h
        by_cases hn : n = draw.1
        · subst hn
          rw [if_pos rfl] at h
          obtain rfl := Option.some.inj h
          exact Or.inl ⟨held.1, held.2, List.mem_singleton.mpr rfl⟩
        · rw [if_neg hn] at h
          exact Or.inr h
      · rw [if_neg hq] at h
        exact Or.inr h

theorem sendPings_cons_fst (udp : Bool) (p : NodeId) (now : ℕ) (addr : SocketAddr)
    (rest : List SocketAddr) (i : Inner) (draws : ℕ → Nonce × Bool) :
    (sendPings udp p now i draws (addr :: rest)).1 =
      (sendPings udp p now (i.sendPing udp p addr now (draws 0)).1
        (fun k => draws (k + 1)) rest).1 :=
  rfl

theorem sendPings_cons_out (udp : Bool) (p : NodeId) (now : ℕ) (addr : SocketAddr)
    (rest : List SocketAddr) (i : Inner) (draws : ℕ → Nonce × Bool) :
    (sendPings udp p now i draws (addr :: rest)).2.1 =
      (i.sendPing udp p addr now (draws 0)).2.1 ++
        (sendPings udp p now (i.sendPing udp p addr now (draws 0)).1
          (fun k => draws (k + 1)) rest).2.1 :=
  rfl

theorem onlyPeers_sendPings (udp : Bool) (p : NodeId) (now : ℕ) (targets : List SocketAddr)
    (i : Inner) (draws : ℕ → Nonce × Bool) :
    OnlyPeers i (sendPings udp p now i draws targets).1 := by
  induction targets generalizing i draws with
  | nil => rfl
  | cons addr rest ih =>
    rw [sendPings_cons_fst]
    exact (onlyPeers_sendPing i udp p addr now (draws 0)).trans (ih _ _)

theorem proj_sendPings {α : Type*} (π : Peer → α)
    (hπ : ∀ e pending lastPing, π { e with pending := pending, lastPing := lastPing } = π e)
    (udp : Bool) (p q : NodeId) (now : ℕ) (targets : List SocketAddr) (i : Inner)
    (draws : ℕ → Nonce × Bool) :
    π ((sendPings udp p now i draws targets).1.entry q) = π (i.entry q) := by
  induction targets generalizing i draws with
  | nil => rfl
  | cons addr rest ih =>
    rw [sendPings_cons_fst]
    exact (ih _ _).trans (proj_sendPing π hπ i udp p q addr now (draws 0))

theorem sendPings_out {udp : Bool} {p : NodeId} {now : ℕ} {targets : List SocketAddr} {i : Inner}
    {draws : ℕ → Nonce × Bool} {out : UdpSend}
    (h : out ∈ (sendPings udp p now i draws targets).2.1) : udp = true ∧ i.IsPingOf p out := by
  induction targets generalizing i draws with
  | nil => cases h
  | cons addr rest ih =>
    rw [sendPings_cons_out, List.mem_append] at h
    rcases h with hout | hout
    · exact sendPing_out hout
    · obtain ⟨hudp, dest, keyId, key, nonce, hping, hkey⟩ := ih hout
      rw [proj_sendPing Peer.probeKey (fun _ _ _ => rfl)] at hkey
      exact ⟨hudp, dest, keyId, key, nonce, hping, hkey⟩

theorem pending_sendPings {udp : Bool} {p q : NodeId} {now : ℕ} {targets : List SocketAddr}
    {i : Inner} {draws : ℕ → Nonce × Bool} {n : Nonce} {x : SocketAddr × ℕ}
    (h : ((sendPings udp p now i draws targets).1.entry q).pending.lookup n = some x) :
    (∃ keyId key, UdpSend.ping q x.1 ⟨probePing, keyId, n⟩ key ∈
      (sendPings udp p now i draws targets).2.1) ∨ (i.entry q).pending.lookup n = some x := by
  induction targets generalizing i draws with
  | nil => exact Or.inr h
  | cons addr rest ih =>
    rw [sendPings_cons_fst] at h
    rw [sendPings_cons_out]
    rcases ih h with ⟨keyId, key, hmem⟩ | hbefore
    · exact Or.inl ⟨keyId, key, List.mem_append_right _ hmem⟩
    · rcases pending_sendPing hbefore with ⟨keyId, key, hmem⟩ | hbefore
      · exact Or.inl ⟨keyId, key, List.mem_append_left _ hmem⟩
      · exact Or.inr hbefore

theorem onlyPeers_sendProbes (i : Inner) (udp : Bool) (p : NodeId) (now : ℕ)
    (draws : ℕ → Nonce × Bool) : OnlyPeers i (i.sendProbes udp p now draws).1 := by
  have hprune : OnlyPeers i ((i.prunePending p now).pruneLearned p now) :=
    (onlyPeers_modify i p _).trans (onlyPeers_modifyExisting _ p _)
  exact hprune.trans (onlyPeers_sendPings udp p now _ _ draws)

theorem proj_sendProbes {α : Type*} (π : Peer → α)
    (hπ : ∀ e pending lastPing learned,
      π { e with pending := pending, lastPing := lastPing, learned := learned } = π e)
    (i : Inner) (udp : Bool) (p q : NodeId) (now : ℕ) (draws : ℕ → Nonce × Bool) :
    π ((i.sendProbes udp p now draws).1.entry q) = π (i.entry q) := by
  refine (proj_sendPings π (fun e a b => hπ e a b e.learned) udp p q now _ _ draws).trans ?_
  refine (proj_modifyExisting π (fun e => hπ e e.pending e.lastPing _) _ p q).trans ?_
  exact proj_modify π (fun e => hπ e _ e.lastPing e.learned) i p q

theorem sendProbes_out {i : Inner} {udp : Bool} {p : NodeId} {now : ℕ} {draws : ℕ → Nonce × Bool}
    {out : UdpSend} (h : out ∈ (i.sendProbes udp p now draws).2.1) :
    udp = true ∧ i.IsPingOf p out := by
  obtain ⟨hudp, dest, keyId, key, nonce, hping, hkey⟩ := sendPings_out h
  refine ⟨hudp, dest, keyId, key, nonce, hping, ?_⟩
  rw [← hkey]
  exact ((proj_modifyExisting Peer.probeKey (by intro; rfl) _ p p).trans
    (proj_modify Peer.probeKey (by intro; rfl) i p p)).symm

theorem pending_pruneLearned (i : Inner) (p q : NodeId) (now : ℕ) :
    ((i.pruneLearned p now).entry q).pending = (i.entry q).pending :=
  proj_modifyExisting Peer.pending (by intro; rfl) i p q

theorem pending_sendProbes {i : Inner} {udp : Bool} {p q : NodeId} {now : ℕ}
    {draws : ℕ → Nonce × Bool} {n : Nonce} {x : SocketAddr × ℕ}
    (h : ((i.sendProbes udp p now draws).1.entry q).pending.lookup n = some x) :
    (∃ keyId key, UdpSend.ping q x.1 ⟨probePing, keyId, n⟩ key ∈
      (i.sendProbes udp p now draws).2.1) ∨ (i.entry q).pending.lookup n = some x := by
  rcases pending_sendPings h with hsent | hbefore
  · exact Or.inl hsent
  · refine Or.inr ?_
    rw [pending_pruneLearned, prunePending, entry_modify] at hbefore
    by_cases hq : q = p
    · subst hq
      rw [if_pos rfl] at hbefore
      exact ((Table.mem_lookup_retain _ _ _ _).mp hbefore).1
    · rw [if_neg hq] at hbefore
      exact hbefore

def noted (i : Inner) (p : NodeId) (source : SocketAddr) (now : ℕ) : Inner :=
  i.modify p fun e => notePing e source now (pingDue (i.entry p) source now).1

theorem handlePing_fst (i : Inner) (p : NodeId) (key : ProbeKey) (probe : Probe)
    (source : SocketAddr) (now : ℕ) (draw : Nonce × Bool) :
    (i.handlePing p key probe source now draw).1 =
      if (pingDue (i.entry p) source now).2 then
        ((i.noted p source now).sendPing true p source now draw).1
      else i.noted p source now := by
  unfold handlePing noted
  dsimp only
  cases (pingDue (i.entry p) source now).2 <;> rfl

theorem handlePing_snd (i : Inner) (p : NodeId) (key : ProbeKey) (probe : Probe)
    (source : SocketAddr) (now : ℕ) (draw : Nonce × Bool) :
    (i.handlePing p key probe source now draw).2 =
      (if (pingDue (i.entry p) source now).1 then
        [UdpSend.pong p source ⟨probePong, probe.keyId, probe.nonce⟩ key] else []) ++
      (if (pingDue (i.entry p) source now).2 then
        ((i.noted p source now).sendPing true p source now draw).2.1 else []) := by
  unfold handlePing noted
  dsimp only
  cases (pingDue (i.entry p) source now).2
  · simp only [Bool.false_eq_true, if_false, List.append_nil]
  · rfl

theorem onlyPeers_handlePing (i : Inner) (p : NodeId) (key : ProbeKey) (probe : Probe)
    (source : SocketAddr) (now : ℕ) (draw : Nonce × Bool) :
    OnlyPeers i (i.handlePing p key probe source now draw).1 := by
  rw [handlePing_fst]
  split_ifs
  · exact (onlyPeers_modify i p _).trans (onlyPeers_sendPing _ true p source now draw)
  · exact onlyPeers_modify i p _

theorem proj_noted {α : Type*} (π : Peer → α)
    (hπ : ∀ e lastPong learned, π { e with lastPong := lastPong, learned := learned } = π e)
    (i : Inner) (p q : NodeId) (source : SocketAddr) (now : ℕ) :
    π ((i.noted p source now).entry q) = π (i.entry q) :=
  proj_modify π (fun e => hπ e _ _) i p q

theorem proj_handlePing {α : Type*} (π : Peer → α)
    (hnote : ∀ e lastPong learned, π { e with lastPong := lastPong, learned := learned } = π e)
    (hping : ∀ e pending lastPing, π { e with pending := pending, lastPing := lastPing } = π e)
    (i : Inner) (p q : NodeId) (key : ProbeKey) (probe : Probe) (source : SocketAddr) (now : ℕ)
    (draw : Nonce × Bool) :
    π ((i.handlePing p key probe source now draw).1.entry q) = π (i.entry q) := by
  rw [handlePing_fst]
  split_ifs
  · exact (proj_sendPing π hping _ true p q source now draw).trans
      (proj_noted π hnote i p q source now)
  · exact proj_noted π hnote i p q source now

theorem handlePing_out {i : Inner} {p : NodeId} {key : ProbeKey} {probe : Probe}
    {source : SocketAddr} {now : ℕ} {draw : Nonce × Bool} {out : UdpSend}
    (h : out ∈ (i.handlePing p key probe source now draw).2) :
    out = .pong p source ⟨probePong, probe.keyId, probe.nonce⟩ key ∨ i.IsPingOf p out := by
  rw [handlePing_snd, List.mem_append] at h
  rcases h with h | h
  · split_ifs at h
    · exact Or.inl (List.mem_singleton.mp h)
    · cases h
  · split_ifs at h
    · obtain ⟨-, dest, keyId, k, nonce, hping, hkey⟩ := sendPing_out h
      rw [proj_noted Peer.probeKey (fun _ _ _ => rfl)] at hkey
      exact Or.inr ⟨dest, keyId, k, nonce, hping, hkey⟩
    · cases h

theorem pending_handlePing {i : Inner} {p q : NodeId} {key : ProbeKey} {probe : Probe}
    {source : SocketAddr} {now : ℕ} {draw : Nonce × Bool} {n : Nonce} {x : SocketAddr × ℕ}
    (h : ((i.handlePing p key probe source now draw).1.entry q).pending.lookup n = some x) :
    (∃ keyId k, UdpSend.ping q x.1 ⟨probePing, keyId, n⟩ k ∈
      (i.handlePing p key probe source now draw).2) ∨ (i.entry q).pending.lookup n = some x := by
  rw [handlePing_fst] at h
  rw [handlePing_snd]
  split_ifs at h with hback
  · rw [if_pos hback]
    rcases pending_sendPing h with ⟨keyId, k, hmem⟩ | hbefore
    · exact Or.inl ⟨keyId, k, List.mem_append_right _ hmem⟩
    · rw [proj_noted Peer.pending (fun _ _ _ => rfl)] at hbefore
      exact Or.inr hbefore
  · rw [proj_noted Peer.pending (fun _ _ _ => rfl)] at h
    exact Or.inr h

end Inner

def Event.isSend : Event → Bool
  | .trySend _ _ _ => true
  | _ => false

def Event.isRecvDirect : Event → Bool
  | .recvDirect _ _ _ => true
  | _ => false

def Event.touchesPaths : Event → Bool
  | .beginSession _ | .dropDirect _ _ | .registerProbeKey _ _ _ _ | .unregisterProbeKey _
  | .sendProbes _ _ | .recvDirect _ _ _ => true
  | _ => false

namespace PathSocket

variable (P : Primitives) (hostOf : String → Option String)

theorem inner_sendRelayed (s : PathSocket) (p : NodeId) (contents : List UInt8) :
    (s.sendRelayed P hostOf p contents).1.inner = s.inner := by
  unfold sendRelayed
  dsimp only
  split <;> rfl

theorem inner_trySend (s : PathSocket) (destination : SocketAddr) (contents : List UInt8)
    (result : UdpResult) : (s.trySend P hostOf destination contents result).1.inner = s.inner := by
  unfold trySend
  split_ifs
  · rfl
  · split
    · rfl
    · split
      · rfl
      · exact inner_sendRelayed P hostOf s _ contents

theorem inner_deliver (s : PathSocket) (source : SocketAddr) (data : List UInt8) :
    (s.deliver source data).inner = s.inner := by
  unfold deliver
  split_ifs <;> rfl

theorem inner_queryReflector (s : PathSocket) (reflector : SocketAddr) (nonce : Nonce) :
    (s.queryReflector reflector nonce).1.inner = s.inner := by
  unfold queryReflector
  split_ifs <;> rfl

theorem proj_step_of_unlisted {α : Type*} (π : Peer → α)
    (hπ : ∀ e driver, π { e with driver := driver } = π e) (s : PathSocket) {e : Event}
    (he : e.touchesPaths = false) (q : NodeId)
    (hlists : ∀ candidates, e ≠ .setPeerCandidates q candidates) :
    π ((s.step P hostOf e).inner.entry q) = π (s.inner.entry q) := by
  cases e with
  | beginSession p => cases he
  | dropDirect p session => cases he
  | registerProbeKey session p keyId key => cases he
  | unregisterProbeKey keyId => cases he
  | sendProbes p draws => cases he
  | recvDirect source data draw => cases he
  | registerPeer p => exact Inner.proj_modify π (fun _ => rfl) s.inner p q
  | setPeerCandidates p candidates =>
    have hq : q ≠ p := by
      rintro rfl
      exact hlists candidates rfl
    simp only [step, exec, Inner.setPeerCandidates, Inner.entry_modify, if_neg hq]
  | endSession p session =>
    simp only [step, exec, Inner.endSession]
    split_ifs <;> rfl
  | setPeerRelays p urls => exact Inner.proj_modify π (fun e => hπ e _) s.inner p q
  | copyRelayRoute route p => exact Inner.proj_modify π (fun e => hπ e _) s.inner p q
  | recvRelay source datagram driver =>
    simp only [step, exec, recvRelay]
    split_ifs
    · rw [inner_deliver]
      refine (Inner.proj_heardOn π hπ _ source q driver).trans ?_
      exact Inner.proj_modify π (fun _ => rfl) s.inner source q
    · rfl
  | trySend destination contents result =>
    simp only [step, exec]
    rw [inner_trySend]
  | queryReflector reflector nonce =>
    simp only [step, exec]
    rw [inner_queryReflector]
  | requeryReflector nonce =>
    simp only [step, exec]
    split
    · rw [inner_queryReflector]
    · rfl
  | _ => rfl

theorem proj_step_of_quiet {α : Type*} (π : Peer → α)
    (hπ : ∀ e candidates updates driver,
      π { e with candidates := candidates, updates := updates, driver := driver } = π e)
    (s : PathSocket) {e : Event} (he : e.touchesPaths = false) (q : NodeId) :
    π ((s.step P hostOf e).inner.entry q) = π (s.inner.entry q) := by
  cases e with
  | setPeerCandidates p candidates =>
    exact Inner.proj_modify π (fun e => hπ e _ _ e.driver) s.inner p q
  | _ =>
    exact proj_step_of_unlisted P hostOf π
      (fun e driver => hπ e e.candidates e.updates driver) s he q (by simp)

theorem index_step_of_quiet {α : Type*} (π : Inner → α)
    (hπ : ∀ i peers bySynthetic sessions notified,
      π { i with
        peers := peers, bySynthetic := bySynthetic, sessions := sessions
        notified := notified } = π i)
    (s : PathSocket) {e : Event} (he : e.touchesPaths = false) :
    π (s.step P hostOf e).inner = π s.inner := by
  have hkept := hπ s.inner
  cases e with
  | beginSession p => cases he
  | dropDirect p session => cases he
  | registerProbeKey session p keyId key => cases he
  | unregisterProbeKey keyId => cases he
  | sendProbes p draws => cases he
  | recvDirect source data draw => cases he
  | registerPeer p => exact hkept _ _ s.inner.sessions s.inner.notified
  | setPeerCandidates p candidates =>
    exact hkept _ s.inner.bySynthetic s.inner.sessions s.inner.notified
  | setPeerRelays p urls => exact hkept _ s.inner.bySynthetic s.inner.sessions s.inner.notified
  | copyRelayRoute route p => exact hkept _ s.inner.bySynthetic s.inner.sessions s.inner.notified
  | takeNotice session => exact hkept s.inner.peers s.inner.bySynthetic s.inner.sessions _
  | endSession p session =>
    simp only [step, exec, Inner.endSession]
    split_ifs
    · exact hkept s.inner.peers s.inner.bySynthetic _ s.inner.notified
    · rfl
  | recvRelay source datagram driver =>
    simp only [step, exec, recvRelay]
    split_ifs
    · rw [inner_deliver]
      exact hkept _ _ s.inner.sessions s.inner.notified
    · rfl
  | trySend destination contents result =>
    simp only [step, exec]
    rw [inner_trySend]
  | queryReflector reflector nonce =>
    simp only [step, exec]
    rw [inner_queryReflector]
  | requeryReflector nonce =>
    simp only [step, exec]
    split
    · rw [inner_queryReflector]
    · rfl
  | _ => rfl

theorem byDirect_step_of_quiet (s : PathSocket) {e : Event} (he : e.touchesPaths = false) :
    (s.step P hostOf e).inner.byDirect = s.inner.byDirect :=
  index_step_of_quiet P hostOf Inner.byDirect (fun _ _ _ _ _ => rfl) s he

def ProbeArrives (s : PathSocket) (e : Event) (kind : UInt8) (p : NodeId) (source : SocketAddr)
    (keyId : ProbeKeyId) (key : ProbeKey) (nonce : Nonce) : Prop :=
  s.udp = true ∧ s.inner.probeSession keyId = some (p, key) ∧
    ∃ sender draw, e = .recvDirect sender (Probe.sealProbe P ⟨kind, keyId, nonce⟩ key) draw ∧
      sender.unmapIpv6 = source

def Probes (s : PathSocket) (e : Event) (p : NodeId) : Prop :=
  (∃ draws, e = .sendProbes p draws) ∨
    ∃ source keyId key nonce, s.ProbeArrives P e probePing p source keyId key nonce

/-- The pong of `p` from `source` answers a nonce that is outstanding for `p`. -/
def AcceptsPong (s : PathSocket) (e : Event) (p : NodeId) (source : SocketAddr) (nonce : Nonce) :
    Prop :=
  (∃ keyId key, s.ProbeArrives P e probePong p source keyId key nonce) ∧
    ((s.inner.entry p).pending.lookup nonce).isSome

theorem take_eq_sealProbe {data : List UInt8} {probe : Probe} {key : ProbeKey}
    (h : data.take receiveBuffer = probe.sealProbe P key) : data = probe.sealProbe P key := by
  have hlen := congrArg List.length h
  rw [Probe.sealProbe_length, List.length_take, receiveBuffer] at hlen
  rw [← h, List.take_of_length_le]
  rw [receiveBuffer]
  omega

theorem recvDirect_cases (s : PathSocket) (sender : SocketAddr) (data : List UInt8)
    (draw : Nonce × Bool) :
    (∃ p keyId key nonce,
      s.ProbeArrives P (.recvDirect sender data draw) probePing p sender.unmapIpv6 keyId key nonce ∧
      s.recvDirect P sender data draw =
        ({ s with inner := (s.inner.handlePing p key ⟨probePing, keyId, nonce⟩ sender.unmapIpv6
            s.now draw).1 },
          (s.inner.handlePing p key ⟨probePing, keyId, nonce⟩ sender.unmapIpv6 s.now draw).2)) ∨
    (∃ p keyId key nonce,
      s.ProbeArrives P (.recvDirect sender data draw) probePong p sender.unmapIpv6 keyId key nonce ∧
      s.recvDirect P sender data draw =
        ({ s with inner := s.inner.acceptPong p nonce sender.unmapIpv6 s.now }, [])) ∨
    (∃ inbound reflexive reflectorNonce, s.recvDirect P sender data draw =
      ({ s with
        inbound := inbound, reflexive := reflexive, reflectorNonce := reflectorNonce }, [])) := by
  unfold recvDirect
  split_ifs with hudp
  · exact Or.inr (Or.inr ⟨s.inbound, s.reflexive, s.reflectorNonce, rfl⟩)
  · dsimp only
    split
    · rename_i keyId hpeek
      split
      · exact Or.inr (Or.inr ⟨s.inbound, s.reflexive, s.reflectorNonce, rfl⟩)
      · rename_i p key hsession
        split
        · exact Or.inr (Or.inr ⟨s.inbound, s.reflexive, s.reflectorNonce, rfl⟩)
        · rename_i probe hopen
          obtain ⟨hkind, hdata⟩ := Probe.openProbe_eq_some.mp hopen
          have hid : probe.keyId = keyId :=
            Option.some.inj ((Probe.peekKeyId_of_openProbe hopen).symm.trans hpeek)
          have hsent := take_eq_sealProbe P hdata
          rw [Bool.not_eq_false] at hudp
          obtain ⟨kind, id, nonce⟩ := probe
          obtain rfl : id = keyId := hid
          rcases hkind with hping | hpong
          · obtain rfl : kind = probePing := hping
            refine Or.inl
              ⟨p, id, key, nonce, ⟨hudp, hsession, sender, draw, by rw [hsent], rfl⟩, ?_⟩
            rw [Inner.handleProbe, hudp]
            rfl
          · obtain rfl : kind = probePong := hpong
            refine Or.inr (Or.inl ⟨p, id, key, nonce,
              ⟨hudp, hsession, sender, draw, by rw [hsent], rfl⟩, ?_⟩)
            rw [Inner.handleProbe, hudp]
            rfl
    · split_ifs
      · unfold recvReflect
        split
        · split_ifs
          · exact Or.inr (Or.inr ⟨s.inbound, _, _, rfl⟩)
          · exact Or.inr (Or.inr ⟨s.inbound, s.reflexive, s.reflectorNonce, rfl⟩)
        · exact Or.inr (Or.inr ⟨s.inbound, s.reflexive, s.reflectorNonce, rfl⟩)
      · split
        · unfold deliver
          split_ifs
          · exact Or.inr (Or.inr ⟨_, s.reflexive, s.reflectorNonce, rfl⟩)
          · exact Or.inr (Or.inr ⟨s.inbound, s.reflexive, s.reflectorNonce, rfl⟩)
        · exact Or.inr (Or.inr ⟨s.inbound, s.reflexive, s.reflectorNonce, rfl⟩)

variable {P hostOf} {s : PathSocket} {e : Event} {p : NodeId}

theorem ProbeArrives.unique {kind kind' : UInt8} {p' : NodeId} {source source' : SocketAddr}
    {keyId keyId' : ProbeKeyId} {key key' : ProbeKey} {n n' : Nonce}
    (h : s.ProbeArrives P e kind p source keyId key n)
    (h' : s.ProbeArrives P e kind' p' source' keyId' key' n') :
    kind = kind' ∧ p = p' ∧ source = source' ∧ keyId = keyId' ∧ key = key' ∧ n = n' := by
  obtain ⟨-, hsession, sender, draw, rfl, rfl⟩ := h
  obtain ⟨-, hsession', sender', draw', hevent, rfl⟩ := h'
  obtain ⟨rfl, hdata, -⟩ := Event.recvDirect.inj hevent
  obtain ⟨rfl, rfl, rfl⟩ := Probe.mk.inj (Probe.eq_of_sealProbe_eq hdata)
  obtain ⟨rfl, rfl⟩ := Prod.mk.inj (Option.some.inj (hsession.symm.trans hsession'))
  exact ⟨rfl, rfl, rfl, rfl, rfl, rfl⟩

/-- A proof comes with an accepted pong, and does not outlive the session it belongs to. -/
theorem direct_step {proven : Proven}
    (h : ((s.step P hostOf e).inner.entry p).direct = some proven) :
    (∃ n, s.AcceptsPong P e p proven.addr n ∧ proven.provedAt = s.now) ∨
      ((s.inner.entry p).direct = some proven ∧ e ≠ .beginSession p) := by
  cases e with
  | beginSession q =>
    simp only [step, exec, Inner.entry_beginSession] at h
    split_ifs at h with hq
    · cases h
    · exact Or.inr ⟨h, fun he => hq (Event.beginSession.inj he).symm⟩
  | dropDirect q session =>
    simp only [step, exec, Inner.entry_dropDirect] at h
    split_ifs at h with hq
    exact Or.inr ⟨h, nofun⟩
  | registerProbeKey session q keyId key =>
    refine Or.inr ⟨?_, nofun⟩
    rw [← h]
    exact (Inner.proj_registerProbeKey Peer.direct (fun _ _ => rfl) s.inner q p keyId key).symm
  | unregisterProbeKey keyId =>
    refine Or.inr ⟨?_, nofun⟩
    rw [← h]
    exact (Inner.proj_unregisterProbeKey Peer.direct (fun _ _ => rfl) s.inner p keyId).symm
  | sendProbes q draws =>
    refine Or.inr ⟨?_, nofun⟩
    rw [← h]
    exact (Inner.proj_sendProbes Peer.direct (fun _ _ _ _ => rfl) s.inner s.udp q p
      s.now draws).symm
  | recvDirect sender data draw =>
    rcases recvDirect_cases P s sender data draw with
      ⟨q, keyId, key, nonce, harrives, hexec⟩ | ⟨q, keyId, key, nonce, harrives, hexec⟩ |
      ⟨inbound, reflexive, reflectorNonce, hexec⟩
    · rw [step, exec, hexec, Inner.proj_handlePing Peer.direct (fun _ _ _ => rfl)
        (fun _ _ _ => rfl)] at h
      exact Or.inr ⟨h, nofun⟩
    · rw [step, exec, hexec] at h
      cases hpending : (s.inner.entry q).pending.lookup nonce with
      | none =>
        rw [Inner.acceptPong_of_none hpending] at h
        exact Or.inr ⟨h, nofun⟩
      | some ping =>
        have hsome : ((s.inner.entry q).pending.lookup nonce).isSome := by rw [hpending]; rfl
        rw [Inner.entry_acceptPong hsome] at h
        split_ifs at h with hq
        · subst hq
          obtain rfl := Option.some.inj h
          exact Or.inl ⟨nonce, ⟨⟨keyId, key, harrives⟩, hsome⟩, rfl⟩
        · exact Or.inr ⟨h, nofun⟩
    · rw [step, exec, hexec] at h
      exact Or.inr ⟨h, nofun⟩
  | _ =>
    rw [proj_step_of_quiet P hostOf Peer.direct (fun _ _ _ _ => rfl) s rfl] at h
    exact Or.inr ⟨h, nofun⟩

theorem not_acceptsPong_of_not_recvDirect {n : Nonce} {a : SocketAddr}
    (he : e.isRecvDirect = false) :
    ¬ s.AcceptsPong P e p a n := by
  rintro ⟨⟨keyId, key, -, -, sender, draw, rfl, -⟩, -⟩
  exact Bool.noConfusion he

theorem recvDirect_of_arrives {sender : SocketAddr} {data : List UInt8} {draw : Nonce × Bool}
    {kind : UInt8} {source : SocketAddr} {keyId : ProbeKeyId} {key : ProbeKey} {nonce : Nonce}
    (h : s.ProbeArrives P (.recvDirect sender data draw) kind p source keyId key nonce)
    (hkind : kind = probePing ∨ kind = probePong) :
    s.recvDirect P sender data draw =
      ({ s with inner :=
        (s.inner.handleProbe true p key ⟨kind, keyId, nonce⟩ source s.now draw).1 },
        (s.inner.handleProbe true p key ⟨kind, keyId, nonce⟩ source s.now draw).2) := by
  obtain ⟨hudp, hsession, sender', draw', heq, hsource⟩ := h
  obtain ⟨rfl, rfl, rfl⟩ := Event.recvDirect.inj heq
  have htake : (Probe.sealProbe P ⟨kind, keyId, nonce⟩ key).take receiveBuffer =
      Probe.sealProbe P ⟨kind, keyId, nonce⟩ key := by
    rw [List.take_of_length_le]
    rw [Probe.sealProbe_length, receiveBuffer]
    omega
  have hopen : Probe.openProbe P (Probe.sealProbe P ⟨kind, keyId, nonce⟩ key) key =
      some ⟨kind, keyId, nonce⟩ := Probe.openProbe_eq_some.mpr ⟨hkind, rfl⟩
  unfold recvDirect
  rw [if_neg (by rw [hudp]; decide)]
  simp only [htake, Probe.peekKeyId_sealProbe, hsession, hopen, hsource, hudp]

theorem pending_of_accepted {sender : SocketAddr} {data : List UInt8} {draw : Nonce × Bool}
    {a : SocketAddr} {n : Nonce} (h : s.AcceptsPong P (.recvDirect sender data draw) p a n) :
    (((s.recvDirect P sender data draw).1.inner.entry p).pending.lookup n) = none := by
  obtain ⟨⟨keyId, key, harrives⟩, hpending⟩ := h
  have hkind : ¬ probePong = probePing := by decide
  rw [recvDirect_of_arrives harrives (Or.inr rfl), Inner.handleProbe, if_neg (by decide),
    if_neg hkind, if_pos rfl]
  dsimp only
  rw [Inner.entry_acceptPong hpending, if_pos rfl, Peer.prove]
  exact AList.lookup_erase n _

/-- A nonce is outstanding only after a ping with it, until it is consumed or a session begins. -/
theorem pending_step {n : Nonce} {x : SocketAddr × ℕ}
    (h : ((s.step P hostOf e).inner.entry p).pending.lookup n = some x) :
    (∃ keyId key, UdpSend.ping p x.1 ⟨probePing, keyId, n⟩ key ∈ s.sends P hostOf e) ∨
      ((s.inner.entry p).pending.lookup n = some x ∧ e ≠ .beginSession p ∧
        ∀ a, ¬ s.AcceptsPong P e p a n) := by
  cases e with
  | beginSession q =>
    simp only [step, exec, Inner.entry_beginSession] at h
    split_ifs at h with hq
    · simp [Peer.clean] at h
    · exact Or.inr ⟨h, fun he => hq (Event.beginSession.inj he).symm,
        fun a => not_acceptsPong_of_not_recvDirect rfl⟩
  | dropDirect q session =>
    refine Or.inr ⟨?_, nofun, fun a => not_acceptsPong_of_not_recvDirect rfl⟩
    simp only [step, exec, Inner.entry_dropDirect] at h
    split_ifs at h with hq
    · rw [hq.1]
      exact h
    · exact h
  | registerProbeKey session q keyId key =>
    refine Or.inr ⟨?_, nofun, fun a => not_acceptsPong_of_not_recvDirect rfl⟩
    rw [← h]
    exact congrArg _
      (Inner.proj_registerProbeKey Peer.pending (fun _ _ => rfl) s.inner q p keyId key).symm
  | unregisterProbeKey keyId =>
    refine Or.inr ⟨?_, nofun, fun a => not_acceptsPong_of_not_recvDirect rfl⟩
    rw [← h]
    exact congrArg _
      (Inner.proj_unregisterProbeKey Peer.pending (fun _ _ => rfl) s.inner p keyId).symm
  | sendProbes q draws =>
    rcases Inner.pending_sendProbes h with hsent | hbefore
    · exact Or.inl hsent
    · exact Or.inr ⟨hbefore, nofun, fun a => not_acceptsPong_of_not_recvDirect rfl⟩
  | recvDirect sender data draw =>
    have haccepts : ∀ a, ¬ s.AcceptsPong P (.recvDirect sender data draw) p a n := by
      intro a ha
      exact nomatch (pending_of_accepted ha).symm.trans h
    rw [step, exec] at h
    rw [sends, exec]
    rcases recvDirect_cases P s sender data draw with
      ⟨q, keyId, key, nonce, -, hexec⟩ | ⟨q, keyId, key, nonce, -, hexec⟩ |
      ⟨inbound, reflexive, reflectorNonce, hexec⟩
    · rw [hexec] at h ⊢
      rcases Inner.pending_handlePing h with hsent | hbefore
      · exact Or.inl hsent
      · exact Or.inr ⟨hbefore, nofun, haccepts⟩
    · rw [hexec] at h
      refine Or.inr ⟨?_, nofun, haccepts⟩
      cases hpending : (s.inner.entry q).pending.lookup nonce with
      | none =>
        rw [Inner.acceptPong_of_none hpending] at h
        exact h
      | some ping =>
        rw [Inner.entry_acceptPong (by rw [hpending]; rfl)] at h
        split_ifs at h with hq
        · subst hq
          rw [Peer.prove, Table.lookup_erase_ite] at h
          split_ifs at h
          exact h
        · exact h
    · rw [hexec] at h
      exact Or.inr ⟨h, nofun, haccepts⟩
  | _ =>
    rw [proj_step_of_quiet P hostOf Peer.pending (fun _ _ _ _ => rfl) s rfl] at h
    exact Or.inr ⟨h, nofun, fun a => not_acceptsPong_of_not_recvDirect rfl⟩

theorem trySend_out {destination : SocketAddr} {contents : List UInt8} {result : UdpResult}
    {out : UdpSend} (h : out ∈ (s.trySend P hostOf destination contents result).2.1) :
    ∃ q proven, s.inner.bySynthetic.lookup destination = some q ∧ s.provenDirect q = some proven ∧
      s.now - proven.provedAt < directFresh ∧ out = .quic q proven.addr contents := by
  unfold trySend at h
  split_ifs at h
  · cases h
  · split at h
    · cases h
    · rename_i q hroute
      split at h
      · rename_i proven hproven
        obtain ⟨hdirect, hfresh⟩ := Option.filter_eq_some_iff.mp hproven
        exact ⟨q, proven, hroute, hdirect, by simpa using hfresh, List.mem_singleton.mp h⟩
      · cases h

theorem queryReflector_out {reflector : SocketAddr} {nonce : Nonce} {out : UdpSend}
    (h : out ∈ (s.queryReflector reflector nonce).2) : out = .reflect reflector nonce := by
  unfold queryReflector at h
  split_ifs at h
  · exact List.mem_singleton.mp h
  · cases h

theorem sends_cases {out : UdpSend} (h : out ∈ s.sends P hostOf e) :
    (∃ q, s.udp = true ∧ s.Probes P e q ∧ s.inner.IsPingOf q out) ∨
    (∃ q source keyId key nonce, s.ProbeArrives P e probePing q source keyId key nonce ∧
      out = .pong q source ⟨probePong, keyId, nonce⟩ key) ∨
    (∃ reflector nonce, out = .reflect reflector nonce) ∨
    (∃ destination contents result q proven, e = .trySend destination contents result ∧
      s.inner.bySynthetic.lookup destination = some q ∧ s.provenDirect q = some proven ∧
      s.now - proven.provedAt < directFresh ∧ out = .quic q proven.addr contents) := by
  cases e with
  | sendProbes q draws =>
    obtain ⟨hudp, hping⟩ := Inner.sendProbes_out h
    exact Or.inl ⟨q, hudp, Or.inl ⟨draws, rfl⟩, hping⟩
  | recvDirect sender data draw =>
    rw [sends, exec] at h
    rcases recvDirect_cases P s sender data draw with
      ⟨q, keyId, key, nonce, harrives, hexec⟩ | ⟨q, keyId, key, nonce, harrives, hexec⟩ |
      ⟨inbound, reflexive, reflectorNonce, hexec⟩
    · rw [hexec] at h
      rcases Inner.handlePing_out h with hpong | hping
      · exact Or.inr (Or.inl ⟨q, _, keyId, key, nonce, harrives, hpong⟩)
      · exact Or.inl ⟨q, harrives.1, Or.inr ⟨_, keyId, key, nonce, harrives⟩, hping⟩
    · rw [hexec] at h
      cases h
    · rw [hexec] at h
      cases h
  | queryReflector reflector nonce =>
    exact Or.inr (Or.inr (Or.inl ⟨reflector, nonce, queryReflector_out h⟩))
  | requeryReflector nonce =>
    simp only [sends, exec] at h
    split at h
    · exact Or.inr (Or.inr (Or.inl ⟨_, nonce, queryReflector_out h⟩))
    · cases h
  | trySend destination contents result =>
    obtain ⟨q, proven, hroute, hdirect, hfresh, hout⟩ := trySend_out h
    exact Or.inr (Or.inr (Or.inr
      ⟨destination, contents, result, q, proven, rfl, hroute, hdirect, hfresh, hout⟩))
  | _ => cases h

theorem key_of_ping {dest : SocketAddr} {probe : Probe} {key : ProbeKey}
    (h : UdpSend.ping p dest probe key ∈ s.sends P hostOf e) :
    s.Probes P e p ∧ (s.inner.entry p).probeKey = some (probe.keyId, key) := by
  rcases sends_cases h with ⟨q, -, hprobes, addr, keyId, key', nonce, hping, hkey⟩ |
    ⟨q, source, keyId, key', nonce, -, hpong⟩ | ⟨reflector, nonce, hreflect⟩ |
    ⟨destination, contents, result, q, proven, -, -, -, -, hquic⟩
  · obtain ⟨rfl, -, rfl, rfl⟩ := UdpSend.ping.inj hping
    exact ⟨hprobes, hkey⟩
  · cases hpong
  · cases hreflect
  · cases hquic

theorem rest_step (P : Primitives) (hostOf : String → Option String) (s : PathSocket) {e : Event}
    (he : e.isSend = false) :
    (s.step P hostOf e).udp = s.udp ∧ (s.step P hostOf e).blockedOn = s.blockedOn ∧
      s.now ≤ (s.step P hostOf e).now ∧
      ((s.step P hostOf e).book = s.book ∨
        ∃ op, e = .book op ∧ (s.step P hostOf e).book = s.book.map fun book => book.apply op) := by
  cases e with
  | trySend destination contents result => cases he
  | tick elapsed => exact ⟨rfl, rfl, Nat.le_add_right _ _, Or.inl rfl⟩
  | book op => exact ⟨rfl, rfl, le_rfl, Or.inr ⟨op, rfl, rfl⟩⟩
  | recvRelay source datagram driver =>
    simp only [step, exec, recvRelay, deliver]
    split_ifs <;> exact ⟨rfl, rfl, le_rfl, Or.inl rfl⟩
  | recvDirect sender data draw =>
    rw [step, exec]
    rcases recvDirect_cases P s sender data draw with
      ⟨q, keyId, key, nonce, -, hexec⟩ | ⟨q, keyId, key, nonce, -, hexec⟩ |
      ⟨inbound, reflexive, reflectorNonce, hexec⟩ <;>
    · rw [hexec]
      exact ⟨rfl, rfl, le_rfl, Or.inl rfl⟩
  | queryReflector reflector nonce =>
    simp only [step, exec, queryReflector]
    split_ifs <;> exact ⟨rfl, rfl, le_rfl, Or.inl rfl⟩
  | requeryReflector nonce =>
    simp only [step, exec, queryReflector]
    split
    · split_ifs <;> exact ⟨rfl, rfl, le_rfl, Or.inl rfl⟩
    · exact ⟨rfl, rfl, le_rfl, Or.inl rfl⟩
  | _ => exact ⟨rfl, rfl, le_rfl, Or.inl rfl⟩

theorem clock_step (P : Primitives) (hostOf : String → Option String) (s : PathSocket) (e : Event) :
    (s.step P hostOf e).udp = s.udp ∧ s.now ≤ (s.step P hostOf e).now := by
  by_cases he : e.isSend = false
  · obtain ⟨hudp, -, hnow, -⟩ := rest_step P hostOf s he
    exact ⟨hudp, hnow⟩
  · cases e with
    | trySend destination contents result =>
      simp only [step, exec, trySend, sendRelayed]
      split_ifs
      · exact ⟨rfl, le_rfl⟩
      · split
        · exact ⟨rfl, le_rfl⟩
        · split
          · exact ⟨rfl, le_rfl⟩
          · dsimp only
            split <;> exact ⟨rfl, le_rfl⟩
    | _ => exact absurd rfl he

end PathSocket

end ForgeswornLink
