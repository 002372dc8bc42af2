import ForgeswornLink.DirectSends
import ForgeswornLink.Lib.Stamps

/-!
# What one step does to the probing of a peer

Beside its key, its proof and its route, the entry of a peer holds what probing
needs: the addresses it listed, those it pinged from, the nonces outstanding and
the times of the last ping and pong of each address. Six kinds of step change
these; `ProbeMove` says what each does, and that every other step does nothing.
The time a nonce was issued and the time an address was learnt are stamps that
lapse.
-/

namespace ForgeswornLink
open Runs Stamps

namespace Inner
variable {i : Inner} {udp : Bool} {p q : NodeId} {addr source a : SocketAddr} {now : ℕ} {n : Nonce}

theorem entry_sendPing_of_ne (h : q ≠ p) (i : Inner) (udp : Bool) (addr : SocketAddr) (now : ℕ)
    (draw : Nonce × Bool) : (i.sendPing udp p addr now draw).1.entry q = i.entry q := by
  cases udp with
  | false => rw [sendPing_relayOnly]
  | true =>
    cases hkey : (i.entry p).probeKey with
    | none => rw [sendPing_of_noKey hkey, entry_modify, if_neg h]
    | some held => rw [sendPing_of_key hkey, entry_modify, if_neg h]

theorem entry_sendPings_of_ne (h : q ≠ p) (udp : Bool) (now : ℕ) (targets : List SocketAddr)
    (i : Inner) (draws : ℕ → Nonce × Bool) :
    (sendPings udp p now i draws targets).1.entry q = i.entry q := by
  induction targets generalizing i draws with
  | nil => rfl
  | cons addr rest ih => rw [sendPings_cons_fst, ih, entry_sendPing_of_ne h]

theorem entry_sendProbes_of_ne (h : q ≠ p) (i : Inner) (udp : Bool) (now : ℕ)
    (draws : ℕ → Nonce × Bool) : (i.sendProbes udp p now draws).1.entry q = i.entry q := by
  rw [sendProbes, entry_sendPings_of_ne h, pruneLearned, entry_modifyExisting _ _ _ rfl, if_neg h,
    prunePending, entry_modify, if_neg h]

theorem entry_handlePing_of_ne (h : q ≠ p) (i : Inner) (key : ProbeKey) (probe : Probe)
    (source : SocketAddr) (now : ℕ) (draw : Nonce × Bool) :
    (i.handlePing p key probe source now draw).1.entry q = i.entry q := by
  rw [handlePing_fst]
  split_ifs
  · rw [entry_sendPing_of_ne h, noted, entry_modify, if_neg h]
  · rw [noted, entry_modify, if_neg h]

theorem learned_sendProbes (i : Inner) (udp : Bool) (p : NodeId) (now : ℕ)
    (draws : ℕ → Nonce × Bool) (a : SocketAddr) :
    ((i.sendProbes udp p now draws).1.entry p).learned.lookup a =
      ((i.entry p).learned.lookup a).filter fun seen => now - seen < learnedTtl := by
  rw [sendProbes, proj_sendPings Peer.learned (fun _ _ _ => rfl), pruneLearned,
    entry_modifyExisting _ _ _ rfl, if_pos rfl]
  dsimp only
  rw [Table.lookup_retain, prunePending, proj_modify Peer.learned (by intro; rfl)]

theorem learned_handlePing (i : Inner) (p : NodeId) (key : ProbeKey) (probe : Probe)
    (source : SocketAddr) (now : ℕ) (draw : Nonce × Bool) :
    ((i.handlePing p key probe source now draw).1.entry p).learned =
      if source ∈ (i.entry p).candidates then (i.entry p).learned
      else (i.entry p).learned.insert source now := by
  have hnoted : ((i.noted p source now).entry p).learned =
      if source ∈ (i.entry p).candidates then (i.entry p).learned
      else (i.entry p).learned.insert source now := by
    rw [noted, entry_modify, if_pos rfl]
    rfl
  rw [handlePing_fst]
  by_cases hback : (pingDue (i.entry p) source now).2 = true
  · rw [if_pos hback, proj_sendPing Peer.learned (fun _ _ _ => rfl), hnoted]
  · rw [if_neg hback, hnoted]

/-- A mark of a peer that some pings to it set: the address and the nonce say which. -/
structure PingMark (mark : Peer → Option ℕ) (hit : SocketAddr → Nonce → Prop) : Prop where
  sets : ∀ (e : Peer) addr n now, hit addr n → mark { e with
    pending := e.pending.insert n (addr, now), lastPing := e.lastPing.insert addr now } = some now
  keeps : ∀ (e : Peer) addr n now, ¬ hit addr n → mark { e with
    pending := e.pending.insert n (addr, now), lastPing := e.lastPing.insert addr now } = mark e

def Hits (hit : SocketAddr → Nonce → Prop) (p : NodeId) (outs : List UdpSend) : Prop :=
  ∃ dest keyId key n, hit dest n ∧ UdpSend.ping p dest ⟨probePing, keyId, n⟩ key ∈ outs

section Marks
variable {mark : Peer → Option ℕ} {hit : SocketAddr → Nonce → Prop}

theorem not_hits_nil : ¬ Hits hit p [] := by
  rintro ⟨dest, keyId, key, n, -, hmem⟩
  exact List.not_mem_nil hmem

theorem hits_append {xs ys : List UdpSend} : Hits hit p (xs ++ ys) ↔ Hits hit p xs ∨
    Hits hit p ys := by
  constructor
  · rintro ⟨dest, keyId, key, n, hhit, hmem⟩
    rcases List.mem_append.mp hmem with hmem | hmem
    · exact Or.inl ⟨dest, keyId, key, n, hhit, hmem⟩
    · exact Or.inr ⟨dest, keyId, key, n, hhit, hmem⟩
  · rintro (⟨dest, keyId, key, n, hhit, hmem⟩ | ⟨dest, keyId, key, n, hhit, hmem⟩)
    · exact ⟨dest, keyId, key, n, hhit, List.mem_append_left _ hmem⟩
    · exact ⟨dest, keyId, key, n, hhit, List.mem_append_right _ hmem⟩

theorem PingMark.sendPing (h : PingMark mark hit) (i : Inner) (udp : Bool) (p : NodeId)
    (addr : SocketAddr) (now : ℕ) (draw : Nonce × Bool) :
    (Hits hit p (i.sendPing udp p addr now draw).2.1 →
      mark ((i.sendPing udp p addr now draw).1.entry p) = some now) ∧
    (¬ Hits hit p (i.sendPing udp p addr now draw).2.1 →
      mark ((i.sendPing udp p addr now draw).1.entry p) = mark (i.entry p)) := by
  cases udp with
  | false =>
    rw [sendPing_relayOnly]
    exact ⟨fun hhits => absurd hhits not_hits_nil, fun _ => rfl⟩
  | true =>
    cases hkey : (i.entry p).probeKey with
    | none =>
      rw [sendPing_of_noKey hkey, entry_modify, if_pos rfl]
      exact ⟨fun hhits => absurd hhits not_hits_nil, fun _ => rfl⟩
    | some held =>
      rw [sendPing_of_key hkey]
      dsimp only
      rw [entry_modify, if_pos rfl]
      by_cases hhit : hit addr draw.1
      · exact ⟨fun _ => h.sets _ _ _ _ hhit, fun hnot =>
          absurd ⟨addr, held.1, held.2, draw.1, hhit, List.mem_singleton.mpr rfl⟩ hnot⟩
      · refine ⟨?_, fun _ => h.keeps _ _ _ _ hhit⟩
        rintro ⟨dest, keyId, key, n, hhit', hmem⟩
        cases List.mem_singleton.mp hmem
        exact absurd hhit' hhit

theorem PingMark.sendPings (h : PingMark mark hit) (udp : Bool) (p : NodeId) (now : ℕ)
    (targets : List SocketAddr) (i : Inner) (draws : ℕ → Nonce × Bool) :
    (Hits hit p (sendPings udp p now i draws targets).2.1 →
      mark ((sendPings udp p now i draws targets).1.entry p) = some now) ∧
    (¬ Hits hit p (sendPings udp p now i draws targets).2.1 →
      mark ((sendPings udp p now i draws targets).1.entry p) = mark (i.entry p)) := by
  induction targets generalizing i draws with
  | nil => exact ⟨fun hhits => absurd hhits not_hits_nil, fun _ => rfl⟩
  | cons addr rest ih =>
    rw [sendPings_cons_fst, sendPings_cons_out, hits_append, not_or]
    have hfirst := h.sendPing i udp p addr now (draws 0)
    have hrest := ih (i.sendPing udp p addr now (draws 0)).1 (fun k => draws (k + 1))
    constructor
    · intro hhits
      by_cases hlater :
        Hits hit p (Inner.sendPings udp p now (i.sendPing udp p addr now (draws 0)).1
          (fun k => draws (k + 1)) rest).2.1
      · exact hrest.1 hlater
      · rw [hrest.2 hlater]
        exact hfirst.1 (hhits.resolve_right hlater)
    · rintro ⟨hnow, hlater⟩
      rw [hrest.2 hlater, hfirst.2 hnow]

theorem PingMark.sendProbes (h : PingMark mark hit) (i : Inner) (udp : Bool) (p : NodeId) (now : ℕ)
    (draws : ℕ → Nonce × Bool) :
    (Hits hit p (i.sendProbes udp p now draws).2.1 →
      mark ((i.sendProbes udp p now draws).1.entry p) = some now) ∧
    (¬ Hits hit p (i.sendProbes udp p now draws).2.1 →
      mark ((i.sendProbes udp p now draws).1.entry p) =
        mark (((i.prunePending p now).pruneLearned p now).entry p)) :=
  h.sendPings udp p now (((i.prunePending p now).pruneLearned p now).probeTargets p now)
    ((i.prunePending p now).pruneLearned p now) draws

theorem PingMark.handlePing (h : PingMark mark hit)
    (hnoted : ∀ e lastPong learned,
      mark { e with lastPong := lastPong, learned := learned } = mark e)
    (i : Inner) (p : NodeId) (key : ProbeKey) (probe : Probe) (source : SocketAddr) (now : ℕ)
    (draw : Nonce × Bool) :
    (Hits hit p (i.handlePing p key probe source now draw).2 →
      mark ((i.handlePing p key probe source now draw).1.entry p) = some now) ∧
    (¬ Hits hit p (i.handlePing p key probe source now draw).2 →
      mark ((i.handlePing p key probe source now draw).1.entry p) = mark (i.entry p)) := by
  have hsame : mark ((i.noted p source now).entry p) = mark (i.entry p) :=
    proj_noted mark hnoted i p p source now
  have hpong : ∀ answer : Bool, ¬ Hits hit p
      (if answer then [UdpSend.pong p source ⟨probePong, probe.keyId, probe.nonce⟩ key]
        else []) := by
    rintro answer ⟨dest, keyId, key', n, -, hmem⟩
    cases answer
    · exact absurd hmem List.not_mem_nil
    · cases List.mem_singleton.mp hmem
  rw [handlePing_fst, handlePing_snd, hits_append, or_iff_right (hpong _)]
  split_ifs
  · rw [← hsame]
    exact h.sendPing (i.noted p source now) true p source now draw
  · exact ⟨fun hhits => absurd hhits not_hits_nil, fun _ => hsame⟩

end Marks

def sentAt (i : Inner) (p : NodeId) (n : Nonce) : Option ℕ :=
  ((i.entry p).pending.lookup n).map Prod.snd

def Carries (p : NodeId) (n : Nonce) (outs : List UdpSend) : Prop :=
  ∃ dest keyId key, UdpSend.ping p dest ⟨probePing, keyId, n⟩ key ∈ outs

theorem carries_iff {outs : List UdpSend} : Carries p n outs ↔ Hits (fun _ m => m = n) p outs := by
  constructor
  · rintro ⟨dest, keyId, key, hmem⟩
    exact ⟨dest, keyId, key, n, rfl, hmem⟩
  · rintro ⟨dest, keyId, key, m, rfl, hmem⟩
    exact ⟨dest, keyId, key, hmem⟩

theorem pingMark_nonce (n : Nonce) :
    PingMark (fun e => (e.pending.lookup n).map Prod.snd) (fun _ m => m = n) where
  sets e addr m now hm := by
    subst hm
    dsimp only
    rw [AList.lookup_insert]
    rfl
  keeps e addr m now hm := by
    dsimp only
    rw [AList.lookup_insert_ne (Ne.symm hm)]

theorem sentAt_sendProbes (i : Inner) (udp : Bool) (p : NodeId) (now : ℕ)
    (draws : ℕ → Nonce × Bool) (n : Nonce) :
    (Carries p n (i.sendProbes udp p now draws).2.1 →
      (i.sendProbes udp p now draws).1.sentAt p n = some now) ∧
    (¬ Carries p n (i.sendProbes udp p now draws).2.1 →
      (i.sendProbes udp p now draws).1.sentAt p n =
        (i.sentAt p n).filter fun sent => now - sent < probeTimeout) := by
  have hpruned : ((i.prunePending p now).pruneLearned p now).sentAt p n =
      (i.sentAt p n).filter fun sent => now - sent < probeTimeout := by
    rw [sentAt, sentAt, pending_pruneLearned, prunePending, entry_modify, if_pos rfl]
    dsimp only
    rw [Table.lookup_retain]
    cases (i.entry p).pending.lookup n with
    | none => rfl
    | some ping => simp only [Option.filter, Option.map]; split_ifs <;> rfl
  obtain ⟨hcarried, huncarried⟩ := (pingMark_nonce n).sendProbes i udp p now draws
  rw [carries_iff]
  exact ⟨hcarried, fun hnot => (huncarried hnot).trans hpruned⟩

theorem sentAt_handlePing (i : Inner) (p : NodeId) (key : ProbeKey) (probe : Probe)
    (source : SocketAddr) (now : ℕ) (draw : Nonce × Bool) (n : Nonce) :
    (Carries p n (i.handlePing p key probe source now draw).2 →
      (i.handlePing p key probe source now draw).1.sentAt p n = some now) ∧
    (¬ Carries p n (i.handlePing p key probe source now draw).2 →
      (i.handlePing p key probe source now draw).1.sentAt p n = i.sentAt p n) := by
  rw [carries_iff]
  exact (pingMark_nonce n).handlePing (fun _ _ _ => rfl) i p key probe source now draw

end Inner

namespace PathSocket
variable {P : Primitives} {hostOf : String → Option String} {s : PathSocket}
  {e : Event} {p : NodeId}

theorem AcceptsPong.not_ping {a a' : SocketAddr} {n n' : Nonce} {p' : NodeId} {keyId : ProbeKeyId}
    {key : ProbeKey} (h : s.AcceptsPong P e p a n) :
    ¬ s.ProbeArrives P e probePing p' a' keyId key n' := by
  obtain ⟨⟨keyId', key', hpong⟩, -⟩ := h
  intro hping
  exact absurd (hpong.unique hping).1 (by decide)

structure SameProbing (e e' : Peer) : Prop where
  candidates : e'.candidates = e.candidates
  pending : e'.pending = e.pending
  lastPing : e'.lastPing = e.lastPing
  lastPong : e'.lastPong = e.lastPong
  learned : e'.learned = e.learned

structure Aside (P : Primitives) (s : PathSocket) (e : Event) (p : NodeId) : Prop where
  begins : e ≠ .beginSession p
  probes : ∀ draws, e ≠ .sendProbes p draws
  lists : ∀ candidates, e ≠ .setPeerCandidates p candidates
  pings : ∀ source keyId key n, ¬ s.ProbeArrives P e probePing p source keyId key n
  pongs : ∀ source n, ¬ s.AcceptsPong P e p source n

/-- What a step can do to the probing of a peer. -/
inductive ProbeMove (P : Primitives) (s : PathSocket) (e : Event) (p : NodeId) : Peer → Prop where
  | keeps {entry : Peer} (h : SameProbing (s.inner.entry p) entry) (haside : s.Aside P e p) :
    ProbeMove P s e p entry
  | lists {candidates : List SocketAddr} (h : e = .setPeerCandidates p candidates) :
    ProbeMove P s e p { s.inner.entry p with
      candidates := (candidates.map SocketAddr.unmapIpv6).filter s.canReach
      updates := (s.inner.entry p).updates + 1 }
  | begins (h : e = .beginSession p) : ProbeMove P s e p (s.inner.entry p).clean
  | probes {draws : ℕ → Nonce × Bool} (h : e = .sendProbes p draws) :
    ProbeMove P s e p ((s.inner.sendProbes s.udp p s.now draws).1.entry p)
  | hears {source : SocketAddr} {keyId : ProbeKeyId} {key : ProbeKey} {n : Nonce}
      {draw : Nonce × Bool} {data : List UInt8} {sender : SocketAddr}
      (hevent : e = .recvDirect sender data draw)
      (h : s.ProbeArrives P e probePing p source keyId key n) :
    ProbeMove P s e p
      ((s.inner.handlePing p key ⟨probePing, keyId, n⟩ source s.now draw).1.entry p)
  | proves {source : SocketAddr} {n : Nonce} (h : s.AcceptsPong P e p source n) :
    ProbeMove P s e p ((s.inner.entry p).prove n source s.now)

theorem not_probeArrives {kind : UInt8} {source : SocketAddr} {keyId : ProbeKeyId} {key : ProbeKey}
    {n : Nonce} (he : e.isRecvDirect = false) : ¬ s.ProbeArrives P e kind p source keyId key n := by
  rintro ⟨-, -, sender, draw, rfl, -⟩
  exact Bool.noConfusion he

theorem aside_of_not_recvDirect (he : e.isRecvDirect = false) (hbegins : e ≠ .beginSession p)
    (hprobes : ∀ draws, e ≠ .sendProbes p draws)
    (hlists : ∀ candidates, e ≠ .setPeerCandidates p candidates) : s.Aside P e p :=
  ⟨hbegins, hprobes, hlists, fun _ _ _ _ => not_probeArrives he,
    fun _ _ => not_acceptsPong_of_not_recvDirect he⟩

def probing (e : Peer) : List SocketAddr × Table Nonce (SocketAddr × ℕ) × Table SocketAddr ℕ ×
    Table SocketAddr ℕ × Table SocketAddr ℕ :=
  (e.candidates, e.pending, e.lastPing, e.lastPong, e.learned)

theorem sameProbing_of_eq {e e' : Peer} (h : probing e' = probing e) : SameProbing e e' := by
  simp only [probing, Prod.mk.injEq] at h
  exact ⟨h.1, h.2.1, h.2.2.1, h.2.2.2.1, h.2.2.2.2⟩

theorem entry_recvDirect (p : NodeId) (sender : SocketAddr) (data : List UInt8)
    (draw : Nonce × Bool)
    (hpings : ∀ source keyId key n,
      ¬ s.ProbeArrives P (.recvDirect sender data draw) probePing p source keyId key n)
    (hpongs : ∀ source n, ¬ s.AcceptsPong P (.recvDirect sender data draw) p source n) :
    (s.recvDirect P sender data draw).1.inner.entry p = s.inner.entry p := by
  rcases recvDirect_cases P s sender data draw with
    ⟨q, keyId, key, n, harrives, hexec⟩ | ⟨q, keyId, key, n, harrives, hexec⟩ |
    ⟨inbound, reflexive, reflectorNonce, hexec⟩
  · have hq : p ≠ q := by
      rintro rfl
      exact hpings _ _ _ _ harrives
    rw [hexec]
    exact Inner.entry_handlePing_of_ne hq _ _ _ _ _ _
  · rw [hexec]
    dsimp only
    cases hpending : (s.inner.entry q).pending.lookup n with
    | none => rw [Inner.acceptPong_of_none hpending]
    | some ping =>
      have hsome : ((s.inner.entry q).pending.lookup n).isSome := by rw [hpending]; rfl
      have hq : p ≠ q := by
        rintro rfl
        exact hpongs _ _ ⟨⟨keyId, key, harrives⟩, hsome⟩
      rw [Inner.entry_acceptPong hsome, if_neg hq]
  · rw [hexec]

theorem probeMove_recvDirect (s : PathSocket) (p : NodeId) (sender : SocketAddr)
    (data : List UInt8) (draw : Nonce × Bool) :
    ProbeMove P s (.recvDirect sender data draw) p
      ((s.recvDirect P sender data draw).1.inner.entry p) := by
  by_cases hping : ∃ source keyId key n,
      s.ProbeArrives P (.recvDirect sender data draw) probePing p source keyId key n
  · obtain ⟨source, keyId, key, n, harrives⟩ := hping
    rw [recvDirect_of_arrives harrives (Or.inl rfl)]
    exact .hears rfl harrives
  by_cases hpong : ∃ source n, s.AcceptsPong P (.recvDirect sender data draw) p source n
  · obtain ⟨source, n, haccepts⟩ := hpong
    obtain ⟨⟨keyId, key, harrives⟩, hpending⟩ := haccepts
    have hentry : (s.recvDirect P sender data draw).1.inner.entry p =
        (s.inner.acceptPong p n source s.now).entry p := by
      rw [recvDirect_of_arrives harrives (Or.inr rfl)]
      rfl
    rw [hentry, Inner.entry_acceptPong hpending, if_pos rfl]
    exact .proves ⟨⟨keyId, key, harrives⟩, hpending⟩
  simp only [not_exists] at hping hpong
  rw [entry_recvDirect p sender data draw hping hpong]
  exact .keeps (sameProbing_of_eq rfl) ⟨by simp, by simp, by simp, hping, hpong⟩

theorem probeMove_step (P : Primitives) (hostOf : String → Option String) (s : PathSocket)
    (e : Event) (p : NodeId) : ProbeMove P s e p ((s.step P hostOf e).inner.entry p) := by
  have hquiet : e.touchesPaths = false → (∀ candidates, e ≠ .setPeerCandidates p candidates) →
      s.Aside P e p → ProbeMove P s e p ((s.step P hostOf e).inner.entry p) :=
    fun he hlists haside => .keeps (sameProbing_of_eq
      (proj_step_of_unlisted P hostOf probing (fun _ _ => rfl) s he p hlists)) haside
  cases e with
  | setPeerCandidates q candidates =>
    by_cases hq : p = q
    · subst hq
      simp only [step, exec, Inner.setPeerCandidates, Inner.entry_modify, if_true]
      exact .lists rfl
    · have hlists : ∀ list, Event.setPeerCandidates q candidates ≠ .setPeerCandidates p list :=
        fun list h => hq (Event.setPeerCandidates.inj h).1.symm
      exact hquiet rfl hlists (aside_of_not_recvDirect rfl (by simp) (by simp) hlists)
  | beginSession q =>
    simp only [step, exec, Inner.entry_beginSession]
    by_cases hq : p = q
    · subst hq
      rw [if_pos rfl]
      exact .begins rfl
    · rw [if_neg hq]
      exact .keeps (sameProbing_of_eq rfl)
        (aside_of_not_recvDirect rfl (fun h => hq (Event.beginSession.inj h).symm)
          (by simp) (by simp))
  | dropDirect q session =>
    refine .keeps (sameProbing_of_eq ?_) (aside_of_not_recvDirect rfl (by simp) (by simp) (by simp))
    simp only [step, exec, Inner.entry_dropDirect]
    split_ifs with hq
    · rw [hq.1]
      rfl
    · rfl
  | registerProbeKey session q keyId key =>
    exact .keeps (sameProbing_of_eq
      (Inner.proj_registerProbeKey probing (fun _ _ => rfl) s.inner q p keyId key))
      (aside_of_not_recvDirect rfl (by simp) (by simp) (by simp))
  | unregisterProbeKey keyId =>
    exact .keeps (sameProbing_of_eq
      (Inner.proj_unregisterProbeKey probing (fun _ _ => rfl) s.inner p keyId))
      (aside_of_not_recvDirect rfl (by simp) (by simp) (by simp))
  | sendProbes q draws =>
    by_cases hq : p = q
    · subst hq
      exact .probes rfl
    · simp only [step, exec, Inner.entry_sendProbes_of_ne hq]
      exact .keeps (sameProbing_of_eq rfl) (aside_of_not_recvDirect rfl (by simp)
        (fun draws' h => hq (Event.sendProbes.inj h).1.symm) (by simp))
  | recvDirect sender data draw => exact probeMove_recvDirect s p sender data draw
  | _ =>
    exact hquiet rfl (by simp) (aside_of_not_recvDirect rfl (by simp) (by simp) (by simp))

section Inversion
variable {entry : Peer} {a : SocketAddr} {n : Nonce}

theorem ProbeMove.of_begins (h : ProbeMove P s (.beginSession p) p entry) :
    entry = (s.inner.entry p).clean := by
  cases h with
  | keeps _ haside => exact absurd rfl haside.begins
  | lists he => cases he
  | begins => rfl
  | probes he => cases he
  | hears he => cases he
  | proves haccepts => exact absurd haccepts (not_acceptsPong_of_not_recvDirect rfl)

theorem ProbeMove.of_accepts (h : ProbeMove P s e p entry) (haccepts : s.AcceptsPong P e p a n) :
    entry = (s.inner.entry p).prove n a s.now := by
  cases h with
  | keeps _ haside => exact absurd haccepts (haside.pongs _ _)
  | lists he => exact absurd haccepts (not_acceptsPong_of_not_recvDirect (by rw [he]; rfl))
  | begins he => exact absurd haccepts (not_acceptsPong_of_not_recvDirect (by rw [he]; rfl))
  | probes he => exact absurd haccepts (not_acceptsPong_of_not_recvDirect (by rw [he]; rfl))
  | hears _ hheard => exact absurd hheard haccepts.not_ping
  | proves haccepts' =>
    obtain ⟨⟨keyId, key, hpong⟩, -⟩ := haccepts
    obtain ⟨⟨keyId', key', hpong'⟩, -⟩ := haccepts'
    obtain ⟨-, -, rfl, -, -, rfl⟩ := hpong'.unique hpong
    rfl

theorem direct_of_accepted (h : s.AcceptsPong P e p a n) :
    ((s.step P hostOf e).inner.entry p).direct = some ⟨a, s.now⟩ := by
  rw [(probeMove_step P hostOf s e p).of_accepts h]
  rfl

end Inversion

theorem now_le_after (P : Primitives) (hostOf : String → Option String) (start : PathSocket)
    (es : List Event) : start.now ≤ (after P hostOf start es).now :=
  invariant (step P hostOf) (I := fun s => start.now ≤ s.now) le_rfl
    (fun s e h => h.trans (clock_step P hostOf s e).2) es

theorem udp_after (P : Primitives) (hostOf : String → Option String) (start : PathSocket)
    (es : List Event) : (after P hostOf start es).udp = start.udp :=
  invariant (step P hostOf) (I := fun s => s.udp = start.udp) rfl
    (fun s e h => (clock_step P hostOf s e).1.trans h) es

end PathSocket

end ForgeswornLink
