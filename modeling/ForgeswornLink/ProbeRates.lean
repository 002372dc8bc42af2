import ForgeswornLink.LearntAddresses

/-!
# How much a replayed ping buys

A valid ping is answered and may be probed back, whoever sent it and however
often. What bounds this are three stamps of each address, which only the start of
a session clears: when it was last answered, when it was last pinged, and when it
was last heard from. The first two are spaced by a second, the third makes the
address a probe target for ten.
-/

namespace ForgeswornLink
open Runs Stamps

def UdpSend.isPongTo (p : NodeId) (a : SocketAddr) : UdpSend → Bool
  | .pong peer dest _ _ => peer = p ∧ dest = a
  | _ => false

theorem UdpSend.isPongTo_iff {p : NodeId} {a : SocketAddr} {out : UdpSend} :
    out.isPongTo p a = true ↔ ∃ probe key, out = .pong p a probe key := by
  cases out <;> simp [isPongTo]

namespace Inner

theorem pingMark_address (a : SocketAddr) :
    PingMark (fun e => e.lastPing.lookup a) (fun addr _ => addr = a) where
  sets e addr n now h := by
    subst h
    exact AList.lookup_insert _
  keeps e addr n now h := AList.lookup_insert_ne (Ne.symm h)

theorem lastPong_handlePing (i : Inner) (p : NodeId) (key : ProbeKey) (probe : Probe)
    (source : SocketAddr) (now : ℕ) (draw : Nonce × Bool) :
    ((i.handlePing p key probe source now draw).1.entry p).lastPong =
      if (pingDue (i.entry p) source now).1 then (i.entry p).lastPong.insert source now
      else (i.entry p).lastPong := by
  have hnoted : ((i.noted p source now).entry p).lastPong =
      if (pingDue (i.entry p) source now).1 then (i.entry p).lastPong.insert source now
      else (i.entry p).lastPong := by
    rw [noted, entry_modify, if_pos rfl]
    rfl
  rw [handlePing_fst]
  by_cases hback : (pingDue (i.entry p) source now).2 = true
  · rw [if_pos hback, proj_sendPing Peer.lastPong (fun _ _ _ => rfl), hnoted]
  · rw [if_neg hback, hnoted]

end Inner

namespace PathSocket

section Step
variable (P : Primitives) (hostOf : String → Option String) (s : PathSocket)
  (e : Event) (p : NodeId) (a : SocketAddr)

def HearsPing : Prop := ∃ keyId key n, s.ProbeArrives P e probePing p a keyId key n

def PongsTo : Prop := ∃ probe key, UdpSend.pong p a probe key ∈ s.sends P hostOf e

def PingsTo : Prop := ∃ probe key, UdpSend.ping p a probe key ∈ s.sends P hostOf e

end Step

section Sends
variable {P : Primitives} {hostOf : String → Option String} {s : PathSocket}
  {e : Event} {p : NodeId} {a : SocketAddr}

theorem sends_of_hears (hostOf : String → Option String) {keyId : ProbeKeyId}
    {key : ProbeKey} {n : Nonce} (h : s.ProbeArrives P e probePing p a keyId key n) :
    ∃ draw, s.sends P hostOf e =
      (s.inner.handlePing p key ⟨probePing, keyId, n⟩ a s.now draw).2 := by
  obtain ⟨-, -, sender, draw, rfl, -⟩ := id h
  refine ⟨draw, ?_⟩
  rw [sends, exec, recvDirect_of_arrives h (Or.inl rfl)]
  rfl

theorem pongsTo_iff :
    s.PongsTo P hostOf e p a ↔
      s.HearsPing P e p a ∧ (Inner.pingDue (s.inner.entry p) a s.now).1 = true := by
  constructor
  · rintro ⟨probe, key, hpong⟩
    rcases sends_cases hpong with ⟨q, -, -, addr, keyId, key', n, hping, -⟩ |
      ⟨q, source, keyId, key', n, harrives, hout⟩ | ⟨reflector, n, hreflect⟩ |
      ⟨destination, contents, result, q, proven, -, -, -, -, hquic⟩
    · cases hping
    · cases hout
      refine ⟨⟨keyId, key, n, harrives⟩, ?_⟩
      obtain ⟨draw, hsends⟩ := sends_of_hears hostOf harrives
      rw [hsends, Inner.handlePing_snd, List.mem_append] at hpong
      by_contra hnot
      rw [if_neg hnot] at hpong
      rcases hpong with hpong | hpong
      · exact List.not_mem_nil hpong
      · split_ifs at hpong
        · obtain ⟨-, dest, keyId', key', n', hping, -⟩ := Inner.sendPing_out hpong
          cases hping
        · exact List.not_mem_nil hpong
    · cases hreflect
    · cases hquic
  · rintro ⟨⟨keyId, key, n, harrives⟩, hdue⟩
    obtain ⟨draw, hsends⟩ := sends_of_hears hostOf harrives
    refine ⟨⟨probePong, keyId, n⟩, key, ?_⟩
    rw [hsends, Inner.handlePing_snd, if_pos hdue]
    exact List.mem_append_left _ (List.mem_singleton_self _)

theorem counterProbe_due (h : s.HearsPing P e p a) {q : NodeId} {dest : SocketAddr}
    (hping : s.PingsTo P hostOf e q dest) :
    (q = p ∧ dest = a) ∧ (Inner.pingDue (s.inner.entry p) a s.now).2 = true := by
  obtain ⟨keyId, key, n, harrives⟩ := h
  obtain ⟨probe, key', hping⟩ := hping
  obtain ⟨draw, hsends⟩ := sends_of_hears hostOf harrives
  rw [hsends, Inner.handlePing_snd, List.mem_append] at hping
  rcases hping with hpong | hping
  · split_ifs at hpong
    · cases List.mem_singleton.mp hpong
    · exact absurd hpong List.not_mem_nil
  · split_ifs at hping with hback
    · refine ⟨?_, hback⟩
      cases hkey : ((s.inner.noted p a s.now).entry p).probeKey with
      | none =>
        rw [Inner.sendPing_of_noKey hkey] at hping
        exact absurd hping List.not_mem_nil
      | some held =>
        rw [Inner.sendPing_of_key hkey] at hping
        cases List.mem_singleton.mp hping
        exact ⟨rfl, rfl⟩
    · exact absurd hping List.not_mem_nil

theorem pongs_le_one (P : Primitives) (hostOf : String → Option String) (s : PathSocket) (e : Event)
    (p : NodeId) (a : SocketAddr) : (s.sends P hostOf e).countP (UdpSend.isPongTo p a) ≤ 1 := by
  by_cases hpongs : s.PongsTo P hostOf e p a
  · obtain ⟨⟨keyId, key, n, harrives⟩, hdue⟩ := pongsTo_iff.mp hpongs
    obtain ⟨draw, hsends⟩ := sends_of_hears hostOf harrives
    have hback : (if (Inner.pingDue (s.inner.entry p) a s.now).2 then
        ((s.inner.noted p a s.now).sendPing true p a s.now draw).2.1 else []).countP
          (UdpSend.isPongTo p a) = 0 := by
      rw [List.countP_eq_zero]
      intro out hout
      split_ifs at hout
      · obtain ⟨-, addr, keyId', key', n', rfl, -⟩ := Inner.sendPing_out hout
        exact Bool.false_ne_true
      · exact absurd hout List.not_mem_nil
    rw [hsends, Inner.handlePing_snd, if_pos hdue, List.countP_append, hback, Nat.add_zero]
    exact List.countP_le_length
  · refine (List.countP_eq_zero.mpr fun out hout hpong => hpongs ?_).trans_le (Nat.zero_le 1)
    obtain ⟨probe, key, rfl⟩ := UdpSend.isPongTo_iff.mp hpong
    exact ⟨probe, key, hout⟩

theorem pingsTo_iff_hits :
    s.PingsTo P hostOf e p a ↔ Inner.Hits (fun addr _ => addr = a) p (s.sends P hostOf e) := by
  constructor
  · rintro ⟨probe, key, hping⟩
    rcases sends_cases hping with ⟨q, -, -, addr, keyId, key', n, hout, -⟩ |
      ⟨q, source, keyId, key', n, -, hout⟩ | ⟨reflector, n, hreflect⟩ |
      ⟨destination, contents, result, q, proven, -, -, -, -, hquic⟩
    · cases hout
      exact ⟨a, keyId, key, n, rfl, hping⟩
    · cases hout
    · cases hreflect
    · cases hquic
  · rintro ⟨dest, keyId, key, n, rfl, hping⟩
    exact ⟨_, key, hping⟩

end Sends

/-! ### The two stamps -/

section Stamping
variable {P : Primitives} {hostOf : String → Option String} {s : PathSocket}
  {e : Event} {p : NodeId} {a : SocketAddr}

theorem lastPong_of_pongs (h : s.PongsTo P hostOf e p a) :
    ((s.step P hostOf e).inner.entry p).lastPong.lookup a = some s.now := by
  obtain ⟨⟨keyId, key, n, harrives⟩, hdue⟩ := pongsTo_iff.mp h
  have hmove := probeMove_step P hostOf s e p
  generalize (s.step P hostOf e).inner.entry p = entry at hmove ⊢
  cases hmove with
  | keeps _ haside => exact absurd harrives (haside.pings _ _ _ _)
  | lists he => exact absurd harrives (not_probeArrives (by rw [he]; rfl))
  | begins he => exact absurd harrives (not_probeArrives (by rw [he]; rfl))
  | probes he => exact absurd harrives (not_probeArrives (by rw [he]; rfl))
  | hears _ hheard =>
    obtain ⟨-, -, rfl, -⟩ := hheard.unique harrives
    rw [Inner.lastPong_handlePing, if_pos hdue]
    exact AList.lookup_insert _
  | proves haccepts => exact absurd harrives haccepts.not_ping

theorem lastPong_otherwise (h : ¬ s.PongsTo P hostOf e p a) (hbegins : e ≠ .beginSession p) :
    ((s.step P hostOf e).inner.entry p).lastPong.lookup a =
    (s.inner.entry p).lastPong.lookup a := by
  have hmove := probeMove_step P hostOf s e p
  generalize (s.step P hostOf e).inner.entry p = entry at hmove ⊢
  cases hmove with
  | keeps hsame => rw [hsame.lastPong]
  | lists => rfl
  | begins he => exact absurd he hbegins
  | probes => rw [Inner.proj_sendProbes Peer.lastPong (fun _ _ _ _ => rfl)]
  | @hears source _ _ _ _ _ _ he hheard =>
    rw [Inner.lastPong_handlePing]
    split_ifs with hdue
    · have hne : a ≠ source := by
        rintro rfl
        exact h (pongsTo_iff.mpr ⟨⟨_, _, _, hheard⟩, hdue⟩)
      exact AList.lookup_insert_ne hne
    · rfl
  | proves => rfl

theorem lastPong_stamping (P : Primitives) (hostOf : String → Option String) (p : NodeId)
    (a : SocketAddr) :
    Stamping (step P hostOf) now (fun s => (s.inner.entry p).lastPong.lookup a) pongInterval
      (fun s e => s.PongsTo P hostOf e p a) (fun _ e => e = .beginSession p)
      (fun _ _ => False) where
  forward s e := (clock_step P hostOf s e).2
  set s e := lastPong_of_pongs
  clear s e _ hbegins := by
    subst hbegins
    rw [(probeMove_step P hostOf s (.beginSession p) p).of_begins]
    rfl
  sweep s e _ _ hfalse := hfalse.elim
  keep s e hpongs hbegins _ := lastPong_otherwise hpongs hbegins

theorem lastPing_step :
    (s.PingsTo P hostOf e p a →
      ((s.step P hostOf e).inner.entry p).lastPing.lookup a = some s.now) ∧
    (¬ s.PingsTo P hostOf e p a → e ≠ .beginSession p →
      ((s.step P hostOf e).inner.entry p).lastPing.lookup a =
      (s.inner.entry p).lastPing.lookup a) := by
  rw [pingsTo_iff_hits]
  have hprobes : ¬ s.Probes P e p → ¬ Inner.Hits (fun addr _ => addr = a) p
      (s.sends P hostOf e) := by
    rintro hnot ⟨dest, keyId, key, n, -, hping⟩
    exact hnot (key_of_ping hping).1
  have hmove := probeMove_step P hostOf s e p
  generalize hentry : (s.step P hostOf e).inner.entry p = entry at hmove ⊢
  cases hmove with
  | keeps hsame haside =>
    refine ⟨fun hhits => absurd hhits (hprobes ?_), fun _ _ => by rw [hsame.lastPing]⟩
    rintro (⟨draws, he⟩ | ⟨source, keyId, key, n, hping⟩)
    · exact haside.probes draws he
    · exact haside.pings _ _ _ _ hping
  | lists he =>
    subst he
    refine ⟨fun hhits => absurd hhits (hprobes ?_), fun _ _ => rfl⟩
    rintro (⟨draws, he⟩ | ⟨source, keyId, key, n, hping⟩)
    · cases he
    · exact not_probeArrives rfl hping
  | begins he =>
    subst he
    refine ⟨fun hhits => absurd hhits (hprobes ?_), fun _ hbegins => absurd rfl hbegins⟩
    rintro (⟨draws, he⟩ | ⟨source, keyId, key, n, hping⟩)
    · cases he
    · exact not_probeArrives rfl hping
  | @probes draws he =>
    subst he
    obtain ⟨hhit, hmiss⟩ := (Inner.pingMark_address a).sendProbes s.inner s.udp p s.now draws
    refine ⟨hhit, fun hnot _ => (hmiss hnot).trans ?_⟩
    rw [Inner.pruneLearned, Inner.entry_modifyExisting _ _ _ rfl, if_pos rfl, Inner.prunePending,
      Inner.entry_modify, if_pos rfl]
  | @hears source keyId key n draw data sender he hheard =>
    subst he
    have hsends : s.sends P hostOf (.recvDirect sender data draw) =
        (s.inner.handlePing p key ⟨probePing, keyId, n⟩ source s.now draw).2 := by
      rw [sends, exec, recvDirect_of_arrives hheard (Or.inl rfl)]
      rfl
    rw [hsends]
    obtain ⟨hhit, hmiss⟩ := (Inner.pingMark_address a).handlePing (fun _ _ _ => rfl) s.inner p key
      ⟨probePing, keyId, n⟩ source s.now draw
    exact ⟨hhit, fun hnot _ => hmiss hnot⟩
  | proves haccepts =>
    refine ⟨fun hhits => absurd hhits (hprobes ?_), fun _ _ => rfl⟩
    rintro (⟨draws, rfl⟩ | ⟨source, keyId, key, n, hping⟩)
    · exact not_acceptsPong_of_not_recvDirect rfl haccepts
    · exact haccepts.not_ping hping

theorem lastPing_stamping (P : Primitives) (hostOf : String → Option String) (p : NodeId)
    (a : SocketAddr) :
    Stamping (step P hostOf) now (fun s => (s.inner.entry p).lastPing.lookup a) counterProbeInterval
      (fun s e => s.PingsTo P hostOf e p a) (fun _ e => e = .beginSession p)
      (fun _ _ => False) where
  forward s e := (clock_step P hostOf s e).2
  set s e := lastPing_step.1
  clear s e _ hbegins := by
    subst hbegins
    rw [(probeMove_step P hostOf s (.beginSession p) p).of_begins]
    rfl
  sweep s e _ _ hfalse := hfalse.elim
  keep s e hpings hbegins _ := lastPing_step.2 hpings hbegins

end Stamping

/-! ### The bounds -/

/-- In every run of a path socket, for a peer and an address.

Two pongs for the peer to the address, in one slot of the peer, are a second apart, and one step
sends at most one. A ping that is probed back is probed back at its source; there was no fresh proof
for the source then, and every ping to it in this slot was at least a second old. An address off the
peer's list is no probe target, and no round pings it, once every ping from it in this slot is ten
seconds old. -/
theorem probe_replay_bounded (P : Primitives) (hostOf : String → Option String) (nodeId : NodeId)
    (udp : Bool) (udpLocal : SocketAddr) (relays : List String) (book : Option TagBook)
    (reflector : Option SocketAddr) (now unixNow : ℕ) (p : NodeId) (a : SocketAddr) :
    let s := after P hostOf (assemble nodeId udp udpLocal relays book reflector now unixNow)
    (∀ es e, ((s es).sends P hostOf e).countP (UdpSend.isPongTo p a) ≤ 1) ∧
    (∀ pre e mid e', (∀ between ∈ mid, between ≠ .beginSession p) →
      (s pre).PongsTo P hostOf e p a → (s (pre ++ e :: mid)).PongsTo P hostOf e' p a →
      (s pre).now + pongInterval ≤ (s (pre ++ e :: mid)).now) ∧
    (∀ es e q dest, (s es).HearsPing P e p a → (s es).PingsTo P hostOf e q dest →
      (q = p ∧ dest = a) ∧ ¬ (s es).InUse p a ∧
      ∀ pre e' mid, es = pre ++ e' :: mid → (∀ between ∈ mid, between ≠ .beginSession p) →
        (s pre).PingsTo P hostOf e' p a → (s pre).now + counterProbeInterval ≤ (s es).now) ∧
    (∀ es, a ∉ ((s es).inner.entry p).candidates →
      (∀ pre e post, es = pre ++ e :: post → (∀ later ∈ post, later ≠ .beginSession p) →
        (s pre).HearsPing P e p a → (s pre).now + learnedTtl ≤ (s es).now) →
      a ∉ (s es).inner.probeTargets p (s es).now ∧
        ∀ draws, ¬ (s es).PingsTo P hostOf (.sendProbes p draws) p a) := by
  intro s
  have hmem : ∀ {mid mid' rest : List Event} {e : Event},
      (∀ between ∈ mid, between ≠ .beginSession p) → mid = mid' ++ e :: rest →
        e ≠ .beginSession p := by
    intro mid mid' rest e hmid heq
    exact hmid e (heq ▸ List.mem_append_right _ List.mem_cons_self)
  refine ⟨fun es e => pongs_le_one P hostOf _ e p a, ?_, ?_, ?_⟩
  · intro pre e mid e' hmid hfirst hsecond
    refine (lastPong_stamping P hostOf p a).spaced hfirst
      (fun mid' between rest heq => ⟨hmem hmid heq, id⟩) fun t ht => ?_
    have hdue := (pongsTo_iff.mp hsecond).2
    have hlookup : ((s (pre ++ e :: mid)).inner.entry p).lastPong.lookup a = some t := ht
    rw [Inner.pingDue] at hdue
    dsimp only at hdue
    rw [hlookup] at hdue
    exact of_decide_eq_true hdue
  · intro es e q dest hhears hpings
    obtain ⟨hdest, hback⟩ := counterProbe_due hhears hpings
    rw [Inner.pingDue, Bool.and_eq_true, Bool.not_eq_true', Bool.not_eq_true'] at hback
    refine ⟨hdest, ?_, ?_⟩
    · rintro ⟨t, hdirect, hfresh⟩
      rw [hdirect] at hback
      simp [hfresh] at hback
    · rintro pre e' mid rfl hmid hearlier
      refine (lastPing_stamping P hostOf p a).spaced hearlier
        (fun mid' between rest heq => ⟨hmem hmid heq, id⟩) fun t ht => ?_
      have hlookup : ((s (pre ++ e' :: mid)).inner.entry p).lastPing.lookup a = some t := ht
      rw [hlookup] at hback
      exact not_lt.mp (of_decide_eq_false hback.2)
  · intro es hunlisted hold
    have hnot : a ∉ (s es).inner.probeTargets p (s es).now := by
      intro htarget
      rcases (target_iff rfl es).mp htarget with hlisted |
        ⟨pre, e, post, heq, ⟨hteaches, hlive⟩, hpost⟩
      · exact hunlisted hlisted
      · refine absurd (hold pre e post heq ?_ hteaches.1) (not_le.mpr hlive)
        intro later hlater
        obtain ⟨mid, rest, rfl⟩ := List.append_of_mem hlater
        exact fun hbegins => hpost mid later rest rfl (Or.inl hbegins)
    refine ⟨hnot, fun draws ⟨probe, key, hping⟩ => hnot ?_⟩
    have hout : UdpSend.ping p a probe key ∈
        ((s es).inner.sendProbes (s es).udp p (s es).now draws).2.1 := hping
    obtain ⟨hudp, dest, keyId, key', n, heq, hkey⟩ := Inner.sendProbes_out hout
    rw [hudp] at hout
    cases heq
    exact (Inner.mem_sendProbes hkey _ draws a).mp ⟨n, hout⟩

section Replay

def strayReplay : Event := strayProbe probePing 5

def strayKeyed : List Event := strayProved.take 3

theorem replayed_ping_bounded :
    let P := Primitives.standIn
    let s := after P (fun _ => none) strayStart
    let later := strayKeyed ++ strayReplay :: [strayReplay, .tick second]
    ((s strayKeyed).PongsTo P (fun _ => none) strayReplay strayPeer strayAddr ∧
      (s later).PongsTo P (fun _ => none) strayReplay strayPeer strayAddr ∧
      (s strayKeyed).now + pongInterval ≤ (s later).now) ∧
    ((s later).HearsPing P strayReplay strayPeer strayAddr ∧
      (s later).PingsTo P (fun _ => none) strayReplay strayPeer strayAddr ∧
      ¬ (s later).InUse strayPeer strayAddr ∧
      (s strayKeyed).now + counterProbeInterval ≤ (s later).now) ∧
    strayAddr ∉ (s (strayKeyed ++ [strayReplay, .tick (10 * second)])).inner.probeTargets strayPeer
      (s (strayKeyed ++ [strayReplay, .tick (10 * second)])).now := by
  intro P s later
  have hbounds := probe_replay_bounded P (fun _ => none) ⟨List.Vector.replicate 32 0⟩ true
    (.v4 (List.Vector.replicate 4 0) 0) [] none none 0 0 strayPeer strayAddr
  have hmid : ∀ between ∈ [strayReplay, Event.tick second], between ≠ .beginSession strayPeer := by
    simp [strayReplay, strayProbe]
  have hfirst : (s strayKeyed).PongsTo P (fun _ => none) strayReplay strayPeer strayAddr :=
    ⟨⟨probePong, List.Vector.replicate 8 3, List.Vector.replicate 16 5⟩, List.Vector.replicate 32 4,
      by decide +kernel⟩
  have hsecond : (s later).PongsTo P (fun _ => none) strayReplay strayPeer strayAddr :=
    ⟨⟨probePong, List.Vector.replicate 8 3, List.Vector.replicate 16 5⟩, List.Vector.replicate 32 4,
      by decide +kernel⟩
  have hhears := (pongsTo_iff.mp hsecond).1
  have hback : ∀ es ∈ [strayKeyed, later],
      (s es).PingsTo P (fun _ => none) strayReplay strayPeer strayAddr := by
    intro es hes
    refine ⟨⟨probePing, List.Vector.replicate 8 3, List.Vector.replicate 16 6⟩,
      List.Vector.replicate 32 4, ?_⟩
    revert es
    decide +kernel
  have hpings := hback later (by simp)
  obtain ⟨-, hfree, hspaced⟩ := hbounds.2.2.1 later strayReplay strayPeer strayAddr hhears hpings
  refine ⟨⟨hfirst, hsecond, hbounds.2.1 _ _ _ _ hmid hfirst hsecond⟩,
    ⟨hhears, hpings, hfree, hspaced _ _ _ rfl hmid (hback strayKeyed (by simp))⟩, ?_⟩
  refine (hbounds.2.2.2 _ (by decide +kernel) ?_).1
  rintro pre e post heq _ ⟨keyId, key, n, harrives⟩
  rcases @snoc_eq_append_cons _ (strayKeyed ++ [strayReplay]) _ _ _ _ heq with ⟨-, rfl, -⟩ |
    ⟨post', heq, -⟩
  · exact absurd harrives (not_probeArrives rfl)
  · have hforward := (lastPong_stamping P (fun _ => none) strayPeer strayAddr).clock_run
      (s pre) (e :: post')
    rw [← run_append, ← heq] at hforward
    exact (Nat.add_le_add_right hforward learnedTtl).trans (by decide +kernel)

end Replay

end PathSocket

end ForgeswornLink
