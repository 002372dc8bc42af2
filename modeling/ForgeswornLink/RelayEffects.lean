import ForgeswornLink.SendOutcome

/-!
# What a step does to the relay drivers

A driver changes by its own task, by a send that fills its queue, and by the end
of the pool; a relay list named for the first time starts one. A driver says that
it was superseded only after its relay told it so, in identity mode.
-/

namespace ForgeswornLink
open Runs

namespace RelayClient

theorem eq_of_driver_spawn {urls : List String} {id : ℕ} {d : RelayDriver}
    (h : (spawn urls).driver id = some d) : d = RelayDriver.spawn 0 urls := by
  have hmem := AList.mem_lookup_iff.mp (Option.mem_def.mpr h)
  cases List.mem_singleton.mp hmem
  rfl

theorem driver_driverFor (c : RelayClient) (urls : List String) (id : ℕ) :
    (c.driverFor urls).1.driver id = c.driver id ∨
      (c.driverFor urls).1.driver id = some (RelayDriver.spawn id urls) := by
  unfold driverFor
  by_cases hhome : urls = [] ∨ urls = c.home.urls
  · rw [if_pos hhome]
    exact Or.inl rfl
  rw [if_neg hhome]
  by_cases hstop : c.home.stop = true
  · rw [if_pos hstop]
    exact Or.inl rfl
  rw [if_neg hstop]
  cases c.extra.lookup urls with
  | some known => exact Or.inl rfl
  | none =>
    dsimp only
    by_cases hmany : c.extra.entries.length ≥ maxExtraDrivers
    · rw [if_pos hmany]
      exact Or.inl rfl
    rw [if_neg hmany]
    have hset := driver_setDriver c c.nextId id (RelayDriver.spawn c.nextId urls)
    by_cases hid : id = c.nextId
    · rw [if_pos hid, ← hid] at hset
      rw [← hid]
      exact Or.inr hset
    · rw [if_neg hid] at hset
      exact Or.inl hset

theorem driver_step_of_some {c : RelayClient} {book : Option TagBook} {now id : ℕ} {e : DriverEvent}
    {k : ℕ} {d' : RelayDriver} (h : (c.step book now id e).driver k = some d') :
    ∃ d, c.driver k = some d ∧ (d' = d ∨ k = id ∧ d' = d.step book now e) := by
  unfold step at h
  cases hd : c.driver id with
  | none =>
    rw [hd] at h
    exact ⟨d', h, Or.inl rfl⟩
  | some d =>
    rw [hd] at h
    dsimp only at h
    rw [driver_setDriver] at h
    split_ifs at h with hk
    · obtain rfl := Option.some.inj h
      exact ⟨d, hk ▸ hd, Or.inr ⟨hk, rfl⟩⟩
    · exact ⟨d', h, Or.inl rfl⟩

end RelayClient

namespace PathSocket

variable {P : Primitives} {hostOf : String → Option String} {s : PathSocket} {e : Event}

theorem driver_step (he : e.isSend = false) {id : ℕ} {d' : RelayDriver}
    (h : (s.step P hostOf e).relay.driver id = some d') :
    (∃ d, s.relay.driver id = some d ∧
      (d' = d ∨ e = .closeRelays ∧ d' = { d with stop := true } ∨
        ∃ de, e = .driver id de ∧ d' = d.step s.book s.now de)) ∨
    ∃ urls, d' = RelayDriver.spawn id urls := by
  have hkept : (s.step P hostOf e).relay = s.relay →
      ∃ d, s.relay.driver id = some d ∧
        (d' = d ∨ e = .closeRelays ∧ d' = { d with stop := true } ∨
          ∃ de, e = .driver id de ∧ d' = d.step s.book s.now de) := by
    intro hrelay
    rw [hrelay] at h
    exact ⟨d', h, Or.inl rfl⟩
  cases e with
  | trySend destination contents result => cases he
  | setPeerRelays p urls =>
    rcases RelayClient.driver_driverFor s.relay urls id with hsame | hspawn
    · exact Or.inl ⟨d', hsame.symm.trans h, Or.inl rfl⟩
    · exact Or.inr ⟨urls, Option.some.inj (h.symm.trans hspawn)⟩
  | driver id' de =>
    obtain ⟨d, hd, hsame | ⟨rfl, hstep⟩⟩ := RelayClient.driver_step_of_some h
    · exact Or.inl ⟨d, hd, Or.inl hsame⟩
    · exact Or.inl ⟨d, hd, Or.inr (Or.inr ⟨de, rfl, hstep⟩)⟩
  | closeRelays =>
    have hclosed := RelayClient.driver_close s.relay id
    obtain ⟨d, hd, hd'⟩ := Option.map_eq_some_iff.mp (hclosed.symm.trans h)
    exact Or.inl ⟨d, hd, Or.inr (Or.inl ⟨rfl, hd'.symm⟩)⟩
  | recvRelay source datagram driver =>
    refine Or.inl (hkept ?_)
    simp only [step, exec, recvRelay, deliver]
    split_ifs <;> rfl
  | recvDirect sender data draw =>
    refine Or.inl (hkept ?_)
    rw [step, exec]
    rcases recvDirect_cases P s sender data draw with
      ⟨q, keyId, key, nonce, -, hexec⟩ | ⟨q, keyId, key, nonce, -, hexec⟩ |
      ⟨inbound, reflexive, reflectorNonce, hexec⟩ <;> rw [hexec]
  | queryReflector reflector nonce =>
    refine Or.inl (hkept ?_)
    simp only [step, exec, queryReflector]
    split_ifs <;> rfl
  | requeryReflector nonce =>
    refine Or.inl (hkept ?_)
    simp only [step, exec, queryReflector]
    split
    · split_ifs <;> rfl
    · rfl
  | _ => exact Or.inl (hkept rfl)

variable {p : NodeId} {contents : List UInt8}

variable (P hostOf) in
def relayed (s : PathSocket) (p : NodeId) (contents : List UInt8) (refusedBy : Option ℕ) :
    PathSocket :=
  let sent := (s.relayFor p).2.trySend P hostOf s.book p contents s.unixNow
  { s with
    relay := s.relay.setDriver (s.relayFor p).1 sent.1, book := sent.2.1, blockedOn := refusedBy }

theorem sendRelayed_of_wouldBlock
    (h : ((s.relayFor p).2.trySend P hostOf s.book p contents s.unixNow).2.2 = .wouldBlock) :
    s.sendRelayed P hostOf p contents =
      (s.relayed P hostOf p contents (some (s.relayFor p).1), .wouldBlock) := by
  unfold sendRelayed
  dsimp only
  rw [h]
  rfl

theorem sendRelayed_of_ne
    (h : ((s.relayFor p).2.trySend P hostOf s.book p contents s.unixNow).2.2 ≠ .wouldBlock) :
    s.sendRelayed P hostOf p contents = (s.relayed P hostOf p contents none, .ok) := by
  unfold sendRelayed
  dsimp only
  cases houtcome : ((s.relayFor p).2.trySend P hostOf s.book p contents s.unixNow).2.2 with
  | wouldBlock => exact absurd houtcome h
  | _ => rfl

theorem driver_relayed {refusedBy : Option ℕ} {id : ℕ} {d' : RelayDriver}
    (h : (s.relayed P hostOf p contents refusedBy).relay.driver id = some d') :
    ∃ d, s.relay.driver id = some d ∧
      ∃ frames, d' = { d with outbound := d.outbound ++ frames } := by
  rw [relayed, RelayClient.driver_setDriver] at h
  split_ifs at h with hid
  · obtain ⟨frames, hsent⟩ :=
      @RelayDriver.trySend_fst P hostOf (s.relayFor p).2 p s.unixNow s.book contents
    refine ⟨(s.relayFor p).2, by rw [hid, relayFor_driver], frames, ?_⟩
    rw [← hsent, ← Option.some.inj h]
  · exact ⟨d', h, [], by rw [List.append_nil]⟩

theorem driver_trySend {destination : SocketAddr} {result : UdpResult} {id : ℕ} {d' : RelayDriver}
    (h : (s.trySend P hostOf destination contents result).1.relay.driver id = some d') :
    ∃ d, s.relay.driver id = some d ∧
      ∃ frames, d' = { d with outbound := d.outbound ++ frames } := by
  rcases @trySend_cases P hostOf s destination contents result with
    ⟨hsame, -⟩ | ⟨p, hfits, hroute, hstale⟩
  · rw [hsame] at h
    exact ⟨d', h, [], by rw [List.append_nil]⟩
  · rw [trySend_relayed hfits hroute hstale] at h
    by_cases hblock :
        ((s.relayFor p).2.trySend P hostOf s.book p contents s.unixNow).2.2 = .wouldBlock
    · rw [sendRelayed_of_wouldBlock hblock] at h
      exact driver_relayed h
    · rw [sendRelayed_of_ne hblock] at h
      exact driver_relayed h

end PathSocket

def RelayDriver.Superseded (d : RelayDriver) : Prop :=
  d.status = .superseded ∨ .superseded ∈ d.events

/-- Driver `id` was told that its relay has a newer session of this node. -/
def PathSocket.RelayTaken (k : PathSocket) (id : ℕ) : Prop :=
  ∃ d, k.relay.driver id = some d ∧ d.Superseded

namespace RelayDriver

theorem superseded_setStatus {d : RelayDriver} {next : RelayStatus}
    (h : (d.setStatus next).Superseded) : next = .superseded ∨ d.Superseded := by
  unfold setStatus at h
  split_ifs at h
  · exact Or.inr h
  · rcases h with hstatus | hevent
    · exact Or.inl hstatus
    · rcases List.mem_append.mp hevent with hbefore | hnew
      · exact Or.inr (Or.inr hbefore)
      · exact Or.inl (List.mem_singleton.mp hnew).symm

theorem superseded_step {d : RelayDriver} {book : Option TagBook} {now : ℕ} {e : DriverEvent}
    (h : (d.step book now e).Superseded) :
    d.Superseded ∨ e = .ended true ∧ book = none ∧ d.phase = .pumping := by
  have hset : ∀ next : RelayStatus, next ≠ .superseded → (d.setStatus next).Superseded →
      d.Superseded ∨ e = .ended true ∧ book = none ∧ d.phase = .pumping := by
    intro next hnext hsuperseded
    rcases superseded_setStatus hsuperseded with heq | hbefore
    · exact absurd heq hnext
    · exact Or.inl hbefore
  cases e with
  | ended superseded =>
    simp only [step] at h
    split_ifs at h with hphase htaken
    · obtain ⟨rfl, hbook⟩ := htaken
      exact Or.inr ⟨rfl, Option.isNone_iff_eq_none.mp hbook, hphase⟩
    · exact hset .reconnecting (by decide) h
    · exact Or.inl h
  | noRelays =>
    simp only [step] at h
    split_ifs at h
    · exact hset .failed (by decide) h
    · exact Or.inl h
  | idle =>
    simp only [step] at h
    split_ifs at h
    · exact hset .connecting (by decide) h
    · exact Or.inl h
  | connected =>
    simp only [step] at h
    split_ifs at h
    · rcases superseded_setStatus (d := { d with outbound := [] }) h with heq | hbefore
      · cases heq
      · exact Or.inl hbefore
    · exact Or.inl h
  | connectFailed =>
    simp only [step] at h
    split_ifs at h
    · exact hset .failed (by decide) h
    · exact hset .reconnecting (by decide) h
    · exact Or.inl h
  | sent =>
    simp only [step] at h
    split_ifs at h <;> exact Or.inl h
  | stopped =>
    simp only [step] at h
    split_ifs at h
    · exact hset .failed (by decide) h
    · exact Or.inl h

end RelayDriver

namespace PathSocket

variable {P : Primitives} {hostOf : String → Option String} {s : PathSocket} {e : Event}

theorem relayTaken_step {id : ℕ} (h : (s.step P hostOf e).RelayTaken id) :
    s.RelayTaken id ∨ e = .driver id (.ended true) ∧ s.book = none ∧
      ∃ d, s.relay.driver id = some d ∧ d.phase = .pumping := by
  obtain ⟨d', hd', hsuperseded⟩ := h
  by_cases he : e.isSend = false
  · rcases driver_step he hd' with ⟨d, hd, rfl | ⟨-, rfl⟩ | ⟨de, rfl, rfl⟩⟩ | ⟨urls, rfl⟩
    · exact Or.inl ⟨d', hd, hsuperseded⟩
    · exact Or.inl ⟨d, hd, hsuperseded⟩
    · rcases RelayDriver.superseded_step hsuperseded with hbefore | ⟨rfl, hbook, hphase⟩
      · exact Or.inl ⟨d, hd, hbefore⟩
      · exact Or.inr ⟨rfl, hbook, d, hd, hphase⟩
    · rcases hsuperseded with hstatus | hevent
      · cases hstatus
      · cases hevent
  · cases e with
    | trySend destination contents result =>
      obtain ⟨d, hd, frames, rfl⟩ := driver_trySend hd'
      exact Or.inl ⟨d, hd, hsuperseded⟩
    | _ => exact absurd rfl he

variable (P hostOf) in
/-- In identity mode the relay told driver `id`, which was connected to it, of a newer session of
this node. -/
def RelayTold (start : PathSocket) (es : List Event) (id : ℕ) : Prop :=
  ∃ pre post d, es = pre ++ .driver id (.ended true) :: post ∧
    (after P hostOf start pre).book = none ∧
    (after P hostOf start pre).relay.driver id = some d ∧ d.phase = .pumping

theorem RelayTold.append {start : PathSocket} {es : List Event} {id : ℕ}
    (h : start.RelayTold P hostOf es id) (later : List Event) :
    start.RelayTold P hostOf (es ++ later) id := by
  obtain ⟨pre, post, d, rfl, htold⟩ := h
  exact ⟨pre, post ++ later, d, by rw [List.append_assoc, List.cons_append], htold⟩

theorem relayTaken_since {start : PathSocket} (hstart : ∀ id, ¬ start.RelayTaken id)
    {es : List Event} {id : ℕ} (h : (after P hostOf start es).RelayTaken id) :
    start.RelayTold P hostOf es id := by
  induction es using List.reverseRecOn with
  | nil => exact absurd h (hstart id)
  | append_singleton es e ih =>
    rw [after, run_snoc] at h
    rcases relayTaken_step h with hbefore | ⟨rfl, hbook, d, hd, hphase⟩
    · exact (ih hbefore).append [e]
    · exact ⟨es, [], d, rfl, hbook, hd, hphase⟩

end PathSocket

end ForgeswornLink
