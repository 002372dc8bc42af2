import ForgeswornLink.PathEffects

/-!
# When a send is refused

What has to hold for `trySend` to report would-block, on a relay driver and on
the path socket: the peer has no fresh proof, its driver has a live relay session
behind a full queue, and in tag mode there is material to derive a tag from.
-/

namespace ForgeswornLink

namespace RelayDriver

theorem status_setStatus (d : RelayDriver) (next : RelayStatus) :
    (d.setStatus next).status = next := by
  unfold setStatus
  split_ifs with h
  · exact h
  · rfl

theorem outbound_setStatus (d : RelayDriver) (next : RelayStatus) :
    (d.setStatus next).outbound = d.outbound := by
  unfold setStatus
  split_ifs <;> rfl

def UpPumps (d : RelayDriver) : Prop := d.status.isUp = true → d.phase = .pumping

theorem upPumps_of_down {d : RelayDriver} (h : d.status.isUp = false) : d.UpPumps := by
  intro hup
  rw [h] at hup
  cases hup

theorem upPumps_spawn (id : ℕ) (urls : List String) : (spawn id urls).UpPumps :=
  upPumps_of_down rfl

theorem upPumps_finish (d : RelayDriver) {status : RelayStatus} (h : status.isUp = false) :
    (d.finish status).UpPumps := by
  refine upPumps_of_down ?_
  rw [finish, status_setStatus, h]

theorem upPumps_step {d : RelayDriver} (h : d.UpPumps) (book : Option TagBook) (now : ℕ)
    (e : DriverEvent) : (d.step book now e).UpPumps := by
  cases e with
  | noRelays =>
    simp only [step]
    split_ifs
    · exact upPumps_finish d rfl
    · exact h
  | idle =>
    simp only [step]
    split_ifs
    · exact upPumps_of_down (by rw [status_setStatus]; rfl)
    · exact h
  | connected =>
    simp only [step]
    split_ifs
    · exact fun _ => rfl
    · exact h
  | connectFailed =>
    simp only [step]
    split_ifs
    · exact upPumps_of_down (by rw [status_setStatus]; rfl)
    · exact upPumps_of_down (by rw [status_setStatus]; rfl)
    · exact h
  | sent =>
    simp only [step]
    split_ifs with hphase
    · exact fun _ => hphase
    · exact h
  | ended superseded =>
    simp only [step]
    split_ifs
    · exact upPumps_finish d rfl
    · exact upPumps_of_down (by rw [status_setStatus]; rfl)
    · exact h
  | stopped =>
    simp only [step]
    split_ifs
    · exact upPumps_finish d rfl
    · exact h

theorem outbound_step_le (d : RelayDriver) (book : Option TagBook) (now : ℕ) (e : DriverEvent) :
    (d.step book now e).outbound.length ≤ d.outbound.length := by
  cases e with
  | sent =>
    simp only [step]
    split_ifs
    · simp
    · exact le_rfl
  | _ =>
    simp only [step, finish]
    split_ifs <;> simp [outbound_setStatus]

theorem hasCapacity_step {d : RelayDriver} (h : d.hasCapacity = true) (book : Option TagBook)
    (now : ℕ) (e : DriverEvent) : (d.step book now e).hasCapacity = true := by
  have hle := outbound_step_le d book now e
  unfold hasCapacity at h ⊢
  rw [decide_eq_true_eq] at h ⊢
  omega

theorem step_of_pumping {d : RelayDriver} (hphase : d.phase = .pumping) (hstop : d.stop = false)
    (book : Option TagBook) (now : ℕ) (e : DriverEvent) :
    d.step book now e = d ∨ d.step book now e = { d with outbound := d.outbound.tail } ∨
      ∃ superseded, e = .ended superseded := by
  have htrying : ¬ d.phase = .trying := by rw [hphase]; decide
  cases e with
  | sent => exact Or.inr (Or.inl (by rw [step, if_pos hphase]))
  | ended superseded => exact Or.inr (Or.inr ⟨superseded, rfl⟩)
  | stopped => exact Or.inl (by rw [step, if_neg fun h => by rw [hstop] at h; cases h.1])
  | noRelays => exact Or.inl (by rw [step, if_neg fun h => htrying h.1])
  | idle => exact Or.inl (by rw [step, if_neg fun h => htrying h.1])
  | connected => exact Or.inl (by rw [step, if_neg fun h => htrying h.1])
  | connectFailed => exact Or.inl (by rw [step, if_neg fun h => htrying h.1])

theorem hasCapacity_superseded (d : RelayDriver) (hphase : d.phase = .pumping) (now : ℕ) :
    (d.step none now (.ended true)).hasCapacity = true := by
  rw [step, if_pos hphase, if_pos ⟨rfl, rfl⟩]
  rfl

def Tagged (hostOf : String → Option String) (d : RelayDriver) (book : Option TagBook) (p : NodeId)
    (nowUnix : ℕ) : Prop :=
  ∀ b, book = some b → ∃ url host, d.status = .up url ∧ hostOf url = some host ∧
    (b.pruneExpired nowUnix).sendable p = true

variable {P : Primitives} {hostOf : String → Option String} {d : RelayDriver} {p : NodeId}
  {nowUnix : ℕ}

theorem enqueue_wouldBlock_iff (frame : Frame) :
    (d.enqueue frame).2 = .wouldBlock ↔
      d.phase ≠ .over ∧ d.hasCapacity = false ∧ d.status.isUp = true := by
  unfold enqueue
  by_cases hphase : d.phase = .over
  · simp [hphase]
  · by_cases hcapacity : d.hasCapacity = true
    · simp [hphase, hcapacity]
    · by_cases hup : d.status.isUp = true <;> simp [hphase, hcapacity, hup]

theorem enqueue_of_wouldBlock {frame : Frame} (h : (d.enqueue frame).2 = .wouldBlock) :
    (d.enqueue frame).1 = d := by
  obtain ⟨hphase, hcapacity, hup⟩ := (enqueue_wouldBlock_iff frame).mp h
  rw [enqueue, if_neg hphase, if_neg (by rw [hcapacity]; decide), if_pos hup]

theorem tagFor_isSome {book : TagBook} (h : book.CacheBacked) :
    (d.tagFor P hostOf book p nowUnix).2.isSome ↔ d.Tagged hostOf (some book) p nowUnix := by
  unfold tagFor Tagged
  cases hstatus : d.status with
  | up url =>
    cases hhost : hostOf url with
    | none => simp [hhost]
    | some host => simp [hhost, TagBook.tagForSend_isSome P h]
  | _ => simp

/-- A driver refuses a datagram exactly when it is up, full, and could tag it. -/
theorem trySend_wouldBlock_iff {book : Option TagBook} (hbook : ∀ b, book = some b → b.CacheBacked)
    (datagram : List UInt8) :
    (d.trySend P hostOf book p datagram nowUnix).2.2 = .wouldBlock ↔
      d.stop = false ∧ d.phase ≠ .over ∧ d.hasCapacity = false ∧ d.status.isUp = true ∧
        d.Tagged hostOf book p nowUnix := by
  unfold trySend
  cases hstop : d.stop with
  | true => simp
  | false =>
    cases book with
    | none =>
      have htagged : d.Tagged hostOf none p nowUnix := nofun
      simp only [Bool.false_eq_true, if_false, enqueue_wouldBlock_iff, htagged, and_true, true_and]
    | some b =>
      have hsome := @tagFor_isSome P hostOf d p nowUnix b (hbook b rfl)
      rw [← hsome]
      simp only [Bool.false_eq_true, if_false, true_and]
      cases htag : d.tagFor P hostOf b p nowUnix with
      | mk b' tag =>
        cases tag with
        | none => simp
        | some tag => simp only [enqueue_wouldBlock_iff, Option.isSome_some, and_true]

theorem enqueue_fst (frame : Frame) :
    ∃ frames, (d.enqueue frame).1 = { d with outbound := d.outbound ++ frames } := by
  have hkept : ∃ frames, d = { d with outbound := d.outbound ++ frames } :=
    ⟨[], by rw [List.append_nil]⟩
  unfold enqueue
  split_ifs
  · exact hkept
  · exact ⟨[frame], rfl⟩
  · exact hkept
  · exact hkept

theorem trySend_fst (book : Option TagBook) (datagram : List UInt8) :
    ∃ frames, (d.trySend P hostOf book p datagram nowUnix).1 =
      { d with outbound := d.outbound ++ frames } := by
  have hkept : ∃ frames, d = { d with outbound := d.outbound ++ frames } :=
    ⟨[], by rw [List.append_nil]⟩
  unfold trySend
  split_ifs
  · exact hkept
  · cases book with
    | none => exact enqueue_fst _
    | some b =>
      dsimp only
      split
      · exact hkept
      · exact enqueue_fst _

theorem trySend_of_wouldBlock {book : Option TagBook} {datagram : List UInt8}
    (h : (d.trySend P hostOf book p datagram nowUnix).2.2 = .wouldBlock) :
    (d.trySend P hostOf book p datagram nowUnix).1 = d := by
  unfold trySend at h ⊢
  split_ifs at h ⊢
  cases book with
  | none => exact enqueue_of_wouldBlock h
  | some b =>
    dsimp only at h ⊢
    split at h
    · cases h
    · exact enqueue_of_wouldBlock h

theorem trySend_book (book : Option TagBook) (datagram : List UInt8) :
    (d.trySend P hostOf book p datagram nowUnix).2.1 = book ∨
      ∃ b host, book = some b ∧ (d.trySend P hostOf book p datagram nowUnix).2.1 =
        some (b.tagForSend P p host nowUnix).1 := by
  unfold trySend
  split_ifs
  · exact Or.inl rfl
  · cases book with
    | none => exact Or.inl rfl
    | some b =>
      dsimp only
      have hbook : (d.tagFor P hostOf b p nowUnix).1 = b ∨
          ∃ host, (d.tagFor P hostOf b p nowUnix).1 = (b.tagForSend P p host nowUnix).1 := by
        unfold tagFor
        split
        · split
          · exact Or.inr ⟨_, rfl⟩
          · exact Or.inl rfl
        · exact Or.inl rfl
      split
      all_goals
        rename_i htag
        rw [htag] at hbook
        rcases hbook with hsame | ⟨host, hread⟩
        · exact Or.inl (congrArg some hsame)
        · exact Or.inr ⟨b, host, rfl, congrArg some hread⟩

theorem tagged_trySend {d' : RelayDriver} {q : NodeId} {book : Option TagBook}
    {datagram : List UInt8} (h : d'.Tagged hostOf book q nowUnix) :
    d'.Tagged hostOf (d.trySend P hostOf book p datagram nowUnix).2.1 q nowUnix := by
  rcases @trySend_book P hostOf d p nowUnix book datagram with hsame | ⟨b, host, rfl, hread⟩
  · rw [hsame]
    exact h
  · rw [hread]
    intro b' hb'
    obtain ⟨url, host', hstatus, hhost, hsendable⟩ := h b rfl
    refine ⟨url, host', hstatus, hhost, ?_⟩
    rw [← Option.some.inj hb', TagBook.sendable_after_tagForSend]
    exact hsendable

theorem cacheBacked_trySend {book : Option TagBook} (h : ∀ b, book = some b → b.CacheBacked)
    (datagram : List UInt8) (b' : TagBook)
    (hb' : (d.trySend P hostOf book p datagram nowUnix).2.1 = some b') : b'.CacheBacked := by
  rcases @trySend_book P hostOf d p nowUnix book datagram with hsame | ⟨b, host, rfl, hread⟩
  · exact h b' (hsame ▸ hb')
  · rw [hread] at hb'
    rw [← Option.some.inj hb']
    exact TagBook.cacheBacked_tagForSend P (h b rfl) p host nowUnix

end RelayDriver

namespace PathSocket

theorem relayFor_driver (s : PathSocket) (p : NodeId) :
    s.relay.driver (s.relayFor p).1 = some (s.relayFor p).2 := by
  unfold relayFor
  split
  · rename_i found hfound
    obtain ⟨id, -, hdriver⟩ := Option.bind_eq_some_iff.mp hfound
    obtain ⟨d, hd, rfl⟩ := Option.map_eq_some_iff.mp hdriver
    exact hd
  · exact s.relay.driver_zero

variable (P : Primitives) (hostOf : String → Option String)

/-- The datagram is for a peer without a fresh proof, and its driver is up and full. -/
structure Refuses (s : PathSocket) (destination : SocketAddr) (contents : List UInt8) (p : NodeId)
    (id : ℕ) (d : RelayDriver) : Prop where
  fits : contents.length ≤ maxDatagram
  route : s.inner.bySynthetic.lookup destination = some p
  stale : ∀ proven, s.provenDirect p = some proven → directFresh ≤ s.now - proven.provedAt
  driver : s.relayFor p = (id, d)
  running : d.stop = false
  pumping : d.phase = .pumping
  up : d.status.isUp = true
  full : d.hasCapacity = false
  tagged : d.Tagged hostOf s.book p s.unixNow

variable {P hostOf} {s : PathSocket} {destination : SocketAddr} {contents : List UInt8} {p : NodeId}

theorem filter_eq_none_of_stale
    (h : ∀ proven, s.provenDirect p = some proven → directFresh ≤ s.now - proven.provedAt) :
    ((s.provenDirect p).filter fun proven => s.now - proven.provedAt < directFresh) = none := by
  cases hproven : s.provenDirect p with
  | none => rfl
  | some proven =>
    have hold := h proven hproven
    simp [Option.filter, hold]

theorem trySend_relayed (hfits : contents.length ≤ maxDatagram)
    (hroute : s.inner.bySynthetic.lookup destination = some p)
    (hstale : ∀ proven, s.provenDirect p = some proven → directFresh ≤ s.now - proven.provedAt)
    (result : UdpResult) :
    s.trySend P hostOf destination contents result =
      ((s.sendRelayed P hostOf p contents).1, [], (s.sendRelayed P hostOf p contents).2) := by
  unfold trySend
  rw [if_neg (not_lt.mpr hfits), hroute]
  dsimp only
  rw [filter_eq_none_of_stale hstale]

theorem trySend_cases (s : PathSocket) (destination : SocketAddr) (contents : List UInt8)
    (result : UdpResult) :
    ((s.trySend P hostOf destination contents result).1 = s ∧
      (s.trySend P hostOf destination contents result).2.2 ≠ .wouldBlock) ∨
    ∃ p, contents.length ≤ maxDatagram ∧ s.inner.bySynthetic.lookup destination = some p ∧
      ∀ proven, s.provenDirect p = some proven → directFresh ≤ s.now - proven.provedAt := by
  unfold trySend
  by_cases hfits : contents.length > maxDatagram
  · rw [if_pos hfits]
    exact Or.inl ⟨rfl, nofun⟩
  rw [if_neg hfits]
  cases hroute : s.inner.bySynthetic.lookup destination with
  | none => exact Or.inl ⟨rfl, nofun⟩
  | some p =>
    dsimp only
    cases hfresh : (s.provenDirect p).filter fun proven => s.now - proven.provedAt <
      directFresh with
    | some proven =>
      refine Or.inl ⟨rfl, ?_⟩
      cases result <;> nofun
    | none =>
      refine Or.inr ⟨p, not_lt.mp hfits, rfl, ?_⟩
      intro proven hproven
      rw [hproven, Option.filter_some] at hfresh
      by_contra hlt
      rw [if_pos (by simpa using hlt)] at hfresh
      cases hfresh

end PathSocket

end ForgeswornLink
