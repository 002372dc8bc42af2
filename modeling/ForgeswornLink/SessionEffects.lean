import ForgeswornLink.Session
import ForgeswornLink.SessionSlots
import ForgeswornLink.RelayEffects

/-!
# What a pass of the drive task does

A pass changes the report, the history, the pending requests and the task's own
variables, and only its superseded branch closes the connection. The calls it
makes touch the slot only in the closed branch. It reports the session superseded
only if the session holds a permit or its relay driver was superseded.
-/

namespace ForgeswornLink

namespace Session

structure Same (s s' : Session) : Prop where
  peer : s'.peer = s.peer
  id : s'.id = s.id
  conn : s'.conn = s.conn
  allowDirect : s'.allowDirect = s.allowDirect
  probeKeyId : s'.probeKeyId = s.probeKeyId

theorem Same.refl (s : Session) : s.Same s := ⟨rfl, rfl, rfl, rfl, rfl⟩

theorem Same.trans {s s' s'' : Session} (h : s.Same s') (h' : s'.Same s'') : s.Same s'' :=
  ⟨h'.peer.trans h.peer, h'.id.trans h.id, h'.conn.trans h.conn, h'.allowDirect.trans h.allowDirect,
    h'.probeKeyId.trans h.probeKeyId⟩

structure Kept (s s' : Session) : Prop extends same : Same s s' where
  closed : s'.closed = s.closed

theorem kept_of_eq {s s' : Session} (peer : s'.peer = s.peer) (id : s'.id = s.id)
    (conn : s'.conn = s.conn) (allowDirect : s'.allowDirect = s.allowDirect)
    (probeKeyId : s'.probeKeyId = s.probeKeyId) (closed : s'.closed = s.closed) : s.Kept s' :=
  ⟨⟨peer, id, conn, allowDirect, probeKeyId⟩, closed⟩

theorem Kept.refl (s : Session) : s.Kept s := ⟨Same.refl s, rfl⟩

theorem Kept.trans {s s' s'' : Session} (h : s.Kept s') (h' : s'.Kept s'') : s.Kept s'' :=
  ⟨h.same.trans h'.same, h'.closed.trans h.closed⟩

theorem kept_transition (s : Session) (k : PathSocket) (status : PathStatus) (cause : Cause) :
    s.Kept (s.transition k status cause) := by
  unfold transition
  split_ifs <;> exact kept_of_eq rfl rfl rfl rfl rfl rfl

theorem task_transition (s : Session) (k : PathSocket) (status : PathStatus) (cause : Cause) :
    (s.transition k status cause).task = s.task := by
  unfold transition
  split_ifs <;> rfl

theorem status_transition (s : Session) (k : PathSocket) (status : PathStatus) (cause : Cause) :
    (s.transition k status cause).report.status = status := by
  by_cases h : s.report.status = status
  · unfold transition
    dsimp only
    rw [if_pos h]
    exact h
  · unfold transition
    dsimp only
    rw [if_neg h]

theorem cause_transition {s : Session} {k : PathSocket} {status : PathStatus} {cause : Cause}
    (h : s.report.status ≠ status) : (s.transition k status cause).report.cause = cause := by
  unfold transition
  dsimp only
  rw [if_neg h]

theorem kept_request (s : Session) (r : ControlSend) : s.Kept (s.request r) := by
  unfold request
  split_ifs <;> exact kept_of_eq rfl rfl rfl rfl rfl rfl

theorem report_request (s : Session) (r : ControlSend) : (s.request r).report = s.report := by
  unfold request
  split_ifs <;> rfl

theorem task_request (s : Session) (r : ControlSend) : (s.request r).task = s.task := by
  unfold request
  split_ifs <;> rfl

theorem kept_requestDirect (s : Session) : s.Kept s.requestDirect := by
  have hasked : s.Kept { s with probeNow := .here } := kept_of_eq rfl rfl rfl rfl rfl rfl
  exact hasked.trans (kept_request _ _)

theorem kept_resume (s : Session) (t : Drive) : s.Kept (s.resume t) :=
  kept_of_eq rfl rfl rfl rfl rfl rfl

theorem kept_finish (s : Session) : s.Kept s.finish := kept_of_eq rfl rfl rfl rfl rfl rfl

/-- The driver a task follows, and what it has last heard of it. -/
def heard (t : Drive) : ℕ × RelayStatus := (t.driver, t.relayState)

structure Step (s : Session) (t : Drive) (r : Session × List Event) : Prop where
  kept : s.Kept r.1
  report : r.1.report = s.report ∨ r.1.report.status.isFailed = false
  task : ∃ t', r.1.task = some t' ∧ t'.previousBeforeReconnect = t.previousBeforeReconnect ∧
    heard t' = heard t
  calls : ∀ c ∈ r.2, c = .dropDirect s.peer s.id ∨ ∃ draws, c = .sendProbes s.peer draws

section Step
variable {s : Session} {t t' : Drive} {k : PathSocket} {calls : List Event}

theorem step_resume (ht : t'.previousBeforeReconnect = t.previousBeforeReconnect)
    (hheard : heard t' = heard t)
    (hcalls : ∀ c ∈ calls, c = .dropDirect s.peer s.id ∨ ∃ draws, c = .sendProbes s.peer draws) :
    Step s t (s.resume t', calls) :=
  ⟨kept_resume s t', Or.inl rfl, ⟨t', rfl, ht, hheard⟩, hcalls⟩

theorem step_transition {status : PathStatus} (cause : Cause) (hstatus : status.isFailed = false)
    (ht : t'.previousBeforeReconnect = t.previousBeforeReconnect)
    (hheard : heard t' = heard t)
    (hcalls : ∀ c ∈ calls, c = .dropDirect s.peer s.id ∨ ∃ draws, c = .sendProbes s.peer draws) :
    Step s t ((s.transition k status cause).resume t', calls) := by
  refine ⟨(kept_transition s k status cause).trans (kept_resume _ t'), Or.inr ?_,
    ⟨t', rfl, ht, hheard⟩, hcalls⟩
  change (s.transition k status cause).report.status.isFailed = false
  rw [status_transition, hstatus]

theorem step_advance (s : Session) (t : Drive) (k : PathSocket) (draws : ℕ → Nonce × Bool) :
    Step s t (s.advance t k draws) := by
  have hprobe : ∀ c ∈ [Event.sendProbes s.peer draws],
      c = .dropDirect s.peer s.id ∨ ∃ draws, c = .sendProbes s.peer draws :=
    fun c hc => Or.inr ⟨draws, List.mem_singleton.mp hc⟩
  have hnone : ∀ c ∈ ([] : List Event),
      c = .dropDirect s.peer s.id ∨ ∃ draws, c = .sendProbes s.peer draws := List.forall_mem_nil _
  unfold advance
  dsimp only
  split
  · split
    · exact step_transition _ rfl rfl rfl hnone
    · split_ifs
      · exact step_resume rfl rfl hnone
      · exact step_transition _ rfl rfl rfl hnone
      · exact step_resume rfl rfl hnone
      · exact step_transition _ rfl rfl rfl hprobe
  · split
    · exact step_transition _ rfl rfl rfl hnone
    · by_cases hagain : 500000000 ≤ k.now - t.lastProbeSent
      · simp only [hagain, if_true]
        split_ifs
        · exact step_transition _ rfl rfl rfl hprobe
        · exact step_resume rfl rfl hprobe
      · simp only [hagain, if_false]
        split_ifs
        · exact step_transition _ rfl rfl rfl hnone
        · exact step_resume rfl rfl hnone
  · split
    · split_ifs
      · exact step_resume rfl rfl hprobe
      · exact step_resume rfl rfl hnone
    · exact step_transition _ rfl rfl rfl fun c hc => Or.inl (List.mem_singleton.mp hc)
  · exact step_resume rfl rfl hnone

end Step

theorem prepare_spec (s : Session) (t : Drive) (k : PathSocket) :
    s.Kept (s.prepare t k).1 ∧ (s.prepare t k).1.report = s.report ∧
      (s.prepare t k).2.previousBeforeReconnect = t.previousBeforeReconnect ∧
      heard (s.prepare t k).2 = heard t := by
  unfold prepare
  dsimp only
  by_cases hdue : t.reannounceAt.any (fun instant => instant ≤ k.now) = true
  · simp only [hdue, if_true]
    refine ⟨(kept_request s _).trans ((kept_request _ _).trans
      (kept_of_eq rfl rfl rfl rfl rfl rfl)), ?_, trivial, rfl⟩
    rw [report_request, report_request]
  · simp only [hdue, Bool.false_eq_true, if_false]
    refine ⟨kept_of_eq rfl rfl rfl rfl rfl rfl, trivial, ?_⟩
    cases s.probeNow <;> exact ⟨rfl, rfl⟩

structure Iterated (s : Session) (u : Drive) (r : Session × List Event) : Prop where
  kept : s.Kept r.1
  superseded : r.1.report.status = .failed .superseded → r.1.report = s.report ∨
    s.report.status.isFailed = false ∧ u.relayState = .superseded ∧
      r.1.report.cause = .relaySlotTaken
  task : ∀ t', r.1.task = some t' →
    t'.previousBeforeReconnect.isFailed = false ∧ heard t' = heard u
  calls : ∀ c ∈ r.2, c = .dropDirect s.peer s.id ∨ ∃ draws, c = .sendProbes s.peer draws
  declined : s.allowDirect = false → r.2 = []

section Iterate
variable {s : Session} {t : Drive} {k : PathSocket}

theorem iterated_finish {s' : Session} {u : Drive} (hkept : s.Kept s')
    (h : s'.report.status = .failed .superseded → s'.report = s.report ∨
      s.report.status.isFailed = false ∧ u.relayState = .superseded ∧
        s'.report.cause = .relaySlotTaken) :
    Iterated s u (s'.finish, []) := by
  refine ⟨hkept.trans (kept_finish s'), h, ?_, List.forall_mem_nil _, fun _ => rfl⟩
  intro t' ht
  exact absurd ht.symm (Option.some_ne_none t')

theorem iterated_fail {u : Drive} {status : PathStatus} {cause : Cause}
    (hfailed : s.report.status.isFailed = false)
    (h : status = .failed .superseded → u.relayState = .superseded ∧ cause = .relaySlotTaken) :
    Iterated s u ((s.transition k status cause).finish, []) := by
  refine iterated_finish (kept_transition s k status cause) ?_
  intro hstatus
  rw [status_transition] at hstatus
  obtain ⟨hrelay, hcause⟩ := h hstatus
  have hchanged : s.report.status ≠ status := by
    rintro hsame
    rw [hsame, hstatus] at hfailed
    cases hfailed
  exact Or.inr ⟨hfailed, hrelay, (cause_transition hchanged).trans hcause⟩

theorem iterated_resume {u t' : Drive} (hprev : t'.previousBeforeReconnect.isFailed = false)
    (hheard : heard t' = heard u) : Iterated s u (s.resume t', []) := by
  refine ⟨kept_resume s t', fun _ => Or.inl rfl, ?_, List.forall_mem_nil _, fun _ => rfl⟩
  rintro t'' ht
  obtain rfl := Option.some.inj ht
  exact ⟨hprev, hheard⟩

theorem iterated_transition {u t' : Drive} {status : PathStatus} (cause : Cause)
    (hstatus : status.isFailed = false) (hprev : t'.previousBeforeReconnect.isFailed = false)
    (hheard : heard t' = heard u) :
    Iterated s u ((s.transition k status cause).resume t', []) := by
  refine ⟨(kept_transition s k status cause).trans (kept_resume _ t'), ?_, ?_,
    List.forall_mem_nil _, fun _ => rfl⟩
  · intro h
    change (s.transition k status cause).report.status = _ at h
    rw [status_transition] at h
    rw [h] at hstatus
    cases hstatus
  · rintro t'' ht
    obtain rfl := Option.some.inj ht
    exact ⟨hprev, hheard⟩

theorem iterated_relayDown {u : Drive} (hfailed : s.report.status.isFailed = false)
    (hsound : u.previousBeforeReconnect.isFailed = false) : Iterated s u (s.relayDown u k, []) := by
  unfold relayDown
  split_ifs
  · exact iterated_transition _ rfl hfailed rfl
  · exact iterated_resume hsound rfl

theorem welcome_spec (hsound : t.previousBeforeReconnect.isFailed = false)
    (hfailed : s.report.status.isFailed = false) :
    s.Kept (s.welcome t k).1 ∧ (s.welcome t k).1.report.status.isFailed = false ∧
      (s.welcome t k).2.previousBeforeReconnect = t.previousBeforeReconnect ∧
      heard (s.welcome t k).2 = heard t := by
  unfold welcome
  split_ifs
  · refine ⟨kept_transition s k _ _, ?_, rfl, rfl⟩
    rw [status_transition, hsound]
  · exact ⟨Kept.refl s, hfailed, rfl, rfl⟩

theorem Iterated.after_kept {s s' : Session} {u u' : Drive} {r : Session × List Event}
    (h : Iterated s' u' r) (hkept : s.Kept s') (hfailed : s.report.status.isFailed = false)
    (hstatus : s'.report.status.isFailed = false) (hheard : heard u' = heard u) :
    Iterated s u r := by
  refine ⟨hkept.trans h.kept, ?_, ?_, ?_, ?_⟩
  · intro hsuperseded
    rcases h.superseded hsuperseded with hbefore | ⟨-, hrelay, hcause⟩
    · rw [← hbefore, hsuperseded] at hstatus
      cases hstatus
    · exact Or.inr ⟨hfailed, (congrArg Prod.snd hheard).symm.trans hrelay, hcause⟩
  · intro t' ht
    obtain ⟨hprev, hstate⟩ := h.task t' ht
    exact ⟨hprev, hstate.trans hheard⟩
  · intro c hc
    rw [← hkept.peer, ← hkept.id]
    exact h.calls c hc
  · intro hdeclined
    exact h.declined (hkept.allowDirect.trans hdeclined)

theorem Step.iterated {s : Session} {t : Drive} {r : Session × List Event} (h : Step s t r)
    (hallowed : s.allowDirect = true) (hsound : t.previousBeforeReconnect.isFailed = false) :
    Iterated s t r := by
  refine ⟨h.kept, ?_, ?_, h.calls, fun hdeclined => Bool.noConfusion
    (hdeclined.symm.trans hallowed)⟩
  · intro hsuperseded
    rcases h.report with hsame | hok
    · exact Or.inl hsame
    · rw [hsuperseded] at hok
      cases hok
  · intro t' ht
    obtain ⟨t₀, ht₀, hprev, hheard⟩ := h.task
    obtain rfl := Option.some.inj (ht₀.symm.trans ht)
    exact ⟨by rw [hprev, hsound], hheard⟩

theorem iterated_relayUp (hsound : t.previousBeforeReconnect.isFailed = false)
    (hfailed : s.report.status.isFailed = false) (draws : ℕ → Nonce × Bool) :
    Iterated s t (s.relayUp t k draws) := by
  obtain ⟨hkept, hstatus, hprev, hrelay⟩ := welcome_spec (k := k) hsound hfailed
  unfold relayUp
  generalize s.welcome t k = w at hkept hstatus hprev hrelay ⊢
  obtain ⟨s', t'⟩ := w
  dsimp only at hkept hstatus hprev hrelay ⊢
  rw [← hprev] at hsound
  refine Iterated.after_kept ?_ hkept hfailed hstatus hrelay
  by_cases hallowed : s'.allowDirect = false
  · rw [if_pos hallowed]
    unfold stayRelayed
    split_ifs
    · exact iterated_transition _ rfl hsound rfl
    · exact iterated_resume hsound rfl
  · rw [if_neg hallowed]
    rw [Bool.not_eq_false] at hallowed
    obtain ⟨hkept', hreport, hprev', hrelay'⟩ := prepare_spec s' t' k
    rw [← hprev'] at hsound
    have hstep := step_advance (s'.prepare t' k).1 (s'.prepare t' k).2 k draws
    exact (hstep.iterated (hkept'.allowDirect.trans hallowed) hsound).after_kept hkept' hstatus
      (by rw [hreport, hstatus]) hrelay'

theorem previous_follow (t : Drive) (k : PathSocket) (peer : NodeId) :
    (t.follow k peer).previousBeforeReconnect = t.previousBeforeReconnect := by
  unfold Drive.follow Drive.subscribe
  split_ifs <;> rfl

theorem iterate_spec (hsound : t.previousBeforeReconnect.isFailed = false)
    (draws : ℕ → Nonce × Bool) : Iterated s (t.follow k s.peer) (s.iterate t k draws) := by
  rw [← previous_follow t k s.peer] at hsound
  unfold iterate
  dsimp only
  by_cases hfailed : s.report.status.isFailed = true
  · rw [if_pos hfailed]
    exact iterated_finish (Kept.refl s) fun _ => Or.inl rfl
  rw [if_neg hfailed]
  rw [Bool.not_eq_true] at hfailed
  cases hrelay : (t.follow k s.peer).relayState with
  | superseded => exact iterated_fail hfailed fun _ => ⟨hrelay, rfl⟩
  | failed => exact iterated_fail hfailed nofun
  | reconnecting => exact iterated_relayDown hfailed hsound
  | connecting => exact iterated_relayDown hfailed hsound
  | up url => exact iterated_relayUp hsound hfailed draws

end Iterate

section Pass
variable {s : Session} {t : Drive} {k : PathSocket} {taken : ℕ → Prop}

/-- A running task goes back to no failure after a reconnect, and it has heard that the driver it
follows was superseded only if that one was. -/
def Sound (taken : ℕ → Prop) (s : Session) : Prop :=
  ∀ t, s.task = some t →
    t.previousBeforeReconnect.isFailed = false ∧ (t.relayState = .superseded → taken t.driver)

theorem Sound.mono {taken' : ℕ → Prop} (h : s.Sound taken) (htaken : ∀ id, taken id → taken' id) :
    s.Sound taken' :=
  fun t ht => ⟨(h t ht).1, fun hsuperseded => htaken _ ((h t ht).2 hsuperseded)⟩

theorem driver_follow (t : Drive) (k : PathSocket) (peer : NodeId) :
    (t.follow k peer).driver = (k.relayFor peer).1 := by
  unfold Drive.follow
  split_ifs with hmoved
  · rfl
  · exact (not_not.mp hmoved).symm

theorem taken_follow (hk : ∀ id, k.RelayTaken id → taken id)
    (ht : t.relayState = .superseded → taken t.driver) (peer : NodeId) :
    (t.follow k peer).relayState = .superseded → taken (t.follow k peer).driver := by
  unfold Drive.follow
  split_ifs
  · intro h
    exact hk _ ⟨_, k.relayFor_driver peer, Or.inl h⟩
  · exact ht

theorem receive_spec {d : RelayDriver} {t' : Drive} (h : t.receive d = some t') :
    t'.previousBeforeReconnect = t.previousBeforeReconnect ∧ t'.lastProbeSent = t.lastProbeSent ∧
      t'.driver = t.driver ∧
      (t'.relayState = .superseded → d.status = .superseded ∨ .superseded ∈ d.events) := by
  unfold Drive.receive at h
  split_ifs at h
  · obtain rfl := Option.some.inj h
    exact ⟨rfl, rfl, rfl, Or.inl⟩
  · obtain ⟨next, hnext, rfl⟩ := Option.map_eq_some_iff.mp h
    refine ⟨rfl, rfl, rfl, fun hsuperseded => Or.inr ?_⟩
    rw [← hsuperseded]
    exact List.mem_of_getElem? hnext

structure Driven (taken : ℕ → Prop) (s : Session) (k : PathSocket) (r : Session × List Event) :
    Prop where
  same : s.Same r.1
  closed : r.1.closed = s.closed ∨ s.id ∈ k.inner.notified
  superseded : r.1.report.status = .failed .superseded →
    s.report.status = .failed .superseded ∧ r.1.report.cause = s.report.cause ∨
      s.id ∈ k.inner.notified ∧ r.1.report.cause = .newerSession ∨
      s.report.status.isFailed = false ∧ taken (k.relayFor s.peer).1 ∧
        r.1.report.cause = .relaySlotTaken
  sound : r.1.Sound taken
  slots : ∀ c ∈ r.2, c.touchesSlots = true →
    c = .takeNotice s.id ∧ s.id ∈ k.inner.notified ∨ c = .endSession s.peer s.id ∧ s.closed.isSome
  declined : s.allowDirect = false → ∀ p draws, Event.sendProbes p draws ∉ r.2

theorem Driven.refl (h : s.Sound taken) : Driven taken s k (s, []) :=
  ⟨Same.refl s, Or.inl rfl, fun hstatus => Or.inl ⟨hstatus, rfl⟩, h, List.forall_mem_nil _,
    fun _ _ _ => List.not_mem_nil⟩

theorem Iterated.driven {r : Session × List Event} (h : Iterated s t r)
    (ht : t.relayState = .superseded → taken t.driver)
    (hdriver : t.driver = (k.relayFor s.peer).1) :
    Driven taken s k r := by
  refine ⟨h.kept.same, Or.inl h.kept.closed, ?_, ?_, ?_, ?_⟩
  · intro hsuperseded
    rcases h.superseded hsuperseded with hbefore | ⟨hfailed, hrelay, hcause⟩
    · rw [hbefore] at hsuperseded
      exact Or.inl ⟨hsuperseded, by rw [hbefore]⟩
    · rw [← hdriver]
      exact Or.inr (Or.inr ⟨hfailed, ht hrelay, hcause⟩)
  · intro t' ht'
    obtain ⟨hprev, hheard⟩ := h.task t' ht'
    obtain ⟨hsame, hrelay⟩ := Prod.mk.inj hheard
    refine ⟨hprev, fun hsuperseded => ?_⟩
    rw [hsame]
    exact ht (hrelay.symm.trans hsuperseded)
  · intro c hc htouches
    rcases h.calls c hc with rfl | ⟨draws, rfl⟩ <;> cases htouches
  · intro hdeclined p draws
    rw [h.declined hdeclined]
    exact List.not_mem_nil

theorem iterate_driven (hk : ∀ id, k.RelayTaken id → taken id)
    (hprev : t.previousBeforeReconnect.isFailed = false)
    (ht : t.relayState = .superseded → taken t.driver) (draws : ℕ → Nonce × Bool) :
    Driven taken s k (s.iterate t k draws) :=
  (iterate_spec hprev draws).driven (taken_follow hk ht s.peer) (driver_follow t k s.peer)

theorem Driven.cons_requery {r : Session × List Event} (h : Driven taken s k r) (nonce : Nonce) :
    Driven taken s k (r.1, .requeryReflector nonce :: r.2) := by
  refine ⟨h.same, h.closed, h.superseded, h.sound, ?_, ?_⟩
  · intro c hc htouches
    rcases List.mem_cons.mp hc with rfl | hc
    · cases htouches
    · exact h.slots c hc htouches
  · intro hdeclined p draws hc
    rcases List.mem_cons.mp hc with heq | hc
    · cases heq
    · exact h.declined hdeclined p draws hc

theorem mem_forgetKey {c : Event} (h : c ∈ s.forgetKey) :
    ∃ keyId, c = .unregisterProbeKey keyId := by
  unfold forgetKey at h
  cases hkey : s.probeKeyId with
  | none =>
    rw [hkey] at h
    cases h
  | some keyId =>
    rw [hkey] at h
    exact ⟨keyId, List.mem_singleton.mp h⟩

theorem noteClosed_spec (s : Session) (k : PathSocket) (reason : ConnectionError) :
    s.Kept (s.noteClosed k reason) ∧
      ((s.noteClosed k reason).report.status = .failed .superseded →
        (s.noteClosed k reason).report = s.report) := by
  have hmoves : ∀ (why : FailReason) (cause : Cause), why ≠ .superseded →
      s.Kept (s.transition k (.failed why) cause) ∧
        ((s.transition k (.failed why) cause).report.status = .failed .superseded →
          (s.transition k (.failed why) cause).report = s.report) := by
    intro why cause hwhy
    refine ⟨kept_transition s k _ cause, fun hstatus => ?_⟩
    rw [status_transition, PathStatus.failed.injEq] at hstatus
    exact absurd hstatus hwhy
  unfold noteClosed
  split_ifs
  · exact ⟨Kept.refl s, fun _ => rfl⟩
  · cases reason with
    | locallyClosed => exact ⟨Kept.refl s, fun _ => rfl⟩
    | applicationClosed => exact ⟨Kept.refl s, fun _ => rfl⟩
    | _ => exact hmoves _ _ (by decide)

theorem drive_superseded (h : s.Sound taken) (ht : s.task = some t) (nonce : Nonce)
    (draws : ℕ → Nonce × Bool) : Driven taken s k (s.drive k .superseded nonce draws) := by
  unfold drive
  rw [ht]
  dsimp only
  by_cases hnotified : s.id ∈ k.inner.notified
  · rw [if_pos hnotified]
    refine ⟨(kept_transition s k _ _).same.trans ⟨rfl, rfl, rfl, rfl, rfl⟩, Or.inr hnotified,
      fun _ => ?_, ?_, ?_, ?_⟩
    · by_cases hbefore : s.report.status = .failed .superseded
      · refine Or.inl ⟨hbefore, ?_⟩
        simp only [finish, closeWith, transition, if_pos hbefore]
      · exact Or.inr (Or.inl ⟨hnotified, cause_transition hbefore⟩)
    · intro t' ht'
      exact absurd ht'.symm (Option.some_ne_none t')
    · intro c hc htouches
      rcases List.mem_cons.mp hc with rfl | hkey
      · exact Or.inl ⟨rfl, hnotified⟩
      · obtain ⟨keyId, rfl⟩ := mem_forgetKey hkey
        cases htouches
    · intro hdeclined p draws hc
      rcases List.mem_cons.mp hc with heq | hkey
      · cases heq
      · obtain ⟨keyId, heq⟩ := mem_forgetKey hkey
        cases heq
  · rw [if_neg hnotified]
    exact Driven.refl h

theorem drive_closed (h : s.Sound taken) (ht : s.task = some t) (nonce : Nonce)
    (draws : ℕ → Nonce × Bool) : Driven taken s k (s.drive k .closed nonce draws) := by
  unfold drive
  rw [ht]
  dsimp only
  cases hclosed : s.closed with
  | none => exact Driven.refl h
  | some reason =>
    obtain ⟨hkept, hsuperseded⟩ := noteClosed_spec s k reason
    refine ⟨(hkept.trans (kept_finish _)).same, Or.inl hkept.closed, fun hstatus => ?_, ?_, ?_, ?_⟩
    · have hsame := hsuperseded hstatus
      refine Or.inl ⟨?_, congrArg PathReport.cause hsame⟩
      rw [← hsame]
      exact hstatus
    · intro t' ht'
      exact absurd ht'.symm (Option.some_ne_none t')
    · intro c hc htouches
      rcases List.mem_append.mp hc with hkey | hend
      · obtain ⟨keyId, rfl⟩ := mem_forgetKey hkey
        cases htouches
      · exact Or.inr ⟨List.mem_singleton.mp hend, by rw [hclosed]; rfl⟩
    · intro hdeclined p draws hc
      rcases List.mem_append.mp hc with hkey | hend
      · obtain ⟨keyId, heq⟩ := mem_forgetKey hkey
        cases heq
      · cases List.mem_singleton.mp hend

theorem drive_spec (h : s.Sound taken) (hk : ∀ id, k.RelayTaken id → taken id) (wake : Wake)
    (nonce : Nonce) (draws : ℕ → Nonce × Bool) : Driven taken s k (s.drive k wake nonce draws) := by
  cases ht : s.task with
  | none =>
    unfold drive
    rw [ht]
    exact Driven.refl h
  | some t =>
    obtain ⟨hprev, hrelay⟩ := h t ht
    cases wake with
    | superseded => exact drive_superseded h ht nonce draws
    | closed => exact drive_closed h ht nonce draws
    | relayEvent =>
      unfold drive
      rw [ht]
      dsimp only
      cases hreceived : (k.relay.driver t.driver).bind t.receive with
      | none => exact Driven.refl h
      | some t' =>
        obtain ⟨d, hd, hreceive⟩ := Option.bind_eq_some_iff.mp hreceived
        obtain ⟨hprev', -, hdriver, hrelay'⟩ := receive_spec hreceive
        refine iterate_driven hk (by rw [hprev', hprev]) (fun hsuperseded => ?_) draws
        rw [hdriver]
        exact hk _ ⟨d, hd, hrelay' hsuperseded⟩
    | interfaceChange =>
      unfold drive
      rw [ht]
      dsimp only
      by_cases halive : t.netAlive = true
      · rw [if_pos halive]
        refine Driven.cons_requery (iterate_driven hk ?_ ?_ draws) nonce
        · exact hprev
        · exact hrelay
      · rw [if_neg halive]
        exact Driven.refl h
    | monitorEnded =>
      unfold drive
      rw [ht]
      refine iterate_driven hk ?_ ?_ draws
      · exact hprev
      · exact hrelay
    | tick =>
      unfold drive
      rw [ht]
      exact iterate_driven hk hprev hrelay draws

theorem start_spec (k : PathSocket) (peer : NodeId) (id conn : ℕ) (allowDirect : Bool)
    (probeDelay : ℕ) (keys : Option (ProbeKeyId × ProbeKey)) :
    let s := (start k peer id conn allowDirect probeDelay keys).1
    s.peer = peer ∧ s.id = id ∧ s.conn = conn ∧ s.allowDirect = allowDirect ∧ s.closed = none ∧
      s.report.status = .relayed ∧ s.task = some (Drive.start k peer probeDelay) := by
  intro s
  unfold s start
  dsimp only
  refine ⟨?_, ?_, ?_, ?_, ?_, status_transition _ _ _ _, task_transition _ _ _ _⟩
  · exact (kept_transition _ k _ _).peer
  · exact (kept_transition _ k _ _).id
  · exact (kept_transition _ k _ _).conn
  · exact (kept_transition _ k _ _).allowDirect
  · exact (kept_transition _ k _ _).closed

theorem sound_start (hk : ∀ id, k.RelayTaken id → taken id) (peer : NodeId) (id conn : ℕ)
    (allowDirect : Bool) (probeDelay : ℕ) (keys : Option (ProbeKeyId × ProbeKey)) :
    (start k peer id conn allowDirect probeDelay keys).1.Sound taken := by
  intro t ht
  obtain ⟨-, -, -, -, -, -, htask⟩ := start_spec k peer id conn allowDirect probeDelay keys
  obtain rfl := Option.some.inj (htask.symm.trans ht)
  exact ⟨rfl, fun hsuperseded => hk _ ⟨_, k.relayFor_driver peer, Or.inl hsuperseded⟩⟩

end Pass

end Session

end ForgeswornLink
