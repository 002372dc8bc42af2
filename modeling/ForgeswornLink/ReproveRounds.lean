import ForgeswornLink.EndpointEffects
import ForgeswornLink.ProbeEffects

/-!
# Re-probing before a direct path is given up

A session on its direct path probes the peer every five seconds, but only in
passes that see the relay up, while the proof of the path ages all the same. So
an outage that outlasts the proof takes the session from `Direct` to `Relayed`
with no probe sent since the proof. One pass with the relay up and the proof fresh
is enough to rule that out, if the last round is then five seconds old, for it
probes; or if the proof is, for else the last round went out after the proof.
-/

namespace ForgeswornLink
open Runs NewestWins

namespace Session

def Paced (peer : NodeId) (now : ℕ) (t : Drive) (r : Session × List Event) : Prop :=
  ∀ t', r.1.task = some t' → t'.lastProbeSent = t.lastProbeSent ∨
    t'.lastProbeSent = reproveDue now ∨
    t'.lastProbeSent = now ∧ ∃ draws, .sendProbes peer draws ∈ r.2

section Pace
variable {s : Session} {t t' : Drive} {k : PathSocket} {calls : List Event}
  {peer : NodeId} {now : ℕ}

theorem paced_resume (h : t'.lastProbeSent = t.lastProbeSent) :
    Paced peer now t (s.resume t', calls) := by
  intro t'' ht
  obtain rfl := Option.some.inj ht
  exact Or.inl h

theorem paced_probes {draws : ℕ → Nonce × Bool} (h : t'.lastProbeSent = now) :
    Paced peer now t (s.resume t', [.sendProbes peer draws]) := by
  intro t'' ht
  obtain rfl := Option.some.inj ht
  exact Or.inr (Or.inr ⟨h, draws, List.mem_singleton_self _⟩)

theorem paced_finish : Paced peer now t (s.finish, calls) := by
  intro t' ht
  cases ht

theorem paced_advance (s : Session) (t : Drive) (k : PathSocket) (draws : ℕ → Nonce × Bool) :
    Paced s.peer k.now t (s.advance t k draws) := by
  unfold advance
  dsimp only
  cases s.report.status with
  | relayed =>
    dsimp only
    split
    · exact paced_resume rfl
    · split_ifs
      · exact paced_resume rfl
      · exact paced_resume rfl
      · exact paced_resume rfl
      · exact paced_probes rfl
  | probing =>
    dsimp only
    split
    · exact paced_resume rfl
    · by_cases hagain : 500000000 ≤ k.now - t.lastProbeSent
      · simp only [hagain, if_true]
        split_ifs
        · exact paced_probes rfl
        · exact paced_probes rfl
      · simp only [hagain, if_false]
        split_ifs
        · exact paced_resume rfl
        · exact paced_resume rfl
  | direct =>
    dsimp only
    split
    · split_ifs
      · exact paced_probes rfl
      · exact paced_resume rfl
    · exact paced_resume rfl
  | _ => exact paced_resume rfl

theorem lastProbeSent_prepare (s : Session) (t : Drive) (k : PathSocket) :
    (s.prepare t k).2.lastProbeSent = t.lastProbeSent ∨
      (s.prepare t k).2.lastProbeSent = reproveDue k.now := by
  unfold prepare
  dsimp only
  by_cases hdue : t.reannounceAt.any (fun instant => instant ≤ k.now) = true
  · simp only [hdue, if_true]
    exact Or.inr trivial
  · simp only [hdue, Bool.false_eq_true, if_false]
    cases s.probeNow with
    | idle => exact Or.inl rfl
    | here => exact Or.inr rfl
    | peer => exact Or.inr rfl

theorem lastProbeSent_welcome (s : Session) (t : Drive) (k : PathSocket) :
    (s.welcome t k).2.lastProbeSent = t.lastProbeSent := by
  unfold welcome
  split_ifs <;> rfl

theorem lastProbeSent_follow (t : Drive) (k : PathSocket) (peer : NodeId) :
    (t.follow k peer).lastProbeSent = t.lastProbeSent := by
  unfold Drive.follow Drive.subscribe
  split_ifs <;> rfl

theorem paced_relayUp (s : Session) (t : Drive) (k : PathSocket) (draws : ℕ → Nonce × Bool) :
    Paced s.peer k.now t (s.relayUp t k draws) := by
  have hlast := lastProbeSent_welcome s t k
  have hkept := kept_welcome s t k
  unfold relayUp
  generalize s.welcome t k = w at hlast hkept ⊢
  obtain ⟨s', u⟩ := w
  dsimp only at hlast hkept ⊢
  split_ifs
  · unfold stayRelayed
    split_ifs
    · exact paced_resume hlast
    · exact paced_resume hlast
  · obtain ⟨hkept', -⟩ := prepare_spec s' u k
    have hpaced := paced_advance (s'.prepare u k).1 (s'.prepare u k).2 k draws
    rw [hkept'.peer, hkept.peer] at hpaced
    intro t' ht
    rcases hpaced t' ht with hsame | hdue | hsent
    · rw [hsame, ← hlast]
      exact (lastProbeSent_prepare s' u k).imp_right Or.inl
    · exact Or.inr (Or.inl hdue)
    · exact Or.inr (Or.inr hsent)

theorem paced_iterate (s : Session) (t : Drive) (k : PathSocket) (draws : ℕ → Nonce × Bool) :
    Paced s.peer k.now t (s.iterate t k draws) := by
  have hdown : ∀ u : Drive, u.lastProbeSent = t.lastProbeSent →
      Paced s.peer k.now t (s.relayDown u k, []) := by
    intro u hu
    unfold relayDown
    split_ifs
    · exact paced_resume hu
    · exact paced_resume hu
  have hfollow := lastProbeSent_follow t k s.peer
  unfold iterate
  dsimp only
  split_ifs
  · exact paced_finish
  · generalize t.follow k s.peer = u at hfollow ⊢
    cases u.relayState with
    | superseded => exact paced_finish
    | failed => exact paced_finish
    | reconnecting => exact hdown u hfollow
    | connecting => exact hdown u hfollow
    | up url =>
      intro t' ht
      rw [← hfollow]
      exact paced_relayUp s u k draws t' ht

theorem lastProbeSent_start {id conn : ℕ} {allowDirect : Bool} {probeDelay : ℕ}
    {keys : Option (ProbeKeyId × ProbeKey)}
    (h : (start k peer id conn allowDirect probeDelay keys).1.task = some t) :
    t.lastProbeSent = reproveDue k.now := by
  obtain ⟨-, -, -, -, -, -, htask⟩ := start_spec k peer id conn allowDirect probeDelay keys
  rw [← Option.some.inj (htask.symm.trans h)]
  rfl

theorem paced_drive (s : Session) (k : PathSocket) (wake : Wake) (nonce : Nonce)
    (draws : ℕ → Nonce × Bool) {t' : Drive} (h : (s.drive k wake nonce draws).1.task = some t') :
    ∃ t, s.task = some t ∧ Paced s.peer k.now t (s.drive k wake nonce draws) := by
  have hpass := pass_drive s k wake nonce draws
  generalize s.drive k wake nonce draws = r at hpass h ⊢
  cases hpass with
  | waits =>
    refine ⟨t', h, fun t'' ht => Or.inl ?_⟩
    rw [Option.some.inj (ht.symm.trans h)]
  | @goes t hselect calls hcalls =>
    obtain ⟨t₀, htask, -, hlast⟩ := task_of_pastSelect hselect
    refine ⟨t₀, htask, fun t'' ht => ?_⟩
    rw [← hlast]
    rcases paced_iterate s t k draws t'' ht with hsame | hdue | ⟨hnow, draws', hsent⟩
    · exact Or.inl hsame
    · exact Or.inr (Or.inl hdue)
    · refine Or.inr (Or.inr ⟨hnow, draws', ?_⟩)
      rcases hcalls with rfl | rfl
      · exact hsent
      · exact List.mem_cons_of_mem _ hsent
  | displaced => cases h
  | ends => cases h

end Pace

def GivesUpDirect (s : Session) (k : PathSocket) (wake : Wake) (nonce : Nonce)
    (draws : ℕ → Nonce × Bool) : Prop :=
  (s.welcomed k wake).report.status = .direct ∧
    (s.drive k wake nonce draws).1.report.status = .relayed

/-- A pass finds the relay up, the session on its direct path and the proof of it fresh, and its
last round five seconds old; or the proof, on a host that has been up for ten. -/
structure ChecksDirect (s : Session) (k : PathSocket) (wake : Wake) : Prop where
  relay : ∃ url, s.seenRelay k wake = some (.up url)
  status : (s.welcomed k wake).report.status = .direct
  due : ∃ proven, s.freshProof k = some proven ∧
    ((∃ t, s.task = some t ∧ t.lastProbeSent + reproveInterval ≤ k.now) ∨
      proven.provedAt + reproveInterval ≤ k.now ∧ 2 * reproveInterval ≤ k.now)

section Direct
variable {s : Session} {t : Drive} {k : PathSocket} {wake : Wake} {log : List PathStatus}

theorem unfailed_of_welcomed (hselect : s.pastSelect k wake = some t)
    (h : (s.welcomed k wake).report.status = .direct) : s.report.status.isFailed = false := by
  rw [welcomed, hselect] at h
  dsimp only at h
  by_cases hdown : s.report.status = .reconnecting
  · rw [hdown]
    rfl
  have hstay : s.backOn (t.follow k s.peer) k = s := by
    unfold backOn welcome
    split
    · rw [if_neg hdown]
    · rfl
  rw [hstay] at h
  rw [h]
  rfl

theorem advance_reproves (hstatus : s.report.status = .direct) (hfresh : (s.freshProof k).isSome)
    (hdue : reproveInterval ≤ k.now - t.lastProbeSent) (draws : ℕ → Nonce × Bool) :
    .sendProbes s.peer draws ∈ (s.advance t k draws).2 := by
  obtain ⟨proven, hproven⟩ := Option.isSome_iff_exists.mp hfresh
  unfold advance
  dsimp only
  rw [← freshProof, hstatus, hproven]
  dsimp only
  rw [if_pos hdue]
  exact List.mem_singleton_self _

theorem relayUp_reproves (hallow : s.allowDirect = true)
    (hstatus : (s.welcome t k).1.report.status = .direct) (hfresh : (s.freshProof k).isSome)
    (hdue : t.lastProbeSent + reproveInterval ≤ k.now)
    (draws : ℕ → Nonce × Bool) : .sendProbes s.peer draws ∈ (s.relayUp t k draws).2 := by
  have hkept := kept_welcome s t k
  have hlast := lastProbeSent_welcome s t k
  unfold relayUp
  generalize s.welcome t k = w at hkept hlast hstatus ⊢
  obtain ⟨s', u⟩ := w
  dsimp only at hkept hlast hstatus ⊢
  rw [if_neg (by rw [hkept.allowDirect, hallow]; simp)]
  obtain ⟨hkept', hreport, -⟩ := prepare_spec s' u k
  have hpeer := hkept'.peer.trans hkept.peer
  have hdue' : reproveInterval ≤ k.now - (s'.prepare u k).2.lastProbeSent := by
    rcases lastProbeSent_prepare s' u k with hsame | hnow
    · rw [hsame, hlast]
      omega
    · rw [hnow, reproveDue, if_pos (by omega)]
      omega
  rw [← hpeer]
  refine advance_reproves (by rw [hreport]; exact hstatus) ?_ hdue' draws
  rw [freshProof, hpeer]
  exact hfresh

theorem ChecksDirect.reproves (h : s.ChecksDirect k wake) (hallow : s.allowDirect = true)
    (nonce : Nonce) (draws : ℕ → Nonce × Bool) :
    ∃ t, s.task = some t ∧ (t.lastProbeSent + reproveInterval ≤ k.now →
      .sendProbes s.peer draws ∈ (s.drive k wake nonce draws).2) := by
  obtain ⟨url, hseen⟩ := h.relay
  obtain ⟨proven, hproven, -⟩ := h.due
  obtain ⟨t, hselect, hup⟩ := Option.map_eq_some_iff.mp hseen
  obtain ⟨t₀, htask, -, hlast⟩ := task_of_pastSelect hselect
  refine ⟨t₀, htask, fun hdue => ?_⟩
  have hstatus := h.status
  have hok := unfailed_of_welcomed hselect hstatus
  rw [welcomed, hselect] at hstatus
  simp only [backOn, hup] at hstatus
  have hsent : .sendProbes s.peer draws ∈ (s.iterate t k draws).2 := by
    unfold iterate
    dsimp only
    rw [if_neg (by rw [hok]; simp), hup]
    refine relayUp_reproves hallow hstatus (by rw [hproven]; rfl) ?_ draws
    rw [lastProbeSent_follow, hlast]
    exact hdue
  have hpass := pass_drive s k wake nonce draws
  generalize s.drive k wake nonce draws = r at hpass ⊢
  cases hpass with
  | waits hnone => cases hnone.symm.trans hselect
  | displaced _ hnone => cases hnone.symm.trans hselect
  | ends _ hnone => cases hnone.symm.trans hselect
  | goes hselect' hcalls =>
    obtain rfl := Option.some.inj (hselect'.symm.trans hselect)
    rcases hcalls with rfl | rfl
    · exact hsent
    · exact List.mem_cons_of_mem _ hsent

theorem Tracked.allowed (h : s.Tracked log)
    (hstatus : (s.welcomed k wake).report.status = .direct) :
    s.allowDirect = true := by
  by_contra hno
  rw [Bool.not_eq_true] at hno
  have hnever : ∀ {s' : Session} {log' : List PathStatus}, s'.Logged log' → s'.allowDirect = false →
      s'.report.status ≠ .direct := by
    intro s' log' hlogged hdeclined
    exact (hlogged.declined hdeclined _ (List.mem_of_mem_getLast? hlogged.last)).2
  have hbefore := hnever h.logged hno
  unfold welcomed at hstatus
  cases hselect : s.pastSelect k wake with
  | none =>
    rw [hselect] at hstatus
    exact hbefore hstatus
  | some t =>
    rw [hselect] at hstatus
    dsimp only [backOn] at hstatus
    split at hstatus
    · obtain ⟨t₀, htask, hprevious, -⟩ := task_of_pastSelect hselect
      have hon : s.OnPath t log := by
        rw [OnPath, hprevious]
        exact h.running t₀ htask
      have hlogged := (welcome_logged (k := k) h.logged (hon.follow k)).1
      exact hnever hlogged ((kept_welcome s _ k).allowDirect.trans hno) hstatus
    · exact hbefore hstatus

theorem noteClosed_not_relayed (hstatus : s.report.status = .direct) (reason : ConnectionError) :
    (s.noteClosed k reason).report.status ≠ .relayed := by
  unfold noteClosed
  rw [hstatus, if_neg (by simp [PathStatus.isFailed])]
  cases reason with
  | locallyClosed => simp [hstatus]
  | applicationClosed => simp [hstatus]
  | _ => simp [status_transition]

theorem iterate_not_relayed {draws : ℕ → Nonce × Bool} (hok : s.report.status.isFailed = false)
    (hstatus : (s.backOn (t.follow k s.peer) k).report.status = .direct)
    (hdown : ∀ url, (t.follow k s.peer).relayState ≠ .up url) :
    (s.iterate t k draws).1.report.status ≠ .relayed := by
  unfold iterate
  dsimp only
  rw [if_neg (by rw [hok]; simp)]
  generalize t.follow k s.peer = u at hstatus hdown ⊢
  have hreconnects : s.report.status = .direct → (s.relayDown u k).report.status ≠ .relayed := by
    intro hdirect
    rw [relayDown, if_pos (by rw [hdirect]; simp)]
    change (s.transition k _ _).report.status ≠ _
    rw [status_transition]
    simp
  cases hrelay : u.relayState with
  | superseded => simp [finish, status_transition]
  | failed => simp [finish, status_transition]
  | up url => exact absurd hrelay (hdown url)
  | reconnecting =>
    simp only [backOn, hrelay] at hstatus
    exact hreconnects hstatus
  | connecting =>
    simp only [backOn, hrelay] at hstatus
    exact hreconnects hstatus

theorem GivesUpDirect.relay {nonce : Nonce} {draws : ℕ → Nonce × Bool}
    (h : s.GivesUpDirect k wake nonce draws) :
    ∃ t url, s.pastSelect k wake = some t ∧ (t.follow k s.peer).relayState = .up url := by
  obtain ⟨hbefore, hafter⟩ := h
  have hpass := pass_drive s k wake nonce draws
  generalize s.drive k wake nonce draws = r at hpass hafter
  cases hpass with
  | waits hnone =>
    rw [welcomed_of_none hnone] at hbefore
    cases hbefore.symm.trans hafter
  | displaced _ hnone =>
    change (s.transition k _ _).report.status = _ at hafter
    rw [status_transition] at hafter
    cases hafter
  | ends _ hnone =>
    rw [welcomed_of_none hnone] at hbefore
    exact absurd hafter (noteClosed_not_relayed hbefore _)
  | @goes t hselect calls hcalls =>
    have hok := unfailed_of_welcomed hselect hbefore
    rw [welcomed, hselect] at hbefore
    by_contra hnone
    refine iterate_not_relayed hok hbefore (fun url hup => ?_) hafter
    exact hnone ⟨t, url, hselect, hup⟩

theorem Tracked.stale (h : s.Tracked log) {nonce : Nonce} {draws : ℕ → Nonce × Bool}
    (hgives : s.GivesUpDirect k wake nonce draws) : s.freshProof k = none := by
  obtain ⟨t, url, hselect, hup⟩ := hgives.relay
  obtain ⟨t₀, htask, hprevious, -⟩ := task_of_pastSelect hselect
  have hon : s.OnPath t log := by
    rw [OnPath, hprevious]
    exact h.running t₀ htask
  have hiff := direct_iff_fresh h.logged hon hselect hup (h.allowed hgives.1) nonce draws
  rw [← Option.not_isSome_iff_eq_none, ← hiff, hgives.2]
  simp

end Direct

end Session

namespace PathSocket
variable (P : Primitives) (hostOf : String → Option String)

def RoundFrom (start : PathSocket) (p : NodeId) (time : ℕ) (calls : List Event) : Prop :=
  ∃ before draws later, calls = before ++ .sendProbes p draws :: later ∧
    time ≤ (after P hostOf start before).now

/-- A round to the peer was sent after its last proof was recorded. -/
def RoundSinceProof (start : PathSocket) (p : NodeId) (calls : List Event) : Prop :=
  Since (fun _ c => ∃ draws, c = .sendProbes p draws)
    (fun before c => ∀ a n, ¬ (after P hostOf start before).AcceptsPong P c p a n) calls

/-- The task's time of its last round is that of a round, or makes the next one due; a clock
that has not reached five seconds cannot say so. -/
def Dated (start : PathSocket) (calls : List Event) (s : Session) : Prop :=
  ∀ t, s.task = some t → RoundFrom P hostOf start s.peer t.lastProbeSent calls ∨
    t.lastProbeSent + reproveInterval ≤ (after P hostOf start calls).now ∨
    t.lastProbeSent < reproveInterval

variable {P hostOf} {start : PathSocket} {p : NodeId} {time : ℕ} {calls : List Event} {s : Session}

theorem RoundFrom.append (h : RoundFrom P hostOf start p time calls) (more : List Event) :
    RoundFrom P hostOf start p time (calls ++ more) := by
  obtain ⟨before, draws, later, rfl, htime⟩ := h
  exact ⟨before, draws, later ++ more, by simp, htime⟩

theorem RoundFrom.le_now (h : RoundFrom P hostOf start p time calls) :
    time ≤ (after P hostOf start calls).now := by
  obtain ⟨before, draws, later, rfl, htime⟩ := h
  rw [after_append]
  exact htime.trans (now_le_after P hostOf _ _)

theorem roundFrom_of_mem {more : List Event} {draws : ℕ → Nonce × Bool}
    (h : .sendProbes p draws ∈ more) (htime : time ≤ (after P hostOf start calls).now) :
    RoundFrom P hostOf start p time (calls ++ more) := by
  obtain ⟨first, rest, rfl⟩ := List.append_of_mem h
  refine ⟨calls ++ first, draws, rest, by simp, ?_⟩
  rw [after_append]
  exact htime.trans (now_le_after P hostOf _ _)

theorem Dated.append (h : Dated P hostOf start calls s) (more : List Event) :
    Dated P hostOf start (calls ++ more) s := by
  intro t ht
  rcases h t ht with hround | hdue | hearly
  · exact Or.inl (hround.append more)
  · rw [after_append]
    exact Or.inr (Or.inl (hdue.trans (now_le_after P hostOf _ _)))
  · exact Or.inr (Or.inr hearly)

theorem reproveDue_cases (now : ℕ) :
    reproveDue now + reproveInterval ≤ now ∨ reproveDue now < reproveInterval := by
  unfold reproveDue
  split_ifs with hlate
  · omega
  · omega

theorem Dated.drive (h : Dated P hostOf start calls s) (wake : Wake) (nonce : Nonce)
    (draws : ℕ → Nonce × Bool) :
    let r := s.drive (after P hostOf start calls) wake nonce draws
    Dated P hostOf start (calls ++ r.2) r.1 := by
  intro r t' ht'
  have hpeer : r.1.peer = s.peer := (Session.pass_drive s _ wake nonce draws).same.peer
  obtain ⟨t, htask, hpaced⟩ := Session.paced_drive s _ wake nonce draws ht'
  rw [hpeer]
  rcases hpaced t' ht' with hsame | hdue | ⟨hnow, draws', hsent⟩
  · rw [hsame]
    exact h.append r.2 t htask
  · rw [hdue, after_append]
    rcases reproveDue_cases (after P hostOf start calls).now with hlate | hearly
    · exact Or.inr (Or.inl (hlate.trans (now_le_after P hostOf _ _)))
    · exact Or.inr (Or.inr hearly)
  · exact Or.inl (roundFrom_of_mem hsent hnow.le)

theorem RoundSinceProof.append (h : RoundSinceProof P hostOf start p calls) (more : List Event)
    (hmore : ∀ c ∈ more, c.isRecvDirect = false) :
    RoundSinceProof P hostOf start p (calls ++ more) := by
  refine Since.append h fun mid c rest hmid a n => ?_
  exact not_acceptsPong_of_not_recvDirect (hmore c (by rw [hmid]; simp))

theorem roundSinceProof_of_mem {more : List Event} {draws : ℕ → Nonce × Bool}
    (h : .sendProbes p draws ∈ more) (hmore : ∀ c ∈ more, c.isRecvDirect = false) :
    RoundSinceProof P hostOf start p (calls ++ more) := by
  obtain ⟨first, rest, rfl⟩ := List.append_of_mem h
  have hnow : RoundSinceProof P hostOf start p (calls ++ first ++ [.sendProbes p draws]) :=
    since_now ⟨draws, rfl⟩
  have hrest := hnow.append rest fun c hc => hmore c (by simp [hc])
  rwa [List.append_assoc, List.append_assoc] at hrest

theorem roundSinceProof_of_later {proven : Proven}
    (hround : RoundFrom P hostOf start p time calls) (hlater : proven.provedAt < time)
    (hdirect : ((after P hostOf start calls).inner.entry p).direct = some proven) :
    RoundSinceProof P hostOf start p calls := by
  induction calls using List.reverseRecOn with
  | nil =>
    obtain ⟨before, draws, later, hnil, -⟩ := hround
    simp at hnil
  | append_singleton calls c ih =>
    obtain ⟨before, draws, later, hcalls, htime⟩ := hround
    rcases snoc_eq_append_cons hcalls with ⟨-, rfl, -⟩ | ⟨later', hbefore, -⟩
    · exact since_now ⟨draws, rfl⟩
    have hround' : RoundFrom P hostOf start p time calls := ⟨before, draws, later', hbefore, htime⟩
    have hnow := hround'.le_now
    rw [after, run_snoc] at hdirect
    -- an accepted pong would put a proof on record that is no earlier than the round
    have hnone : ∀ a n, ¬ (after P hostOf start calls).AcceptsPong P c p a n := by
      intro a n haccepts
      have hrecord := Option.some.inj ((direct_of_accepted haccepts).symm.trans hdirect)
      have hproved : (after P hostOf start calls).now = proven.provedAt :=
        congrArg Proven.provedAt hrecord
      omega
    rcases direct_step hdirect with ⟨n, haccepts, -⟩ | ⟨hkept, -⟩
    · exact absurd haccepts (hnone _ n)
    · exact Since.snoc (ih hround' hkept) hnone

end PathSocket

theorem Event.not_recvDirect_of_own {c : Event} (h : c.isOwn = true) : c.isRecvDirect = false := by
  cases c with
  | recvDirect sender data draw => cases h
  | _ => rfl

namespace Endpoint
variable {P : Primitives} {hostOf : String → Option String} {start : Endpoint}
  {es : List EndpointEvent} {p : NodeId}

theorem dated_run (hstart : start.sessions = ∅) (es : List EndpointEvent) (id : ℕ) (s : Session)
    (hs : (run (step P hostOf) start es).sessions.lookup id = some s) :
    PathSocket.Dated P hostOf start.socket (start.trace P hostOf es) s := by
  induction es using List.reverseRecOn generalizing id s with
  | nil =>
    rw [run_nil, hstart, AList.lookup_empty] at hs
    cases hs
  | append_singleton es event ih =>
    rw [run_snoc] at hs
    rw [Endpoint.trace, trace_snoc]
    refine (moves_turn _ event).sessions ih (fun s h => h.append _) ?_ ?_ ?_ id s hs
    · intro calls rest peer id conn allowDirect probeDelay keys hcalls _
      rw [Endpoint.calls, hcalls, ← List.append_assoc]
      refine PathSocket.Dated.append ?_ rest
      intro t ht
      have hlast := Session.lastProbeSent_start ht
      rw [socket_run, ← PathSocket.after_append] at hlast
      rw [hlast]
      exact Or.inr (PathSocket.reproveDue_cases _)
    · intro session s wake nonce draws _ _ hcalls hdated
      have hdriven := hdated.drive wake nonce draws
      dsimp only at hdriven
      rw [← socket_run, ← hcalls] at hdriven
      exact hdriven
    · intro s n hdated
      obtain ⟨hsame, -, -, htask⟩ := s.note_spec n
      refine PathSocket.Dated.append ?_ _
      intro t ht
      rw [hsame.peer]
      exact hdated t (htask ▸ ht)

theorem tracked_session (hstart : start.sessions = ∅) {id : ℕ} {s : Session}
    (hs : (run (step P hostOf) start es).sessions.lookup id = some s) : ∃ log, s.Tracked log := by
  obtain ⟨k, peer, id, conn, allowDirect, probeDelay, keys, events, rfl⟩ :=
    session_reports hstart es id s hs
  exact ⟨_, (Reporting.tracked_run k k peer id conn allowDirect probeDelay keys events).1⟩

variable (P hostOf) in
def CheckedSinceProof (start : Endpoint) (p : NodeId) (es : List EndpointEvent) : Prop :=
  Since (fun before event => ∃ id s wake nonce draws, event = .drive id wake nonce draws ∧
      (run (step P hostOf) start before).sessions.lookup id = some s ∧ s.peer = p ∧
      s.ChecksDirect (run (step P hostOf) start before).socket wake)
    (fun before event => ∀ c a n, event = .environment c →
      ¬ (run (step P hostOf) start before).socket.AcceptsPong P c p a n) es

theorem roundSinceProof_of_checks (hstart : start.sessions = ∅) {id : ℕ} {s : Session} {wake : Wake}
    (hs : (run (step P hostOf) start es).sessions.lookup id = some s)
    (h : s.ChecksDirect (run (step P hostOf) start es).socket wake) (nonce : Nonce)
    (draws : ℕ → Nonce × Bool) :
    PathSocket.RoundSinceProof P hostOf start.socket s.peer
      (start.trace P hostOf (es ++ [.drive id wake nonce draws])) := by
  have hcalls : calls P hostOf (run (step P hostOf) start es) (.drive id wake nonce draws) =
      (s.drive (run (step P hostOf) start es).socket wake nonce draws).2 := by
    simp only [calls, turn, onSession, hs]
  have hown : ∀ c ∈ (s.drive (run (step P hostOf) start es).socket wake nonce draws).2,
      c.isRecvDirect = false := fun c hc => Event.not_recvDirect_of_own (s.own_drive _ _ _ _ c hc)
  obtain ⟨log, htracked⟩ := tracked_session hstart hs
  obtain ⟨t, htask, hprobes⟩ := h.reproves (htracked.allowed h.status) nonce draws
  obtain ⟨proven, hproven, hage⟩ := h.due
  rw [Endpoint.trace, trace_snoc, hcalls]
  by_cases hdue : t.lastProbeSent + reproveInterval ≤ (run (step P hostOf) start es).socket.now
  · exact PathSocket.roundSinceProof_of_mem (hprobes hdue) hown
  · obtain ⟨hage, hclock⟩ := hage.resolve_left (by
      rintro ⟨t', htask', hdue'⟩
      exact hdue (Option.some.inj (htask'.symm.trans htask) ▸ hdue'))
    have hdirect : ((run (step P hostOf) start es).socket.inner.entry s.peer).direct =
        some proven := by
      obtain ⟨hrecord, -⟩ := Option.filter_eq_some_iff.mp hproven
      unfold PathSocket.provenDirect at hrecord
      split_ifs at hrecord
      exact hrecord
    rcases dated_run hstart es id s hs t htask with hround | hold | hearly
    · rw [socket_run] at hdirect
      exact (PathSocket.roundSinceProof_of_later hround (by omega) hdirect).append _ hown
    · rw [← socket_run] at hold
      omega
    · omega

theorem not_accepts_of_environment {event : EndpointEvent}
    (h : ∀ c a n, event = .environment c →
      ¬ (run (step P hostOf) start es).socket.AcceptsPong P c p a n)
    {mid rest : List Event} {c : Event}
    (hcalls : calls P hostOf (run (step P hostOf) start es) event = mid ++ c :: rest)
    (a : SocketAddr) (n : Nonce) :
    ¬ (PathSocket.after P hostOf start.socket (start.trace P hostOf es ++ mid)).AcceptsPong
      P c p a n := by
  by_cases hevent : ∃ c', event = .environment c'
  · obtain ⟨c', rfl⟩ := hevent
    simp only [calls, turn] at hcalls
    split_ifs at hcalls with henv
    · obtain ⟨rfl, hsingle⟩ :=
        List.append_eq_singleton_iff.mp hcalls.symm |>.resolve_right (by simp)
      obtain ⟨rfl, -⟩ := List.cons.inj hsingle
      rw [List.append_nil, ← socket_run]
      exact h c a n rfl
    · simp [stay] at hcalls
  · have hown : ∀ c ∈ calls P hostOf (run (step P hostOf) start es) event, c.isOwn = true :=
      (moves_turn _ event).own fun c' heq => hevent ⟨c', heq⟩
    have hmem : c ∈ calls P hostOf (run (step P hostOf) start es) event := by
      rw [hcalls]
      simp
    exact PathSocket.not_acceptsPong_of_not_recvDirect (Event.not_recvDirect_of_own (hown c hmem))

theorem CheckedSinceProof.round (hstart : start.sessions = ∅)
    (h : CheckedSinceProof P hostOf start p es) :
    PathSocket.RoundSinceProof P hostOf start.socket p (start.trace P hostOf es) := by
  refine since_trace ?_ (fun pre event hnone mid c rest hcalls => ?_) h
  · rintro pre event ⟨id, s, wake, nonce, draws, rfl, hs, rfl, hchecks⟩
    exact roundSinceProof_of_checks hstart hs hchecks nonce draws
  · exact not_accepts_of_environment hnone hcalls

/-- In every run of an endpoint: when a pass takes a session from `Direct` to `Relayed` there is no
fresh proof, and a round was sent to the peer after the last one was recorded, if since then some
pass of a session with the peer saw the relay up, the session on its direct path, the proof fresh
and the last round or the proof five seconds old. -/
theorem direct_given_up_after_round (P : Primitives) (hostOf : String → Option String) (udp : Bool)
    (config : EndpointConfig) (now unixNow : ℕ) (es : List EndpointEvent) (id : ℕ) (s : Session)
    (wake : Wake) (nonce : Nonce) (draws : ℕ → Nonce × Bool) :
    let start := openOn udp config now unixNow
    let e := run (step P hostOf) start es
    e.sessions.lookup id = some s → s.GivesUpDirect e.socket wake nonce draws →
    s.freshProof e.socket = none ∧
      (CheckedSinceProof P hostOf start s.peer es →
        PathSocket.RoundSinceProof P hostOf start.socket s.peer (start.trace P hostOf es)) := by
  intro start e hs hgives
  obtain ⟨log, htracked⟩ := tracked_session rfl hs
  exact ⟨htracked.stale hgives, CheckedSinceProof.round rfl⟩

def prompt (id : ℕ) : List EndpointEvent → Bool
  | [] => true
  | .environment (.tick elapsed) :: .drive session .tick _ _ :: es =>
    elapsed ≤ second && session == id && prompt id es
  | .environment (.tick _) :: _ => false
  | _ :: es => prompt id es

section OnePeer

def onlyPeer : NodeId := ⟨List.Vector.replicate 32 1⟩

def onlyAddr : SocketAddr := .v4 (List.Vector.replicate 4 1) 4000

def onlyNonce : Nonce := List.Vector.replicate 16 5

def onlyStart : Endpoint :=
  openOn true { EndpointConfig.new ⟨List.Vector.replicate 32 0⟩ with relays := ["wss://relay"] }
    (20 * second) 0

def onlyPass (wake : Wake) : EndpointEvent := .drive 0 wake onlyNonce fun _ => (onlyNonce, true)

def everySecond (count : ℕ) : List EndpointEvent :=
  (List.replicate count [.environment (.tick second), onlyPass .tick]).flatten

def oneRound : List EndpointEvent :=
  [.environment (.driver 0 .connected), .environment (.recvRelay onlyPeer [0] 0),
    .incoming (onlyPeer.syntheticAddr Primitives.standIn) 0 .started,
    .arrived 0 (.done (some onlyPeer)
      (some (List.Vector.replicate 8 3, List.Vector.replicate 32 4)) none 0),
    .control 0 (.candidates [onlyAddr]), onlyPass .tick]

def onlyPong : Event :=
  .recvDirect onlyAddr (Probe.sealProbe Primitives.standIn
    ⟨probePong, List.Vector.replicate 8 3, onlyNonce⟩ (List.Vector.replicate 32 4))
      (onlyNonce, true)

/-- The pong comes after four tenths of a second, so the next round is due before the proof is five
seconds old. -/
def roundTrip : List EndpointEvent :=
  oneRound ++ [.environment (.tick 400000000), .environment onlyPong, onlyPass .tick,
    .environment (.tick 600000000), onlyPass .tick] ++ everySecond 3 ++
      [.environment (.tick second)]

def outageAfterRound : List EndpointEvent :=
  .environment (.driver 0 (.ended false)) :: onlyPass .relayEvent ::
    (everySecond 11 ++ [.environment (.driver 0 .connected)])

def outage : List EndpointEvent :=
  onlyPass .tick :: .environment (.driver 0 (.ended false)) :: onlyPass .relayEvent ::
    (everySecond 15 ++ [.environment (.driver 0 .connected)])

theorem onlyPong_accepted :
    (run (step Primitives.standIn fun _ => none) onlyStart oneRound).socket.AcceptsPong
      Primitives.standIn onlyPong onlyPeer onlyAddr onlyNonce :=
  ⟨⟨List.Vector.replicate 8 3, List.Vector.replicate 32 4, by decide +kernel, by decide +kernel,
    onlyAddr, _, rfl, rfl⟩, by decide +kernel⟩

theorem roundTrip_checked :
    let e := run (step Primitives.standIn fun _ => none) onlyStart roundTrip
    ∃ s, e.sessions.lookup 0 = some s ∧ s.peer = onlyPeer ∧ s.ChecksDirect e.socket .tick := by
  intro e
  have hchecks : (e.sessions.lookup 0).any (fun s => s.peer = onlyPeer ∧
      s.seenRelay e.socket .tick = some (.up "wss://relay") ∧
      (s.welcomed e.socket .tick).report.status = .direct ∧
      s.freshProof e.socket = some ⟨onlyAddr, 20 * second + 400000000⟩ ∧
      s.task.map Drive.lastProbeSent = some (20 * second)) = true := by
    decide +kernel
  have hnow : e.socket.now = 25 * second := by decide +kernel
  obtain ⟨s, hs, hfacts⟩ := (Option.any_eq_true _ _).mp hchecks
  obtain ⟨hpeer, hrelay, hstatus, hproof, hlast⟩ := of_decide_eq_true hfacts
  obtain ⟨t, htask, hround⟩ := Option.map_eq_some_iff.mp hlast
  refine ⟨s, hs, hpeer, ⟨_, hrelay⟩, hstatus, _, hproof, Or.inl ⟨t, htask, ?_⟩⟩
  rw [hround, hnow]
  decide

theorem round_trip_gives_up_probed :
    let es := roundTrip ++ onlyPass .tick :: outageAfterRound
    let e := run (step Primitives.standIn fun _ => none) onlyStart es
    ∃ s, e.sessions.lookup 0 = some s ∧ s.peer = onlyPeer ∧
      s.GivesUpDirect e.socket .relayEvent onlyNonce (fun _ => (onlyNonce, true)) ∧
      CheckedSinceProof Primitives.standIn (fun _ => none) onlyStart onlyPeer es ∧
      PathSocket.RoundSinceProof Primitives.standIn (fun _ => none) onlyStart.socket onlyPeer
        (onlyStart.trace Primitives.standIn (fun _ => none) es) := by
  intro es e
  have hgives : (e.sessions.lookup 0).any (fun s => s.peer = onlyPeer ∧
      (s.welcomed e.socket .relayEvent).report.status = .direct ∧
      (s.drive e.socket .relayEvent onlyNonce fun _ => (onlyNonce, true)).1.report.status =
        .relayed) = true := by
    decide +kernel
  obtain ⟨s, hs, hfacts⟩ := (Option.any_eq_true _ _).mp hgives
  obtain ⟨hpeer, hstatuses⟩ := of_decide_eq_true hfacts
  have hchecked : CheckedSinceProof Primitives.standIn (fun _ => none) onlyStart onlyPeer es := by
    obtain ⟨s', hs', hpeer', hchecks⟩ := roundTrip_checked
    refine ⟨_, _, _, rfl, ⟨0, s', .tick, _, _, rfl, hs', hpeer', hchecks⟩, ?_⟩
    rintro mid event rest hpost c a n rfl
    -- no datagram comes in while the relay is down
    have hquiet : ∀ c, .environment c ∈ outageAfterRound → c.isRecvDirect = false := by
      simp [outageAfterRound, everySecond, onlyPass, List.replicate, Event.isRecvDirect]
    refine PathSocket.not_acceptsPong_of_not_recvDirect (hquiet c ?_)
    rw [hpost]
    simp
  refine ⟨s, hs, hpeer, hstatuses, hchecked, ?_⟩
  have hround := direct_given_up_after_round Primitives.standIn (fun _ => none) _ _ _ _ es 0 s
    .relayEvent onlyNonce (fun _ => (onlyNonce, true)) hs hstatuses
  rw [hpeer] at hround
  exact hround.2 hchecked

/-- The passes are a second apart, and the one that finds the relay back gives the direct path up
with no round since its proof. -/
theorem outage_gives_up_unprobed :
    let es := oneRound ++ .environment onlyPong :: outage
    let e := run (step Primitives.standIn fun _ => none) onlyStart es
    prompt 0 es = true ∧
      (∃ s, e.sessions.lookup 0 = some s ∧ s.peer = onlyPeer ∧
        s.GivesUpDirect e.socket .relayEvent onlyNonce fun _ => (onlyNonce, true)) ∧
      ¬ PathSocket.RoundSinceProof Primitives.standIn (fun _ => none) onlyStart.socket onlyPeer
        (onlyStart.trace Primitives.standIn (fun _ => none) es) := by
  intro es e
  refine ⟨by decide +kernel, ?_, ?_⟩
  · have hgives : (e.sessions.lookup 0).any (fun s => s.peer = onlyPeer ∧
        (s.welcomed e.socket .relayEvent).report.status = .direct ∧
        (s.drive e.socket .relayEvent onlyNonce fun _ => (onlyNonce, true)).1.report.status =
          .relayed) = true := by
      decide +kernel
    obtain ⟨s, hs, hfacts⟩ := (Option.any_eq_true _ _).mp hgives
    obtain ⟨hpeer, hstatuses⟩ := of_decide_eq_true hfacts
    exact ⟨s, hs, hpeer, hstatuses⟩
  · have htrace : onlyStart.trace Primitives.standIn (fun _ => none) es =
        onlyStart.trace Primitives.standIn (fun _ => none) oneRound ++ onlyPong ::
          (run (step Primitives.standIn fun _ => none) onlyStart
            (oneRound ++ [.environment onlyPong])).trace Primitives.standIn
              (fun _ => none) outage := by
      rw [Endpoint.trace, trace_append, trace, run_snoc]
      rfl
    have hunprobed : ∀ c ∈ onlyPong :: (run (step Primitives.standIn fun _ => none) onlyStart
        (oneRound ++ [.environment onlyPong])).trace Primitives.standIn (fun _ => none) outage,
        c.isQuiet = true := by
      decide +kernel
    rw [htrace]
    refine not_since ?_ ?_
    · rintro pre c hc ⟨draws, rfl⟩
      exact Bool.noConfusion (hunprobed _ hc)
    · intro hnone
      have haccepted := onlyPong_accepted
      rw [socket_run] at haccepted
      exact hnone _ _ haccepted

end OnePeer

end Endpoint

end ForgeswornLink
