import ForgeswornLink.SessionEffects

/-!
# The statuses a session reports

Only the drive task reports a status after the first two. A pass reports at most
two: when a relay is back the status from before the loss, and then a step along
the direct path. The socket a pass finds is arbitrary, so whatever relays, proofs
and other sessions do between two passes is covered; the task may find another
socket at its own start than the session found at its. The log is every status
reported, and the session's history is its first 256 entries.
-/

namespace ForgeswornLink
open Runs

def PathStatus.isPath : PathStatus → Bool
  | .relayed | .probing | .direct => true
  | _ => false

/-- `b` may be reported after `a`, where `earlier` was reported before `a`. -/
inductive PathEdge (earlier : List PathStatus) : PathStatus → PathStatus → Prop where
  | probes : PathEdge earlier .relayed .probing
  | proves {a : PathStatus} (h : a = .relayed ∨ a = .probing) : PathEdge earlier a .direct
  | falls {a : PathStatus} (h : a = .probing ∨ a = .direct) : PathEdge earlier a .relayed
  | loses {a : PathStatus} (h : a.isPath = true) : PathEdge earlier a .reconnecting
  | regains {b : PathStatus} (h : earlier.getLast? = some b) : PathEdge earlier .reconnecting b
  | fails {a : PathStatus} {reason : FailReason} (h : a.isFailed = false) :
    PathEdge earlier a (.failed reason)

theorem PathEdge.unfailed {earlier : List PathStatus} {a b : PathStatus}
    (h : PathEdge earlier a b) :
    a.isFailed = false := by
  cases h with
  | probes => rfl
  | proves hfrom => rcases hfrom with rfl | rfl <;> rfl
  | falls hfrom => rcases hfrom with rfl | rfl <;> rfl
  | loses hpath =>
    cases a with
    | failed reason => cases hpath
    | _ => rfl
  | regains => rfl
  | fails hok => exact hok

/-- A walk through the diagram of spec 4.3. -/
inductive Walk : List PathStatus → Prop where
  | starts : Walk [.rendezvous, .relayed]
  | moves {earlier : List PathStatus} {a b : PathStatus} (h : Walk (earlier ++ [a]))
      (hedge : PathEdge earlier a b) : Walk (earlier ++ [a, b])

namespace Walk
variable {log : List PathStatus}

theorem snoc (h : Walk log) {a b : PathStatus} (hlast : log.getLast? = some a)
    (hedge : PathEdge log.dropLast a b) : Walk (log ++ [b]) := by
  have hlog : log.dropLast ++ [a] = log := List.dropLast_append_getLast? a hlast
  rw [← hlog] at h
  have hmoves := h.moves hedge
  rwa [← List.singleton_append, ← List.append_assoc, hlog] at hmoves

theorem head (h : Walk log) : ∃ rest, log = .rendezvous :: .relayed :: rest := by
  induction h with
  | starts => exact ⟨[], rfl⟩
  | @moves earlier a b _ _ ih =>
    obtain ⟨rest, hrest⟩ := ih
    refine ⟨rest ++ [b], ?_⟩
    rw [← List.singleton_append, ← List.append_assoc, hrest]
    rfl

theorem neighbours (h : Walk log) {earlier : List PathStatus} {a b : PathStatus}
    {later : List PathStatus} (hlog : log = earlier ++ a :: b :: later) :
    a ≠ b ∧ a.isFailed = false ∧ (earlier = [] ∨ PathEdge earlier a b) := by
  induction h generalizing earlier a b later with
  | starts =>
    cases earlier with
    | nil =>
      cases hlog
      exact ⟨by decide, rfl, Or.inl rfl⟩
    | cons c earlier =>
      have hlength := congrArg List.length hlog
      simp only [List.length_append, List.length_cons, List.length_nil] at hlength
      omega
  | @moves earlier' a' b' _ hedge ih =>
    rw [← List.singleton_append, ← List.append_assoc] at hlog
    rcases snoc_eq_append_cons hlog with ⟨-, -, hnil⟩ | ⟨post, hpost, htail⟩
    · cases hnil
    cases post with
    | cons c post =>
      obtain ⟨rfl, -⟩ := List.cons.inj htail
      exact ih hpost
    | nil =>
      -- the last two entries
      obtain ⟨rfl, -⟩ := List.cons.inj htail
      obtain ⟨rfl, ha⟩ := List.append_inj' hpost rfl
      cases ha
      refine ⟨?_, hedge.unfailed, Or.inr hedge⟩
      cases hedge with
      | probes => simp
      | proves hfrom => rcases hfrom with rfl | rfl <;> simp
      | falls hfrom => rcases hfrom with rfl | rfl <;> simp
      | loses hpath =>
        rintro rfl
        cases hpath
      | regains hback =>
        -- going back to `reconnecting` would put it after itself already
        rintro rfl
        have hpair : earlier' ++ [.reconnecting] =
            earlier'.dropLast ++ .reconnecting :: .reconnecting :: [] := by
          rw [List.append_cons earlier'.dropLast, List.dropLast_append_getLast? _ hback]
        exact (ih hpair).1 rfl
      | fails hok =>
        rintro rfl
        cases hok

theorem unfailed (h : Walk log) {earlier later : List PathStatus} {a : PathStatus}
    (hlog : log = earlier ++ a :: later) (hlater : later ≠ []) : a.isFailed = false := by
  obtain ⟨b, rest, rfl⟩ := List.exists_cons_of_ne_nil hlater
  exact (h.neighbours hlog).2.1

end Walk

inductive Note where
  | control (message : Control)
  | controlSent
  | requestDirect
  | reannounce
  | closed (reason : ConnectionError)

namespace Session

def note (s : Session) : Note → Session × List Event
  | .control message => if s.closed.isNone then s.receiveControl message else (s, [])
  | .controlSent => ({ s with requests := s.requests.tail }, [])
  | .requestDirect => (s.requestDirect, [])
  | .reannounce => (s.reannounce, [])
  | .closed reason => (s.closeWith reason, [])

theorem isSome_closeWith (s : Session) (reason : ConnectionError) :
    (s.closeWith reason).closed.isSome := by
  cases h : s.closed <;> simp [closeWith, h]

theorem note_closed {s : Session} (n : Note) (h : s.closed.isSome) :
    (s.note n).1.closed.isSome := by
  cases n with
  | control message =>
    simp only [note]
    split_ifs
    · cases message <;> exact h
    · exact h
  | controlSent => exact h
  | requestDirect => rwa [note, (kept_requestDirect s).closed]
  | reannounce => rwa [note, reannounce, ((kept_request s _).trans (kept_requestDirect _)).closed]
  | closed reason => exact isSome_closeWith s reason

theorem history_request (s : Session) (r : ControlSend) : (s.request r).history = s.history := by
  unfold request
  split_ifs <;> rfl

theorem note_spec (s : Session) (n : Note) :
    s.Same (s.note n).1 ∧ (s.note n).1.report = s.report ∧ (s.note n).1.history = s.history ∧
      (s.note n).1.task = s.task := by
  cases n with
  | control message =>
    simp only [note]
    split_ifs
    · cases message <;> exact ⟨⟨rfl, rfl, rfl, rfl, rfl⟩, rfl, rfl, rfl⟩
    · exact ⟨Same.refl s, rfl, rfl, rfl⟩
  | controlSent => exact ⟨⟨rfl, rfl, rfl, rfl, rfl⟩, rfl, rfl, rfl⟩
  | requestDirect =>
    exact ⟨(kept_requestDirect s).same, report_request _ _, history_request _ _, task_request _ _⟩
  | reannounce =>
    have hfirst := kept_request s .candidates
    exact ⟨(hfirst.trans (kept_requestDirect _)).same,
      (report_request _ _).trans (report_request s _),
      (history_request _ _).trans (history_request s _),
      (task_request _ _).trans (task_request s _)⟩
  | closed reason => exact ⟨⟨rfl, rfl, rfl, rfl, rfl⟩, rfl, rfl, rfl⟩

def pastSelect (s : Session) (k : PathSocket) (wake : Wake) : Option Drive :=
  s.task.bind fun t =>
    match wake with
    | .superseded | .closed => none
    | .relayEvent => (k.relay.driver t.driver).bind t.receive
    | .interfaceChange =>
      if t.netAlive then some { t with reannounceAt := some (k.now + reflectorGrace) } else none
    | .monitorEnded => some { t with netAlive := false }
    | .tick => some t

def seenRelay (s : Session) (k : PathSocket) (wake : Wake) : Option RelayStatus :=
  (s.pastSelect k wake).map fun t => (t.follow k s.peer).relayState

def backOn (s : Session) (t : Drive) (k : PathSocket) : Session :=
  match t.relayState with
  | .up _ => (s.welcome t k).1
  | _ => s

def welcomed (s : Session) (k : PathSocket) (wake : Wake) : Session :=
  match s.pastSelect k wake with
  | none => s
  | some t => s.backOn (t.follow k s.peer) k

def reported (before after : Session) : List PathStatus :=
  if after.report.status = before.report.status then [] else [after.report.status]

def passLog (s : Session) (k : PathSocket) (wake : Wake) (nonce : Nonce)
    (draws : ℕ → Nonce × Bool) : List PathStatus :=
  reported s (s.welcomed k wake) ++ reported (s.welcomed k wake) (s.drive k wake nonce draws).1

def freshProof (s : Session) (k : PathSocket) : Option Proven :=
  (k.provenDirect s.peer).filter fun proven => k.now - proven.provedAt < directFresh

structure Logged (s : Session) (log : List PathStatus) : Prop where
  walk : Walk log
  last : log.getLast? = some s.report.status
  direct : s.report.direct.isSome → s.report.status = .direct
  history : s.history.map PathReport.status = log.take historyCap
  declined : s.allowDirect = false → ∀ status ∈ log, status ≠ .probing ∧ status ≠ .direct

section Log
variable {s s' : Session} {k : PathSocket} {log : List PathStatus}

theorem reported_of_status (h : s'.report.status = s.report.status) : reported s s' = [] := if_pos h

theorem reported_from {s'' : Session} (h : s'.report = s.report) :
    reported s' s'' = reported s s'' := by
  rw [reported, reported, h]

theorem Logged.congr (h : s.Logged log) (hreport : s'.report = s.report)
    (hhistory : s'.history = s.history) (hallow : s'.allowDirect = s.allowDirect) : s'.Logged log :=
  ⟨h.walk, by rw [hreport]; exact h.last, by rw [hreport]; exact h.direct,
    by rw [hhistory]; exact h.history, by rw [hallow]; exact h.declined⟩

theorem direct_transition (s : Session) (k : PathSocket) {status : PathStatus} (cause : Cause)
    (h : status ≠ .direct) : (s.transition k status cause).report.direct = none := by
  unfold transition
  cases status with
  | direct => exact absurd rfl h
  | _ => split_ifs <;> rfl

theorem take_snoc {α : Type*} {xs log : List α} {n : ℕ} (a : α) (h : xs = log.take n) :
    (if xs.length < n then xs ++ [a] else xs) = (log ++ [a]).take n := by
  have hlength : xs.length = min n log.length := by rw [h, List.length_take]
  split_ifs with hroom
  · have hall : log.length < n := by omega
    rw [h, List.take_of_length_le hall.le, List.take_of_length_le (by simp; omega)]
  · rw [h, List.take_append_of_le_length (by omega)]

theorem history_transition (s : Session) (k : PathSocket) {status : PathStatus} (cause : Cause)
    (h : s.report.status ≠ status) :
    (s.transition k status cause).history.map PathReport.status =
      if (s.history.map PathReport.status).length < historyCap then
        s.history.map PathReport.status ++ [status]
      else s.history.map PathReport.status := by
  unfold transition
  dsimp only
  rw [if_neg h, List.length_map]
  dsimp only
  split_ifs <;> simp

theorem Logged.transition (h : s.Logged log) (k : PathSocket) {status : PathStatus} (cause : Cause)
    (hedge : s.report.status ≠ status → PathEdge log.dropLast s.report.status status)
    (hdeclined : s.allowDirect = false → status ≠ .probing ∧ status ≠ .direct) :
    (s.transition k status cause).Logged (log ++ reported s (s.transition k status cause)) := by
  have hstatus := status_transition s k status cause
  have hallow := (kept_transition s k status cause).allowDirect
  have hdirect : (s.transition k status cause).report.direct.isSome →
      (s.transition k status cause).report.status = .direct := by
    intro hsome
    rw [hstatus]
    by_contra hne
    rw [direct_transition s k cause hne] at hsome
    cases hsome
  by_cases hsame : s.report.status = status
  · rw [reported_of_status (hstatus.trans hsame.symm), List.append_nil]
    refine ⟨h.walk, by rw [hstatus, ← hsame]; exact h.last, hdirect,
      ?_, by rw [hallow]; exact h.declined⟩
    unfold Session.transition
    dsimp only
    rw [if_pos hsame]
    exact h.history
  · have hnew : reported s (s.transition k status cause) = [status] := by
      rw [reported, hstatus, if_neg (Ne.symm hsame)]
    rw [hnew]
    refine ⟨h.walk.snoc h.last (hedge hsame), by rw [hstatus]; simp, hdirect, ?_, ?_⟩
    · rw [history_transition s k cause hsame]
      exact take_snoc status h.history
    · intro hno entry hentry
      rw [hallow] at hno
      rcases List.mem_append.mp hentry with hold | hlast
      · exact h.declined hno entry hold
      · rw [List.mem_singleton.mp hlast]
        exact hdeclined hno

theorem Logged.fails (h : s.Logged log) (k : PathSocket) (hok : s.report.status.isFailed = false)
    (reason : FailReason) (cause : Cause) :
    (s.transition k (.failed reason) cause).Logged
      (log ++ reported s (s.transition k (.failed reason) cause)) :=
  h.transition k cause (fun _ => .fails hok) fun _ => by simp

end Log

inductive Pass (s : Session) (k : PathSocket) (wake : Wake) (nonce : Nonce)
    (draws : ℕ → Nonce × Bool) : Session × List Event → Prop where
  | waits (h : s.pastSelect k wake = none) : Pass s k wake nonce draws (s, [])
  | goes {t : Drive} (h : s.pastSelect k wake = some t) {calls : List Event}
      (hcalls : calls = (s.iterate t k draws).2 ∨
        calls = .requeryReflector nonce :: (s.iterate t k draws).2) :
    Pass s k wake nonce draws ((s.iterate t k draws).1, calls)
  | displaced {t : Drive} (htask : s.task = some t) (hselect : s.pastSelect k wake = none)
      (h : s.id ∈ k.inner.notified) :
    Pass s k wake nonce draws
      (((s.transition k (.failed .superseded) .newerSession).closeWith .locallyClosed).finish,
        .takeNotice s.id :: s.forgetKey)
  | ends {t : Drive} (htask : s.task = some t) (hselect : s.pastSelect k wake = none)
      {reason : ConnectionError} (h : s.closed = some reason) :
    Pass s k wake nonce draws
      ((s.noteClosed k reason).finish, s.forgetKey ++ [.endSession s.peer s.id])

theorem pass_drive (s : Session) (k : PathSocket) (wake : Wake) (nonce : Nonce)
    (draws : ℕ → Nonce × Bool) : Pass s k wake nonce draws (s.drive k wake nonce draws) := by
  unfold drive
  cases htask : s.task with
  | none => exact .waits (by simp [pastSelect, htask])
  | some t =>
    dsimp only
    cases wake with
    | superseded =>
      dsimp only
      have hselect : s.pastSelect k .superseded = none := by simp [pastSelect, htask]
      split_ifs with hnotified
      · exact .displaced htask hselect hnotified
      · exact .waits hselect
    | closed =>
      dsimp only
      have hselect : s.pastSelect k .closed = none := by simp [pastSelect, htask]
      cases hclosed : s.closed with
      | none => exact .waits hselect
      | some reason => exact .ends htask hselect hclosed
    | relayEvent =>
      dsimp only
      have hselect : s.pastSelect k .relayEvent = (k.relay.driver t.driver).bind t.receive := by
        simp [pastSelect, htask]
      cases hreceived : (k.relay.driver t.driver).bind t.receive with
      | none => exact .waits (hselect.trans hreceived)
      | some t' => exact .goes (hselect.trans hreceived) (Or.inl rfl)
    | interfaceChange =>
      dsimp only
      split_ifs with halive
      · exact .goes (by simp [pastSelect, htask, halive]) (Or.inr rfl)
      · exact .waits (by simp [pastSelect, htask, halive])
    | monitorEnded => exact .goes (by simp [pastSelect, htask]) (Or.inl rfl)
    | tick => exact .goes (by simp [pastSelect, htask]) (Or.inl rfl)

theorem kept_welcome (s : Session) (t : Drive) (k : PathSocket) : s.Kept (s.welcome t k).1 := by
  unfold welcome
  split_ifs
  · exact kept_transition s k _ _
  · exact Kept.refl s

theorem kept_iterate (s : Session) (t : Drive) (k : PathSocket) (draws : ℕ → Nonce × Bool) :
    s.Kept (s.iterate t k draws).1 := by
  have hdown : ∀ u : Drive, s.Kept (s.relayDown u k) := by
    intro u
    unfold relayDown
    split_ifs
    · exact (kept_transition s k _ _).trans (kept_resume _ _)
    · exact kept_resume s u
  have hup : ∀ u : Drive, s.Kept (s.relayUp u k draws).1 := by
    intro u
    unfold relayUp
    have hback := kept_welcome s u k
    generalize s.welcome u k = w at hback ⊢
    obtain ⟨s', u'⟩ := w
    dsimp only at hback ⊢
    split_ifs
    · refine hback.trans ?_
      unfold stayRelayed
      split_ifs
      · exact (kept_transition s' k _ _).trans (kept_resume _ _)
      · exact kept_resume s' u'
    · exact (hback.trans (prepare_spec s' u' k).1).trans (step_advance _ _ k draws).kept
  unfold iterate
  dsimp only
  split_ifs
  · exact kept_finish s
  · generalize t.follow k s.peer = u
    cases u.relayState with
    | superseded => exact (kept_transition s k _ _).trans (kept_finish _)
    | failed => exact (kept_transition s k _ _).trans (kept_finish _)
    | reconnecting => exact hdown u
    | connecting => exact hdown u
    | up url => exact hup u

theorem Pass.same {s : Session} {k : PathSocket} {wake : Wake} {nonce : Nonce}
    {draws : ℕ → Nonce × Bool} {r : Session × List Event} (h : Pass s k wake nonce draws r) :
    s.Same r.1 := by
  cases h with
  | waits => exact Same.refl s
  | goes => exact (kept_iterate s _ k draws).same
  | displaced => exact (kept_transition s k _ _).same.trans ⟨rfl, rfl, rfl, rfl, rfl⟩
  | ends => exact ((noteClosed_spec s k _).1.trans (kept_finish _)).same

theorem Pass.closed {s : Session} {k : PathSocket} {wake : Wake} {nonce : Nonce}
    {draws : ℕ → Nonce × Bool} {r : Session × List Event} (h : Pass s k wake nonce draws r)
    (hclosed : s.closed.isSome) : r.1.closed.isSome := by
  cases h with
  | waits => exact hclosed
  | goes => rwa [(kept_iterate s _ k draws).closed]
  | displaced => exact isSome_closeWith _ _
  | ends => rwa [((noteClosed_spec s k _).1.trans (kept_finish _)).closed]

theorem task_of_pastSelect {s : Session} {k : PathSocket} {wake : Wake} {t' : Drive}
    (h : s.pastSelect k wake = some t') :
    ∃ t, s.task = some t ∧ t'.previousBeforeReconnect = t.previousBeforeReconnect ∧
      t'.lastProbeSent = t.lastProbeSent := by
  rw [pastSelect, Option.bind_eq_some_iff] at h
  obtain ⟨t, htask, h⟩ := h
  refine ⟨t, htask, ?_⟩
  cases wake with
  | superseded => cases h
  | closed => cases h
  | relayEvent =>
    obtain ⟨d, -, hreceive⟩ := Option.bind_eq_some_iff.mp h
    exact ⟨(receive_spec hreceive).1, (receive_spec hreceive).2.1⟩
  | interfaceChange =>
    dsimp only at h
    split_ifs at h
    obtain rfl := Option.some.inj h
    exact ⟨rfl, rfl⟩
  | monitorEnded =>
    obtain rfl := Option.some.inj h
    exact ⟨rfl, rfl⟩
  | tick =>
    obtain rfl := Option.some.inj h
    exact ⟨rfl, rfl⟩

def OnPath (s : Session) (t : Drive) (log : List PathStatus) : Prop :=
  s.report.status.isPath = true ∨
    s.report.status = .reconnecting ∧ t.previousBeforeReconnect.isPath = true ∧
      log.dropLast.getLast? = some t.previousBeforeReconnect

structure Tracked (s : Session) (log : List PathStatus) : Prop where
  logged : s.Logged log
  running : ∀ t, s.task = some t → s.OnPath t log

section Advance
variable {s : Session} {t : Drive} {k : PathSocket} {log : List PathStatus}

theorem unfailed_of_isPath {status : PathStatus} (h : status.isPath = true) :
    status.isFailed = false := by
  cases status with
  | failed reason => cases h
  | _ => rfl

theorem OnPath.unfailed (h : s.OnPath t log) : s.report.status.isFailed = false := by
  rcases h with hpath | ⟨hdown, -⟩
  · exact unfailed_of_isPath hpath
  · rw [hdown]
    rfl

theorem OnPath.follow (h : s.OnPath t log) (k : PathSocket) : s.OnPath (t.follow k s.peer) log := by
  rw [OnPath, previous_follow]
  exact h

structure Advanced (s : Session) (k : PathSocket) (log : List PathStatus)
    (s' : Session) : Prop where
  logged : s'.Logged (log ++ reported s s')
  path : s'.report.status.isPath = true
  direct : s'.report.status = .direct ↔ (s.freshProof k).isSome

theorem advanced_transition (h : s.Logged log) (hallow : s.allowDirect = true) {status : PathStatus}
    (cause : Cause) (t : Drive)
    (hedge : s.report.status ≠ status → PathEdge log.dropLast s.report.status status)
    (hpath : status.isPath = true) (hiff : status = .direct ↔ (s.freshProof k).isSome) :
    Advanced s k log ((s.transition k status cause).resume t) := by
  have hlogged := h.transition k cause hedge fun hno => Bool.noConfusion (hno.symm.trans hallow)
  have hstatus : ((s.transition k status cause).resume t).report.status = status :=
    status_transition s k status cause
  exact ⟨hlogged.congr rfl rfl rfl, by rw [hstatus]; exact hpath, by rw [hstatus]; exact hiff⟩

theorem advanced_resume (h : s.Logged log) (hpath : s.report.status.isPath = true) (t : Drive)
    (hiff : s.report.status = .direct ↔ (s.freshProof k).isSome) :
    Advanced s k log (s.resume t) := by
  have hsame : reported s (s.resume t) = [] := reported_of_status rfl
  refine ⟨?_, hpath, hiff⟩
  rw [hsame, List.append_nil]
  exact h.congr rfl rfl rfl

theorem advanced_advance (h : s.Logged log) (hpath : s.report.status.isPath = true)
    (hallow : s.allowDirect = true) (draws : ℕ → Nonce × Bool) :
    Advanced s k log (s.advance t k draws).1 := by
  have hto : ∀ (status : PathStatus) (cause : Cause) (t' : Drive),
      (s.report.status ≠ status → PathEdge log.dropLast s.report.status status) →
      status.isPath = true → (status = .direct ↔ (s.freshProof k).isSome) →
      Advanced s k log ((s.transition k status cause).resume t') :=
    fun _ cause t' => advanced_transition h hallow cause t'
  have hstay := fun t' => advanced_resume (k := k) h hpath t'
  unfold advance
  dsimp only
  rw [← freshProof]
  cases hstatus : s.report.status with
  | relayed =>
    rw [hstatus] at hto hstay
    cases hfresh : s.freshProof k with
    | some proven =>
      exact hto .direct _ _ (fun _ => .proves (Or.inl rfl)) rfl (by simp [hfresh])
    | none =>
      rw [hfresh] at hto hstay
      dsimp only
      split_ifs
      · exact hstay _ (by simp)
      · exact hto .relayed _ _ (fun hne => absurd rfl hne) rfl (by simp)
      · exact hstay _ (by simp)
      · exact hto .probing _ _ (fun _ => .probes) rfl (by simp)
  | probing =>
    rw [hstatus] at hto hstay
    cases hfresh : s.freshProof k with
    | some proven =>
      exact hto .direct _ _ (fun _ => .proves (Or.inr rfl)) rfl (by simp [hfresh])
    | none =>
      rw [hfresh] at hto hstay
      by_cases hagain : 500000000 ≤ k.now - t.lastProbeSent
      · simp only [hagain, if_true]
        split_ifs
        · exact hto .relayed _ _ (fun _ => .falls (Or.inl rfl)) rfl (by simp)
        · exact hstay _ (by simp)
      · simp only [hagain, if_false]
        split_ifs
        · exact hto .relayed _ _ (fun _ => .falls (Or.inl rfl)) rfl (by simp)
        · exact hstay _ (by simp)
  | direct =>
    rw [hstatus] at hto hstay
    cases hfresh : s.freshProof k with
    | some proven =>
      rw [hfresh] at hstay
      dsimp only
      split_ifs
      · exact hstay _ (by simp)
      · exact hstay _ (by simp)
    | none =>
      rw [hfresh] at hto
      exact hto .relayed _ _ (fun _ => .falls (Or.inr rfl)) rfl (by simp)
  | _ =>
    rw [hstatus] at hpath
    cases hpath

theorem welcome_logged (h : s.Logged log) (hon : s.OnPath t log) :
    (s.welcome t k).1.Logged (log ++ reported s (s.welcome t k).1) ∧
      (s.welcome t k).1.report.status.isPath = true := by
  unfold welcome
  split_ifs with hdown
  · rcases hon with hpath | ⟨-, hprevious, hentered⟩
    · rw [hdown] at hpath
      cases hpath
    · refine ⟨h.transition k _ (fun _ => ?_) (fun hno => ?_), ?_⟩
      · rw [hdown]
        exact .regains hentered
      · exact h.declined hno _
          ((List.dropLast_sublist log).subset (List.mem_of_mem_getLast? hentered))
      · rw [status_transition]
        exact hprevious
  · rcases hon with hpath | ⟨hdown', -⟩
    · have hsame : reported s s = [] := reported_of_status rfl
      rw [hsame, List.append_nil]
      exact ⟨h, hpath⟩
    · exact absurd hdown' hdown

theorem prepare_history (s : Session) (t : Drive) (k : PathSocket) :
    (s.prepare t k).1.history = s.history := by
  unfold prepare
  dsimp only
  split_ifs
  · rw [history_request, history_request]
  · rfl

theorem stayRelayed_logged (h : s.Logged log) (hpath : s.report.status.isPath = true) :
    (s.stayRelayed t k).Logged (log ++ reported s (s.stayRelayed t k)) ∧
      (s.stayRelayed t k).report.status.isPath = true := by
  unfold stayRelayed
  split_ifs with hfirst
  · have hlogged : (s.transition k .relayed .declinedDirect).Logged
        (log ++ reported s (s.transition k .relayed .declinedDirect)) :=
      h.transition k _ (fun hne => absurd hfirst.1 hne) fun _ => by simp
    exact ⟨hlogged.congr rfl rfl rfl, by rw [resume, status_transition]; rfl⟩
  · have hsame : reported s (s.resume t) = [] := reported_of_status rfl
    rw [hsame, List.append_nil]
    exact ⟨h.congr rfl rfl rfl, hpath⟩

theorem relayUp_logged (h : s.Logged log) (hon : s.OnPath t log) (draws : ℕ → Nonce × Bool) :
    (s.relayUp t k draws).1.Logged (log ++ reported s (s.welcome t k).1 ++
        reported (s.welcome t k).1 (s.relayUp t k draws).1) ∧
      (s.relayUp t k draws).1.report.status.isPath = true ∧
      (s.allowDirect = true →
        ((s.relayUp t k draws).1.report.status = .direct ↔ (s.freshProof k).isSome)) := by
  obtain ⟨hlogged, hpath⟩ := welcome_logged (k := k) h hon
  have hkept := kept_welcome s t k
  unfold relayUp
  generalize s.welcome t k = w at hlogged hpath hkept ⊢
  obtain ⟨s', t'⟩ := w
  dsimp only at hlogged hpath hkept ⊢
  rw [← hkept.allowDirect]
  have hproof : s.freshProof k = s'.freshProof k := by rw [freshProof, freshProof, hkept.peer]
  rw [hproof]
  by_cases hallow : s'.allowDirect = false
  · rw [if_pos hallow, hallow]
    obtain ⟨hstay, hstayPath⟩ := stayRelayed_logged (t := t') (k := k) hlogged hpath
    exact ⟨hstay, hstayPath, nofun⟩
  · rw [if_neg hallow]
    rw [Bool.not_eq_false] at hallow
    obtain ⟨hkept', hreport, -, -⟩ := prepare_spec s' t' k
    have hprepared : (s'.prepare t' k).1.Logged (log ++ reported s s') :=
      hlogged.congr hreport (prepare_history s' t' k) hkept'.allowDirect
    have hadvanced := advanced_advance (t := (s'.prepare t' k).2) (k := k) hprepared
      (by rw [hreport]; exact hpath) (hkept'.allowDirect.trans hallow) draws
    refine ⟨?_, hadvanced.path, fun _ => ?_⟩
    · have hlog := hadvanced.logged
      rwa [reported_from hreport] at hlog
    · rw [hadvanced.direct, freshProof, freshProof, hkept'.peer]

end Advance

section Pass
variable {s : Session} {t : Drive} {k : PathSocket} {wake : Wake} {log : List PathStatus}

theorem welcomed_of_none (h : s.pastSelect k wake = none) : s.welcomed k wake = s := by
  rw [welcomed, h]

theorem tracked_finish {s' : Session} (h : s'.Logged log) : s'.finish.Tracked log :=
  ⟨h.congr rfl rfl rfl, fun _ htask => by cases htask⟩

theorem reported_self (s : Session) : reported s s = [] := reported_of_status rfl

theorem relayDown_tracked (h : s.Logged log) (hon : s.OnPath t log) :
    (s.relayDown t k).Tracked (log ++ reported s (s.relayDown t k)) := by
  unfold relayDown
  split_ifs with hup
  · have hpath : s.report.status.isPath = true := hon.resolve_right fun hdown => hup hdown.1
    have hlogged : (s.transition k .reconnecting .relayLost).Logged
        (log ++ reported s (s.transition k .reconnecting .relayLost)) :=
      h.transition k _ (fun _ => .loses hpath) fun _ => by simp
    have hstatus := status_transition s k .reconnecting .relayLost
    have hnew : reported s (s.transition k .reconnecting .relayLost) = [.reconnecting] := by
      rw [reported, hstatus, if_neg (Ne.symm hup)]
    refine ⟨hlogged.congr rfl rfl rfl, ?_⟩
    intro t' ht'
    cases Option.some.inj ht'
    refine Or.inr ⟨hstatus, hpath, ?_⟩
    have hlast : (log ++ reported s (s.transition k .reconnecting .relayLost)).dropLast = log := by
      rw [hnew, List.dropLast_concat]
    exact (congrArg List.getLast? hlast).trans h.last
  · have hsame : reported s (s.resume t) = [] := reported_of_status rfl
    rw [hsame, List.append_nil]
    refine ⟨h.congr rfl rfl rfl, ?_⟩
    intro t' ht'
    cases Option.some.inj ht'
    exact hon

theorem iterate_tracked (h : s.Logged log) (hon : s.OnPath t log) (draws : ℕ → Nonce × Bool) :
    (s.iterate t k draws).1.Tracked
      (log ++ (reported s (s.backOn (t.follow k s.peer) k) ++
        reported (s.backOn (t.follow k s.peer) k) (s.iterate t k draws).1)) := by
  have hfollow := hon.follow k
  unfold iterate backOn
  dsimp only
  rw [if_neg (by rw [hon.unfailed]; simp)]
  generalize t.follow k s.peer = u at hfollow ⊢
  cases u.relayState with
  | superseded =>
    dsimp only
    rw [reported_self, List.nil_append]
    exact tracked_finish (h.fails k hon.unfailed _ _)
  | failed =>
    dsimp only
    rw [reported_self, List.nil_append]
    exact tracked_finish (h.fails k hon.unfailed _ _)
  | reconnecting =>
    dsimp only
    rw [reported_self, List.nil_append]
    exact relayDown_tracked h hfollow
  | connecting =>
    dsimp only
    rw [reported_self, List.nil_append]
    exact relayDown_tracked h hfollow
  | up url =>
    dsimp only
    obtain ⟨hlogged, hpath, -⟩ := relayUp_logged (k := k) h hfollow draws
    rw [← List.append_assoc]
    exact ⟨hlogged, fun _ _ => Or.inl hpath⟩

/-- A pass that sees its relay up ends in `Direct` exactly if the proof is fresh. -/
theorem direct_iff_fresh (h : s.Logged log) (hon : s.OnPath t log)
    (hselect : s.pastSelect k wake = some t) {url : String}
    (hup : (t.follow k s.peer).relayState = .up url) (hallow : s.allowDirect = true) (nonce : Nonce)
    (draws : ℕ → Nonce × Bool) :
    (s.drive k wake nonce draws).1.report.status = .direct ↔ (s.freshProof k).isSome := by
  have hfollow := hon.follow k
  have hiterate : (s.drive k wake nonce draws).1 = (s.relayUp (t.follow k s.peer) k draws).1 := by
    have hpass := pass_drive s k wake nonce draws
    generalize s.drive k wake nonce draws = r at hpass ⊢
    cases hpass with
    | waits hnone => cases hnone.symm.trans hselect
    | displaced _ hnone => cases hnone.symm.trans hselect
    | ends _ hnone => cases hnone.symm.trans hselect
    | goes hselect' =>
      obtain rfl := Option.some.inj (hselect'.symm.trans hselect)
      unfold iterate
      dsimp only
      rw [if_neg (by rw [hon.unfailed]; simp), hup]
  rw [hiterate]
  exact (relayUp_logged h hfollow draws).2.2 hallow

theorem noteClosed_logged (h : s.Logged log) (k : PathSocket) (reason : ConnectionError) :
    (s.noteClosed k reason).Logged (log ++ reported s (s.noteClosed k reason)) := by
  have hstay : s.Logged (log ++ reported s s) := by
    rw [reported_self, List.append_nil]
    exact h
  unfold noteClosed
  split_ifs with hok
  · exact hstay
  · rw [Bool.not_eq_true] at hok
    cases reason with
    | locallyClosed => exact hstay
    | applicationClosed => exact hstay
    | _ => exact h.fails k hok _ _

theorem Tracked.drive (h : s.Tracked log) (k : PathSocket) (wake : Wake) (nonce : Nonce)
    (draws : ℕ → Nonce × Bool) :
    (s.drive k wake nonce draws).1.Tracked (log ++ s.passLog k wake nonce draws) := by
  unfold passLog
  have hpass := pass_drive s k wake nonce draws
  generalize s.drive k wake nonce draws = r at hpass ⊢
  cases hpass with
  | waits hselect =>
    rw [welcomed_of_none hselect, reported_self, List.append_nil, List.append_nil]
    exact h
  | goes hselect hcalls =>
    obtain ⟨t₀, htask, hprevious, -⟩ := task_of_pastSelect hselect
    rw [welcomed, hselect]
    refine iterate_tracked h.logged ?_ draws
    rw [OnPath, hprevious]
    exact h.running t₀ htask
  | displaced htask hselect hnotified =>
    rw [welcomed_of_none hselect, reported_self, List.nil_append]
    have hlogged := h.logged.fails k (h.running _ htask).unfailed .superseded .newerSession
    exact tracked_finish (hlogged.congr rfl rfl rfl)
  | ends htask hselect hclosed =>
    rw [welcomed_of_none hselect, reported_self, List.nil_append]
    exact tracked_finish (noteClosed_logged h.logged k _)

theorem Tracked.note (h : s.Tracked log) (n : Note) : (s.note n).1.Tracked log := by
  obtain ⟨hsame, hreport, hhistory, htask⟩ := note_spec s n
  refine ⟨h.logged.congr hreport hhistory hsame.allowDirect, fun t ht => ?_⟩
  rw [OnPath, hreport]
  exact h.running t (htask ▸ ht)

end Pass

/-- The session and its task may find different sockets when they start. -/
def begin (k k' : PathSocket) (peer : NodeId) (id conn : ℕ) (allowDirect : Bool) (probeDelay : ℕ)
    (keys : Option (ProbeKeyId × ProbeKey)) : Session :=
  { (start k peer id conn allowDirect probeDelay keys).1 with
    task := some (Drive.start k' peer probeDelay) }

theorem tracked_begin (k k' : PathSocket) (peer : NodeId) (id conn : ℕ) (allowDirect : Bool)
    (probeDelay : ℕ) (keys : Option (ProbeKeyId × ProbeKey)) :
    (begin k k' peer id conn allowDirect probeDelay keys).Tracked [.rendezvous, .relayed] := by
  have hstatus : (begin k k' peer id conn allowDirect probeDelay keys).report.status = .relayed :=
    status_transition _ k _ _
  refine ⟨⟨.starts, by rw [hstatus]; rfl, ?_, ?_, ?_⟩, fun _ _ => Or.inl (by rw [hstatus]; rfl)⟩
  · intro hdirect
    have hnone : (begin k k' peer id conn allowDirect probeDelay keys).report.direct = none :=
      direct_transition _ k _ (by decide)
    rw [hnone] at hdirect
    cases hdirect
  · exact history_transition _ k _ (by simp)
  · simp

end Session

inductive SessionEvent where
  | pass (k : PathSocket) (wake : Wake) (nonce : Nonce) (draws : ℕ → Nonce × Bool)
  | note (n : Note)

structure Reporting where
  session : Session
  log : List PathStatus

namespace Reporting

def begin (k k' : PathSocket) (peer : NodeId) (id conn : ℕ) (allowDirect : Bool) (probeDelay : ℕ)
    (keys : Option (ProbeKeyId × ProbeKey)) : Reporting :=
  ⟨Session.begin k k' peer id conn allowDirect probeDelay keys, [.rendezvous, .relayed]⟩

def step (r : Reporting) : SessionEvent → Reporting
  | .pass k wake nonce draws =>
    ⟨(r.session.drive k wake nonce draws).1, r.log ++ r.session.passLog k wake nonce draws⟩
  | .note n => ⟨(r.session.note n).1, r.log⟩

theorem closed_step {r : Reporting} (e : SessionEvent) (h : r.session.closed.isSome) :
    (r.step e).session.closed.isSome := by
  cases e with
  | pass k wake nonce draws => exact (Session.pass_drive r.session k wake nonce draws).closed h
  | note n => exact Session.note_closed n h

theorem tracked_run (k k' : PathSocket) (peer : NodeId) (id conn : ℕ) (allowDirect : Bool)
    (probeDelay : ℕ) (keys : Option (ProbeKeyId × ProbeKey)) (events : List SessionEvent) :
    let r := run step (begin k k' peer id conn allowDirect probeDelay keys) events
    r.session.Tracked r.log ∧ r.session.allowDirect = allowDirect := by
  have hstart : (Session.begin k k' peer id conn allowDirect probeDelay keys).allowDirect =
      allowDirect :=
    (Session.start_spec k peer id conn allowDirect probeDelay keys).2.2.2.1
  refine invariant step
    (I := fun r => r.session.Tracked r.log ∧ r.session.allowDirect = allowDirect)
    ⟨Session.tracked_begin k k' peer id conn allowDirect probeDelay keys, hstart⟩ ?_ events
  rintro r e ⟨htracked, hallow⟩
  cases e with
  | pass k wake nonce draws =>
    refine ⟨htracked.drive k wake nonce draws, ?_⟩
    have hsame := (Session.pass_drive r.session k wake nonce draws).same
    exact hsame.allowDirect.trans hallow
  | note n => exact ⟨htracked.note n, (Session.note_spec r.session n).1.allowDirect.trans hallow⟩

/-- The statuses of a session, over every run: they start `Rendezvous`, `Relayed`, each differs
from the one before and is an edge of the diagram away from it, `Failed` is the last, and the
history is their first 256. -/
theorem statuses_follow_diagram (k k' : PathSocket) (peer : NodeId) (id conn : ℕ)
    (allowDirect : Bool) (probeDelay : ℕ) (keys : Option (ProbeKeyId × ProbeKey))
    (events : List SessionEvent) :
    let r := run step (begin k k' peer id conn allowDirect probeDelay keys) events
    (∃ rest, r.log = .rendezvous :: .relayed :: rest) ∧
    r.log.getLast? = some r.session.report.status ∧
    (∀ earlier a b later, r.log = earlier ++ a :: b :: later →
      a ≠ b ∧ (earlier = [] ∨ PathEdge earlier a b)) ∧
    (∀ earlier reason later, r.log = earlier ++ .failed reason :: later →
      later = [] ∧ ∀ status ∈ earlier, status.isFailed = false) ∧
    (allowDirect = false → .probing ∉ r.log ∧ .direct ∉ r.log) ∧
    (r.session.report.direct.isSome → r.session.report.status = .direct) ∧
    (∀ k wake nonce draws url, r.session.seenRelay k wake = some (.up url) → allowDirect = true →
      ((r.session.drive k wake nonce draws).1.report.status = .direct ↔
        (r.session.freshProof k).isSome)) ∧
    r.session.history.map PathReport.status = r.log.take 256 := by
  intro r
  have htracked : r.session.Tracked r.log ∧ r.session.allowDirect = allowDirect :=
    tracked_run k k' peer id conn allowDirect probeDelay keys events
  obtain ⟨⟨hlogged, hrunning⟩, hallow⟩ := htracked
  refine ⟨hlogged.walk.head, hlogged.last, ?_, ?_, ?_, hlogged.direct, ?_, hlogged.history⟩
  · intro earlier a b later hlog
    obtain ⟨hne, -, hedge⟩ := hlogged.walk.neighbours hlog
    exact ⟨hne, hedge⟩
  · intro earlier reason later hlog
    constructor
    · by_contra hlater
      cases hlogged.walk.unfailed hlog hlater
    · intro status hmem
      obtain ⟨before, after, rfl⟩ := List.append_of_mem hmem
      rw [List.append_assoc, List.cons_append] at hlog
      exact hlogged.walk.unfailed hlog (by simp)
  · intro hno
    have hdeclined := hlogged.declined (hallow.trans hno)
    exact ⟨fun hmem => (hdeclined _ hmem).1 rfl, fun hmem => (hdeclined _ hmem).2 rfl⟩
  · intro k wake nonce draws url hseen hyes
    obtain ⟨t, hselect, hup⟩ := Option.map_eq_some_iff.mp hseen
    obtain ⟨t₀, htask, hprevious, -⟩ := Session.task_of_pastSelect hselect
    have hon : r.session.OnPath t r.log := by
      rw [Session.OnPath, hprevious]
      exact hrunning t₀ htask
    exact Session.direct_iff_fresh hlogged hon hselect hup (hallow.trans hyes) nonce draws

end Reporting

end ForgeswornLink
