import ForgeswornLink.Takeover

/-!
# The stages of a session number

A number is given out with the slot of its peer and then goes through stages: it
dials or arrives, its task runs, and it is over. The tables put every number at
one stage at most, and only a number that dials, arrives or runs is in a slot.
Two exits of the source lose this: a call that fails for want of a TLS
configuration returns with its slot taken, and so does a task that finds its relay
superseded or failed.
-/

namespace ForgeswornLink
open Runs NewestWins ByteString

inductive Stage where
  | dialling (peer : NodeId)
  | arriving (conn : ℕ) (route : NodeId)
  | running (peer : NodeId)
  | over
deriving DecidableEq

def Stage.title : Stage → Option NodeId
  | .dialling peer => some peer
  | .arriving _ route => some route
  | .running peer => some peer
  | .over => none

namespace Session

def stage (s : Session) : Stage := if s.task.isSome then .running s.peer else .over

theorem stage_of_task {s : Session} (h : s.task.isSome) : s.stage = .running s.peer := if_pos h

theorem stage_of_none {s : Session} (h : s.task = none) : s.stage = .over := by
  rw [stage, h]
  rfl

theorem iterate_goes {s : Session} {t : Drive} {k : PathSocket} (draws : ℕ → Nonce × Bool)
    (hok : s.report.status.isFailed = false)
    (hsuperseded : (t.follow k s.peer).relayState ≠ .superseded)
    (hfailed : (t.follow k s.peer).relayState ≠ .failed) : (s.iterate t k draws).1.task.isSome := by
  unfold iterate
  dsimp only
  rw [if_neg (by rw [hok]; simp)]
  generalize t.follow k s.peer = u at hsuperseded hfailed ⊢
  have hdown : (s.relayDown u k).task.isSome := by
    unfold relayDown
    split_ifs <;> rfl
  cases hstate : u.relayState with
  | superseded => exact absurd hstate hsuperseded
  | failed => exact absurd hstate hfailed
  | reconnecting => exact hdown
  | connecting => exact hdown
  | up url =>
    dsimp only
    unfold relayUp
    generalize s.welcome u k = w
    obtain ⟨s', u'⟩ := w
    dsimp only
    split_ifs
    · unfold stayRelayed
      split_ifs <;> rfl
    · obtain ⟨t', htask, -⟩ := (step_advance (s'.prepare u' k).1 (s'.prepare u' k).2 k draws).task
      rw [htask]
      rfl

theorem goes_on {s : Session} {t : Drive} {k : PathSocket} {wake : Wake} {nonce : Nonce}
    {draws : ℕ → Nonce × Bool} {calls : List Event}
    (hok : ∀ t, s.task = some t → s.report.status.isFailed = false)
    (hrelay : s.seenRelay k wake ≠ some .superseded ∧ s.seenRelay k wake ≠ some .failed)
    (hselect : s.pastSelect k wake = some t)
    (hcalls : calls = (s.iterate t k draws).2 ∨
      calls = .requeryReflector nonce :: (s.iterate t k draws).2) :
    (s.iterate t k draws).1.task.isSome ∧ ∀ c ∈ calls, c.isPathCall = true := by
  obtain ⟨t₀, htask, -⟩ := task_of_pastSelect hselect
  have hseen : s.seenRelay k wake = some (t.follow k s.peer).relayState := by
    rw [seenRelay, hselect]
    rfl
  rw [hseen] at hrelay
  have hruns := iterate_goes draws (hok t₀ htask) (fun heq => hrelay.1 (by rw [heq]))
    (fun heq => hrelay.2 (by rw [heq]))
  have hpath := pathCalls_iterate s t k draws
  refine ⟨hruns, ?_⟩
  rcases hcalls with rfl | rfl
  · exact hpath
  · exact List.forall_mem_cons.mpr ⟨rfl, hpath⟩

end Session

def Turn.after (P : Primitives) (hostOf : String → Option String) (e : Endpoint) (t : Turn) :
    Endpoint :=
  { t.next with socket := PathSocket.after P hostOf e.socket t.calls }

def Turn.slotOps (t : Turn) : List (Op NodeId) := t.calls.filterMap Event.slotOp

namespace Endpoint

def At (e : Endpoint) (id : ℕ) (x : Stage) : Prop :=
  (∃ dial, e.dials.lookup id = some dial ∧ x = .dialling dial.peer) ∨
  (∃ conn route, e.arrivals.lookup conn = some ⟨route, some id⟩ ∧ x = .arriving conn route) ∨
  ∃ s, e.sessions.lookup id = some s ∧ x = s.stage

def Puts (e : Endpoint) (id : ℕ) (next : Option Stage) (e' : Endpoint) : Prop :=
  ∀ id' x, e'.At id' x ↔ if id' = id then next = some x else e.At id' x

section Puts
variable {e e' e'' : Endpoint} {id : ℕ} {x : Stage} {next next' : Option Stage}

theorem Puts.trans (h : Puts e id next e') (h' : Puts e' id next' e'') : Puts e id next' e'' := by
  intro id' x
  rw [h' id' x]
  split_ifs with hid
  · rfl
  · rw [h id' x, if_neg hid]

theorem puts_of (hself : ∀ x, e'.At id x ↔ next = some x)
    (hother : ∀ id' x, id' ≠ id → (e'.At id' x ↔ e.At id' x)) : Puts e id next e' := by
  intro id' x
  split_ifs with hid
  · rw [hid]
    exact hself x
  · exact hother id' x hid

theorem at_relaunch {session : ℕ} {dial dial' : Dial} (hdial : e.dials.lookup session = some dial)
    (hpeer : dial'.peer = dial.peer) (id : ℕ) (x : Stage) :
    { e with dials := e.dials.insert session dial' }.At id x ↔ e.At id x := by
  refine or_congr_left ?_
  dsimp only
  rw [Table.lookup_insert_ite]
  split_ifs with hid
  · rw [hid, hdial]
    simp [hpeer]
  · rfl

theorem puts_insertDial (hfresh : ∀ x, ¬ e.At id x) (dial : Dial) :
    Puts e id (some (.dialling dial.peer)) { e with dials := e.dials.insert id dial } := by
  refine puts_of (fun x => ⟨?_, ?_⟩) fun id' x hid => by simp [At, hid]
  · rintro (⟨dial', hdial, rfl⟩ | hrest)
    · rw [AList.lookup_insert] at hdial
      rw [← Option.some.inj hdial]
    · exact absurd (Or.inr hrest) (hfresh x)
  · rintro ⟨rfl⟩
    exact Or.inl ⟨dial, AList.lookup_insert _, rfl⟩

theorem puts_insertArrival (hfresh : ∀ x, ¬ e.At id x) {conn : ℕ} (hnew : conn ∉ e.arrivals)
    (route : NodeId) : Puts e id (some (.arriving conn route))
      { e with arrivals := e.arrivals.insert conn ⟨route, some id⟩ } := by
  have hnone := AList.lookup_eq_none.mpr hnew
  refine puts_of (fun x => ⟨?_, ?_⟩) fun id' x hid => ?_
  · rintro (hdial | ⟨conn', route', harrival, rfl⟩ | hsession)
    · exact absurd (Or.inl hdial) (hfresh x)
    · dsimp only at harrival
      rw [Table.lookup_insert_ite] at harrival
      split_ifs at harrival with hconn
      · cases harrival
        rw [hconn]
      · exact absurd (Or.inr (Or.inl ⟨conn', route', harrival, rfl⟩)) (hfresh _)
    · exact absurd (Or.inr (Or.inr hsession)) (hfresh x)
  · rintro ⟨rfl⟩
    exact Or.inr (Or.inl ⟨conn, route, AList.lookup_insert _, rfl⟩)
  · refine or_congr_right (or_congr_left (exists_congr fun conn' => exists_congr fun route' => ?_))
    refine and_congr_left' ?_
    dsimp only
    rw [Table.lookup_insert_ite]
    split_ifs with hconn
    · rw [hconn, hnone]
      refine iff_of_false (fun heq => ?_) nofun
      cases heq
      exact hid rfl
    · rfl

theorem at_arrivals_of_none {arrivals : Table ℕ Arrival}
    (h : ∀ conn route id, arrivals.lookup conn = some ⟨route, some id⟩ ↔
      e.arrivals.lookup conn = some ⟨route, some id⟩) :
    ∀ id x, { e with arrivals := arrivals }.At id x ↔ e.At id x := by
  intro id x
  exact or_congr_right (or_congr_left (exists_congr fun conn => exists_congr fun route =>
    and_congr_left' (h conn route id)))

theorem at_insertArrival {conn : ℕ} (hnew : conn ∉ e.arrivals) (route : NodeId)
    (id : ℕ) (x : Stage) :
    { e with arrivals := e.arrivals.insert conn ⟨route, none⟩ }.At id x ↔ e.At id x := by
  refine at_arrivals_of_none (fun conn' route' id => ?_) id x
  rw [Table.lookup_insert_ite]
  split_ifs with hconn
  · rw [hconn, AList.lookup_eq_none.mpr hnew]
    exact iff_of_false (fun heq => by cases heq) nofun
  · rfl

theorem at_dropArrival {conn : ℕ} {route : NodeId} (h : e.arrivals.lookup conn = some ⟨route, none⟩)
    (id : ℕ) (x : Stage) : (e.dropArrival conn).At id x ↔ e.At id x := by
  refine at_arrivals_of_none (fun conn' route' id => ?_) id x
  rw [Table.lookup_erase_ite]
  split_ifs with hconn
  · rw [hconn, h]
    exact iff_of_false nofun (fun heq => by cases heq)
  · rfl

theorem stage_ne_dialling (s : Session) (p : NodeId) : s.stage ≠ .dialling p := by
  unfold Session.stage
  split_ifs <;> simp

theorem stage_ne_arriving (s : Session) (conn : ℕ) (p : NodeId) : s.stage ≠ .arriving conn p := by
  unfold Session.stage
  split_ifs <;> simp

theorem puts_dropDial {dial : Dial} (honly : ∀ x, e.At id x → x = .dialling dial.peer) :
    Puts e id none (e.dropDial id) := by
  refine puts_of (fun x => iff_of_false ?_ (by simp)) fun id' x hid => by simp [At, dropDial, hid]
  rintro (⟨dial', hdial, -⟩ | ⟨conn, route, harrival, rfl⟩ | ⟨s, hs, rfl⟩)
  · rw [dropDial, AList.lookup_erase] at hdial
    cases hdial
  · cases honly _ (Or.inr (Or.inl ⟨conn, route, harrival, rfl⟩))
  · exact stage_ne_dialling s _ (honly _ (Or.inr (Or.inr ⟨s, hs, rfl⟩)))

theorem puts_dropArrival {conn : ℕ} {route : NodeId}
    (harrival : e.arrivals.lookup conn = some ⟨route, some id⟩)
    (honly : ∀ x, e.At id x → x = .arriving conn route) : Puts e id none (e.dropArrival conn) := by
  refine puts_of (fun x => iff_of_false ?_ (by simp)) fun id' x hid => ?_
  · rintro (⟨dial, hdial, rfl⟩ | ⟨conn', route', hlookup, rfl⟩ | ⟨s, hs, rfl⟩)
    · cases honly _ (Or.inl ⟨dial, hdial, rfl⟩)
    · obtain ⟨hconn, hbefore⟩ := lookup_dropArrival hlookup
      have heq := honly _ (Or.inr (Or.inl ⟨conn', route', hbefore, rfl⟩))
      exact hconn (Stage.arriving.inj heq).1
    · exact stage_ne_arriving s _ _ (honly _ (Or.inr (Or.inr ⟨s, hs, rfl⟩)))
  · refine or_congr_right (or_congr_left (exists_congr fun conn' => exists_congr fun route' => ?_))
    refine and_congr_left' ?_
    rw [dropArrival, Table.lookup_erase_ite]
    split_ifs with hconn
    · rw [hconn, harrival]
      refine iff_of_false (by simp) fun heq => ?_
      cases heq
      exact hid rfl
    · rfl

theorem puts_setSession (honly : ∀ x, e.At id x → ∃ s : Session, x = s.stage) (s : Session) :
    Puts e id (some s.stage) (e.setSession id s) := by
  refine puts_of (fun x => ⟨?_, ?_⟩) fun id' x hid => by simp [At, setSession, hid]
  · rintro (⟨dial, hdial, rfl⟩ | ⟨conn, route, harrival, rfl⟩ | ⟨s', hs', rfl⟩)
    · obtain ⟨s', heq⟩ := honly _ (Or.inl ⟨dial, hdial, rfl⟩)
      exact absurd heq.symm (stage_ne_dialling s' _)
    · obtain ⟨s', heq⟩ := honly _ (Or.inr (Or.inl ⟨conn, route, harrival, rfl⟩))
      exact absurd heq.symm (stage_ne_arriving s' _ _)
    · rw [setSession, AList.lookup_insert] at hs'
      rw [Option.some.inj hs']
  · rintro ⟨rfl⟩
    exact Or.inr (Or.inr ⟨s, AList.lookup_insert _, rfl⟩)

theorem Puts.start (h : Puts e id none e') (s : Session) :
    Puts e id (some s.stage) (e'.setSession id s) := by
  refine h.trans (puts_setSession (fun x hx => ?_) s)
  cases (if_pos rfl).mp ((h id x).mp hx)

end Puts

/-- Every number is at one stage at most, and those in a slot are entitled to it. -/
structure Staged (e : Endpoint) (stage : ℕ → Option Stage) : Prop where
  tables : ∀ id x, e.At id x ↔ stage id = some x
  lives : Lives e.socket.inner.slots stage Stage.title

section Staged
variable {P : Primitives} {hostOf : String → Option String} {e : Endpoint}
  {stage : ℕ → Option Stage} {id : ℕ} {x : Stage} {next : Option Stage} {t : Turn}

theorem Staged.only (h : Staged e stage) (hx : e.At id x) (y : Stage) (hy : e.At id y) : y = x :=
  Option.some.inj (((h.tables id y).mp hy).symm.trans ((h.tables id x).mp hx))

theorem Staged.fresh (h : Staged e stage) (x : Stage) : ¬ e.At e.socket.inner.nextSession x := by
  intro hx
  cases (h.lives.beyond _ le_rfl).symm.trans ((h.tables _ x).mp hx)

theorem Staged.turn (htables : ∀ id x, t.next.At id x ↔ stage id = some x)
    (hlives : Lives (run Slots.step e.socket.inner.slots t.slotOps) stage Stage.title) :
    Staged (Turn.after P hostOf e t) stage := by
  refine ⟨htables, ?_⟩
  rw [Turn.after, PathSocket.slots_after]
  exact hlives

theorem Staged.put (h : Staged e stage) (hputs : Puts e id next t.next)
    (hlives : Lives (run Slots.step e.socket.inner.slots t.slotOps) (Function.update stage id next)
      Stage.title) :
    ∃ stage', Staged (Turn.after P hostOf e t) stage' := by
  refine ⟨_, Staged.turn (fun id' x => ?_) hlives⟩
  rw [hputs id' x, Function.update_apply]
  split_ifs
  · rfl
  · exact h.tables id' x

theorem Staged.keep (h : Staged e stage) (htables : ∀ id x, t.next.At id x ↔ e.At id x)
    (hops : t.slotOps = []) : ∃ stage', Staged (Turn.after P hostOf e t) stage' := by
  refine ⟨stage, Staged.turn (fun id x => (htables id x).trans (h.tables id x)) ?_⟩
  rw [hops]
  exact h.lives

/-- The exits that give back what they took: no call that has taken a slot returns for want of a TLS
configuration, and no task because of its relay. -/
def GivesBack (e : Endpoint) : EndpointEvent → Prop
  | .rendezvous _ _ admission => admission ≠ .noConfig
  | .incoming remote _ admission => admission = .noConfig →
    ∀ route ∈ e.socket.inner.bySynthetic.lookup remote, e.pairingActive route = true
  | .drive session wake _ _ => ∀ s ∈ e.sessions.lookup session,
    s.seenRelay e.socket wake ≠ some .superseded ∧ s.seenRelay e.socket wake ≠ some .failed
  | _ => True

instance decidableGivesBack (e : Endpoint) : ∀ event, Decidable (e.GivesBack event)
  | .rendezvous _ _ admission => inferInstanceAs (Decidable (admission ≠ .noConfig))
  | .incoming remote _ admission => inferInstanceAs (Decidable (admission = .noConfig →
      ∀ route ∈ e.socket.inner.bySynthetic.lookup remote, e.pairingActive route = true))
  | .drive session wake _ _ => inferInstanceAs (Decidable (∀ s ∈ e.sessions.lookup session,
      s.seenRelay e.socket wake ≠ some .superseded ∧ s.seenRelay e.socket wake ≠ some .failed))
  | .environment _ | .connect _ _ | .connectPairing _ _ _ _ _ | .dialled _ _ | .arrived _ _
  | .control _ _ | .controlSent _ | .requestDirect _ | .reannounce _ | .closed _ _ => isTrue trivial

theorem slotOps_quiet {calls : List Event} (h : Quiet calls) : calls.filterMap Event.slotOp = [] :=
  List.filterMap_eq_nil_iff.mpr fun c hc => slotOp_of_untouched
    (Event.touchesSlots_of_quiet (h c hc))

theorem slotOps_begin {before after : List Event} {p : NodeId} (hbefore : Quiet before) :
    (before ++ .beginSession p :: after).filterMap Event.slotOp =
      .take p :: after.filterMap Event.slotOp := by
  rw [List.filterMap_append, slotOps_quiet hbefore]
  rfl

theorem slotOps_end {before : List Event} {p : NodeId} {id : ℕ} (hbefore : Quiet before) :
    (before ++ [Event.endSession p id]).filterMap Event.slotOp = [.free p id] := by
  rw [List.filterMap_append, slotOps_quiet hbefore]
  rfl

theorem quiet_forgetKey (s : Session) : Quiet s.forgetKey := by
  intro c hc
  obtain ⟨keyId, rfl⟩ := Session.mem_forgetKey hc
  rfl

theorem started_task {r : Session × List Event} {calls : List Event} {peer : NodeId} {id conn : ℕ}
    {allowDirect : Bool} {probeDelay : ℕ} {keys : Option (ProbeKeyId × ProbeKey)}
    (hr : r = e.started P hostOf calls peer id conn allowDirect probeDelay keys) :
    r.1.task.isSome := by
  obtain ⟨-, -, -, -, -, -, htask⟩ := Session.start_spec
    (PathSocket.after P hostOf e.socket calls) peer id conn allowDirect probeDelay keys
  rw [hr, started, htask]
  rfl

theorem started_stage {r : Session × List Event} {calls : List Event} {peer : NodeId} {id conn : ℕ}
    {allowDirect : Bool} {probeDelay : ℕ} {keys : Option (ProbeKeyId × ProbeKey)}
    (hr : r = e.started P hostOf calls peer id conn allowDirect probeDelay keys) :
    r.1.stage = .running peer := by
  rw [Session.stage_of_task (started_task hr), (started_ids hr).2]

theorem Staged.drive (h : Staged e stage) {session : ℕ} {s : Session} {wake : Wake} {nonce : Nonce}
    {draws : ℕ → Nonce × Bool} (hs : e.sessions.lookup session = some s) (hid : s.id = session)
    (hok : ∀ t, s.task = some t → s.report.status.isFailed = false)
    (hrelay : s.seenRelay e.socket wake ≠ some .superseded ∧
      s.seenRelay e.socket wake ≠ some .failed)
    {r : Session × List Event} (hpass : Session.Pass s e.socket wake nonce draws r) :
    ∃ stage', Staged (Turn.after P hostOf e ⟨e.setSession session r.1, r.2, none⟩) stage' := by
  subst hid
  have hat : e.At s.id s.stage := Or.inr (Or.inr ⟨s, hs, rfl⟩)
  have hputs : Puts e s.id (some r.1.stage) (e.setSession s.id r.1) :=
    puts_setSession (fun x hx => ⟨s, h.only hat x hx⟩) r.1
  have hstage := (h.tables _ _).mp hat
  have hpeer := hpass.same.peer
  refine h.put hputs ?_
  cases hpass with
  | waits =>
    rw [← hstage, Function.update_eq_self]
    exact h.lives
  | @goes t hselect calls hcalls =>
    obtain ⟨t₀, htask, -⟩ := Session.task_of_pastSelect hselect
    obtain ⟨hruns, hall⟩ := Session.goes_on hok hrelay hselect hcalls
    have hops : calls.filterMap Event.slotOp = [] := by
      refine List.filterMap_eq_nil_iff.mpr fun c hc => ?_
      have hc := hall c hc
      cases c with
      | beginSession p => cases hc
      | endSession p id => cases hc
      | takeNotice id => cases hc
      | _ => rfl
    rw [Turn.slotOps, hops]
    refine h.lives.goOn hstage ?_
    rw [Session.stage_of_task hruns, Session.stage_of_task (by rw [htask]; rfl), hpeer]
  | displaced htask hselect htold =>
    have hops : (Event.takeNotice s.id :: s.forgetKey).filterMap Event.slotOp = [.read s.id] :=
      congrArg (Op.read s.id :: ·) (slotOps_quiet (quiet_forgetKey s))
    rw [Turn.slotOps, hops]
    exact h.lives.read hstage htold _
  | ends htask hselect hclosed =>
    rw [Turn.slotOps, slotOps_end (quiet_forgetKey s)]
    refine h.lives.free hstage ?_ _
    rw [Session.stage_of_task (by rw [htask]; rfl)]
    rfl

theorem Staged.step (h : Staged e stage)
    (hnumbered : ∀ id s, e.sessions.lookup id = some s → s.id = id)
    (hok : ∀ id s t, e.sessions.lookup id = some s → s.task = some t →
      s.report.status.isFailed = false)
    {event : EndpointEvent} (hgives : e.GivesBack event) :
    ∃ stage', Staged (e.step P hostOf event) stage' := by
  change ∃ stage', Staged (Turn.after P hostOf e (e.turn P hostOf event)) stage'
  have hmoves : Moves P hostOf e event (e.turn P hostOf event) := moves_turn e event
  generalize e.turn P hostOf event = t at hmoves ⊢
  cases hmoves with
  | rests hcalls => exact h.keep (fun _ _ => Iff.rfl) (slotOps_quiet hcalls.quiet)
  | happens henv =>
    exact h.keep (fun _ _ => Iff.rfl)
      (slotOps_quiet (.cons (Event.quiet_of_environment henv) .nil))
  | @dials event dial before after hbefore hafter =>
    refine h.put (puts_insertDial h.fresh dial) ?_
    rw [Turn.slotOps, slotOps_begin hbefore.quiet, slotOps_quiet hafter.quiet]
    exact h.lives.take rfl
  | launches hdial => exact h.keep (at_relaunch hdial rfl) rfl
  | abandons => exact absurd rfl hgives
  | @failsDial event session dial calls reason hdial hcalls =>
    have hat : e.At session (.dialling dial.peer) := Or.inl ⟨dial, hdial, rfl⟩
    refine h.put (puts_dropDial (h.only hat)) ?_
    rw [Turn.slotOps, slotOps_end hcalls.quiet]
    exact h.lives.free ((h.tables _ _).mp hat) rfl none
  | @startsDial session handshake dial conn calls allowDirect probeDelay keys outcome hdial hconn
      hcalls hallow r hr =>
    have hat : e.At session (.dialling dial.peer) := Or.inl ⟨dial, hdial, rfl⟩
    refine h.put ((puts_dropDial (h.only hat)).start r.1) ?_
    rw [Turn.slotOps, slotOps_quiet (hcalls.quiet.append (quiet_started hr))]
    exact h.lives.goOn ((h.tables _ _).mp hat) (by rw [started_stage hr]; rfl)
  | admits hnew hroute hactive hcalls =>
    exact h.keep (at_insertArrival hnew _) (slotOps_quiet hcalls.quiet)
  | accepts hnew hroute hinactive hbefore =>
    refine h.put (puts_insertArrival h.fresh hnew _) ?_
    rw [Turn.slotOps, slotOps_begin hbefore.quiet]
    exact h.lives.take rfl
  | @refuses remote conn route before hroute hinactive hbefore =>
    have htaken := h.lives.take (a := .dialling route) rfl
    have hfreed := htaken.free (Function.update_self _ _ _) rfl none
    rw [Function.update_idem, ← h.lives.beyond _ le_rfl, Function.update_eq_self] at hfreed
    refine ⟨stage, Staged.turn h.tables ?_⟩
    rw [Turn.slotOps, slotOps_begin hbefore.quiet]
    exact hfreed
  | overlooks hroute hinactive =>
    exact Bool.noConfusion (hinactive.symm.trans (hgives rfl _ hroute))
  | @dropsArrival conn handshake arrival calls outcome harrival hcalls =>
    obtain ⟨route, session⟩ := arrival
    cases session with
    | none =>
      refine h.keep (at_dropArrival harrival) ?_
      rw [Turn.slotOps, release, List.append_nil, slotOps_quiet hcalls.quiet]
    | some session =>
      have hat : e.At session (.arriving conn route) := Or.inr (Or.inl ⟨conn, route, harrival, rfl⟩)
      refine h.put (puts_dropArrival harrival (h.only hat)) ?_
      rw [Turn.slotOps, release, slotOps_end hcalls.quiet]
      exact h.lives.free ((h.tables _ _).mp hat) rfl none
  | @startsArrival conn route session keys secret generation harrival r hr =>
    have hat : e.At session (.arriving conn route) := Or.inr (Or.inl ⟨conn, route, harrival, rfl⟩)
    refine h.put ((puts_dropArrival harrival (h.only hat)).start r.1) ?_
    rw [Turn.slotOps, slotOps_quiet (quiet_started hr)]
    exact h.lives.goOn ((h.tables _ _).mp hat) (by rw [started_stage hr]; rfl)
  | @startsPairing conn route presented keys secret generation calls harrival hpromote
      hcalls id hid r hr =>
    subst hid
    have hfresh : Puts e e.socket.inner.nextSession none (e.dropArrival conn) := by
      refine puts_of (fun x => iff_of_false ?_ (by simp)) fun id x _ => at_dropArrival harrival id x
      rw [at_dropArrival harrival]
      exact h.fresh x
    have hbefore : Quiet (calls ++ [.registerPeer presented, .copyRelayRoute route presented]) :=
      hcalls.quiet.append (.cons rfl (.cons rfl .nil))
    refine h.put (hfresh.start r.1) ?_
    rw [Turn.slotOps, slotOps_begin hbefore, slotOps_quiet (quiet_started hr), started_stage hr]
    exact h.lives.take rfl
  | @drives session s wake nonce draws hs r hr =>
    have hpass := Session.pass_drive s e.socket wake nonce draws
    rw [← hr] at hpass
    exact h.drive hs (hnumbered _ _ hs) (fun t => hok _ _ t hs) (hgives s hs) hpass
  | @notes session s n hs =>
    have hat : e.At session s.stage := Or.inr (Or.inr ⟨s, hs, rfl⟩)
    have hstage : (s.note n).1.stage = s.stage := by
      obtain ⟨hsame, -, -, htask⟩ := s.note_spec n
      rw [Session.stage, Session.stage, htask, hsame.peer]
    refine h.put (puts_setSession (fun x hx => ⟨s, h.only hat x hx⟩) (s.note n).1) ?_
    rw [Turn.slotOps, slotOps_quiet (plain_note s n).quiet, hstage, ← (h.tables _ _).mp hat,
      Function.update_eq_self]
    exact h.lives

end Staged

end Endpoint

end ForgeswornLink
