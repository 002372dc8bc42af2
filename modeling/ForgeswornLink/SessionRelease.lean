import ForgeswornLink.SessionStages
import ForgeswornLink.ProbeKeys

/-!
# What the end of a session gives back

A session takes the slot of its peer and registers a probe key. Every exit of the
drive task has to unregister the key and leave the slot, and every early return of
a dial or of the accept loop has to leave the slot. The superseded and the closed
exits of the task do, the two exits on the relay's state do not; the early returns
do, except where no TLS configuration can be built.
-/

namespace ForgeswornLink
open Runs Keyring ByteString

def Event.isRegister : Event → Bool
  | .registerProbeKey _ _ _ _ => true
  | _ => false

theorem Event.isRegister_of_plain {c : Event} (h : c.isPlain = true) : c.isRegister = false := by
  cases c with
  | registerProbeKey id p keyId key => cases h
  | _ => rfl

theorem Event.isRegister_of_environment {c : Event} (h : c.isEnvironment = true) :
    c.isRegister = false := by
  cases c with
  | registerProbeKey id p keyId key => cases h
  | _ => rfl

theorem Event.isRegister_of_pathCall {c : Event} (h : c.isPathCall = true) :
    c.isRegister = false := by
  cases c with
  | registerProbeKey id p keyId key => cases h
  | _ => rfl

namespace Endpoint

/-- The calls so far account for the keys of the sessions: who registered one is in the table,
and who is over has unregistered its own since. -/
structure Keyed (e : Endpoint) (history : List Event) : Prop where
  registered : ∀ id p keyId key, .registerProbeKey id p keyId key ∈ history →
    ∃ s, e.sessions.lookup id = some s ∧ s.peer = p ∧ s.probeKeyId = some keyId
  released : ∀ id s keyId, e.sessions.lookup id = some s → s.task = none →
    s.probeKeyId = some keyId →
    ∃ pre post, history = pre ++ .unregisterProbeKey keyId :: post ∧
      ∀ p key, .registerProbeKey id p keyId key ∉ post


section Keyed
variable {P : Primitives} {hostOf : String → Option String} {e e' : Endpoint}
  {history calls : List Event}

theorem Keyed.append (h : Keyed e history)
    (hnone : ∀ c ∈ calls, c.isRegister = false)
    (hstay : ∀ id s, e.sessions.lookup id = some s → ∃ s',
      e'.sessions.lookup id = some s' ∧ s.Same s')
    (hcome : ∀ id s', e'.sessions.lookup id = some s' → ∃ s, e.sessions.lookup id = some s ∧
      s.Same s' ∧ (s'.task = none → s.task = none ∨
        ∀ keyId, s.probeKeyId = some keyId → .unregisterProbeKey keyId ∈ calls)) :
    Keyed e' (history ++ calls) := by
  have hnone : ∀ id p keyId key, Event.registerProbeKey id p keyId key ∉ calls :=
    fun id p keyId key hmem => Bool.noConfusion (hnone _ hmem)
  refine ⟨?_, ?_⟩
  · intro id p keyId key hmem
    have hbefore := (List.mem_append.mp hmem).resolve_right (hnone id p keyId key)
    obtain ⟨s, hs, hpeer, hkey⟩ := h.registered id p keyId key hbefore
    obtain ⟨s', hs', hsame⟩ := hstay id s hs
    exact ⟨s', hs', hsame.peer.trans hpeer, hsame.probeKeyId.trans hkey⟩
  · intro id s' keyId hs' htask hkey
    obtain ⟨s, hs, hsame, hends⟩ := hcome id s' hs'
    rw [hsame.probeKeyId] at hkey
    rcases hends htask with hover | hnow
    · obtain ⟨pre, post, rfl, hpost⟩ := h.released id s keyId hs hover hkey
      refine ⟨pre, post ++ calls, by simp, fun p key hmem => ?_⟩
      rcases List.mem_append.mp hmem with hlater | hcalls
      · exact hpost p key hlater
      · exact hnone id p keyId key hcalls
    · obtain ⟨first, rest, rfl⟩ := List.append_of_mem (hnow keyId hkey)
      refine ⟨history ++ first, rest, by simp, fun p key hmem => ?_⟩
      exact hnone id p keyId key (List.mem_append_right _ (List.mem_cons_of_mem _ hmem))

theorem Keyed.start (h : Keyed e history) {s : Session} {id : ℕ}
    (hnew : e.sessions.lookup id = none) (hsessions : e'.sessions = e.sessions.insert id s)
    (htask : s.task.isSome) (hcalls : ∀ id' p keyId key, .registerProbeKey id' p keyId key ∈ calls →
      id' = id ∧ s.peer = p ∧ s.probeKeyId = some keyId) :
    Keyed e' (history ++ calls) := by
  have hlookup : ∀ id', e'.sessions.lookup id' =
      if id' = id then some s else e.sessions.lookup id' := by
    intro id'
    rw [hsessions, Table.lookup_insert_ite]
  refine ⟨?_, ?_⟩
  · intro id' p keyId key hmem
    rw [hlookup]
    rcases List.mem_append.mp hmem with hbefore | hnow
    · obtain ⟨s', hs', hrest⟩ := h.registered id' p keyId key hbefore
      have hne : id' ≠ id := by
        rintro rfl
        cases hnew.symm.trans hs'
      rw [if_neg hne]
      exact ⟨s', hs', hrest⟩
    · obtain ⟨rfl, hrest⟩ := hcalls id' p keyId key hnow
      rw [if_pos rfl]
      exact ⟨s, rfl, hrest⟩
  · intro id' s' keyId hs' hover hkey
    rw [hlookup] at hs'
    split_ifs at hs' with hid
    · obtain rfl := Option.some.inj hs'
      rw [hover] at htask
      cases htask
    · obtain ⟨pre, post, rfl, hpost⟩ := h.released id' s' keyId hs' hover hkey
      refine ⟨pre, post ++ calls, by simp, fun p key hmem => ?_⟩
      rcases List.mem_append.mp hmem with hlater | hnow
      · exact hpost p key hlater
      · exact hid (hcalls id' p keyId key hnow).1

theorem Keyed.keep (h : Keyed e history) (hsessions : e'.sessions = e.sessions)
    (hnone : ∀ c ∈ calls, c.isRegister = false) : Keyed e' (history ++ calls) := by
  refine h.append hnone ?_ ?_
  · intro id s hs
    exact ⟨s, hsessions ▸ hs, Session.Same.refl s⟩
  · intro id s hs
    exact ⟨s, hsessions ▸ hs, Session.Same.refl s, Or.inl⟩

theorem Keyed.update (h : Keyed e history) {id : ℕ} {s s' : Session}
    (hs : e.sessions.lookup id = some s) (hsessions : e'.sessions = e.sessions.insert id s')
    (hsame : s.Same s') (hnone : ∀ c ∈ calls, c.isRegister = false)
    (hends : s'.task = none → s.task = none ∨
      ∀ keyId, s.probeKeyId = some keyId → .unregisterProbeKey keyId ∈ calls) :
    Keyed e' (history ++ calls) := by
  have hlookup : ∀ id', e'.sessions.lookup id' =
      if id' = id then some s' else e.sessions.lookup id' := by
    intro id'
    rw [hsessions, Table.lookup_insert_ite]
  refine h.append hnone ?_ ?_
  · intro id' s₁ hs₁
    rw [hlookup]
    split_ifs with hid
    · obtain rfl := Option.some.inj ((hid ▸ hs₁).symm.trans hs)
      exact ⟨s', rfl, hsame⟩
    · exact ⟨s₁, hs₁, Session.Same.refl s₁⟩
  · intro id' s₁ hs₁
    rw [hlookup] at hs₁
    split_ifs at hs₁ with hid
    · obtain rfl := Option.some.inj hs₁
      exact ⟨s, hid ▸ hs, hsame, hends⟩
    · exact ⟨s₁, hs₁, Session.Same.refl s₁, Or.inl⟩

theorem register_started {r : Session × List Event} {calls : List Event}
    {peer : NodeId} {id conn : ℕ} {allowDirect : Bool} {probeDelay : ℕ}
    {keys : Option (ProbeKeyId × ProbeKey)}
    (hr : r = e.started P hostOf calls peer id conn allowDirect probeDelay keys)
    {id' : ℕ} {p : NodeId} {keyId : ProbeKeyId} {key : ProbeKey}
    (hmem : .registerProbeKey id' p keyId key ∈ r.2) :
    id' = id ∧ r.1.peer = p ∧ r.1.probeKeyId = some keyId := by
  have hkey : r.1.probeKeyId = keys.map Prod.fst := by
    rw [hr]
    exact (Session.kept_transition _ _ _ _).probeKeyId
  have hpeer := (started_ids hr).2
  rw [hkey, hpeer]
  obtain ⟨held, rfl, hcall⟩ := mem_started hr hmem
  cases hcall
  exact ⟨rfl, rfl, rfl⟩

theorem isRegister_forgetKey (s : Session) : ∀ c ∈ s.forgetKey, c.isRegister = false := by
  intro c hc
  obtain ⟨keyId, rfl⟩ := Session.mem_forgetKey hc
  rfl

theorem unregister_mem_forgetKey {s : Session} {keyId : ProbeKeyId}
    (h : s.probeKeyId = some keyId) :
    .unregisterProbeKey keyId ∈ s.forgetKey := by
  rw [Session.forgetKey, h]
  exact List.mem_singleton_self _

theorem Keyed.drive (h : Keyed e history) {session : ℕ} {s : Session} {wake : Wake} {nonce : Nonce}
    {draws : ℕ → Nonce × Bool} (hs : e.sessions.lookup session = some s)
    (hok : ∀ t, s.task = some t → s.report.status.isFailed = false)
    (hrelay : s.seenRelay e.socket wake ≠ some .superseded ∧
      s.seenRelay e.socket wake ≠ some .failed)
    {r : Session × List Event} (hpass : Session.Pass s e.socket wake nonce draws r)
    (hsessions : e'.sessions = e.sessions.insert session r.1) : Keyed e' (history ++ r.2) := by
  have hsame := hpass.same
  cases hpass with
  | waits => exact h.update hs hsessions hsame (List.forall_mem_nil _) Or.inl
  | goes hselect hcalls =>
    obtain ⟨hruns, hpath⟩ := Session.goes_on hok hrelay hselect hcalls
    refine h.update hs hsessions hsame (fun c hc => Event.isRegister_of_pathCall (hpath c hc))
      fun hnone => ?_
    rw [hnone] at hruns
    cases hruns
  | displaced htask hselect htold =>
    refine h.update hs hsessions hsame
      (List.forall_mem_cons.mpr ⟨rfl, isRegister_forgetKey s⟩) fun _ => Or.inr fun keyId hkey => ?_
    exact List.mem_cons_of_mem _ (unregister_mem_forgetKey hkey)
  | ends htask hselect hclosed =>
    refine h.update hs hsessions hsame
      (List.forall_mem_append.mpr ⟨isRegister_forgetKey s, List.forall_mem_singleton.mpr rfl⟩)
      fun _ => Or.inr fun keyId hkey => ?_
    exact List.mem_append_left _ (unregister_mem_forgetKey hkey)

theorem Keyed.step {stage : ℕ → Option Stage} (h : Keyed e history) (hstaged : Staged e stage)
    (hok : ∀ id s t, e.sessions.lookup id = some s → s.task = some t →
      s.report.status.isFailed = false)
    {event : EndpointEvent} (hgives : e.GivesBack event) :
    Keyed (e.step P hostOf event) (history ++ e.calls P hostOf event) := by
  have hplain : ∀ {calls : List Event}, Plain calls → ∀ c ∈ calls, c.isRegister = false :=
    fun hcalls c hc => Event.isRegister_of_plain (hcalls c hc)
  have hempty : ∀ {id : ℕ} {x : Stage}, e.At id x → (∀ s : Session, s.stage ≠ x) →
      e.sessions.lookup id = none := by
    intro id x hx hne
    rw [Option.eq_none_iff_forall_ne_some]
    intro s hs
    exact hne s (hstaged.only hx _ (Or.inr (Or.inr ⟨s, hs, rfl⟩)))
  change Keyed (Turn.after P hostOf e (e.turn P hostOf event))
    (history ++ (e.turn P hostOf event).calls)
  have hmoves : Moves P hostOf e event (e.turn P hostOf event) := moves_turn e event
  generalize e.turn P hostOf event = t at hmoves ⊢
  cases hmoves with
  | rests hcalls => exact h.keep rfl (hplain hcalls)
  | happens henv =>
    exact h.keep rfl (List.forall_mem_singleton.mpr (Event.isRegister_of_environment henv))
  | dials hbefore hafter =>
    exact h.keep rfl (List.forall_mem_append.mpr
      ⟨hplain hbefore, List.forall_mem_cons.mpr ⟨rfl, hplain hafter⟩⟩)
  | launches => exact h.keep rfl (List.forall_mem_nil _)
  | abandons => exact h.keep rfl (List.forall_mem_nil _)
  | failsDial hdial hcalls =>
    exact h.keep rfl (List.forall_mem_append.mpr ⟨hplain hcalls, List.forall_mem_singleton.mpr rfl⟩)
  | @startsDial session handshake dial conn calls allowDirect probeDelay keys outcome hdial hconn
      hcalls hallow r hr =>
    have hat : e.At session (.dialling dial.peer) := Or.inl ⟨dial, hdial, rfl⟩
    refine h.start (hempty hat fun s => stage_ne_dialling s _) rfl (started_task hr) ?_
    intro id' p keyId key hmem
    rcases List.mem_append.mp hmem with hbefore | hnow
    · exact Bool.noConfusion (hplain hcalls _ hbefore)
    · exact register_started hr hnow
  | admits hnew hroute hactive hcalls => exact h.keep rfl (hplain hcalls)
  | accepts hnew hroute hinactive hbefore =>
    exact h.keep rfl
      (List.forall_mem_append.mpr ⟨hplain hbefore, List.forall_mem_singleton.mpr rfl⟩)
  | refuses hroute hinactive hbefore =>
    exact h.keep rfl (List.forall_mem_append.mpr ⟨hplain hbefore,
      List.forall_mem_cons.mpr ⟨rfl, List.forall_mem_singleton.mpr rfl⟩⟩)
  | overlooks hroute hinactive hbefore =>
    exact h.keep rfl
      (List.forall_mem_append.mpr ⟨hplain hbefore, List.forall_mem_singleton.mpr rfl⟩)
  | @dropsArrival conn handshake arrival calls outcome harrival hcalls =>
    refine h.keep rfl (List.forall_mem_append.mpr ⟨hplain hcalls, fun c hc => ?_⟩)
    obtain ⟨session, rfl⟩ := mem_release hc
    rfl
  | @startsArrival conn route session keys secret generation harrival r hr =>
    have hat : e.At session (.arriving conn route) := Or.inr (Or.inl ⟨conn, route, harrival, rfl⟩)
    exact h.start (hempty hat fun s => stage_ne_arriving s _ _) rfl (started_task hr)
      fun id' p keyId key hmem => register_started hr hmem
  | @startsPairing conn route presented keys secret generation calls harrival hpromote
      hcalls id hid r hr =>
    subst hid
    have hnew : e.sessions.lookup e.socket.inner.nextSession = none := by
      rw [Option.eq_none_iff_forall_ne_some]
      intro s hs
      exact hstaged.fresh _ (Or.inr (Or.inr ⟨s, hs, rfl⟩))
    refine h.start hnew rfl (started_task hr) ?_
    intro id' p keyId key hmem
    rcases List.mem_append.mp hmem with hbefore | hnow
    · rcases List.mem_append.mp hbefore with hfirst | hsecond
      · exact Bool.noConfusion (hplain hcalls _ hfirst)
      · simp at hsecond
    · exact register_started hr ((List.mem_cons.mp hnow).resolve_left nofun)
  | @drives session s wake nonce draws hs r hr =>
    have hpass := Session.pass_drive s e.socket wake nonce draws
    rw [← hr] at hpass
    exact h.drive hs (fun t => hok _ _ t hs) (hgives s hs) hpass rfl
  | @notes session s n hs =>
    obtain ⟨hsame, -, -, htask⟩ := s.note_spec n
    exact h.update hs rfl hsame (hplain (plain_note s n)) fun hnone =>
      Or.inl (htask.symm.trans hnone)

end Keyed

theorem unfailed_of_task {P : Primitives} {hostOf : String → Option String} {start : Endpoint}
    (hstart : start.sessions = ∅) {es : List EndpointEvent} {id : ℕ} {s : Session} {t : Drive}
    (hs : (run (step P hostOf) start es).sessions.lookup id = some s) (ht : s.task = some t) :
    s.report.status.isFailed = false := by
  obtain ⟨k, peer, id, conn, allowDirect, probeDelay, keys, events, rfl⟩ :=
    session_reports hstart es id s hs
  obtain ⟨htracked, -⟩ := Reporting.tracked_run k k peer id conn allowDirect probeDelay keys events
  exact (htracked.running t ht).unfailed

theorem released_run (P : Primitives) (hostOf : String → Option String) (udp : Bool)
    (config : EndpointConfig) (now unixNow : ℕ) {es : List EndpointEvent}
    (h : Always (step P hostOf) GivesBack (openOn udp config now unixNow) es) :
    (∃ stage, Staged (run (step P hostOf) (openOn udp config now unixNow) es) stage) ∧
      Keyed (run (step P hostOf) (openOn udp config now unixNow) es)
        ((openOn udp config now unixNow).trace P hostOf es) := by
  induction es using List.reverseRecOn with
  | nil =>
    refine ⟨⟨fun _ => none, fun id x => iff_of_false ?_ nofun, NewestWins.lives_empty⟩, ?_⟩
    · rintro (⟨dial, hdial, -⟩ | ⟨conn, route, harrival, -⟩ | ⟨s, hs, -⟩)
      · cases hdial
      · cases harrival
      · cases hs
    · exact ⟨fun _ _ _ _ => nofun, fun _ _ _ => nofun⟩
  | append_singleton es event ih =>
    obtain ⟨hbefore, hgives⟩ := (always_snoc _).mp h
    obtain ⟨⟨stage, hstaged⟩, hkeyed⟩ := ih hbefore
    have haccounted : Accounted P hostOf (openOn udp config now unixNow) es :=
      accounted_run rfl (not_relayTaken_open udp config now unixNow) rfl rfl rfl es
    rw [run_snoc, Endpoint.trace, trace_snoc]
    exact ⟨hstaged.step (fun id s hs => (haccounted.owned.sessions id s hs).1)
        (fun _ _ _ hs => unfailed_of_task rfl hs) hgives,
      hkeyed.step hstaged (fun _ _ _ hs => unfailed_of_task rfl hs) hgives⟩

theorem key_gone {P : Primitives} {hostOf : String → Option String} {start : Endpoint}
    (hstart : start.socket.inner = {}) {es : List EndpointEvent}
    (h : Keyed (run (step P hostOf) start es) (start.trace P hostOf es)) {id : ℕ} {s : Session}
    {keyId : ProbeKeyId} (hs : (run (step P hostOf) start es).sessions.lookup id = some s)
    (hover : s.task = none) (hkey : s.probeKeyId = some keyId)
    (honly : ∀ id' s', (run (step P hostOf) start es).sessions.lookup id' = some s' →
      s'.probeKeyId = some keyId → id' = id) :
    let i := (run (step P hostOf) start es).socket.inner
    i.byKeyId.lookup keyId = none ∧ ∀ p key, (i.entry p).probeKey ≠ some (keyId, key) := by
  intro i
  have hregistered : ∀ id' p key, .registerProbeKey id' p keyId key ∈ start.trace P hostOf es →
      id' = id ∧ p = s.peer := by
    intro id' p key hmem
    obtain ⟨s', hs', rfl, hkey'⟩ := h.registered id' p keyId key hmem
    obtain rfl := honly id' s' hs' hkey'
    rw [Option.some.inj (hs'.symm.trans hs)]
    exact ⟨rfl, rfl⟩
  obtain ⟨pre, post, htrace, hpost⟩ := h.released id s keyId hs hover hkey
  have hkeys : i.keys = run Keys.step Keys.empty
      (pre.filterMap Event.keyOp ++ .unregister keyId :: post.filterMap Event.keyOp) := by
    have hafter := PathSocket.keys_after P hostOf start.socket (start.trace P hostOf es)
    rw [← socket_run, hstart, htrace, List.filterMap_append] at hafter
    exact hafter
  have hop : ∀ {p : NodeId} {calls : List Event}, .register p keyId ∈ calls.filterMap Event.keyOp →
      ∃ id' key, .registerProbeKey id' p keyId key ∈ calls := by
    intro p calls hmem
    obtain ⟨c, hc, hop⟩ := List.mem_filterMap.mp hmem
    cases c with
    | registerProbeKey id' p' keyId' key =>
      cases hop
      exact ⟨id', key, hc⟩
    | unregisterProbeKey keyId' => cases hop
    | _ => cases hop
  have hone : ∀ p p', .register p keyId ∈ pre.filterMap Event.keyOp →
      .register p' keyId ∈ pre.filterMap Event.keyOp → p = p' := by
    intro p p' hp hp'
    obtain ⟨id₁, key₁, hmem₁⟩ := hop hp
    obtain ⟨id₂, key₂, hmem₂⟩ := hop hp'
    rw [(hregistered id₁ p key₁ (by rw [htrace]; exact List.mem_append_left _ hmem₁)).2,
      (hregistered id₂ p' key₂ (by rw [htrace]; exact List.mem_append_left _ hmem₂)).2]
  have hlater : ∀ p, .register p keyId ∉ post.filterMap Event.keyOp := by
    intro p hp
    obtain ⟨id', key, hmem⟩ := hop hp
    obtain ⟨rfl, -⟩ := hregistered id' p key
      (by rw [htrace]; exact List.mem_append_right _ (List.mem_cons_of_mem _ hmem))
    exact hpost p key hmem
  have hgone := gone_of_unregistered hone hlater
  rw [← hkeys] at hgone
  refine ⟨hgone.1, fun p key heq => hgone.2 p ?_⟩
  change (i.entry p).probeKey.map Prod.fst = some keyId
  rw [heq]
  rfl

/-- In every run whose exits give back what they took: a session whose task has returned is in no
slot and, unless another session exported the same key id, its key is on no record; and whoever is
in a slot still dials, still arrives or is a session whose task runs. -/
theorem ended_sessions_release (P : Primitives) (hostOf : String → Option String) (udp : Bool)
    (config : EndpointConfig) (now unixNow : ℕ) (es : List EndpointEvent)
    (hgives : Always (step P hostOf) GivesBack (openOn udp config now unixNow) es) :
    let e := run (step P hostOf) (openOn udp config now unixNow) es
    (∀ id s, e.sessions.lookup id = some s → s.task = none →
      (∀ p, e.socket.inner.sessions.lookup p ≠ some id) ∧
      ∀ keyId, s.probeKeyId = some keyId →
        (∀ id' s', e.sessions.lookup id' = some s' → s'.probeKeyId = some keyId → id' = id) →
        e.socket.inner.byKeyId.lookup keyId = none ∧
          ∀ p key, (e.socket.inner.entry p).probeKey ≠ some (keyId, key)) ∧
    ∀ p id, e.socket.inner.sessions.lookup p = some id →
      (∃ dial, e.dials.lookup id = some dial ∧ dial.peer = p) ∨
      (∃ conn, e.arrivals.lookup conn = some ⟨p, some id⟩) ∨
      ∃ s, e.sessions.lookup id = some s ∧ s.peer = p ∧ s.task.isSome := by
  intro e
  obtain ⟨⟨stage, hstaged⟩, hkeyed⟩ := released_run P hostOf udp config now unixNow hgives
  have hheld : ∀ p id, e.socket.inner.sessions.lookup p = some id →
      ∃ x, e.At id x ∧ x.title = some p := by
    intro p id hslot
    obtain ⟨x, hx, htitle⟩ := Option.bind_eq_some_iff.mp (hstaged.lives.held p id hslot)
    exact ⟨x, (hstaged.tables id x).mpr hx, htitle⟩
  refine ⟨fun id s hs hover => ⟨fun p hslot => ?_, fun keyId hkey honly => ?_⟩,
    fun p id hslot => ?_⟩
  · obtain ⟨x, hx, htitle⟩ := hheld p id hslot
    rw [hstaged.only (Or.inr (Or.inr ⟨s, hs, rfl⟩)) x hx, Session.stage_of_none hover] at htitle
    cases htitle
  · exact key_gone rfl hkeyed hs hover hkey honly
  · obtain ⟨x, hx, htitle⟩ := hheld p id hslot
    rcases hx with ⟨dial, hdial, rfl⟩ | ⟨conn, route, harrival, rfl⟩ | ⟨s, hs, rfl⟩
    · exact Or.inl ⟨dial, hdial, Option.some.inj htitle⟩
    · rw [Option.some.inj htitle] at harrival
      exact Or.inr (Or.inl ⟨conn, harrival⟩)
    · refine Or.inr (Or.inr ⟨s, hs, ?_⟩)
      unfold Session.stage at htitle
      split_ifs at htitle with hruns
      · exact ⟨Option.some.inj htitle, hruns⟩
      · cases htitle

def establishKeyed (p : NodeId) (keyId : ProbeKeyId) (key : ProbeKey) : List EndpointEvent :=
  [.environment (.driver 0 .connected), .connect p [], .rendezvous 0 0 .started,
    .dialled 0 (.done (some p) (some (keyId, key)) none 0)]

theorem closed_session_is_released :
    let p : NodeId := ⟨List.Vector.replicate 32 1⟩
    let keyId : ProbeKeyId := List.Vector.replicate 8 2
    let config := EndpointConfig.new ⟨List.Vector.replicate 32 0⟩
    let start := openOn true { config with relays := ["wss://relay"] } 0 0
    let es := establishKeyed p keyId (List.Vector.replicate 32 3) ++
      [.closed 0 .timedOut, .drive 0 .closed (List.Vector.replicate 16 5) fun _ =>
        (List.Vector.replicate 16 5, true)]
    let e := run (step Primitives.standIn fun _ => none) start es
    Always (step Primitives.standIn fun _ => none) GivesBack start es ∧
      ∃ s, e.sessions.lookup 0 = some s ∧ s.task = none ∧
        (∀ q, e.socket.inner.sessions.lookup q ≠ some 0) ∧
        e.socket.inner.byKeyId.lookup keyId = none := by
  intro p keyId config start es e
  have hgives : Always (step Primitives.standIn fun _ => none) GivesBack start es := by
    decide +kernel
  have hstate : (e.sessions.lookup 0).map (fun s => (s.task.isNone, s.probeKeyId)) =
      some (true, some keyId) := by decide +kernel
  have hkeys : e.sessions.keys = [0] := by decide +kernel
  obtain ⟨s, hs, heq⟩ := Option.map_eq_some_iff.mp hstate
  obtain ⟨hover, hkey⟩ := Prod.mk.inj heq
  rw [Option.isNone_iff_eq_none] at hover
  -- the run stays folded: its projections are compared as they stand
  have he : run (step Primitives.standIn fun _ => none)
      (openOn true { config with relays := ["wss://relay"] } 0 0) es = e := rfl
  obtain ⟨hended, -⟩ := ended_sessions_release Primitives.standIn (fun _ => none) true
    { config with relays := ["wss://relay"] } 0 0 es hgives
  rw [he] at hended
  obtain ⟨hslot, hreleased⟩ := hended 0 s hs hover
  have honly : ∀ id' s', e.sessions.lookup id' = some s' →
      s'.probeKeyId = some keyId → id' = 0 := by
    intro id' s' hs' _
    have hmem : id' ∈ e.sessions.keys :=
      AList.mem_keys.mp (AList.lookup_isSome.mp (by rw [hs']; rfl))
    rw [hkeys] at hmem
    exact List.mem_singleton.mp hmem
  obtain ⟨hgone, -⟩ := hreleased keyId hkey honly
  exact ⟨hgives, s, hs, hover, hslot, hgone⟩

/-- A relay reports a newer session of this node: the task returns and leaves its slot and its key.
A dial for which no TLS configuration can be built returns and leaves its slot. -/
theorem relay_exit_leaves_slot_and_key :
    let p : NodeId := ⟨List.Vector.replicate 32 1⟩
    let keyId : ProbeKeyId := List.Vector.replicate 8 2
    let key : ProbeKey := List.Vector.replicate 32 3
    let config := EndpointConfig.new ⟨List.Vector.replicate 32 0⟩
    let start := openOn true { config with relays := ["wss://relay"] } 0 0
    let left := run (step Primitives.standIn fun _ => none) start
      (establishKeyed p keyId key ++
        [.environment (.driver 0 (.ended true)), .drive 0 .relayEvent (List.Vector.replicate 16 5)
          fun _ => (List.Vector.replicate 16 5, true)])
    let dialled := run (step Primitives.standIn fun _ => none) start
      [.environment (.driver 0 .connected), .connect p []]
    let returned := dialled.turn Primitives.standIn (fun _ => none) (.rendezvous 0 0 .noConfig)
    (left.sessions.lookup 0).map (fun s => (s.task.isNone, s.report.status, s.probeKeyId)) =
        some (true, .failed .superseded, some keyId) ∧
      left.socket.inner.sessions.lookup p = some 0 ∧
      left.socket.inner.byKeyId.lookup keyId = some p ∧
      (left.socket.inner.entry p).probeKey = some (keyId, key) ∧
      returned.outcome = some (.failed .identity) ∧ returned.next.dials.keys = [] ∧
      (dialled.step Primitives.standIn (fun _ => none)
        (.rendezvous 0 0 .noConfig)).socket.inner.sessions.lookup p = some 0 := by
  refine ⟨?_, ?_, ?_, ?_, ?_, ?_, ?_⟩ <;> decide +kernel

end Endpoint

end ForgeswornLink
