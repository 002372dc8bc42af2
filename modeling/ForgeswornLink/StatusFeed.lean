import ForgeswornLink.Lib.Stutter
import ForgeswornLink.SessionHistory

/-!
# The relay states a session sees

A driver publishes a status in two steps, the watched value and then the
broadcast, and publishes nothing that is already the value. The drive task
subscribes and then reads the value, and from there on takes broadcasts in
passes of its loop, among the other branches of its select. A feed has these
steps in any order, with the socket of each pass arbitrary up to the driver it
shows. Beside the state it keeps what the task read when it started, the
broadcasts it has taken, and the relay states that reached the state machine.
-/

namespace ForgeswornLink
open Runs Stutter

def RelayStatus.isOutage : RelayStatus → Bool
  | .reconnecting | .connecting => true
  | _ => false

def Drive.subscription (t : Drive) : ℕ × ℕ × RelayStatus := (t.driver, t.read, t.relayState)

namespace Session

def received (s : Session) (k : PathSocket) : Wake → List RelayStatus
  | .relayEvent => ((s.pastSelect k .relayEvent).map Drive.relayState).toList
  | _ => []

def handled (s : Session) (k : PathSocket) (wake : Wake) : List RelayStatus :=
  if s.report.status.isFailed then [] else (s.seenRelay k wake).toList

section Subscription
variable (s : Session) (t : Drive) (k : PathSocket)

theorem subscription_welcome : (s.welcome t k).2.subscription = t.subscription := by
  unfold welcome
  split_ifs <;> rfl

theorem subscription_prepare : (s.prepare t k).2.subscription = t.subscription := by
  unfold prepare
  dsimp only
  split <;> split_ifs <;> rfl

theorem subscription_advance (draws : ℕ → Nonce × Bool) {t' : Drive}
    (h : (s.advance t k draws).1.task = some t') : t'.subscription = t.subscription := by
  unfold advance at h
  dsimp only at h
  split at h
  · split at h
    · cases h
      rfl
    · split_ifs at h <;> cases h <;> rfl
  · split at h
    · cases h
      rfl
    · split_ifs at h <;> cases h <;> rfl
  · split at h
    · split_ifs at h <;> cases h <;> rfl
    · cases h
      rfl
  · cases h
    rfl

theorem subscription_relayUp (draws : ℕ → Nonce × Bool) {t' : Drive}
    (h : (s.relayUp t k draws).1.task = some t') : t'.subscription = t.subscription := by
  have hback := subscription_welcome s t k
  unfold relayUp at h
  generalize s.welcome t k = w at h hback
  obtain ⟨s', u⟩ := w
  dsimp only at h hback
  split_ifs at h
  · unfold stayRelayed at h
    rw [← hback]
    split_ifs at h <;> cases h <;> rfl
  · rw [subscription_advance _ _ k draws h, subscription_prepare, hback]

theorem subscription_iterate (draws : ℕ → Nonce × Bool) {t' : Drive}
    (h : (s.iterate t k draws).1.task = some t') :
    t'.subscription = (t.follow k s.peer).subscription := by
  unfold iterate at h
  dsimp only at h
  generalize t.follow k s.peer = u at h ⊢
  split_ifs at h
  · cases h
  · cases hstate : u.relayState with
    | superseded =>
      rw [hstate] at h
      cases h
    | failed =>
      rw [hstate] at h
      cases h
    | reconnecting | connecting =>
      rw [hstate] at h
      dsimp only [relayDown] at h
      split_ifs at h <;> cases h <;> rfl
    | up url =>
      rw [hstate] at h
      exact subscription_relayUp s u k draws h

end Subscription

def Recorded (s s' : Session) : Prop :=
  s.report.status = .reconnecting ∨ historyCap ≤ s.history.length ∨
    ∃ report : PathReport, report.status = .reconnecting ∧ s'.history = s.history ++ [report]

theorem recorded_relayDown (s : Session) (t : Drive) (k : PathSocket) :
    s.Recorded (s.relayDown t k) := by
  by_cases hdown : s.report.status = .reconnecting
  · exact Or.inl hdown
  by_cases hfull : historyCap ≤ s.history.length
  · exact Or.inr (Or.inl hfull)
  refine Or.inr
    (Or.inr ⟨(s.transition k .reconnecting .relayLost).report, status_transition s k _ _, ?_⟩)
  unfold relayDown transition
  dsimp only [resume]
  rw [if_pos hdown, if_neg hdown]
  dsimp only
  rw [if_pos (by omega)]

theorem recorded_iterate {s : Session} {t : Drive} {k : PathSocket} (draws : ℕ → Nonce × Bool)
    (hok : s.report.status.isFailed = false)
    (hdown : (t.follow k s.peer).relayState.isOutage = true) :
    s.Recorded (s.iterate t k draws).1 := by
  unfold iterate
  dsimp only
  rw [if_neg (by simp [hok])]
  generalize t.follow k s.peer = u at hdown ⊢
  cases hstate : u.relayState with
  | reconnecting | connecting => exact recorded_relayDown s u k
  | superseded | failed | up url =>
    rw [hstate] at hdown
    cases hdown

end Session

theorem Drive.follow_of_eq {t : Drive} {k : PathSocket} {peer : NodeId}
    (h : (k.relayFor peer).1 = t.driver) : t.follow k peer = t := if_neg (not_not_intro h)

/-- One driver's channel and one session that is to follow it. -/
structure StatusFeed where
  id : ℕ
  status : RelayStatus
  events : List RelayStatus
  -- A status that is watched already and not yet broadcast.
  unsent : Option RelayStatus
  -- How many broadcasts there were when the task subscribed.
  mark : Option ℕ
  sampled : Option RelayStatus
  session : Session
  taken : List RelayStatus
  handled : List RelayStatus

inductive FeedEvent where
  | publish (next : RelayStatus)
  | broadcast
  | subscribe
  | readStatus (k : PathSocket) (probeDelay : ℕ)
  | pass (k : PathSocket) (wake : Wake) (nonce : Nonce) (draws : ℕ → Nonce × Bool)
  | note (n : Note)

namespace StatusFeed

def before (k : PathSocket) (peer : NodeId) (id conn : ℕ) (allowDirect : Bool)
    (keys : Option (ProbeKeyId × ProbeKey)) (driver : RelayDriver) (unsent : Option RelayStatus) :
    StatusFeed where
  id := driver.id
  status := driver.status
  events := driver.events
  unsent := unsent
  mark := none
  sampled := none
  session := { (Session.start k peer id conn allowDirect 0 keys).1 with task := none }
  taken := []
  handled := []

def publish (f : StatusFeed) (next : RelayStatus) : StatusFeed :=
  if f.unsent = none ∧ f.status ≠ next then { f with status := next, unsent := some next } else f

def broadcast (f : StatusFeed) : StatusFeed :=
  match f.unsent with
  | some next => { f with events := f.events ++ [next], unsent := none }
  | none => f

def subscribe (f : StatusFeed) : StatusFeed :=
  if f.mark = none then { f with mark := some f.events.length } else f

def readStatus (f : StatusFeed) (k : PathSocket) (probeDelay : ℕ) : StatusFeed :=
  match f.mark with
  | none => f
  | some mark =>
    if f.sampled = none then
      { f with
        sampled := some f.status
        session := f.session.resume { Drive.start k f.session.peer probeDelay with
          driver := f.id, read := mark, relayState := f.status } }
    else f

def pass (f : StatusFeed) (k : PathSocket) (wake : Wake) (nonce : Nonce)
    (draws : ℕ → Nonce × Bool) : StatusFeed :=
  { f with
    session := (f.session.drive k wake nonce draws).1
    taken := f.taken ++ f.session.received k wake
    handled := f.handled ++ f.session.handled k wake }

def step (f : StatusFeed) : FeedEvent → StatusFeed
  | .publish next => f.publish next
  | .broadcast => f.broadcast
  | .subscribe => f.subscribe
  | .readStatus k probeDelay => f.readStatus k probeDelay
  | .pass k wake nonce draws => f.pass k wake nonce draws
  | .note n => { f with session := (f.session.note n).1 }

/-- Both steps together are `RelayDriver.setStatus`. -/
theorem broadcast_publish {f : StatusFeed} {d : RelayDriver} (hidle : f.unsent = none)
    (hstatus : f.status = d.status) (hevents : f.events = d.events) (next : RelayStatus) :
    ((f.publish next).broadcast).status = (d.setStatus next).status ∧
      ((f.publish next).broadcast).events = (d.setStatus next).events := by
  unfold publish RelayDriver.setStatus
  rw [hidle, hstatus]
  by_cases hsame : d.status = next
  · rw [if_neg (by simp [hsame]), if_pos hsame, broadcast, hidle]
    exact ⟨hstatus, hevents⟩
  · rw [if_pos ⟨rfl, hsame⟩, if_neg hsame, ← hevents]
    exact ⟨rfl, rfl⟩

theorem task_readStatus_subscribe {f : StatusFeed} {k : PathSocket} {d : RelayDriver}
    (hmark : f.mark = none) (hsampled : f.sampled = none)
    (hroute : k.relayFor f.session.peer = (f.id, d)) (hstatus : f.status = d.status)
    (hevents : f.events = d.events) (probeDelay : ℕ) :
    (f.subscribe.readStatus k probeDelay).session.task =
      some (Drive.start k f.session.peer probeDelay) := by
  unfold subscribe StatusFeed.readStatus Drive.start Drive.subscribe
  rw [if_pos hmark]
  dsimp only
  rw [if_pos hsampled, hroute, hstatus, hevents]
  rfl

/-- The socket of a pass shows this driver, the peer is reached on it, and at most 64 broadcasts
are unread. -/
def Follows (f : StatusFeed) (k : PathSocket) : Prop :=
  ∀ t, f.session.task = some t → (k.relayFor f.session.peer).1 = t.driver ∧
    (k.relayFor f.session.peer).2.status = f.status ∧
    (k.relayFor f.session.peer).2.events = f.events ∧ f.events.length ≤ t.read + eventCapacity

def Follow (f : StatusFeed) : FeedEvent → Prop
  | .pass k _ _ _ => f.Follows k
  | _ => True

/-- Not the first thing the task handles is a broadcast of another status than it read. -/
def Prompt (f : StatusFeed) : FeedEvent → Prop
  | .pass k wake _ _ => f.handled = [] → ∀ next ∈ f.session.received k wake, f.sampled = some next
  | _ => True

/-- The states handled are, up to immediate repetition, the status read and then the broadcasts
taken since; before the first of them, none. -/
def InOrder (f : StatusFeed) : Prop :=
  (f.handled = [] ∧ f.taken = []) ∨
    ∃ first, f.sampled = some first ∧ squeeze f.handled = squeeze (first :: f.taken)

def Overtaken (f : StatusFeed) : Prop :=
  ∃ first, f.sampled = some first ∧ squeeze f.handled = squeeze f.taken ∧ f.taken ≠ [] ∧
    f.taken.head? ≠ some first

theorem Overtaken.not_inOrder {f : StatusFeed} (h : f.Overtaken) : ¬ f.InOrder := by
  obtain ⟨first, hsampled, hsqueeze, hne, hhead⟩ := h
  rintro (⟨_, hnil⟩ | ⟨first', hsampled', horder⟩)
  · exact hne hnil
  · obtain rfl := Option.some.inj (hsampled.symm.trans hsampled')
    apply hhead
    rw [← head?_squeeze, ← hsqueeze, horder, head?_squeeze, List.head?_cons]

/-! ### One pass -/

inductive Moved (f : StatusFeed) (received : List RelayStatus) (wake : Wake)
    (f' : StatusFeed) : Prop where
  | waits (hreceived : received = []) (htaken : f'.taken = f.taken)
      (hhandled : f'.handled = f.handled)
      (hempty : wake = .relayEvent → ∀ t, f.session.task = some t → f.events[t.read]? = none)
      (hafter : ∀ t, f'.session.task = some t → f.session.task = some t)
  | again {t : Drive} (htask : f.session.task = some t) (hwake : wake ≠ .relayEvent)
      (hreceived : received = []) (htaken : f'.taken = f.taken)
      (hhandled : f'.handled = f.handled ++ [t.relayState])
      (hafter : ∀ t', f'.session.task = some t' → t'.subscription = t.subscription)
  | takes {t : Drive} {next : RelayStatus} (htask : f.session.task = some t)
      (hwake : wake = .relayEvent) (hnext : f.events[t.read]? = some next)
      (hreceived : received = [next]) (htaken : f'.taken = f.taken ++ [next])
      (hhandled : f'.handled = f.handled ++ [next])
      (hafter : ∀ t', f'.session.task = some t' → t'.subscription = (t.driver, t.read + 1, next))
      (hrecorded : next.isOutage = true → f.session.Recorded f'.session)

theorem Follows.pastSelect {f : StatusFeed} {k : PathSocket} (h : f.Follows k) {t : Drive}
    (htask : f.session.task = some t) :
    f.session.pastSelect k .relayEvent =
      (f.events[t.read]?).map fun next => { t with read := t.read + 1, relayState := next } := by
  obtain ⟨hid, -, hevents, hunread⟩ := h t htask
  have hdriver := k.relayFor_driver f.session.peer
  rw [hid] at hdriver
  simp only [Session.pastSelect, htask, Option.bind_some, hdriver, Drive.receive, hevents]
  rw [if_neg (by omega)]

theorem received_of_none {s : Session} {k : PathSocket} {wake : Wake}
    (h : s.pastSelect k wake = none) :
    s.received k wake = [] ∧ s.handled k wake = [] := by
  constructor
  · cases wake with
    | relayEvent => rw [Session.received, h]; rfl
    | _ => rfl
  · rw [Session.handled, Session.seenRelay, h]
    split_ifs <;> rfl

theorem subscription_pastSelect {s : Session} {k : PathSocket} {wake : Wake} {t u : Drive}
    (htask : s.task = some t) (hwake : wake ≠ .relayEvent) (h : s.pastSelect k wake = some u) :
    s.received k wake = [] ∧ u.subscription = t.subscription := by
  simp only [Session.pastSelect, htask, Option.bind_some] at h
  cases wake with
  | relayEvent => exact absurd rfl hwake
  | superseded | closed => cases h
  | interfaceChange =>
    dsimp only at h
    split_ifs at h
    cases h
    exact ⟨rfl, rfl⟩
  | monitorEnded | tick =>
    cases h
    exact ⟨rfl, rfl⟩

theorem handled_of_pastSelect {s : Session} {k : PathSocket} {wake : Wake} {u : Drive}
    (hok : s.report.status.isFailed = false) (h : s.pastSelect k wake = some u)
    (hdriver : (k.relayFor s.peer).1 = u.driver) : s.handled k wake = [u.relayState] := by
  rw [Session.handled, Session.seenRelay, h, hok, Option.map_some, Drive.follow_of_eq hdriver]
  rfl

section Pass
variable {f : StatusFeed} {k : PathSocket} {wake : Wake}

theorem moved_of_none (h : f.Follows k) (hnone : f.session.pastSelect k wake = none) {s' : Session}
    (hafter : ∀ t, s'.task = some t → f.session.task = some t) :
    f.Moved (f.session.received k wake) wake { f with
      session := s'
      taken := f.taken ++ f.session.received k wake
      handled := f.handled ++ f.session.handled k wake } := by
  obtain ⟨hreceived, hhandled⟩ := received_of_none hnone
  refine .waits hreceived ?_ ?_ ?_ hafter
  · simp [hreceived]
  · simp [hhandled]
  · rintro rfl t htask
    rw [h.pastSelect htask] at hnone
    exact Option.map_eq_none_iff.mp hnone

theorem moved_of_some (h : f.Follows k) {t u : Drive} (htask : f.session.task = some t)
    (hok : f.session.report.status.isFailed = false)
    (hselect : f.session.pastSelect k wake = some u) (draws : ℕ → Nonce × Bool) :
    f.Moved (f.session.received k wake) wake { f with
      session := (f.session.iterate u k draws).1
      taken := f.taken ++ f.session.received k wake
      handled := f.handled ++ f.session.handled k wake } := by
  obtain ⟨hid, -, -, -⟩ := h t htask
  have hafter : ∀ t', (f.session.iterate u k draws).1.task = some t' → u.driver = t.driver →
      t'.subscription = u.subscription := by
    intro t' ht' hdriver
    rw [Session.subscription_iterate _ _ k draws ht', Drive.follow_of_eq (hid.trans hdriver.symm)]
  by_cases hwake : wake = .relayEvent
  · subst hwake
    have hread := h.pastSelect htask
    rw [hselect] at hread
    obtain ⟨next, hnext, rfl⟩ := Option.map_eq_some_iff.mp hread.symm
    have hhandled := handled_of_pastSelect hok hselect hid
    have hreceived : f.session.received k .relayEvent = [next] := by
      rw [Session.received, hselect]
      rfl
    refine .takes htask rfl hnext hreceived ?_ ?_ (fun t' ht' => hafter t' ht' rfl)
      fun houtage => ?_
    · simp [hreceived]
    · simp [hhandled]
    · refine Session.recorded_iterate draws hok ?_
      rw [Drive.follow_of_eq]
      · exact houtage
      · exact hid
  · obtain ⟨hreceived, hsub⟩ := subscription_pastSelect htask hwake hselect
    have hdriver : u.driver = t.driver := congrArg Prod.fst hsub
    have hstate : u.relayState = t.relayState := congrArg (Prod.snd ∘ Prod.snd) hsub
    have hhandled := handled_of_pastSelect hok hselect (hid.trans hdriver.symm)
    refine .again htask hwake hreceived ?_ ?_ fun t' ht' => (hafter t' ht' hdriver).trans hsub
    · simp [hreceived]
    · simp [hhandled, hstate]

theorem moved_pass (h : f.Follows k)
    (hok : ∀ t, f.session.task = some t → f.session.report.status.isFailed = false) (wake : Wake)
    (nonce : Nonce) (draws : ℕ → Nonce × Bool) :
    f.Moved (f.session.received k wake) wake (f.pass k wake nonce draws) := by
  unfold pass
  have hpass := Session.pass_drive f.session k wake nonce draws
  generalize f.session.drive k wake nonce draws = r at hpass ⊢
  cases hpass with
  | waits hnone => exact moved_of_none h hnone fun t ht => ht
  | displaced _ hnone _ => exact moved_of_none h hnone fun t ht => by cases ht
  | ends _ hnone _ => exact moved_of_none h hnone fun t ht => by cases ht
  | goes hselect _ =>
    obtain ⟨t, htask, -, -⟩ := Session.task_of_pastSelect hselect
    exact moved_of_some h htask (hok t htask) hselect draws

end Pass

/-! ### Runs -/

structure Sound (f : StatusFeed) : Prop where
  tracked : ∃ log, f.session.Tracked log
  fresh : f.sampled = none →
    f.session.task = none ∧ f.session.report.status.isPath = true ∧ f.handled = [] ∧ f.taken = []
  marked : f.mark = none → f.sampled = none
  order : ∀ m, f.mark = some m → f.taken <+: f.events.drop m
  running : ∀ t, f.session.task = some t → ∃ m first, f.mark = some m ∧ f.sampled = some first ∧
    t.read = m + f.taken.length ∧ f.handled.getLast?.getD first = t.relayState

theorem Sound.unfailed {f : StatusFeed} (h : f.Sound) (t : Drive)
    (htask : f.session.task = some t) :
    f.session.report.status.isFailed = false := by
  obtain ⟨log, htracked⟩ := h.tracked
  exact (htracked.running t htask).unfailed

theorem sound_before (k : PathSocket) (peer : NodeId) (id conn : ℕ) (allowDirect : Bool)
    (keys : Option (ProbeKeyId × ProbeKey)) (driver : RelayDriver) (unsent : Option RelayStatus) :
    (before k peer id conn allowDirect keys driver unsent).Sound where
  tracked := ⟨[.rendezvous, .relayed],
    (Session.tracked_begin k k peer id conn allowDirect 0 keys).logged.congr rfl rfl rfl,
    fun t ht => by cases ht⟩
  fresh _ := by
    refine ⟨rfl, ?_, rfl, rfl⟩
    have hstatus : (before k peer id conn allowDirect keys driver unsent).session.report.status =
        .relayed :=
      Session.status_transition _ k _ _
    rw [hstatus]
    rfl
  marked _ := rfl
  order m hm := by cases hm
  running t ht := by cases ht

theorem Sound.grow {f : StatusFeed} (h : f.Sound) (status : RelayStatus) (more : List RelayStatus)
    (unsent : Option RelayStatus) :
    ({ f with status := status, events := f.events ++ more, unsent := unsent } :
      StatusFeed).Sound where
  tracked := h.tracked
  fresh := h.fresh
  marked := h.marked
  order m hm := by
    refine (h.order m hm).trans ?_
    rw [List.drop_append]
    exact List.prefix_append _ _
  running := h.running

theorem Sound.readStatus {f : StatusFeed} (h : f.Sound) (k : PathSocket) (probeDelay : ℕ) :
    (f.readStatus k probeDelay).Sound := by
  unfold StatusFeed.readStatus
  split
  · exact h
  · rename_i m hm
    split_ifs with hsampled
    · obtain ⟨hidle, hpath, hhandled, htaken⟩ := h.fresh hsampled
      obtain ⟨log, htracked⟩ := h.tracked
      refine ⟨⟨log, htracked.logged.congr rfl rfl rfl, fun t ht => Or.inl hpath⟩, nofun,
        fun hnone => ?_, h.order, ?_⟩
      · cases hm.symm.trans hnone
      · intro t ht
        cases ht
        exact ⟨m, f.status, hm, rfl, by simp [htaken], by simp [hhandled]⟩
    · exact h

theorem Sound.pass {f : StatusFeed} (h : f.Sound) {k : PathSocket}
    (hfollows : f.Follows k) (wake : Wake) (nonce : Nonce) (draws : ℕ → Nonce × Bool) :
    (f.pass k wake nonce draws).Sound := by
  obtain ⟨log, htracked⟩ := h.tracked
  have htracked' : ∃ log, (f.pass k wake nonce draws).session.Tracked log :=
    ⟨_, htracked.drive k wake nonce draws⟩
  have hfresh : ∀ t, f.session.task = some t → f.sampled ≠ none := by
    intro t htask hsampled
    rw [(h.fresh hsampled).1] at htask
    cases htask
  have hmoved := moved_pass hfollows h.unfailed wake nonce draws
  have hsampled : (f.pass k wake nonce draws).sampled = f.sampled := rfl
  have hmark : (f.pass k wake nonce draws).mark = f.mark := rfl
  have hevents : (f.pass k wake nonce draws).events = f.events := rfl
  have hmarked : f.mark = none → (f.pass k wake nonce draws).sampled = none := h.marked
  have hidle : f.session.task = none → (f.pass k wake nonce draws).session = f.session := by
    intro htask
    simp [StatusFeed.pass, Session.drive, htask]
  generalize f.pass k wake nonce draws = f' at *
  cases hmoved with
  | waits hreceived htaken hhandled hempty hafter =>
    refine ⟨htracked', fun hnone => ?_, hmark ▸ hmarked, ?_, fun t ht => ?_⟩
    · obtain ⟨htask, hpath, hh, ht⟩ := h.fresh (hsampled ▸ hnone)
      rw [hidle htask, hhandled, htaken]
      exact ⟨htask, hpath, hh, ht⟩
    · rw [hmark, htaken, hevents]
      exact h.order
    · rw [hmark, hsampled, htaken, hhandled]
      exact h.running t (hafter t ht)
  | @again t htask hwake hreceived htaken hhandled hafter =>
    refine ⟨htracked', fun hnone => absurd (hsampled ▸ hnone) (hfresh t htask), hmark ▸ hmarked, ?_,
      fun t' ht' => ?_⟩
    · rw [hmark, htaken, hevents]
      exact h.order
    · obtain ⟨m, first, hm, hfirst, hread, _⟩ := h.running t htask
      have hsub := hafter t' ht'
      refine ⟨m, first, hmark.trans hm, hsampled.trans hfirst, ?_, ?_⟩
      · rw [htaken, ← hread]
        exact congrArg (Prod.fst ∘ Prod.snd) hsub
      · rw [hhandled, List.getLast?_concat]
        exact (congrArg (Prod.snd ∘ Prod.snd) hsub).symm
  | @takes t next htask hwake hnext hreceived htaken hhandled hafter hrecorded =>
    obtain ⟨m, first, hm, hfirst, hread, _⟩ := h.running t htask
    refine ⟨htracked', fun hnone => absurd (hsampled ▸ hnone) (hfresh t htask), hmark ▸ hmarked,
      fun m' hm' => ?_, fun t' ht' => ?_⟩
    · obtain rfl := Option.some.inj (hm.symm.trans (hmark ▸ hm'))
      rw [htaken, hevents]
      -- What is taken next is the broadcast after the ones taken so far.
      obtain ⟨rest, hrest⟩ := h.order m hm
      rw [hread, ← List.getElem?_drop, ← hrest, List.getElem?_append_right le_rfl,
        Nat.sub_self] at hnext
      cases rest with
      | nil => cases hnext
      | cons b rest =>
        cases hnext
        exact ⟨rest, by rw [← hrest, List.append_assoc, List.singleton_append]⟩
    · have hsub := hafter t' ht'
      refine ⟨m, first, hmark.trans hm, hsampled.trans hfirst, ?_, ?_⟩
      · rw [htaken, List.length_append, List.length_singleton, ← Nat.add_assoc, ← hread]
        exact congrArg (Prod.fst ∘ Prod.snd) hsub
      · rw [hhandled, List.getLast?_concat]
        exact (congrArg (Prod.snd ∘ Prod.snd) hsub).symm

theorem sound_step {f : StatusFeed} {e : FeedEvent} (h : f.Sound) (hfollow : f.Follow e) :
    (f.step e).Sound := by
  cases e with
  | publish next =>
    dsimp only [step, publish]
    split_ifs
    · simpa using h.grow next [] (some next)
    · exact h
  | broadcast =>
    dsimp only [step, broadcast]
    split
    · exact h.grow f.status _ none
    · exact h
  | subscribe =>
    dsimp only [step, subscribe]
    split_ifs with hmark
    · have hnone := h.fresh (h.marked hmark)
      refine ⟨h.tracked, h.fresh, nofun, fun m _ => ?_, fun t ht => ?_⟩
      · rw [hnone.2.2.2]
        exact List.nil_prefix
      · cases hnone.1.symm.trans ht
    · exact h
  | readStatus k probeDelay => exact h.readStatus k probeDelay
  | pass k wake nonce draws => exact h.pass hfollow wake nonce draws
  | note n =>
    obtain ⟨log, htracked⟩ := h.tracked
    obtain ⟨-, hreport, -, htask⟩ := Session.note_spec f.session n
    refine ⟨⟨log, htracked.note n⟩, ?_, h.marked, h.order, ?_⟩
    · dsimp only [step]
      rw [htask, hreport]
      exact h.fresh
    · dsimp only [step]
      rw [htask]
      exact h.running

/-! ### The order of the states -/

theorem handled_ne_nil {f : StatusFeed} {xs : List RelayStatus} (h : squeeze f.handled = squeeze xs)
    (hne : xs ≠ []) : f.handled ≠ [] := by
  intro hnil
  rw [hnil] at h
  exact hne ((List.destutter_eq_nil _).mp h.symm)

theorem squeeze_again {f : StatusFeed} {xs : List RelayStatus} (h : squeeze f.handled = squeeze xs)
    (hne : xs ≠ []) {first last : RelayStatus} (hlast : f.handled.getLast?.getD first = last) :
    squeeze (f.handled ++ [last]) = squeeze xs := by
  obtain ⟨a, ha⟩ := Option.isSome_iff_exists.mp (List.getLast?_isSome.mpr (handled_ne_nil h hne))
  rw [ha, Option.getD_some] at hlast
  rw [← h, squeeze_snoc_self (hlast ▸ ha)]

section Order
variable {f f' : StatusFeed} {received : List RelayStatus} {wake : Wake}

theorem InOrder.moved (horder : f.InOrder) (h : f.Sound) (hmoved : f.Moved received wake f')
    (hsampled : f'.sampled = f.sampled)
    (hprompt : f.handled = [] → ∀ next ∈ received, f.sampled = some next) : f'.InOrder := by
  cases hmoved with
  | waits _ htaken hhandled _ _ =>
    rw [InOrder, htaken, hhandled, hsampled]
    exact horder
  | @again t htask _ _ htaken hhandled _ =>
    obtain ⟨m, first, -, hfirst, -, hlast⟩ := h.running t htask
    refine Or.inr ⟨first, hsampled.trans hfirst, ?_⟩
    rw [hhandled, htaken]
    rcases horder with ⟨hnone, hempty⟩ | ⟨first', hfirst', heq⟩
    · rw [hnone] at hlast
      rw [hnone, hempty, ← hlast]
      rfl
    · obtain rfl := Option.some.inj (hfirst.symm.trans hfirst')
      exact squeeze_again heq (List.cons_ne_nil _ _) hlast
  | @takes t next htask _ _ hreceived htaken hhandled _ _ =>
    rcases horder with ⟨hnone, hempty⟩ | ⟨first, hfirst, heq⟩
    · have hnext := hprompt hnone next (by rw [hreceived]; exact List.mem_singleton_self next)
      refine Or.inr ⟨next, hsampled.trans hnext, ?_⟩
      rw [hhandled, htaken, hnone, hempty]
      exact (@squeeze_snoc_self _ _ [next] next rfl).symm
    · refine Or.inr ⟨first, hsampled.trans hfirst, ?_⟩
      rw [hhandled, htaken, ← List.cons_append]
      exact squeeze_snoc_congr heq next

theorem InOrder.overtaken (horder : f.InOrder) (h : f.Sound) (hmoved : f.Moved received wake f')
    (hsampled : f'.sampled = f.sampled)
    (hprompt : ¬ (f.handled = [] → ∀ next ∈ received, f.sampled = some next)) : f'.Overtaken := by
  push Not at hprompt
  obtain ⟨hnone, other, hother, hne⟩ := hprompt
  cases hmoved with
  | waits hreceived | again _ _ hreceived =>
    rw [hreceived] at hother
    cases hother
  | @takes t next htask _ _ hreceived htaken hhandled _ _ =>
    rw [hreceived, List.mem_singleton] at hother
    subst hother
    obtain ⟨m, first, -, hfirst, -, -⟩ := h.running t htask
    rcases horder with ⟨-, hempty⟩ | ⟨first', -, heq⟩
    · refine ⟨first, hsampled.trans hfirst, ?_⟩
      rw [hhandled, htaken, hnone, hempty]
      refine ⟨rfl, by simp, fun hhead => hne ?_⟩
      rw [hfirst]
      exact hhead.symm
    · exact absurd hnone (handled_ne_nil heq (List.cons_ne_nil _ _))

theorem Overtaken.moved (hover : f.Overtaken) (h : f.Sound) (hmoved : f.Moved received wake f')
    (hsampled : f'.sampled = f.sampled) : f'.Overtaken := by
  obtain ⟨first, hfirst, heq, hne, hhead⟩ := hover
  refine ⟨first, hsampled.trans hfirst, ?_⟩
  cases hmoved with
  | waits _ htaken hhandled _ _ =>
    rw [htaken, hhandled]
    exact ⟨heq, hne, hhead⟩
  | @again t htask _ _ htaken hhandled _ =>
    obtain ⟨_, _, _, _, _, hlast⟩ := h.running t htask
    rw [htaken, hhandled]
    exact ⟨squeeze_again heq hne hlast, hne, hhead⟩
  | takes _ _ _ _ htaken hhandled _ _ =>
    rw [htaken, hhandled]
    refine ⟨squeeze_snoc_congr heq _, by simp, ?_⟩
    rwa [List.head?_append_of_ne_nil _ hne]

end Order

theorem step_keeps (f : StatusFeed) {e : FeedEvent}
    (hpass : ∀ k wake nonce draws, e ≠ .pass k wake nonce draws) :
    (f.step e).taken = f.taken ∧ (f.step e).handled = f.handled ∧
      ∀ first, f.sampled = some first → (f.step e).sampled = some first := by
  cases e with
  | publish next =>
    dsimp only [step, publish]
    split_ifs <;> exact ⟨rfl, rfl, fun _ hf => hf⟩
  | broadcast =>
    dsimp only [step, broadcast]
    split <;> exact ⟨rfl, rfl, fun _ hf => hf⟩
  | subscribe =>
    dsimp only [step, subscribe]
    split_ifs <;> exact ⟨rfl, rfl, fun _ hf => hf⟩
  | readStatus k probeDelay =>
    dsimp only [step, StatusFeed.readStatus]
    split
    · exact ⟨rfl, rfl, fun _ hf => hf⟩
    · split_ifs with hsampled
      · refine ⟨rfl, rfl, fun first hf => ?_⟩
        cases hsampled.symm.trans hf
      · exact ⟨rfl, rfl, fun _ hf => hf⟩
  | pass k wake nonce draws => exact absurd rfl (hpass k wake nonce draws)
  | note n => exact ⟨rfl, rfl, fun _ hf => hf⟩

theorem InOrder.keeps {f : StatusFeed} (h : f.InOrder) {e : FeedEvent}
    (hpass : ∀ k wake nonce draws, e ≠ .pass k wake nonce draws) : (f.step e).InOrder := by
  obtain ⟨htaken, hhandled, hsampled⟩ := f.step_keeps hpass
  rw [InOrder, htaken, hhandled]
  exact h.imp_right fun ⟨first, hfirst, heq⟩ => ⟨first, hsampled first hfirst, heq⟩

theorem Overtaken.keeps {f : StatusFeed} (h : f.Overtaken) {e : FeedEvent}
    (hpass : ∀ k wake nonce draws, e ≠ .pass k wake nonce draws) : (f.step e).Overtaken := by
  obtain ⟨htaken, hhandled, hsampled⟩ := f.step_keeps hpass
  obtain ⟨first, hfirst, hrest⟩ := h
  refine ⟨first, hsampled first hfirst, ?_⟩
  rw [htaken, hhandled]
  exact hrest

theorem inOrder_iff {f₀ : StatusFeed} (hsound : f₀.Sound) (horder : f₀.InOrder)
    {es : List FeedEvent} (hfollow : Always step Follow f₀ es) :
    (run step f₀ es).InOrder ↔ Always step Prompt f₀ es := by
  have hsound' : (run step f₀ es).Sound :=
    invariant_of_always step hsound (fun _ _ => sound_step) hfollow
  rw [← good_iff_always step (G := fun f => f.Sound ∧ f.InOrder)
    (B := fun f => f.Sound ∧ f.Overtaken) (P := Prompt) ⟨hsound, horder⟩ ?_ ?_ ?_
    (fun f hover hgood => hover.2.not_inOrder hgood.2) hfollow]
  · exact (and_iff_right hsound').symm
  · rintro f e hf ⟨hs, ho⟩ hprompt
    refine ⟨sound_step hs hf, ?_⟩
    cases e with
    | pass k wake nonce draws =>
      have hmoved := moved_pass (k := k) hf hs.unfailed wake nonce draws
      exact ho.moved hs hmoved rfl hprompt
    | _ => exact ho.keeps fun _ _ _ _ h => by cases h
  · rintro f e hf ⟨hs, ho⟩ hprompt
    refine ⟨sound_step hs hf, ?_⟩
    cases e with
    | pass k wake nonce draws =>
      have hmoved := moved_pass (k := k) hf hs.unfailed wake nonce draws
      exact ho.overtaken hs hmoved rfl hprompt
    | _ => exact absurd trivial hprompt
  · rintro f e hf ⟨hs, ho⟩
    refine ⟨sound_step hs hf, ?_⟩
    cases e with
    | pass k wake nonce draws =>
      have hmoved := moved_pass (k := k) hf hs.unfailed wake nonce draws
      exact ho.moved hs hmoved rfl
    | _ => exact ho.keeps fun _ _ _ _ h => by cases h

/-! ### Outages -/

def RecordedAt (f₀ : StatusFeed) (es : List FeedEvent) (place : ℕ) : Prop :=
  ∃ pre k nonce draws post, es = pre ++ .pass k .relayEvent nonce draws :: post ∧
    (run step f₀ pre).taken.length = place ∧
    (run step f₀ pre).session.Recorded
    (run step f₀ (pre ++ [.pass k .relayEvent nonce draws])).session

theorem RecordedAt.snoc {f₀ : StatusFeed} {es : List FeedEvent} {place : ℕ}
    (h : RecordedAt f₀ es place) (e : FeedEvent) : RecordedAt f₀ (es ++ [e]) place := by
  obtain ⟨pre, k, nonce, draws, post, rfl, hrest⟩ := h
  exact ⟨pre, k, nonce, draws, post ++ [e], by simp, hrest⟩

theorem outages_recorded {f₀ : StatusFeed} (hsound : f₀.Sound) (hempty : f₀.taken = [])
    {es : List FeedEvent} (hfollow : Always step Follow f₀ es) (place : ℕ) (status : RelayStatus)
    (htaken : (run step f₀ es).taken[place]? = some status) (houtage : status.isOutage = true) :
    RecordedAt f₀ es place := by
  induction es using List.reverseRecOn with
  | nil =>
    rw [run_nil, hempty] at htaken
    cases htaken
  | append_singleton es e ih =>
    obtain ⟨hpre, he⟩ := (always_snoc step).mp hfollow
    have hs : (run step f₀ es).Sound := invariant_of_always step hsound (fun _ _ => sound_step) hpre
    rw [run_snoc] at htaken
    by_cases hpass : ∃ k wake nonce draws, e = .pass k wake nonce draws
    · obtain ⟨k, wake, nonce, draws, rfl⟩ := hpass
      have hmoved := moved_pass he hs.unfailed wake nonce draws
      rw [step] at htaken
      cases hmoved with
      | waits _ hsame _ _ _ | again _ _ _ hsame _ _ =>
        rw [hsame] at htaken
        exact (ih hpre htaken).snoc _
      | takes _ hwake _ _ hmore _ _ hrecorded =>
        rw [hmore] at htaken
        by_cases hold : place < (run step f₀ es).taken.length
        · rw [List.getElem?_append_left hold] at htaken
          exact (ih hpre htaken).snoc _
        · -- This pass took it.
          rw [List.getElem?_append_right (by omega)] at htaken
          obtain ⟨hlt, hget⟩ := List.getElem?_eq_some_iff.mp htaken
          rw [List.length_singleton] at hlt
          rw [List.getElem_singleton] at hget
          subst hwake hget
          refine ⟨es, k, nonce, draws, [], rfl, by omega, ?_⟩
          rw [run_snoc]
          exact hrecorded houtage
    · push Not at hpass
      rw [(step_keeps _ hpass).1] at htaken
      exact (ih hpre htaken).snoc e

/-- For every interleaving in which the session stays on the driver and at most 64 broadcasts are
unread: the states handled are the status read and then the broadcasts taken, up to immediate
repetition, exactly if the first thing handled is not a broadcast of another status. In any case
the broadcasts taken are the first ones since the subscription, the next pass woken by a broadcast
takes the next one, and every outage among them is recorded. -/
theorem relay_states_in_order_iff (k : PathSocket) (peer : NodeId) (id conn : ℕ)
    (allowDirect : Bool) (keys : Option (ProbeKeyId × ProbeKey)) (driver : RelayDriver)
    (unsent : Option RelayStatus) {es : List FeedEvent}
    (hfollow : Always step Follow (before k peer id conn allowDirect keys driver unsent) es) :
    let f₀ := before k peer id conn allowDirect keys driver unsent
    let f := run step f₀ es
    (f.InOrder ↔ Always step Prompt f₀ es) ∧
      (∀ m, f.mark = some m → f.taken <+: f.events.drop m) ∧
      (∀ t, f.session.task = some t → ∃ m, f.mark = some m ∧ t.read = m + f.taken.length ∧
        ∀ k nonce draws next, f.Follows k → f.events[t.read]? = some next →
          (f.step (.pass k .relayEvent nonce draws)).taken = f.taken ++ [next]) ∧
      ∀ place status, f.taken[place]? = some status → status.isOutage = true →
        RecordedAt f₀ es place := by
  intro f₀ f
  have hsound : f₀.Sound := sound_before k peer id conn allowDirect keys driver unsent
  have hsound' : f.Sound := invariant_of_always step hsound (fun _ _ => sound_step) hfollow
  refine ⟨inOrder_iff hsound (Or.inl ⟨rfl, rfl⟩) hfollow, hsound'.order, fun t htask => ?_,
    outages_recorded hsound rfl hfollow⟩
  obtain ⟨m, -, hm, -, hread, -⟩ := hsound'.running t htask
  refine ⟨m, hm, hread, fun k nonce draws next hfollows hnext => ?_⟩
  have hmoved := moved_pass hfollows hsound'.unfailed .relayEvent nonce draws
  cases hmoved with
  | waits _ _ _ hnone _ => cases (hnone rfl t htask).symm.trans hnext
  | again _ hwake => exact absurd rfl hwake
  | @takes t' next' htask' _ hnext' _ htaken _ _ _ =>
    obtain rfl := Option.some.inj (htask.symm.trans htask')
    obtain rfl := Option.some.inj (hnext.symm.trans hnext')
    exact htaken

/-! ### A short failover -/

section Failover

def showing (status : RelayStatus) (events : List RelayStatus) : PathSocket :=
  let k := PathSocket.assemble ⟨List.Vector.replicate 32 0⟩ false
    (.v4 (List.Vector.replicate 4 0) 0) ["a"] none
    none 0 0
  { k with
    relay := k.relay.setDriver 0
      { RelayDriver.spawn 0 ["a"] with status := status, events := events } }

def failoverPeer : NodeId := ⟨List.Vector.replicate 32 1⟩

def lostBefore : StatusFeed :=
  before (showing .reconnecting [.reconnecting]) failoverPeer 1 1 false none
    { RelayDriver.spawn 0 ["a"] with status := .reconnecting, events := [.reconnecting] } none

def failoverPass (status : RelayStatus) (events : List RelayStatus) (wake : Wake) : FeedEvent :=
  .pass (showing status events) wake (List.Vector.replicate 16 0) fun _ =>
    (List.Vector.replicate 16 0, true)

def backAtOnce : List FeedEvent :=
  [.subscribe, .readStatus (showing .reconnecting [.reconnecting]) 0,
    .publish (.up "a"), .broadcast, failoverPass (.up "a") [.reconnecting, .up "a"] .relayEvent]

def backAfterTick : List FeedEvent :=
  [.subscribe, .readStatus (showing .reconnecting [.reconnecting]) 0,
    failoverPass .reconnecting [.reconnecting] .tick, .publish (.up "a"), .broadcast,
    failoverPass (.up "a") [.reconnecting, .up "a"] .relayEvent]

theorem follow_backAtOnce : Always step Follow lostBefore backAtOnce := by
  simp only [backAtOnce, always_cons]
  refine ⟨trivial, trivial, trivial, trivial, fun t ht => ?_, always_nil step Follow _⟩
  cases ht
  exact ⟨rfl, rfl, rfl, by decide⟩

theorem follow_backAfterTick : Always step Follow lostBefore backAfterTick := by
  simp only [backAfterTick, always_cons]
  refine ⟨trivial, trivial, fun t ht => ?_, trivial, trivial, fun t ht => ?_,
    always_nil step Follow _⟩
  · cases ht
    exact ⟨rfl, rfl, rfl, by decide⟩
  · cases ht
    exact ⟨rfl, rfl, rfl, by decide⟩

/-- The task reads that the relay is lost, and the first thing it handles is that it is back. -/
theorem failover_unrecorded :
    let f := run step lostBefore backAtOnce
    Always step Follow lostBefore backAtOnce ∧ f.sampled = some .reconnecting ∧
      f.taken = f.events.drop 1 ∧ f.handled = [.up "a"] ∧ ¬ f.InOrder ∧
      f.session.history.map PathReport.status = [.rendezvous, .relayed] := by
  have hover : (run step lostBefore backAtOnce).Overtaken :=
    ⟨.reconnecting, rfl, rfl, by decide, by decide⟩
  exact ⟨follow_backAtOnce, rfl, rfl, rfl, hover.not_inOrder, rfl⟩

theorem failover_in_order :
    let f := run step lostBefore backAfterTick
    f.InOrder ∧ f.handled = [.reconnecting, .up "a"] ∧
      f.session.history.map PathReport.status =
        [.rendezvous, .relayed, .reconnecting, .relayed] := by
  obtain ⟨hiff, -⟩ := relay_states_in_order_iff _ failoverPeer 1 1 false none _ none
    follow_backAfterTick
  refine ⟨hiff.mpr ?_, rfl, rfl⟩
  simp only [backAfterTick, always_cons]
  refine ⟨trivial, trivial, fun _ next hnext => ?_, trivial, trivial, fun hnone => ?_,
    always_nil step Prompt _⟩
  · cases hnext
  · cases hnone

end Failover

end StatusFeed
end ForgeswornLink
