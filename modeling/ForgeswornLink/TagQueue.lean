import ForgeswornLink.BookMaterial
import ForgeswornLink.RelayClient
import ForgeswornLink.Lib.Sections

/-!
# Tags between derivation and the wire

`try_send` looks at the driver three times and then puts its frame in the queue:
the stop flag, whether a session is up, and, under one borrow of the status, the
host the tag is derived for. The driver task empties the queue after a welcome and
announces the session after that. Both are taken apart here into the steps that
other threads can come between. A frame that is put in the queue after it was
emptied goes to the new relay, whatever relay its tag was derived for.
-/

namespace ForgeswornLink
open ByteString Runs Sections

inductive DrainStage where
  | idle
  | draining
  | drained
deriving DecidableEq

structure TagLink where
  driver : RelayDriver
  stage : DrainStage
  book : TagBook

structure SendCall where
  destination : NodeId
  datagram : List UInt8
  nowUnix : ℕ

/-- The rest of a `try_send`. A push remembers the host its tag was derived for, which the
source does not. -/
inductive SendSection where
  | check (call : SendCall)
  | look (call : SendCall)
  | derive (call : SendCall) (up : Bool)
  | push (up : Bool) (host : String) (frame : Frame)

namespace RelayDriver

def enqueueSeen (d : RelayDriver) (up : Bool) (frame : Frame) : RelayDriver × QueueOutcome :=
  if d.phase = .over then (d, .dropped)
  else if d.hasCapacity then ({ d with outbound := d.outbound ++ [frame] }, .queued)
  else if up then (d, .wouldBlock)
  else (d, .dropped)

theorem enqueue_eq (d : RelayDriver) (frame : Frame) :
    d.enqueue frame = d.enqueueSeen d.status.isUp frame := rfl

def currentHost (hostOf : String → Option String) (d : RelayDriver) : Option String :=
  match d.status with
  | .up url => hostOf url
  | _ => none

theorem tagFor_eq (P : Primitives) (hostOf : String → Option String) (d : RelayDriver)
    (book : TagBook) (destination : NodeId) (nowUnix : ℕ) :
    d.tagFor P hostOf book destination nowUnix =
      match d.currentHost hostOf with
      | some host => book.tagForSend P destination host nowUnix
      | none => (book, none) := by
  unfold tagFor currentHost
  cases d.status with
  | up url => cases hostOf url <;> rfl
  | connecting => rfl
  | reconnecting => rfl
  | superseded => rfl
  | failed => rfl

end RelayDriver

namespace TagLink

def exec (P : Primitives) (hostOf : String → Option String) (_ : ℕ) (s : TagLink) :
    SendSection → Option (Sections.Outcome TagLink SendSection QueueOutcome)
  | .check call =>
    if s.driver.stop then some ⟨s, [], some .dropped⟩ else some ⟨s, [.look call], none⟩
  | .look call => some ⟨s, [.derive call s.driver.status.isUp], none⟩
  | .derive call up =>
    match s.driver.currentHost hostOf with
    | none => some ⟨s, [], some .dropped⟩
    | some host =>
      match s.book.tagForSend P call.destination host call.nowUnix with
      | (book, none) => some ⟨{ s with book := book }, [], some .dropped⟩
      | (book, some tag) =>
        some ⟨{ s with book := book }, [.push up host (.sendTag tag call.datagram)], none⟩
  | .push up _ frame =>
    let (driver, outcome) := s.driver.enqueueSeen up frame
    some ⟨{ s with driver := driver }, [], some outcome⟩

theorem exec_push (P : Primitives) (hostOf : String → Option String) (t : ℕ)
    (s : TagLink) (up : Bool) (host : String) (frame : Frame) :
    exec P hostOf t s (.push up host frame) =
      some ⟨{ s with driver := (s.driver.enqueueSeen up frame).1 }, [],
        some (s.driver.enqueueSeen up frame).2⟩ := rfl

/-- Without other threads in between, the sections are `try_send`. -/
theorem trySend_completes (P : Primitives) (hostOf : String → Option String) (t : ℕ) (s : TagLink)
    (call : SendCall) :
    ∃ book, (s.driver.trySend P hostOf (some s.book) call.destination call.datagram
      call.nowUnix).2.1 = some book ∧
      Completes (exec P hostOf) t s [.check call] none
        ⟨(s.driver.trySend P hostOf (some s.book) call.destination call.datagram call.nowUnix).1,
          s.stage, book⟩
        (some (s.driver.trySend P hostOf (some s.book) call.destination call.datagram
          call.nowUnix).2.2) := by
  simp only [RelayDriver.trySend, RelayDriver.tagFor_eq, RelayDriver.enqueue_eq]
  by_cases hstop : s.driver.stop = true
  · have hcheck : exec P hostOf t s (.check call) = some ⟨s, [], some .dropped⟩ := by
      simp only [exec, hstop, if_true]
    simp only [hstop, if_true]
    exact ⟨s.book, rfl, .goes hcheck (.done s _)⟩
  have hcheck : exec P hostOf t s (.check call) = some ⟨s, [.look call], none⟩ := by
    simp only [exec, hstop, Bool.false_eq_true, if_false]
  simp only [hstop, Bool.false_eq_true, if_false]
  cases hhost : s.driver.currentHost hostOf with
  | none =>
    have hderive : exec P hostOf t s (.derive call s.driver.status.isUp) =
        some ⟨s, [], some .dropped⟩ := by simp only [exec, hhost]
    exact ⟨s.book, rfl, .goes hcheck (.goes rfl (.goes hderive (.done s _)))⟩
  | some host =>
    rcases htag : s.book.tagForSend P call.destination host call.nowUnix with ⟨book, none | tag⟩
    · have hderive : exec P hostOf t s (.derive call s.driver.status.isUp) =
          some ⟨{ s with book := book }, [], some .dropped⟩ := by simp only [exec, hhost, htag]
      simp only [htag]
      exact ⟨book, rfl, .goes hcheck (.goes rfl (.goes hderive (.done _ _)))⟩
    · have hderive : exec P hostOf t s (.derive call s.driver.status.isUp) =
          some ⟨{ s with book := book },
            [.push s.driver.status.isUp host (.sendTag tag call.datagram)], none⟩ := by
        simp only [exec, hhost, htag]
      simp only [htag]
      exact ⟨book, rfl, .goes hcheck (.goes rfl (.goes hderive (.goes (exec_push ..) (.done _ _))))⟩

inductive DriverMove where
  | task (now : ℕ) (e : DriverEvent)
  | welcomed
  | tryRecv
  | announce
  | close
  | book (e : TagBook.BookEvent)

/-- The driver task and the rest of the endpoint. The welcome, the loop that empties the queue
and the announcement take the place of the step `connected`; nothing else of the task runs
between them. -/
def move (P : Primitives) (hostOf : String → Option String) (s : TagLink) : DriverMove → TagLink
  | .task _ .connected => s
  | .task now e =>
    if s.stage = .idle then { s with driver := s.driver.step (some s.book) now e } else s
  | .welcomed =>
    if s.stage = .idle ∧ s.driver.phase = .trying ∧ s.driver.urls ≠ [] ∧
        (hostOf s.driver.current).isSome then
      { s with stage := .draining }
    else s
  | .tryRecv =>
    if s.stage = .draining then
      match s.driver.outbound with
      | [] => { s with stage := .drained }
      | _ :: rest => { s with driver := { s.driver with outbound := rest } }
    else s
  | .announce =>
    if s.stage = .drained then
      { s with
        driver := { s.driver.setStatus (.up s.driver.current) with phase := .pumping }
        stage := .idle }
    else s
  | .close => { s with driver := { s.driver with stop := true } }
  | .book e => { s with book := s.book.step P e }

theorem run_tryRecv (P : Primitives) (hostOf : String → Option String) (driver : RelayDriver)
    (book : TagBook) :
    run (move P hostOf) ⟨driver, .draining, book⟩
        (List.replicate (driver.outbound.length + 1) .tryRecv) =
      ⟨{ driver with outbound := [] }, .drained, book⟩ := by
  generalize hqueue : driver.outbound = queue
  induction queue generalizing driver with
  | nil =>
    simp only [List.length_nil, Nat.zero_add, List.replicate_one, run_cons, run_nil, move, if_true,
      hqueue]
    rw [← hqueue]
  | cons frame queue ih =>
    have hstep : move P hostOf ⟨driver, .draining, book⟩ .tryRecv =
        ⟨{ driver with outbound := queue }, .draining, book⟩ := by
      simp only [move, if_true, hqueue]
    rw [List.length_cons, List.replicate_succ, run_cons, hstep,
      ih { driver with outbound := queue } rfl]

theorem connected_eq (P : Primitives) (hostOf : String → Option String) (driver : RelayDriver)
    (book : TagBook) (now : ℕ) (hphase : driver.phase = .trying) (hurls : driver.urls ≠ [])
    (hhost : (hostOf driver.current).isSome) :
    run (move P hostOf) ⟨driver, .idle, book⟩
        (.welcomed :: List.replicate (driver.outbound.length + 1) .tryRecv ++ [.announce]) =
      ⟨driver.step (some book) now .connected, .idle, book⟩ := by
  have hwelcomed : move P hostOf ⟨driver, .idle, book⟩ .welcomed = ⟨driver, .draining, book⟩ := by
    simp only [move, hphase, hhost, hurls, ne_eq, not_false_eq_true, and_self, if_true]
  rw [List.cons_append, run_cons, hwelcomed, run_snoc, run_tryRecv]
  simp only [move, if_true, RelayDriver.step, hphase, hurls, ne_eq, not_false_eq_true, and_self]
  rfl

end TagLink

def DerivedFor (P : Primitives) (host : String) (tag : Tag) : Prop :=
  ∃ material epoch, Material.tag P host material epoch = tag

theorem derivedFor_tagForSend {P : Primitives} {book : TagBook} (h : book.CacheExact P)
    {destination : NodeId} {host : String} {nowUnix : ℕ} {next : TagBook} {tag : Tag}
    (htag : book.tagForSend P destination host nowUnix = (next, some tag)) :
    DerivedFor P host tag := by
  have hderive := TagBook.tagForSend_eq h destination host nowUnix
  rw [htag, TagBook.derive_eq, eq_comm, Option.map_eq_some_iff] at hderive
  obtain ⟨material, -, hmaterial⟩ := hderive
  exact ⟨material, epochIndex nowUnix, hmaterial⟩

inductive LinkMove where
  | sender (m : Move SendCall)
  | driver (m : TagLink.DriverMove)

namespace TagLink

abbrev System := Pool TagLink SendSection QueueOutcome

def start (id : ℕ) (urls : List String) (peers : Table NodeId RendezvousPeer)
    (paired : Table NodeId (Block 32)) : System :=
  idlePool ⟨RelayDriver.spawn id urls, .idle, TagBook.withPaired peers paired⟩

def step (P : Primitives) (hostOf : String → Option String) (s : System) : LinkMove → System
  | .sender m => Sections.step (fun call => [SendSection.check call]) (exec P hostOf) s m
  | .driver m => { s with shared := s.shared.move P hostOf m }

def Fresh (s : TagLink) : Prop := s.stage = .drained ∨ s.driver.phase = .pumping

def SendsOwnTags (P : Primitives) (hostOf : String → Option String) (s : System) : LinkMove → Prop
  | .driver (.task _ .sent) => s.shared.stage = .idle → s.shared.driver.phase = .pumping →
    ∀ tag datagram, s.shared.driver.outbound.head? = some (.sendTag tag datagram) →
      ∃ host, hostOf s.shared.driver.current = some host ∧ DerivedFor P host tag
  | _ => True

/-- No frame gets into an emptied queue whose tag was derived for another relay. -/
def Timely (hostOf : String → Option String) (s : System) : LinkMove → Prop
  | .sender (.go t) =>
    match (s.threads t).todo with
    | .push _ host _ :: _ =>
      s.shared.Fresh → s.shared.driver.hasCapacity → hostOf s.shared.driver.current = some host
    | _ => True
  | _ => True

instance (hostOf : String → Option String) (s : System) (m : LinkMove) :
    Decidable (Timely hostOf s m) := by
  unfold Timely Fresh
  split
  · split <;> infer_instance
  · infer_instance

def CarriesFor (P : Primitives) (host : String) (frame : Frame) : Prop :=
  ∃ tag datagram, frame = .sendTag tag datagram ∧ DerivedFor P host tag

structure Kept (P : Primitives) (hostOf : String → Option String) (s : System) : Prop where
  exact : s.shared.book.CacheExact P
  pushes : ∀ t up host frame, .push up host frame ∈ (s.threads t).todo → CarriesFor P host frame
  staged : s.shared.stage ≠ .idle → s.shared.driver.phase = .trying
  queued : s.shared.Fresh → ∀ frame ∈ s.shared.driver.outbound,
    ∃ host, hostOf s.shared.driver.current = some host ∧ CarriesFor P host frame

section Run
variable {P : Primitives} {hostOf : String → Option String} {s : System}

theorem kept_start (P : Primitives) (hostOf : String → Option String) (id : ℕ) (urls : List String)
    (peers : Table NodeId RendezvousPeer) (paired : Table NodeId (Block 32)) :
    Kept P hostOf (start id urls peers paired) where
  exact := TagBook.cacheExact_run peers paired []
  pushes := by simp [start, idlePool]
  staged := by simp [start, idlePool]
  queued := by simp [start, idlePool, RelayDriver.spawn]

theorem exec_spec {t : ℕ} {link : TagLink} {i : SendSection}
    {o : Sections.Outcome TagLink SendSection QueueOutcome} (hexact : link.book.CacheExact P)
    (h : exec P hostOf t link i = some o) :
    o.shared.book.CacheExact P ∧ o.shared.stage = link.stage ∧
      (∀ up host frame, .push up host frame ∈ o.more → CarriesFor P host frame) ∧
      (o.shared.driver = link.driver ∨ ∃ up host frame, i = .push up host frame ∧
        link.driver.hasCapacity ∧
        o.shared.driver = { link.driver with outbound := link.driver.outbound ++ [frame] }) := by
  cases i with
  | check call =>
    rw [exec] at h
    split_ifs at h <;> cases h <;> exact ⟨hexact, rfl, by simp, Or.inl rfl⟩
  | look call =>
    cases h
    exact ⟨hexact, rfl, by simp, Or.inl rfl⟩
  | derive call up =>
    rw [exec] at h
    split at h
    · cases h
      exact ⟨hexact, rfl, by simp, Or.inl rfl⟩
    · rename_i host hhost
      have hnext := TagBook.cacheExact_tagForSend hexact call.destination host call.nowUnix
      split at h
      · rename_i book hsend
        cases h
        rw [hsend] at hnext
        exact ⟨hnext, rfl, by simp, Or.inl rfl⟩
      · rename_i book tag hsend
        cases h
        rw [hsend] at hnext
        refine ⟨hnext, rfl, ?_, Or.inl rfl⟩
        intro up' host' frame hmem
        cases List.mem_singleton.mp hmem
        exact ⟨tag, call.datagram, rfl, derivedFor_tagForSend hexact hsend⟩
  | push up host frame =>
    rw [exec_push] at h
    cases h
    refine ⟨hexact, rfl, by simp, ?_⟩
    simp only [RelayDriver.enqueueSeen]
    split_ifs with hover hcapacity
    · exact Or.inl rfl
    · exact Or.inr ⟨up, host, frame, rfl, hcapacity, rfl⟩
    · exact Or.inl rfl
    · exact Or.inl rfl

theorem kept_sender (h : Kept P hostOf s) {m : Move SendCall}
    (htimely : Timely hostOf s (.sender m)) :
    Kept P hostOf (step P hostOf s (.sender m)) := by
  generalize hnext : step P hostOf s (.sender m) = next
  have hdid : Did (fun call => [SendSection.check call]) (exec P hostOf) s m next :=
    hnext ▸ did_step _ _ s m
  cases hdid with
  | stays => exact h
  | @takes t call htodo =>
    refine ⟨h.exact, ?_, h.staged, h.queued⟩
    intro t' up host frame hmem
    by_cases ht : t' = t
    · subst ht
      simp at hmem
    · rw [put_threads_of_ne s _ ht] at hmem
      exact h.pushes t' up host frame hmem
  | @runs t i rest o htodo hexec =>
    obtain ⟨hexact, hstage, hmore, hdriver⟩ := exec_spec h.exact hexec
    have hpushes : ∀ t' up host frame,
        .push up host frame ∈ ((s.put o.shared t ⟨o.more ++ rest,
          o.answer.or (s.threads t).answer⟩).threads t').todo → CarriesFor P host frame := by
      intro t' up host frame hmem
      by_cases ht : t' = t
      · subst ht
        rw [put_threads_self] at hmem
        rcases List.mem_append.mp hmem with hnew | hrest
        · exact hmore up host frame hnew
        · exact h.pushes t' up host frame (htodo ▸ List.mem_cons_of_mem i hrest)
      · rw [put_threads_of_ne s _ ht] at hmem
        exact h.pushes t' up host frame hmem
    rcases hdriver with hdriver | ⟨up, host, frame, rfl, hcapacity, hdriver⟩
    · refine ⟨hexact, hpushes, ?_, ?_⟩
      · simp only [put_shared, hstage, hdriver]
        exact h.staged
      · simp only [put_shared, Fresh, hstage, hdriver]
        exact h.queued
    · refine ⟨hexact, hpushes, ?_, ?_⟩
      · simp only [put_shared, hstage, hdriver]
        exact h.staged
      · simp only [put_shared, Fresh, hstage, hdriver]
        intro hfresh queued hmem
        rcases List.mem_append.mp hmem with hold | hnew
        · exact h.queued hfresh queued hold
        · cases List.mem_singleton.mp hnew
          simp only [Timely, htodo] at htimely
          exact ⟨host, htimely hfresh hcapacity,
            h.pushes t up host frame (htodo ▸ List.mem_cons_self)⟩

theorem pumping_step {d : RelayDriver} {book : Option TagBook} {now : ℕ} {e : DriverEvent}
    (he : e ≠ .connected) (h : (d.step book now e).phase = .pumping) :
    d.phase = .pumping ∧ (d.step book now e).current = d.current ∧
      (d.step book now e).outbound ⊆ d.outbound := by
  have hsame : d.step book now e = d → d.phase = .pumping ∧
      (d.step book now e).current = d.current ∧ (d.step book now e).outbound ⊆ d.outbound := by
    intro heq
    rw [heq] at h ⊢
    exact ⟨h, rfl, List.Subset.refl _⟩
  cases e with
  | connected => exact absurd rfl he
  | sent =>
    by_cases hphase : d.phase = .pumping
    · rw [RelayDriver.step, if_pos hphase]
      exact ⟨hphase, rfl, List.tail_sublist _ |>.subset⟩
    · exact hsame (if_neg hphase)
  | noRelays =>
    by_cases hguard : d.phase = .trying ∧ d.urls = []
    · rw [RelayDriver.step, if_pos hguard] at h
      cases h
    · exact hsame (if_neg hguard)
  | idle =>
    by_cases hguard : d.phase = .trying ∧ d.urls ≠ [] ∧ book.any TagBook.isEmpty
    · rw [RelayDriver.step, if_pos hguard] at h
      exact nomatch hguard.1.symm.trans ((d.phase_setStatus _).symm.trans h)
    · exact hsame (if_neg hguard)
  | connectFailed =>
    by_cases hguard : d.phase = .trying ∧ d.urls ≠ []
    · rw [RelayDriver.step, if_pos hguard] at h
      exact nomatch hguard.1.symm.trans ((d.phase_setStatus _).symm.trans h)
    · exact hsame (if_neg hguard)
  | ended superseded =>
    by_cases hphase : d.phase = .pumping
    · rw [RelayDriver.step, if_pos hphase] at h
      split_ifs at h
      cases h
    · exact hsame (if_neg hphase)
  | stopped =>
    by_cases hguard : d.stop ∧ d.phase ≠ .over
    · rw [RelayDriver.step, if_pos hguard] at h
      cases h
    · exact hsame (if_neg hguard)

theorem move_task {link : TagLink} {now : ℕ} {e : DriverEvent} (he : e ≠ .connected) :
    link.move P hostOf (.task now e) =
      if link.stage = .idle then { link with driver := link.driver.step (some link.book) now e }
      else link := by
  cases e with
  | connected => exact absurd rfl he
  | _ => rfl

theorem kept_task (h : Kept P hostOf s) {now : ℕ} {e : DriverEvent} (he : e ≠ .connected)
    (hidle : s.shared.stage = .idle) :
    Kept P hostOf { s with shared :=
      { s.shared with driver := s.shared.driver.step (some s.shared.book) now e } } := by
  refine ⟨h.exact, h.pushes, fun hstage => absurd hidle hstage, ?_⟩
  rintro (hdrained | hpumping) frame hmem
  · exact nomatch hidle.symm.trans hdrained
  · obtain ⟨hphase, hcurrent, hqueue⟩ := pumping_step he hpumping
    simp only [hcurrent]
    exact h.queued (Or.inr hphase) frame (hqueue hmem)

theorem kept_driver (h : Kept P hostOf s) (m : DriverMove) :
    Kept P hostOf (step P hostOf s (.driver m)) := by
  cases m with
  | task now e =>
    by_cases he : e = .connected
    · subst he
      exact h
    by_cases hidle : s.shared.stage = .idle
    · rw [step, move_task he, if_pos hidle]
      exact kept_task h he hidle
    · rw [step, move_task he, if_neg hidle]
      exact h
  | welcomed =>
    simp only [step, move]
    split_ifs with hguard
    · refine ⟨h.exact, h.pushes, fun _ => hguard.2.1, ?_⟩
      rintro (hdrained | hpumping)
      · cases hdrained
      · exact nomatch hguard.2.1.symm.trans hpumping
    · exact h
  | tryRecv =>
    by_cases hstage : s.shared.stage = .draining
    · have htrying : s.shared.driver.phase = .trying := h.staged (by rw [hstage]; simp)
      simp only [step, move, hstage, if_true]
      split
      · rename_i hempty
        exact ⟨h.exact, h.pushes, fun _ => htrying, by simp [hempty]⟩
      · refine ⟨h.exact, h.pushes, fun _ => htrying, ?_⟩
        rintro (hdrained | hpumping)
        · cases hdrained
        · exact nomatch htrying.symm.trans hpumping
    · simpa only [step, move, hstage, if_false] using h
  | announce =>
    by_cases hstage : s.shared.stage = .drained
    · simp only [step, move, hstage, if_true]
      refine ⟨h.exact, h.pushes, fun hne => absurd rfl hne, ?_⟩
      intro _ frame hmem
      obtain ⟨events, hset⟩ := s.shared.driver.setStatus_eq (.up s.shared.driver.current)
      simp only [hset] at hmem ⊢
      exact h.queued (Or.inl hstage) frame hmem
    · simpa only [step, move, hstage, if_false] using h
  | close => exact ⟨h.exact, h.pushes, h.staged, h.queued⟩
  | book e => exact ⟨TagBook.cacheExact_step h.exact e, h.pushes, h.staged, h.queued⟩

/-- Where no frame gets into an emptied queue with a tag for another relay, every
frame the pump sends has a tag for the relay it is sent to, however the steps of
the senders and of the driver are interleaved. -/
theorem tags_stay_on_their_relay (P : Primitives) (hostOf : String → Option String) (id : ℕ)
    (urls : List String) (peers : Table NodeId RendezvousPeer) (paired : Table NodeId (Block 32))
    (moves : List LinkMove)
    (h : Always (step P hostOf) (Timely hostOf) (start id urls peers paired) moves) :
    Always (step P hostOf) (SendsOwnTags P hostOf) (start id urls peers paired) moves := by
  intro pre move post hmoves
  have hkept : Kept P hostOf (run (step P hostOf) (start id urls peers paired) pre) := by
    refine invariant_of_always (step P hostOf) (kept_start P hostOf id urls peers paired) ?_
      (Always.initial _ (hmoves ▸ h))
    intro s m hs hm
    cases m with
    | sender m => exact kept_sender hs hm
    | driver m => exact kept_driver hs m
  cases move with
  | sender m => trivial
  | driver m =>
    cases m with
    | task now e =>
      cases e with
      | sent =>
        intro _ hpumping tag datagram hhead
        obtain ⟨host, hhost, tag', datagram', hframe, hderived⟩ :=
          hkept.queued (Or.inr hpumping) _ (List.mem_of_mem_head? hhead)
        cases hframe
        exact ⟨host, hhost, hderived⟩
      | _ => trivial
    | _ => trivial

end Run

section Example

def examplePeer : RendezvousPeer := ⟨.both, readBlock 32 [5] 0, readBlock 32 [] 0⟩

def exampleStart : System :=
  start 0 ["a", "b"] (AList.singleton ⟨readBlock 32 [1] 0⟩ examplePeer) ∅

def comesUp : List LinkMove := [.driver .welcomed, .driver .tryRecv, .driver .announce]

def derives : List LinkMove :=
  [.sender (.call 0 ⟨⟨readBlock 32 [1] 0⟩, [7], 7200⟩), .sender (.go 0), .sender (.go 0),
    .sender (.go 0)]

theorem drained_before_other_relay :
    Always (step .standIn some) (SendsOwnTags .standIn some) exampleStart
      (comesUp ++ derives ++ [.sender (.go 0), .driver (.task 5 (.ended false)), .driver .welcomed,
        .driver .tryRecv, .driver .tryRecv, .driver .announce, .driver (.task 6 .sent)]) :=
  tags_stay_on_their_relay .standIn some 0 ["a", "b"]
    (AList.singleton ⟨readBlock 32 [1] 0⟩ examplePeer) ∅
    _ (by decide +kernel)

theorem standIn_tag_head (material : Material) (epoch : ℕ) :
    (Material.tag .standIn "b" material epoch).bytes.toList.head? = some 0x62 := by
  cases material <;> rfl

/-- The frame of a send that was held up between derivation and queue reaches the next relay. -/
theorem late_push_reaches_other_relay :
    let s := run (step .standIn some) exampleStart
      (comesUp ++ derives ++ [.driver (.task 5 (.ended false))] ++ comesUp ++ [.sender (.go 0)])
    s.shared.driver.phase = .pumping ∧ s.shared.driver.current = "b" ∧
    s.shared.driver.outbound = [.sendTag (Material.tag .standIn "a" (.pair examplePeer) 2) [7]] ∧
    ¬ SendsOwnTags .standIn some s (.driver (.task 6 .sent)) := by
  intro s
  have hphase : s.shared.stage = .idle ∧ s.shared.driver.phase = .pumping := by decide +kernel
  have hcurrent : s.shared.driver.current = "b" := by decide +kernel
  have hqueue : s.shared.driver.outbound =
      [.sendTag (Material.tag .standIn "a" (.pair examplePeer) 2) [7]] := by decide +kernel
  refine ⟨hphase.2, hcurrent, hqueue, fun hown => ?_⟩
  obtain ⟨host, hhost, material, epoch, htag⟩ := hown hphase.1 hphase.2 _ _ (by rw [hqueue]; rfl)
  rw [hcurrent] at hhost
  cases hhost
  have hhead := standIn_tag_head material epoch
  rw [htag] at hhead
  revert hhead
  decide +kernel

end Example

end TagLink

end ForgeswornLink
