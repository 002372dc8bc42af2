import ForgeswornLink.BlobTransfer
import ForgeswornLink.SessionHistory

/-!
# The session a fetch uses

A fetch is one exchange on a stream of a session: open a stream, write the
request, read the header, hand out the body. `LinkFetcher` runs it on a session
it dialled and gives that session to the body, which closes it when it ends;
`fetch_blob_over` runs it on a session of the caller. Beside the fetch the
session goes on with its own task, whatever that finds. The exchange has no close
of its own: when it fails the dialled session stays as it was.
-/

namespace ForgeswornLink.Blossom
open Runs

inductive Holding where
  | dialled
  | held (expectedSize : Option UInt64)
deriving DecidableEq

def Holding.session (session : ℕ) : Holding → BodySession
  | dialled => .owned (some session)
  | held _ => .shared session

def Holding.mismatch (size : UInt64) : Holding → Option String
  | held (some expected) =>
    if expected ≠ size then
      some s!"peer declared {size} bytes where Some({expected}) were expected"
    else none
  | _ => none

inductive Stage where
  | opening
  | requesting
  | answering
  | streaming (body : Body)
  | failed (error : FetchError)
  | ended

def Stage.isFailed : Stage → Bool
  | .failed _ => true
  | _ => false

def Stage.isOver : Stage → Bool
  | .failed _ | .ended => true
  | _ => false

structure Fetch where
  holding : Holding
  link : Reporting
  stage : Stage

inductive FetchEvent where
  | session (event : SessionEvent)
  | opened (problem : Option String)
  | requested (write finish : Option String)
  | answered (s : Stream)
  | polled

def FetchEvent.beside : FetchEvent → Option SessionEvent
  | .session event => some event
  | _ => none

namespace Fetch

def start (holding : Holding) (link : Reporting) : Fetch := ⟨holding, link, .opening⟩

def isClosed (f : Fetch) : Bool := f.link.session.closed.isSome

def close (f : Fetch) : Fetch := { f with link := f.link.step (.note (.closed .locallyClosed)) }

def opens : Option String → Stage
  | none => .requesting
  | some e => .failed (.unreachable ("link open_stream failed: " ++ e))

def requests : Option String → Option String → Stage
  | some e, _ => .failed (.unreachable ("link request write failed: " ++ e))
  | none, some e => .failed (.unreachable ("link request finish failed: " ++ e))
  | none, none => .answering

def answers (f : Fetch) (s : Stream) : Stage :=
  match openBlob s with
  | .error e => .failed e
  | .ok (size, _, stream) =>
    match f.holding.mismatch size with
    | some text => .failed (.unreachable text)
    | none => .streaming (linkBody stream (f.holding.session f.link.session.id) size)

def polls (f : Fetch) (body : Body) : Fetch :=
  let f := if body.poll.closed.isSome then f.close else f
  { f with stage := if body.poll.item.isSome then .streaming body.poll.body else .ended }

def step (f : Fetch) (e : FetchEvent) : Fetch :=
  match e, f.stage with
  | .session event, _ => { f with link := f.link.step event }
  | .opened problem, .opening => { f with stage := opens problem }
  | .requested write finish, .requesting => { f with stage := requests write finish }
  | .answered s, .answering => { f with stage := f.answers s }
  | .polled, .streaming body => f.polls body
  | _, _ => f

inductive Moves (f : Fetch) (e : FetchEvent) : Fetch → Prop where
  | stays (h : e.beside = none) : Moves f e f
  | beside {event : SessionEvent} (h : e = .session event) :
    Moves f e { f with link := f.link.step event }
  | exchanges {stage : Stage} (h : e.beside = none) (hbefore : f.stage.isOver = false)
      (hafter : stage.isOver = stage.isFailed)
      (hbody : ∀ body, stage = .streaming body →
        body.session = f.holding.session f.link.session.id ∧ body.errored = false) :
    Moves f e { f with stage }
  | polls {body : Body} (h : e.beside = none) (hstage : f.stage = .streaming body) :
    Moves f e (f.polls body)

theorem moves_step (f : Fetch) (e : FetchEvent) : Moves f e (f.step e) := by
  obtain ⟨holding, link, stage⟩ := f
  cases e with
  | session event => exact .beside rfl
  | opened problem =>
    cases stage with
    | opening =>
      refine .exchanges rfl rfl ?_ ?_
      · cases problem <;> rfl
      · cases problem <;> simp [opens]
    | _ => exact .stays rfl
  | requested write finish =>
    cases stage with
    | requesting =>
      refine .exchanges rfl rfl ?_ ?_
      · cases write <;> cases finish <;> rfl
      · cases write <;> cases finish <;> simp [requests]
    | _ => exact .stays rfl
  | answered s =>
    cases stage with
    | answering =>
      refine .exchanges rfl rfl ?_ ?_
      · rw [answers]
        cases openBlob s with
        | error e => rfl
        | ok r => dsimp only; cases holding.mismatch r.1 <;> rfl
      · rw [answers]
        cases openBlob s with
        | error e => simp
        | ok r =>
          dsimp only
          cases holding.mismatch r.1 with
          | some text => simp
          | none =>
            rintro body hstage
            cases hstage
            exact ⟨rfl, rfl⟩
    | _ => exact .stays rfl
  | polled =>
    cases stage with
    | streaming body => exact .polls rfl rfl
    | _ => exact .stays rfl

section Polls
variable {f : Fetch} {body : Body}

theorem isClosed_close (f : Fetch) : f.close.isClosed = true :=
  Session.isSome_closeWith f.link.session _

theorem isClosed_polls (h : f.isClosed = true) : (f.polls body).isClosed = true := by
  unfold polls
  cases body.poll.closed with
  | none => exact h
  | some session => exact isClosed_close f

theorem isClosed_polls_of_closed (h : body.poll.closed.isSome) :
    (f.polls body).isClosed = true := by
  simp only [polls, h, if_true]
  exact isClosed_close f

theorem link_polls (h : body.poll.closed = none) : (f.polls body).link = f.link := by
  simp [polls, h]

theorem holding_polls (f : Fetch) (body : Body) : (f.polls body).holding = f.holding := by
  unfold polls
  cases body.poll.closed <;> rfl

theorem stage_polls (f : Fetch) (body : Body) : (f.polls body).stage =
    if body.poll.item.isSome then .streaming body.poll.body else .ended := by
  unfold polls
  cases body.poll.closed <;> rfl

theorem isFailed_polls (f : Fetch) (body : Body) : (f.polls body).stage.isFailed = false := by
  rw [stage_polls]
  split_ifs <;> rfl

theorem body_polls {after : Body} (h : (f.polls body).stage = .streaming after) :
    after = body.poll.body := by
  rw [stage_polls] at h
  split_ifs at h
  exact (Stage.streaming.inj h).symm

end Polls

def Holds (f : Fetch) : Prop :=
  (∀ body, f.stage = .streaming body →
    body.errored = false ∧ body.session.finish.2.isSome ∨ f.isClosed = true) ∧
  (f.stage.isFailed = false → f.stage.isOver = true → f.isClosed = true)

theorem holds_polls {f : Fetch} {body : Body} (hstage : f.stage = .streaming body) (h : f.Holds) :
    (f.polls body).Holds := by
  have hclosed : (f.polls body).isClosed = true → (f.polls body).Holds :=
    fun hclosed => ⟨fun _ _ => Or.inr hclosed, fun _ _ => hclosed⟩
  rcases h.1 body hstage with ⟨hok, hheld⟩ | hbefore
  · rcases body.poll_spec with ⟨-, hitem, hsession, herrored⟩ | ⟨herrored, -⟩ | ⟨-, hfinish, -⟩
    · refine ⟨fun after hafter => Or.inl ?_, fun _ hover => ?_⟩
      · rw [body_polls hafter, herrored, hsession]
        exact ⟨hok, hheld⟩
      · rw [stage_polls, if_pos hitem] at hover
        cases hover
    · cases hok.symm.trans herrored
    · exact hclosed (isClosed_polls_of_closed (by rwa [hfinish]))
  · exact hclosed (isClosed_polls hbefore)

theorem holds_step {f : Fetch} (e : FetchEvent) (hdialled : f.holding = .dialled) (h : f.Holds) :
    (f.step e).holding = .dialled ∧ (f.step e).Holds := by
  have hmoves := moves_step f e
  generalize f.step e = f' at hmoves ⊢
  cases hmoves with
  | stays => exact ⟨hdialled, h⟩
  | @beside event =>
    refine ⟨hdialled, fun body hstage => ?_, fun hfailed hover => ?_⟩
    · exact (h.1 body hstage).imp_right (Reporting.closed_step event)
    · exact Reporting.closed_step event (h.2 hfailed hover)
  | exchanges _ hbefore hafter hbody =>
    refine ⟨hdialled, fun body hstage => Or.inl ?_, fun hfailed hover => ?_⟩
    · obtain ⟨hsession, hok⟩ := hbody body hstage
      rw [hsession, hdialled]
      exact ⟨hok, rfl⟩
    · rw [hafter] at hover
      cases hover.symm.trans hfailed
  | polls _ hstage => exact ⟨(holding_polls f _).trans hdialled, holds_polls hstage h⟩

theorem holds_run (link : Reporting) (events : List FetchEvent) :
    (run step (start .dialled link) events).Holds := by
  refine (invariant step (I := fun f => f.holding = .dialled ∧ f.Holds) ⟨rfl, ?_⟩ ?_ events).2
  · exact ⟨fun body hstage => (by cases hstage), fun _ hover => (by cases hover)⟩
  · rintro f e ⟨hdialled, h⟩
    exact holds_step e hdialled h

/-- The stream does not open, the request is not written, or the answer is not that of the blob. -/
def fails (f : Fetch) (e : FetchEvent) : Bool :=
  match e, f.stage with
  | .opened problem, .opening => problem.isSome
  | .requested write finish, .requesting => write.isSome || finish.isSome
  | .answered s, .answering =>
    match openBlob s with
    | .error _ => true
    | .ok (size, _, _) => (f.holding.mismatch size).isSome
  | _, _ => false

theorem fails_eq (f : Fetch) (e : FetchEvent) :
    f.fails e = (!f.stage.isFailed && (f.step e).stage.isFailed) := by
  obtain ⟨holding, link, stage⟩ := f
  cases e with
  | session event => cases stage <;> rfl
  | opened problem =>
    cases stage with
    | opening => cases problem <;> rfl
    | _ => rfl
  | requested write finish =>
    cases stage with
    | requesting => cases write <;> cases finish <;> rfl
    | _ => rfl
  | answered s =>
    cases stage with
    | answering =>
      simp only [fails, step, answers]
      cases openBlob s with
      | error e => rfl
      | ok r => dsimp only; cases holding.mismatch r.1 <;> rfl
    | _ => rfl
  | polled =>
    cases stage with
    | streaming body =>
      have hpolled := isFailed_polls ⟨holding, link, .streaming body⟩ body
      simp only [fails, step, hpolled, Bool.and_false]
    | _ => rfl

def LeavesNone (f : Fetch) : Prop := f.stage.isOver = true → f.isClosed = true

/-- Where the exchange fails, its session is closed already. -/
def FailsClosed (f : Fetch) (e : FetchEvent) : Prop := f.fails e = true → f.isClosed = true

theorem leavesNone_step {f : Fetch} (e : FetchEvent) (hnone : f.LeavesNone)
    (h : (f.step e).Holds) : (f.step e).LeavesNone ↔ f.FailsClosed e := by
  rw [FailsClosed, fails_eq]
  have hmoves := moves_step f e
  generalize f.step e = f' at hmoves h ⊢
  cases hmoves with
  | stays => exact iff_of_true hnone (by simp)
  | @beside event =>
    exact iff_of_true (fun hover => Reporting.closed_step event (hnone hover)) (by simp)
  | exchanges _ hbefore hafter =>
    have hfailed : f.stage.isFailed = false := by
      cases hstage : f.stage with
      | failed e => rw [hstage] at hbefore; cases hbefore
      | _ => rfl
    simp only [LeavesNone, hafter, hfailed, Bool.not_false, Bool.true_and]
    rfl
  | @polls body =>
    have hfailed := isFailed_polls f body
    exact iff_of_true (h.2 hfailed) (by rw [hfailed]; simp)

theorem held_polls {f : Fetch} {body : Body} (h : body.session.finish.2 = none) :
    (f.polls body).link = f.link ∧ ∀ after, (f.polls body).stage = .streaming after →
      after.session.finish.2 = none := by
  rcases body.poll_spec with ⟨hclosed, -, hsession, -⟩ | ⟨-, hpoll⟩ | ⟨-, hclosed, hsession⟩
  · refine ⟨link_polls hclosed, fun after hafter => ?_⟩
    rw [body_polls hafter, hsession]
    exact h
  · refine ⟨link_polls (by rw [hpoll]), fun after hafter => ?_⟩
    rw [body_polls hafter, hpoll]
    exact h
  · refine ⟨link_polls (hclosed.trans h), fun after hafter => ?_⟩
    rw [body_polls hafter, hsession]
    cases hbody : body.session with
    | owned slot => rfl
    | shared session => rfl

theorem held_run (expected : Option UInt64) (link : Reporting) (events : List FetchEvent) :
    let f := run step (start (.held expected) link) events
    f.link = run Reporting.step link (events.filterMap FetchEvent.beside) ∧
      f.holding = .held expected ∧ ∀ body, f.stage = .streaming body →
        body.session.finish.2 = none := by
  induction events using List.reverseRecOn with
  | nil => exact ⟨rfl, rfl, fun body hstage => (by cases hstage)⟩
  | append_singleton events e ih =>
    obtain ⟨hlink, hheld, hbody⟩ := ih
    rw [run_snoc, List.filterMap_append]
    generalize run step (start (.held expected) link) events = f at hlink hheld hbody ⊢
    have hmoves := moves_step f e
    generalize f.step e = f' at hmoves ⊢
    cases hmoves with
    | stays hbeside => simpa [hbeside] using ⟨hlink, hheld, hbody⟩
    | beside he =>
      subst he
      refine ⟨?_, hheld, hbody⟩
      dsimp only
      rw [hlink, ← run_snoc Reporting.step]
      rfl
    | exchanges hbeside _ _ hnew =>
      refine ⟨by simpa [hbeside] using hlink, hheld, fun body hstage => ?_⟩
      rw [(hnew body hstage).1, hheld]
      rfl
    | @polls body hbeside hstage =>
      obtain ⟨hsame, hafter⟩ := held_polls (f := f) (hbody body hstage)
      refine ⟨by simpa [hbeside] using hsame.trans hlink,
        (holding_polls f body).trans hheld, hafter⟩

/-- Over every run of a fetch: whenever it is over its dialled session is closed, exactly if no
exchange fails while the session is still open; a body that ends has closed it in any case; and a
fetch over a session of the caller does nothing to that session. -/
theorem fetch_leaves_no_session_iff (link : Reporting) (events : List FetchEvent) :
    ((∀ pre post, events = pre ++ post → (run step (start .dialled link) pre).LeavesNone) ↔
      Always step FailsClosed (start .dialled link) events) ∧
    ((run step (start .dialled link) events).stage.isFailed = false →
      (run step (start .dialled link) events).LeavesNone) ∧
    ∀ expected, (run step (start (.held expected) link) events).link =
      run Reporting.step link (events.filterMap FetchEvent.beside) := by
  refine ⟨?_, (holds_run link events).2, fun expected => (held_run expected link events).1⟩
  have hiff := histories_iff_always step (s := start .dialled link) (P := FailsClosed)
    (G := fun pre => (run step (start .dialled link) pre).LeavesNone) (fun pre e hpre => by
      have hholds := holds_run link (pre ++ [e])
      rw [run_snoc] at hholds ⊢
      exact leavesNone_step e hpre hholds) events
  rw [hiff]
  exact and_iff_right fun hover => by cases hover

/-- A session that was just dialled, and a peer that answers that it has no such blob. -/
theorem not_found_leaves_session_open :
    let k := PathSocket.assemble ⟨List.Vector.replicate 32 0⟩ true
      (.v4 (List.Vector.replicate 4 0) 0) [] none none 0 0
    let f := run step (start .dialled (.begin k k ⟨List.Vector.replicate 32 1⟩ 0 0 true 0 none))
      [.opened none, .requested none none, .answered ⟨ResponseHeader.notFound.encode, fun _ => ""⟩]
    f.stage = .failed (.unusableStatus 404) ∧ f.isClosed = false := by
  exact ⟨rfl, by decide +kernel⟩

end Fetch

end ForgeswornLink.Blossom
