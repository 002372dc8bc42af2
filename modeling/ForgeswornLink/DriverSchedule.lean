import ForgeswornLink.Lib.RoundRobin
import ForgeswornLink.Lib.Runs
import ForgeswornLink.RelayClient

/-!
# The driver's loop in time

`RelayDriver` says what each event does to a driver; here are the timers that
decide when it can happen. An attempt ends after ten seconds, a failed one is
followed by a sleep that doubles from one second to thirty, a session that was lost
is replaced at once, and in tag mode one that was superseded after thirty seconds.
A timer never fires early; how late it may fire is the parameter `late`, and `Prompt`
says of a run that nothing waits longer. The future of an attempt is polled before its
timer, so it may still succeed when the timer is due.
-/

namespace ForgeswornLink
open Runs RoundRobin

def backoffMin : ℕ := second
def backoffMax : ℕ := 30 * second
def connectTimeout : ℕ := 10 * second

inductive LoopStage where
  | top (since : ℕ)
  | connecting (since : ℕ)
  | pumping
  | sleeping (wake : ℕ)
  | returned
deriving DecidableEq

def LoopStage.phase : LoopStage → DriverPhase
  | .pumping => .pumping
  | .returned => .over
  | _ => .trying

def LoopStage.limit (late : ℕ) : LoopStage → Option ℕ
  | .top since => some (since + late)
  | .connecting since => some (since + connectTimeout + late)
  | .sleeping wake => some (wake + late)
  | _ => none

structure DriverLoop where
  driver : RelayDriver
  backoff : ℕ
  stage : LoopStage
  now : ℕ

inductive LoopEvent where
  | pass (span : ℕ)
  | top
  | connected
  | connectFailed
  | sent
  | ended (superseded : Bool)
  | wake
  -- `close` asks the driver to stop.
  | close
  | stopped
deriving DecidableEq

def LoopEvent.span : LoopEvent → ℕ
  | .pass span => span
  | _ => 0

namespace DriverLoop

def spawn (id : ℕ) (urls : List String) : DriverLoop :=
  ⟨.spawn id urls, backoffMin, .top 0, 0⟩

def drive (s : DriverLoop) (book : Option TagBook) (e : DriverEvent) : RelayDriver :=
  s.driver.step book s.now e

/-- The book is what the endpoint shares with the driver at this moment; without one the driver is
in identity mode. -/
def step (s : DriverLoop) : Option TagBook × LoopEvent → DriverLoop
  | (_, .pass span) => { s with now := s.now + span }
  | (book, .top) =>
    match s.stage with
    | .top _ =>
      if s.driver.urls = [] then { s with driver := s.drive book .noRelays, stage := .returned }
      else if book.any TagBook.isEmpty then
        { s with driver := s.drive book .idle, stage := .sleeping (s.now + backoffMin) }
      else { s with stage := .connecting s.now }
    | _ => s
  | (book, .connected) =>
    match s.stage with
    | .connecting _ =>
      { s with driver := s.drive book .connected, backoff := backoffMin, stage := .pumping }
    | _ => s
  | (book, .connectFailed) =>
    match s.stage with
    | .connecting _ =>
      { s with
        driver := s.drive book .connectFailed
        stage := .sleeping (s.now + s.backoff)
        backoff := min (s.backoff * 2) backoffMax }
    | _ => s
  | (book, .sent) => { s with driver := s.drive book .sent }
  | (book, .ended superseded) =>
    match s.stage with
    | .pumping =>
      { s with
        driver := s.drive book (.ended superseded)
        stage := if superseded then
            if book.isNone then .returned else .sleeping (s.now + backoffMax)
          else .top s.now }
    | _ => s
  | (_, .wake) =>
    match s.stage with
    | .sleeping wake => if wake ≤ s.now then { s with stage := .top s.now } else s
    | _ => s
  | (_, .close) => { s with driver := { s.driver with stop := true } }
  | (book, .stopped) =>
    if s.driver.stop then { s with driver := s.drive book .stopped, stage := .returned } else s

/-- No timer is let pass by more than `late`. -/
def Prompt (late : ℕ) (s : DriverLoop) (e : Option TagBook × LoopEvent) : Prop :=
  ∀ limit ∈ s.stage.limit late, s.now + e.2.span ≤ limit

instance (late : ℕ) (s : DriverLoop) (e : Option TagBook × LoopEvent) :
    Decidable (s.Prompt late e) :=
  inferInstanceAs (Decidable (∀ limit ∈ s.stage.limit late, s.now + e.2.span ≤ limit))

/-! ### What one event does -/

inductive Moved (s : DriverLoop) : Option TagBook × LoopEvent → DriverLoop → Prop
  | still {e : Option TagBook × LoopEvent} {d : RelayDriver} (hurls : d.urls = s.driver.urls)
      (hphase : d.phase = s.driver.phase) (hstatus : d.status = s.driver.status)
      (hindex : d.index = s.driver.index) (hdown : d.downSince = s.driver.downSince) :
      Moved s e { s with driver := d }
  | pass {book : Option TagBook} {span : ℕ} :
      Moved s (book, .pass span) { s with now := s.now + span }
  | returned {e : Option TagBook × LoopEvent} {d : RelayDriver} (hphase : d.phase = .over)
      (hurls : d.urls = s.driver.urls)
      (hcause : s.driver.urls = [] ∨ s.stage = .pumping ∨ e.2 = .stopped) :
      Moved s e { s with driver := d, stage := .returned }
  | idle {book : Option TagBook} {since : ℕ} {d : RelayDriver} (hstage : s.stage = .top since)
      (hempty : book.any TagBook.isEmpty = true) (hphase : d.phase = .trying)
      (hurls : d.urls = s.driver.urls) (hne : s.driver.urls ≠ []) (hdown : d.downSince = none) :
      Moved s (book, .top) { s with driver := d, stage := .sleeping (s.now + backoffMin) }
  | attempt {book : Option TagBook} {since : ℕ} (hstage : s.stage = .top since)
      (hne : s.driver.urls ≠ []) : Moved s (book, .top) { s with stage := .connecting s.now }
  | up {book : Option TagBook} {since : ℕ} {d : RelayDriver} (hstage : s.stage = .connecting since)
      (hphase : d.phase = .pumping) (hurls : d.urls = s.driver.urls) :
      Moved s (book, .connected) { s with driver := d, backoff := backoffMin, stage := .pumping }
  | failed {book : Option TagBook} {since : ℕ} {d : RelayDriver}
      (hstage : s.stage = .connecting since) (hphase : d.phase = .trying)
      (hurls : d.urls = s.driver.urls) (hindex : d.index = s.driver.index + 1)
      (hdown : d.downSince = some (s.driver.downSince.getD s.now))
      (hstatus : d.status =
        if s.now - s.driver.downSince.getD s.now > reconnectDeadline then .failed
        else .reconnecting) :
      Moved s (book, .connectFailed)
        { s with
          driver := d, stage := .sleeping (s.now + s.backoff)
          backoff := min (s.backoff * 2) backoffMax }
  | lost {book : Option TagBook} {superseded : Bool} {d : RelayDriver} (hstage : s.stage = .pumping)
      (hphase : d.phase = .trying) (hurls : d.urls = s.driver.urls)
      (hdown : d.downSince = some s.now) (hstatus : d.status = .reconnecting) :
      Moved s (book, .ended superseded)
        { s with
          driver := d
          stage := if superseded then .sleeping (s.now + backoffMax) else .top s.now }
  | woke {book : Option TagBook} {wake : ℕ} (hstage : s.stage = .sleeping wake)
      (hdue : wake ≤ s.now) :
      Moved s (book, .wake) { s with stage := .top s.now }

structure Tracks (s : DriverLoop) : Prop where
  phase : s.driver.phase = s.stage.phase
  relays : (∀ since, s.stage ≠ .top since) → s.stage ≠ .returned → s.driver.urls ≠ []

theorem drive_connected {s : DriverLoop} (h : s.Tracks) {since : ℕ}
    (hstage : s.stage = .connecting since) (book : Option TagBook) :
    s.driver.urls ≠ [] ∧ ∃ events, s.drive book .connected =
      { s.driver with
        outbound := [], status := .up s.driver.current, events := events, phase := .pumping } := by
  have hphase : s.driver.phase = .trying := by rw [h.phase, hstage]; rfl
  have hne : s.driver.urls ≠ [] := h.relays (by simp [hstage]) (by simp [hstage])
  obtain ⟨events, hset⟩ := { s.driver with outbound := [] }.setStatus_eq (.up s.driver.current)
  refine ⟨hne, events, ?_⟩
  simp only [drive, RelayDriver.step]
  rw [if_pos ⟨hphase, hne⟩, hset]

theorem moved_step {s : DriverLoop} (h : s.Tracks) (e : Option TagBook × LoopEvent) :
    s.Moved e (s.step e) := by
  have hsame : s.Moved e s := .still rfl rfl rfl rfl rfl
  obtain ⟨book, e⟩ := e
  cases e with
  | pass span => exact .pass
  | top =>
    simp only [step]
    split
    · rename_i since hstage
      have hphase : s.driver.phase = .trying := by rw [h.phase, hstage]; rfl
      split
      · rename_i hnil
        obtain ⟨events, hset⟩ := s.driver.setStatus_eq .failed
        simp only [drive, RelayDriver.step]
        rw [if_pos ⟨hphase, hnil⟩, RelayDriver.finish, hset]
        exact .returned rfl rfl (Or.inl hnil)
      · rename_i hne
        split
        · rename_i hempty
          have hidle : s.drive book .idle =
              { s.driver.setStatus .connecting with downSince := none } := by
            simp only [drive, RelayDriver.step]
            rw [if_pos ⟨hphase, hne, hempty⟩]
          obtain ⟨events, hset⟩ := s.driver.setStatus_eq .connecting
          rw [hidle, hset]
          exact .idle hstage hempty hphase rfl hne rfl
        · exact .attempt hstage hne
    · exact hsame
  | connected =>
    simp only [step]
    split
    · rename_i since hstage
      obtain ⟨-, events, hup⟩ := drive_connected h hstage book
      rw [hup]
      exact .up hstage rfl rfl
    · exact hsame
  | connectFailed =>
    simp only [step]
    split
    · rename_i since hstage
      have hphase : s.driver.phase = .trying := by rw [h.phase, hstage]; rfl
      have hne : s.driver.urls ≠ [] := h.relays (by simp [hstage]) (by simp [hstage])
      obtain ⟨events, hset⟩ := s.driver.setStatus_eq
        (if s.now - s.driver.downSince.getD s.now > reconnectDeadline then .failed
        else .reconnecting)
      simp only [drive, RelayDriver.step]
      rw [if_pos ⟨hphase, hne⟩, hset]
      exact .failed hstage hphase rfl rfl rfl rfl
    · exact hsame
  | sent =>
    simp only [step, drive, RelayDriver.step]
    split <;> exact .still rfl rfl rfl rfl rfl
  | ended superseded =>
    simp only [step]
    split
    · rename_i hstage
      have hphase : s.driver.phase = .pumping := by rw [h.phase, hstage]; rfl
      cases superseded with
      | false =>
        obtain ⟨events, hset⟩ := s.driver.setStatus_eq .reconnecting
        refine @Moved.lost s book false _ hstage ?_ ?_ ?_ ?_ <;>
          simp [drive, RelayDriver.step, hphase, hset]
      | true =>
        cases book with
        | none =>
          obtain ⟨events, hset⟩ := s.driver.setStatus_eq .superseded
          refine .returned ?_ ?_ (Or.inr (Or.inl hstage)) <;>
            simp [drive, RelayDriver.step, hphase, RelayDriver.finish, hset]
        | some book =>
          obtain ⟨events, hset⟩ := s.driver.setStatus_eq .reconnecting
          refine @Moved.lost s (some book) true _ hstage ?_ ?_ ?_ ?_ <;>
            simp [drive, RelayDriver.step, hphase, hset]
    · exact hsame
  | wake =>
    simp only [step]
    split
    · rename_i wake hstage
      split
      · rename_i hdue
        exact .woke hstage hdue
      · exact hsame
    · exact hsame
  | close => exact .still rfl rfl rfl rfl rfl
  | stopped =>
    simp only [step]
    split
    · rename_i hstop
      simp only [drive, RelayDriver.step, hstop, true_and]
      split
      · obtain ⟨events, hset⟩ := s.driver.setStatus_eq .failed
        rw [RelayDriver.finish, hset]
        exact .returned rfl rfl (Or.inr (Or.inr rfl))
      · rename_i hover
        exact .returned (not_not.mp hover) rfl (Or.inr (Or.inr rfl))
    · exact hsame

theorem tracks_spawn (id : ℕ) (urls : List String) : (spawn id urls).Tracks :=
  ⟨rfl, fun h => absurd rfl (h 0)⟩

theorem Tracks.step {s : DriverLoop} (h : s.Tracks) (e : Option TagBook × LoopEvent) :
    (s.step e).Tracks := by
  have hmoved := moved_step h e
  generalize s.step e = s' at hmoved
  cases hmoved with
  | still hurls hphase hstatus hindex hdown =>
    exact ⟨hphase.trans h.phase, fun htop hover => hurls ▸ h.relays htop hover⟩
  | pass => exact ⟨h.phase, h.relays⟩
  | returned hphase hurls hcause => exact ⟨hphase, fun _ hover => absurd rfl hover⟩
  | idle hstage hempty hphase hurls hne hdown => exact ⟨hphase, fun _ _ => hurls ▸ hne⟩
  | attempt hstage hne => exact ⟨h.phase.trans (by rw [hstage]; rfl), fun _ _ => hne⟩
  | up hstage hphase hurls =>
    exact ⟨hphase, fun _ _ => hurls ▸ h.relays (by simp [hstage]) (by simp [hstage])⟩
  | failed hstage hphase hurls hindex hdown hstatus =>
    exact ⟨hphase, fun _ _ => hurls ▸ h.relays (by simp [hstage]) (by simp [hstage])⟩
  | lost hstage hphase hurls hdown hstatus =>
    refine ⟨?_, fun _ _ => hurls ▸ h.relays (by simp [hstage]) (by simp [hstage])⟩
    dsimp only
    rw [hphase]
    split <;> rfl
  | woke hstage hdue =>
    exact ⟨h.phase.trans (by rw [hstage]; rfl), fun htop => absurd rfl (htop s.now)⟩

/-! ### Timers -/

def InTime (late : ℕ) (s : DriverLoop) : Prop :=
  match s.stage with
  | .top since => since ≤ s.now ∧ s.now ≤ since + late
  | .connecting since => since ≤ s.now ∧ s.now ≤ since + connectTimeout + late
  | .sleeping wake => wake ≤ s.now + backoffMax ∧ s.now ≤ wake + late
  | _ => True

structure Timed (late : ℕ) (s : DriverLoop) : Prop extends s.Tracks where
  backoff : s.backoff ≤ backoffMax
  timer : s.InTime late

variable {late : ℕ}

theorem timed_spawn (late id : ℕ) (urls : List String) : (spawn id urls).Timed late where
  toTracks := tracks_spawn id urls
  backoff := show backoffMin ≤ backoffMax by decide
  timer := ⟨le_rfl, Nat.zero_le _⟩

theorem Timed.step {s : DriverLoop} (h : s.Timed late) {e : Option TagBook × LoopEvent}
    (hprompt : s.Prompt late e) : (s.step e).Timed late := by
  suffices hboth : (s.step e).backoff ≤ backoffMax ∧ (s.step e).InTime late from
    ⟨h.toTracks.step e, hboth.1, hboth.2⟩
  have hbackoff := h.backoff
  have htimer := h.timer
  have hmoved := moved_step h.toTracks e
  generalize s.step e = s' at hmoved
  cases hmoved with
  | still hurls hphase hstatus hindex hdown => exact ⟨hbackoff, htimer⟩
  | pass =>
    refine ⟨hbackoff, ?_⟩
    simp only [InTime, Prompt, LoopEvent.span] at htimer hprompt ⊢
    cases hstage : s.stage <;>
      simp only [hstage, LoopStage.limit, Option.mem_def, Option.some.injEq,
        forall_eq'] at htimer hprompt ⊢ <;>
      omega
  | returned hphase hurls hcause => exact ⟨hbackoff, trivial⟩
  | idle hstage hempty hphase hurls hne hdown =>
    refine ⟨hbackoff, ?_⟩
    simp only [InTime, backoffMin, backoffMax]
    omega
  | attempt hstage hne =>
    refine ⟨hbackoff, ?_⟩
    simp only [InTime]
    omega
  | up hstage hphase hurls => exact ⟨show backoffMin ≤ backoffMax by decide, trivial⟩
  | failed hstage hphase hurls hindex hdown hstatus =>
    refine ⟨Nat.min_le_right _ _, ?_⟩
    simp only [InTime]
    omega
  | @lost _ superseded _ hstage hphase hurls hdown hstatus =>
    refine ⟨hbackoff, ?_⟩
    cases superseded <;> simp [InTime, Nat.add_assoc]
  | woke hstage hdue =>
    refine ⟨hbackoff, ?_⟩
    simp only [InTime]
    omega

/-! ### Outages -/

def Unreported (late since : ℕ) (s : DriverLoop) : Prop :=
  match s.stage with
  | .top t => t ≤ since + reconnectDeadline + backoffMax + late
  | .connecting t => t ≤ since + reconnectDeadline + backoffMax + 2 * late
  | .sleeping wake => wake ≤ since + reconnectDeadline + backoffMax
  | _ => True

structure Reports (late : ℕ) (s : DriverLoop) : Prop where
  failed : ∀ since, s.driver.phase = .trying → s.driver.downSince = some since →
    s.driver.status = .failed → since + reconnectDeadline < s.now
  soon : ∀ since, s.driver.phase = .trying → s.driver.downSince = some since →
    s.driver.status ≠ .failed → since ≤ s.now ∧ s.Unreported late since

theorem Reports.downSince_le {s : DriverLoop} (h : s.Reports late)
    (htrying : s.driver.phase = .trying) :
    s.driver.downSince.getD s.now ≤ s.now := by
  cases hdown : s.driver.downSince with
  | none => exact le_rfl
  | some since =>
    by_cases hfailed : s.driver.status = .failed
    · have := h.failed since htrying hdown hfailed
      rw [Option.getD_some]
      omega
    · exact (h.soon since htrying hdown hfailed).1

theorem Reports.step {s : DriverLoop} (h : s.Reports late) (htimed : s.Timed late)
    (e : Option TagBook × LoopEvent) : (s.step e).Reports late := by
  have htimer := htimed.timer
  have hbackoff := htimed.backoff
  have hmoved := moved_step htimed.toTracks e
  generalize s.step e = s' at hmoved
  cases hmoved with
  | still hurls hphase hstatus hindex hdown =>
    refine ⟨fun since => ?_, fun since => ?_⟩ <;> dsimp only <;> rw [hphase, hdown, hstatus]
    · exact h.failed since
    · exact h.soon since
  | pass =>
    refine ⟨fun since htrying hsince hfailed => ?_, fun since htrying hsince hnot => ?_⟩
    · exact (h.failed since htrying hsince hfailed).trans_le (Nat.le_add_right _ _)
    · obtain ⟨hle, hfar⟩ := h.soon since htrying hsince hnot
      exact ⟨hle.trans (Nat.le_add_right _ _), hfar⟩
  | returned hphase hurls hcause =>
    exact ⟨fun _ htrying => by simp [hphase] at htrying, fun _ htrying => by
      simp [hphase] at htrying⟩
  | idle hstage hempty hphase hurls hne hdown =>
    exact ⟨fun _ _ hsince => by simp [hdown] at hsince, fun _ _ hsince => by simp [hdown] at hsince⟩
  | attempt hstage hne =>
    refine ⟨h.failed, fun since htrying hsince hnot => ?_⟩
    obtain ⟨hle, hfar⟩ := h.soon since htrying hsince hnot
    simp only [InTime, Unreported, hstage] at htimer hfar ⊢
    omega
  | up hstage hphase hurls =>
    exact ⟨fun _ htrying => by simp [hphase] at htrying, fun _ htrying => by
      simp [hphase] at htrying⟩
  | failed hstage hphase hurls hindex hdown hstatus =>
    have htrying : s.driver.phase = .trying := by rw [htimed.phase, hstage]; rfl
    have hle := h.downSince_le htrying
    refine ⟨fun since _ hsince hfailed => ?_, fun since _ hsince hnot => ?_⟩
    · cases hdown.symm.trans hsince
      have hlong : s.now - s.driver.downSince.getD s.now > reconnectDeadline := by
        by_contra hshort
        rw [hstatus, if_neg hshort] at hfailed
        cases hfailed
      dsimp only
      omega
    · cases hdown.symm.trans hsince
      have hshort : ¬ s.now - s.driver.downSince.getD s.now > reconnectDeadline := fun hlong =>
        hnot (by rw [hstatus, if_pos hlong])
      simp only [Unreported]
      omega
  | @lost _ superseded _ hstage hphase hurls hdown hstatus =>
    refine ⟨fun since _ hsince hfailed => ?_, fun since _ hsince hnot => ?_⟩
    · rw [hstatus] at hfailed
      cases hfailed
    · cases hdown.symm.trans hsince
      refine ⟨le_rfl, ?_⟩
      cases superseded <;> simp only [Unreported, Bool.false_eq_true, if_true, if_false] <;> omega
  | woke hstage hdue =>
    refine ⟨h.failed, fun since htrying hsince hnot => ?_⟩
    obtain ⟨hle, hfar⟩ := h.soon since htrying hsince hnot
    simp only [InTime, Unreported, hstage] at htimer hfar ⊢
    omega

theorem reports_run (id : ℕ) (urls : List String) {es : List (Option TagBook × LoopEvent)}
    (hprompt : Always step (Prompt late) (spawn id urls) es) :
    (run step (spawn id urls) es).Timed late ∧ (run step (spawn id urls) es).Reports late := by
  refine invariant_of_always step (I := fun s => s.Timed late ∧ s.Reports late)
    ⟨timed_spawn late id urls, ?_⟩ (fun s e h hp => ⟨h.1.step hp, h.2.step h.1 e⟩) hprompt
  constructor <;> exact fun _ _ hsince => by cases hsince

/-- While a driver is down, its status says so: failed only once the outage has lasted more than
sixty seconds, and failed at the latest after a hundred and what the timers are late. -/
theorem outage_reported_in_time (late id : ℕ) (urls : List String)
    (es : List (Option TagBook × LoopEvent))
    (hprompt : Always step (Prompt late) (spawn id urls) es) (since : ℕ)
    (hdown : (run step (spawn id urls) es).driver.phase = .trying ∧
      (run step (spawn id urls) es).driver.downSince = some since) :
    let s := run step (spawn id urls) es
    (s.driver.status = .failed → since + 60 * second < s.now) ∧
      (since + 100 * second + 3 * late < s.now → s.driver.status = .failed) := by
  obtain ⟨htimed, hreports⟩ := reports_run id urls hprompt
  refine ⟨hreports.failed since hdown.1 hdown.2, fun hlong => ?_⟩
  by_contra hnot
  obtain ⟨-, hfar⟩ := hreports.soon since hdown.1 hdown.2 hnot
  have htimer := htimed.timer
  have hphase := htimed.phase
  rw [hdown.1] at hphase
  simp only [InTime, Unreported, reconnectDeadline, backoffMax, connectTimeout] at htimer hfar
  cases hstage : (run step (spawn id urls) es).stage with
  | top t => simp only [hstage] at htimer hfar; omega
  | connecting t => simp only [hstage] at htimer hfar; omega
  | sleeping wake => simp only [hstage] at htimer hfar; omega
  | pumping => rw [hstage] at hphase; cases hphase
  | returned => rw [hstage] at hphase; cases hphase

def refusedPass (span : ℕ) : List (Option TagBook × LoopEvent) :=
  [(none, .top), (none, .connectFailed), (none, .pass (span * second)), (none, .wake)]

theorem outage_of_two_minutes_reported :
    (run step (spawn 0 ["wss://relay"]) ([1, 2, 4, 8, 16, 30, 30, 30].flatMap refusedPass)).now =
      121 * second ∧
    (run step (spawn 0 ["wss://relay"])
      ([1, 2, 4, 8, 16, 30, 30, 30].flatMap refusedPass)).driver.status = .failed := by
  have hreported := outage_reported_in_time 0 0 ["wss://relay"]
    ([1, 2, 4, 8, 16, 30, 30, 30].flatMap refusedPass) (by decide +kernel) 0 (by decide +kernel)
  exact ⟨by decide +kernel, hreported.2 (by decide +kernel)⟩

/-! ### Recovery -/

def passTime (late : ℕ) : ℕ := connectTimeout + backoffMax + 3 * late

/-- From `start` on nothing keeps the driver from the relay at place `k`: an attempt there that
began since does not fail, there is something to register, and nobody stops the driver. -/
def Served (start k : ℕ) (s : DriverLoop) : Option TagBook × LoopEvent → Prop
  | (_, .connectFailed) =>
    ∀ since, s.stage = .connecting since → start ≤ since → s.driver.index % s.driver.urls.length ≠ k
  | (book, .top) => book.any TagBook.isEmpty = false
  | (_, .close) => False
  | (_, .stopped) => False
  | _ => True

/-- An attempt that is under way comes to a session. -/
def Answered (s : DriverLoop) (e : Option TagBook × LoopEvent) : Prop :=
  e.2 = .connected ∧ ∃ since, s.stage = .connecting since

def Nearing (late start k due : ℕ) (s : DriverLoop) : Prop :=
  match s.stage with
  | .top since => since + toGo s.driver.urls.length k s.driver.index * passTime late ≤ due
  | .connecting since =>
    if start ≤ since then
      since + toGo s.driver.urls.length k s.driver.index * passTime late ≤ due + late
    else since + s.driver.urls.length * passTime late ≤ due
  | .sleeping wake => wake + late + toGo s.driver.urls.length k s.driver.index * passTime late ≤ due
  | _ => False

variable (late) in
theorem toGo_mul_add_le {m k : ℕ} (hk : k < m) (i : ℕ) :
    toGo m k i * passTime late + passTime late ≤ m * passTime late := by
  rw [← Nat.succ_mul]
  exact Nat.mul_le_mul_right _ (toGo_lt (by omega) k i)

theorem nearing_start {s : DriverLoop} {k : ℕ} (h : s.Timed late)
    (htrying : s.driver.phase = .trying) (hk : k < s.driver.urls.length) :
    s.Nearing late s.now k (s.now + s.driver.urls.length * passTime late) := by
  have htimer := h.timer
  have hphase := h.phase
  have hpass := toGo_mul_add_le late hk s.driver.index
  have hlength : passTime late = connectTimeout + backoffMax + 3 * late := rfl
  rw [htrying] at hphase
  unfold Nearing
  unfold InTime at htimer
  cases hstage : s.stage with
  | top since => simp only [hstage] at htimer ⊢; omega
  | connecting since =>
    simp only [hstage] at htimer ⊢
    split <;> omega
  | sleeping wake => simp only [hstage] at htimer ⊢; omega
  | pumping => rw [hstage] at hphase; cases hphase
  | returned => rw [hstage] at hphase; cases hphase

theorem now_le_step (s : DriverLoop) (e : Option TagBook × LoopEvent) (h : s.Tracks) :
    s.now ≤ (s.step e).now := by
  have hmoved := moved_step h e
  generalize s.step e = s' at hmoved
  cases hmoved with
  | pass => exact Nat.le_add_right _ _
  | _ => exact le_rfl

theorem urls_step {s : DriverLoop} (h : s.Tracks) (e : Option TagBook × LoopEvent) :
    (s.step e).driver.urls = s.driver.urls := by
  have hmoved := moved_step h e
  generalize s.step e = s' at hmoved
  cases hmoved with
  | pass => rfl
  | attempt => rfl
  | woke => rfl
  | _ => assumption

theorem Nearing.step {s : DriverLoop} {start k due : ℕ} (h : s.Nearing late start k due)
    (htimed : s.Timed late) (hstart : start ≤ s.now) (hk : k < s.driver.urls.length)
    {e : Option TagBook × LoopEvent} (hserved : s.Served start k e) (hdown : ¬ s.Answered e) :
    (s.step e).Nearing late start k due := by
  have htimer := htimed.timer
  have hbackoff := htimed.backoff
  have hlength : passTime late = connectTimeout + backoffMax + 3 * late := rfl
  have hmoved := moved_step htimed.toTracks e
  generalize s.step e = s' at hmoved
  cases hmoved with
  | still hurls hphase hstatus hindex hdown =>
    unfold Nearing at h ⊢
    rwa [hurls, hindex]
  | pass => exact h
  | returned hphase hurls hcause =>
    exfalso
    rcases hcause with hnil | hpumping | hstopped
    · simp [hnil] at hk
    · simp only [Nearing, hpumping] at h
    · obtain ⟨book, e⟩ := e
      cases hstopped
      exact hserved
  | idle hstage hempty hphase hurls hne hdown =>
    have hnonempty : _ = false := hserved
    rw [hempty] at hnonempty
    cases hnonempty
  | attempt hstage hne =>
    simp only [InTime, Nearing, hstage] at htimer h ⊢
    rw [if_pos hstart]
    omega
  | up hstage hphase hurls => exact absurd ⟨rfl, _, hstage⟩ hdown
  | failed hstage hphase hurls hindex hdown hstatus =>
    simp only [InTime, Nearing, hstage] at htimer h ⊢
    rw [hurls, hindex]
    split at h
    · rename_i hsince
      have hother := hserved _ hstage hsince
      have hnext := toGo_succ hk hother
      rw [← hnext, Nat.succ_mul] at h
      omega
    · have hpass := toGo_mul_add_le late hk (s.driver.index + 1)
      omega
  | lost hstage hphase hurls hdown hstatus =>
    simp only [Nearing, hstage] at h
  | woke hstage hdue =>
    simp only [InTime, Nearing, hstage] at htimer h ⊢
    omega

theorem Nearing.now_le {s : DriverLoop} {start k due : ℕ} (h : s.Nearing late start k due)
    (htimed : s.Timed late) : s.now ≤ due + connectTimeout + 2 * late := by
  have htimer := htimed.timer
  simp only [InTime, Nearing] at h htimer
  cases hstage : s.stage with
  | top since => simp only [hstage] at h htimer; omega
  | connecting since =>
    simp only [hstage] at h htimer
    split at h <;> omega
  | sleeping wake => simp only [hstage] at h htimer; omega
  | pumping => simp only [hstage] at h
  | returned => simp only [hstage] at h

theorem current_mem {d : RelayDriver} (h : d.urls ≠ []) : d.current ∈ d.urls := by
  have hlt : d.index % d.urls.length < d.urls.length := Nat.mod_lt _ (List.length_pos_of_ne_nil h)
  rw [RelayDriver.current, List.getD_eq_getElem?_getD, List.getElem?_eq_getElem hlt]
  exact List.getElem_mem hlt

theorem Answered.up {s : DriverLoop} {e : Option TagBook × LoopEvent} (h : s.Answered e)
    (htracks : s.Tracks) :
    (s.step e).stage = .pumping ∧ (∃ url ∈ s.driver.urls, (s.step e).driver.status = .up url) ∧
      (s.step e).now = s.now := by
  obtain ⟨book, e⟩ := e
  obtain ⟨rfl, since, hstage⟩ := h
  obtain ⟨hne, events, hup⟩ := drive_connected htracks hstage book
  simp only [step, hstage]
  rw [hup]
  exact ⟨trivial, ⟨s.driver.current, current_mem hne, rfl⟩, trivial⟩

/-- A relay that answers is found: once it answers every attempt and nothing else keeps the driver,
an attempt comes to a session within one round of the list, and the driver is up. -/
theorem reachable_relay_comes_up (late id : ℕ) (urls : List String)
    (es fs : List (Option TagBook × LoopEvent)) (k : ℕ) (hk : k < urls.length)
    (hprompt : Always step (Prompt late) (spawn id urls) (es ++ fs))
    (htrying : (run step (spawn id urls) es).driver.phase = .trying)
    (hserved : Always step (Served (run step (spawn id urls) es).now k)
      (run step (spawn id urls) es) fs)
    (hlate : (run step (spawn id urls) es).now + urls.length * (40 * second + 3 * late) +
      10 * second + 2 * late < (run step (spawn id urls) (es ++ fs)).now) :
    ∃ pre e post, fs = pre ++ e :: post ∧ (run step (spawn id urls) (es ++ pre)).Answered e ∧
      let up := run step (spawn id urls) (es ++ pre ++ [e])
      up.stage = .pumping ∧ (∃ url ∈ urls, up.driver.status = .up url) ∧
      up.now ≤ (run step (spawn id urls) es).now + urls.length * (40 * second + 3 * late) +
        10 * second + 2 * late := by
  obtain ⟨hbefore, hafter⟩ := (always_append step).mp hprompt
  obtain ⟨htimed, hurls⟩ :=
    invariant_of_always step (I := fun s => s.Timed late ∧ s.driver.urls = urls)
    ⟨timed_spawn late id urls, rfl⟩
    (fun s e h hp => ⟨h.1.step hp, (urls_step h.1.toTracks e).trans h.2⟩) hbefore
  have hpass : passTime late = 40 * second + 3 * late := by
    simp only [passTime, connectTimeout, backoffMax]
    omega
  simp only [run_append] at hlate ⊢
  generalize run step (spawn id urls) es = s at *
  have hboth : Always step (fun t e => t.Prompt late e ∧ t.Served s.now k e) s fs :=
    fun pre e post hsplit => ⟨hafter pre e post hsplit, hserved pre e post hsplit⟩
  have huntil := invariant_until step (Q := Answered)
    (I := fun t => t.Timed late ∧ t.driver.urls = urls ∧ s.now ≤ t.now ∧
      t.Nearing late s.now k (s.now + urls.length * passTime late))
    ⟨htimed, hurls, le_rfl, hurls ▸ nearing_start htimed htrying (hurls ▸ hk)⟩ ?_ hboth
  · rw [hpass] at huntil
    rcases huntil with ⟨pre, e, post, hsplit, ⟨ht, hturls, -, hnear⟩, hanswered⟩ | ⟨ht, -, -, hnear⟩
    · obtain ⟨hstage, ⟨url, hurl, hstatus⟩, hnow⟩ := hanswered.up ht.toTracks
      refine ⟨pre, e, post, hsplit, hanswered, hstage, ⟨url, hturls ▸ hurl, hstatus⟩, ?_⟩
      exact hnow.trans_le (hnear.now_le ht)
    · have hnow := hnear.now_le ht
      simp only [connectTimeout] at hnow
      omega
  · rintro t e ⟨ht, hturls, hnow, hnear⟩ ⟨hp, hs⟩ hdown
    refine ⟨ht.step hp, (urls_step ht.toTracks e).trans hturls,
      hnow.trans (now_le_step t e ht.toTracks), ?_⟩
    exact hnear.step ht hnow (hturls ▸ hk) hs hdown

def lostSession : List (Option TagBook × LoopEvent) :=
  [(none, .top), (none, .connected), (none, .pass (5 * second)), (none, .ended false)]

/-- The next relay of the list refuses, the one after it answers. -/
def secondAttempt : List (Option TagBook × LoopEvent) :=
  refusedPass 1 ++ [(none, .top), (none, .connected), (none, .pass (100 * second))]

theorem other_relay_comes_up :
    let driver := spawn 0 ["wss://first", "wss://second"]
    ∃ pre e post, secondAttempt = pre ++ e :: post ∧
      (run step driver (lostSession ++ pre)).Answered e ∧
      let up := run step driver (lostSession ++ pre ++ [e])
      up.stage = .pumping ∧ (∃ url ∈ ["wss://first", "wss://second"], up.driver.status = .up url) ∧
      up.now ≤ (run step driver lostSession).now + 2 * (40 * second + 3 * 0) +
        10 * second + 2 * 0 := by
  refine reachable_relay_comes_up 0 0 _ lostSession secondAttempt 0 (by decide) (by decide +kernel)
    (by decide +kernel) ?_ (by decide +kernel)
  simp only [secondAttempt, refusedPass, List.cons_append, List.nil_append, always_cons]
  exact ⟨rfl, fun _ _ _ => by decide +kernel, trivial, trivial, rfl, trivial, trivial,
    always_nil step _ _⟩

end DriverLoop
end ForgeswornLink
