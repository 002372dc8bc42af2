import ForgeswornLink.WriteReadiness

/-!
# Wake-ups of waiting senders

A poller that finds the blocking queue full puts its waker in a set that all drivers
share and looks at the queue once more. A pump that has sent a frame wakes the
whole set if half its queue is free; a driver also wakes it when a session comes up
or goes down. Between a look at the queue and what follows from it anything else can
happen: a poll is three steps here, and so is a turn of the pump. A poller waits
only for a queue that was full after its waker was in the set, and a queue does not
run empty without the pump waking the set.
-/

namespace ForgeswornLink
open Runs

/-! ### Drivers -/

/-- What a driver owes between its steps. -/
inductive Duty where
  | rest
  -- A frame is off the queue and on its way.
  | sending
  -- The set is woken next, and `more` times after that.
  | waking (more : ℕ)
deriving DecidableEq

/-- A frame on its way is interrupted by a failing socket and by the stop signal. Nothing comes
between a change of status and the wake-up that follows. -/
def Duty.admits : Duty → DriverEvent → Bool
  | .rest, _ => true
  | .sending, .ended superseded => !superseded
  | .sending, .stopped => true
  | _, _ => false

namespace RelayDriver

/-- The duty after an event. The task around a driver wakes the set once more when it is over. -/
def dutyAfter (d : RelayDriver) (book : Option TagBook) (now : ℕ) (duty : Duty) : DriverEvent → Duty
  | .noRelays => if d.phase = .trying ∧ d.urls = [] then .waking 0 else duty
  | .idle => duty
  | .connected => if d.phase = .trying ∧ d.urls ≠ [] then .waking 0 else duty
  | .connectFailed =>
    if d.phase = .trying ∧ d.urls ≠ [] ∧
      now - d.downSince.getD now > reconnectDeadline then .waking 0
    else duty
  | .sent => if d.phase = .pumping ∧ d.outbound ≠ [] then .sending else duty
  | .ended superseded =>
    if d.phase = .pumping then if superseded ∧ book.isNone then .waking 1 else .waking 0 else duty
  | .stopped => if d.stop ∧ d.phase ≠ .over then .waking 1 else duty

def halfFree (d : RelayDriver) : Bool := maxQueuedFrames / 2 ≤ maxQueuedFrames - d.outbound.length

theorem outbound_ne_nil_of_not_halfFree {d : RelayDriver} (h : d.halfFree = false) :
    d.outbound ≠ [] := by
  rintro hempty
  rw [halfFree, hempty] at h
  exact absurd h (by decide)

theorem outbound_ne_nil_of_full {d : RelayDriver} (h : d.hasCapacity = false) :
    d.outbound ≠ [] := by
  rintro hempty
  rw [hasCapacity, hempty] at h
  exact absurd h (by decide)

theorem step_of_rest {d : RelayDriver} {book : Option TagBook} {now : ℕ} {duty : Duty}
    {e : DriverEvent} (hrest : d.dutyAfter book now duty e = .rest)
    (hpumping : (d.step book now e).phase = .pumping) :
    duty = .rest ∧ d.phase = .pumping ∧ (d.step book now e).outbound = d.outbound := by
  have htrying : d.phase = .trying → d.phase ≠ .pumping := fun h => by rw [h]; decide
  cases e with
  | noRelays =>
    simp only [dutyAfter, step] at hrest hpumping ⊢
    split_ifs at hrest hpumping ⊢
    exact ⟨hrest, hpumping, rfl⟩
  | idle =>
    simp only [dutyAfter, step] at hrest hpumping ⊢
    split_ifs at hpumping ⊢ with hidle
    · exact absurd ((phase_setStatus d _).symm.trans hpumping) (htrying hidle.1)
    · exact ⟨hrest, hpumping, rfl⟩
  | connected =>
    simp only [dutyAfter, step] at hrest hpumping ⊢
    split_ifs at hrest hpumping ⊢
    exact ⟨hrest, hpumping, rfl⟩
  | connectFailed =>
    simp only [dutyAfter, step] at hrest hpumping ⊢
    by_cases hfailed : d.phase = .trying ∧ d.urls ≠ []
    · rw [if_pos hfailed] at hpumping
      exact absurd ((phase_setStatus d _).symm.trans hpumping) (htrying hfailed.1)
    · rw [if_neg fun h => hfailed ⟨h.1, h.2.1⟩] at hrest
      rw [if_neg hfailed] at hpumping ⊢
      exact ⟨hrest, hpumping, rfl⟩
  | sent =>
    simp only [dutyAfter] at hrest
    split_ifs at hrest with hsent
    simp only [step] at hpumping ⊢
    split_ifs at hpumping ⊢ with hphase
    · have hempty : d.outbound = [] := by
        by_contra hqueued
        exact hsent ⟨hphase, hqueued⟩
      exact ⟨hrest, hphase, by rw [hempty]; rfl⟩
    · exact absurd hpumping hphase
  | ended superseded =>
    simp only [dutyAfter, step] at hrest hpumping ⊢
    split_ifs at hrest hpumping ⊢
    exact ⟨hrest, hpumping, rfl⟩
  | stopped =>
    simp only [dutyAfter, step] at hrest hpumping ⊢
    split_ifs at hrest hpumping ⊢
    exact ⟨hrest, hpumping, rfl⟩

end RelayDriver

theorem RelayClient.driver_step_eq (c : RelayClient) (book : Option TagBook) (now id k : ℕ)
    (e : DriverEvent) :
    (c.step book now id e).driver k =
      if k = id then (c.driver id).map fun d => d.step book now e else c.driver k := by
  unfold step
  cases hd : c.driver id with
  | none =>
    dsimp only
    split_ifs with hk
    · rw [hk, hd]
      rfl
    · rfl
  | some d => rw [driver_setDriver, Option.map_some]

/-! ### The set of wakers -/

section Wakers
variable {W : Type}

def registerWaker (id : ℕ) (waker : W) : List (ℕ × W) → List (ℕ × W)
  | [] => [(id, waker)]
  | entry :: wakers =>
    if entry.1 = id then (id, waker) :: wakers else entry :: registerWaker id waker wakers

def unregisterWaker (id : ℕ) (wakers : List (ℕ × W)) : List (ℕ × W) := wakers.filter (·.1 ≠ id)

theorem mem_registerWaker_self (id : ℕ) (waker : W) (wakers : List (ℕ × W)) :
    (id, waker) ∈ registerWaker id waker wakers := by
  induction wakers with
  | nil => exact List.mem_singleton_self _
  | cons entry wakers ih =>
    unfold registerWaker
    split_ifs
    · exact List.mem_cons_self
    · exact List.mem_cons_of_mem _ ih

theorem mem_registerWaker_of_ne {id k : ℕ} {waker w : W} {wakers : List (ℕ × W)} (hk : k ≠ id)
    (h : (k, w) ∈ wakers) : (k, w) ∈ registerWaker id waker wakers := by
  induction wakers with
  | nil => cases h
  | cons entry wakers ih =>
    unfold registerWaker
    rcases List.mem_cons.mp h with rfl | h
    · rw [if_neg hk]
      exact List.mem_cons_self
    · split_ifs
      · exact List.mem_cons_of_mem _ h
      · exact List.mem_cons_of_mem _ (ih h)

theorem mem_unregisterWaker {id k : ℕ} {w : W} {wakers : List (ℕ × W)} (hk : k ≠ id)
    (h : (k, w) ∈ wakers) : (k, w) ∈ unregisterWaker id wakers :=
  List.mem_filter.mpr ⟨h, decide_eq_true hk⟩

end Wakers

/-! ### Pollers -/

/-- How far a poller has come with its latest poll, and whether it was woken since it registered. -/
inductive PollStage (W : Type) where
  | idle
  -- The queue was full; the waker is registered next.
  | checked (waker : W)
  -- The waker is registered; the queue is checked again next.
  | registered (waker : W) (woken : Bool)
  -- The poll returned pending because of the queue of `driver`.
  | waiting (waker : W) (driver : ℕ) (woken : Bool)
deriving DecidableEq

namespace PollStage
variable {W : Type}

def polling : PollStage W → Bool
  | .checked _ => true
  | .registered _ _ => true
  | _ => false

def owed : PollStage W → Option W
  | .registered waker false => some waker
  | .waiting waker _ false => some waker
  | _ => none

variable [DecidableEq W]

def wake (wakers : List (ℕ × W)) (id : ℕ) : PollStage W → PollStage W
  | .registered waker woken => .registered waker (woken || (id, waker) ∈ wakers)
  | .waiting waker driver woken => .waiting waker driver (woken || (id, waker) ∈ wakers)
  | stage => stage

theorem owed_wake {stage : PollStage W} {wakers : List (ℕ × W)} {id : ℕ}
    (h : ∀ waker, stage.owed = some waker → (id, waker) ∈ wakers) :
    (stage.wake wakers id).owed = none := by
  cases stage with
  | idle => rfl
  | checked waker => rfl
  | registered waker woken =>
    cases woken with
    | true => rfl
    | false => simp [wake, owed, h waker rfl]
  | waiting waker driver woken =>
    cases woken with
    | true => rfl
    | false => simp [wake, owed, h waker rfl]

end PollStage

/-! ### Runs -/

inductive WakeEvent (W : Type) where
  | socket (e : Event)
  | settle (driver : ℕ)
  | createPoller
  | poll (id : ℕ) (waker : W) (udpReady : Poll)
  | register (id : ℕ)
  | recheck (id : ℕ)
  | dropPoller (id : ℕ)

structure Wakeups (W : Type) where
  socket : PathSocket
  wakers : List (ℕ × W)
  nextId : ℕ
  pollers : ℕ → Option (PollStage W)
  duty : ℕ → Duty

namespace Wakeups

section Step
variable {W : Type} (P : Primitives) (hostOf : String → Option String)

def start (s : PathSocket) : Wakeups W where
  socket := s
  wakers := []
  nextId := 0
  pollers := fun _ => none
  duty := fun _ => .rest

def setDuty (s : Wakeups W) (id : ℕ) (duty : Duty) : Wakeups W :=
  { s with duty := Function.update s.duty id duty }

def setStage (s : Wakeups W) (id : ℕ) (stage : Option (PollStage W)) : Wakeups W :=
  { s with pollers := Function.update s.pollers id stage }

def driverStep (s : Wakeups W) (id : ℕ) (e : DriverEvent) : Wakeups W :=
  match s.socket.relay.driver id with
  | some d =>
    if (s.duty id).admits e then
      { s with socket := s.socket.step P hostOf (.driver id e) }.setDuty id
        (d.dutyAfter s.socket.book s.socket.now (s.duty id) e)
    else s
  | none => s

def poll (s : Wakeups W) (id : ℕ) (waker : W) (udpReady : Poll) : Wakeups W :=
  if s.socket.udp ∧ udpReady ≠ .ready then s.setStage id (some .idle)
  else if s.socket.hasCapacity then s.setStage id (some .idle)
  else s.setStage id (some (.checked waker))

def register (s : Wakeups W) (id : ℕ) (waker : W) : Wakeups W :=
  { s.setStage id (some (.registered waker false)) with wakers := registerWaker id waker s.wakers }

def recheck (s : Wakeups W) (id : ℕ) (waker : W) (woken : Bool) : Wakeups W :=
  match s.socket.blockedOn with
  | some driver =>
    if s.socket.hasCapacity then s.setStage id (some .idle)
    else s.setStage id (some (.waiting waker driver woken))
  | none => s.setStage id (some .idle)

def dropPoller (s : Wakeups W) (id : ℕ) : Wakeups W :=
  { s.setStage id none with wakers := unregisterWaker id s.wakers }

variable [DecidableEq W]

def wakeAll (s : Wakeups W) : Wakeups W :=
  { s with wakers := [], pollers := fun id => (s.pollers id).map (PollStage.wake s.wakers id) }

def settle (s : Wakeups W) (id : ℕ) : Wakeups W :=
  match s.duty id with
  | .rest => s
  | .sending =>
    let s' := s.setDuty id .rest
    if (s.socket.relay.driver id).any RelayDriver.halfFree then s'.wakeAll else s'
  | .waking 0 => (s.setDuty id .rest).wakeAll
  | .waking (more + 1) => (s.setDuty id (.waking more)).wakeAll

def step (s : Wakeups W) : WakeEvent W → Wakeups W
  | .socket (.driver id e) => s.driverStep P hostOf id e
  | .socket e => { s with socket := s.socket.step P hostOf e }
  | .settle id => s.settle id
  | .createPoller => { s.setStage s.nextId (some .idle) with nextId := s.nextId + 1 }
  | .poll id waker udpReady =>
    match s.pollers id with
    | some stage => if stage.polling then s else s.poll id waker udpReady
    | none => s
  | .register id =>
    match s.pollers id with
    | some (.checked waker) => s.register id waker
    | _ => s
  | .recheck id =>
    match s.pollers id with
    | some (.registered waker woken) => s.recheck id waker woken
    | _ => s
  | .dropPoller id =>
    match s.pollers id with
    | some stage => if stage.polling then s else s.dropPoller id
    | none => s

/-- Without anything in between, a poll ends on a full queue exactly if `pollWritable` does. -/
theorem poll_uninterrupted {s : Wakeups W} {id : ℕ} {stage : PollStage W}
    (hstage : s.pollers id = some stage) (hpolling : stage.polling = false) (waker : W)
    (udpReady : Poll) (hudp : s.socket.udp = true → udpReady = .ready) :
    let s' := run (step P hostOf) s [.poll id waker udpReady, .register id, .recheck id]
    s'.socket = s.socket ∧
      ((∃ driver, s'.pollers id = some (.waiting waker driver false)) ↔
        s.socket.pollWritable udpReady = .pending) := by
  intro s'
  have hready : ¬ (s.socket.udp = true ∧ udpReady ≠ .ready) := fun h => h.2 (hudp h.1)
  have hpending : s.socket.pollWritable udpReady = .pending ↔ s.socket.hasCapacity = false := by
    unfold PathSocket.pollWritable
    rw [if_neg fun h => hready ⟨h.1, by rw [h.2]; decide⟩,
      if_neg fun h => hready ⟨h.1, by rw [h.2]; decide⟩]
    cases s.socket.hasCapacity <;> decide
  rw [hpending]
  have hpolled : step P hostOf s (.poll id waker udpReady) = s.poll id waker udpReady := by
    simp only [step, hstage, hpolling, Bool.false_eq_true, if_false]
  have hsteps : s' = step P hostOf (step P hostOf (s.poll id waker udpReady) (.register id))
      (.recheck id) := by rw [← hpolled]; rfl
  rw [hsteps]
  cases hcapacity : s.socket.hasCapacity with
  | true =>
    have hidle : s.poll id waker udpReady = s.setStage id (some .idle) := by
      rw [poll, if_neg hready, if_pos hcapacity]
    rw [hidle]
    simp [step, setStage]
  | false =>
    obtain ⟨driver, -, hblocked, -, -⟩ := PathSocket.hasCapacity_eq_false.mp hcapacity
    have hchecked : s.poll id waker udpReady = s.setStage id (some (.checked waker)) := by
      rw [poll, if_neg hready, hcapacity, if_neg nofun]
    rw [hchecked]
    simp [step, setStage, register, recheck, hblocked, hcapacity]

end Step

/-! ### What a waiting poller can rely on -/

section Sound
variable {W : Type} {P : Primitives} {hostOf : String → Option String} {s : Wakeups W}

def Registered (s : Wakeups W) : Prop :=
  ∀ id stage waker, s.pollers id = some stage → stage.owed = some waker → (id, waker) ∈ s.wakers

def Queued (s : Wakeups W) : Prop :=
  ∀ id waker k d, s.pollers id = some (.waiting waker k false) →
    s.socket.relay.driver k = some d → d.phase = .pumping → s.duty k = .rest → d.outbound ≠ []

structure Sound (s : Wakeups W) : Prop where
  registered : s.Registered
  queued : s.Queued

theorem sound_start (socket : PathSocket) : (start socket : Wakeups W).Sound :=
  ⟨nofun, nofun⟩

theorem Sound.setStage (h : s.Sound) {id : ℕ} {stage : Option (PollStage W)} {wakers : List (ℕ × W)}
    (hothers : ∀ k waker, k ≠ id → (k, waker) ∈ s.wakers → (k, waker) ∈ wakers)
    (howed : ∀ waker, stage.bind PollStage.owed = some waker → (id, waker) ∈ wakers)
    (hqueue : ∀ waker k d, stage = some (.waiting waker k false) →
      s.socket.relay.driver k = some d → d.outbound ≠ []) :
    Sound { s.setStage id stage with wakers := wakers } := by
  have hstage : ∀ k found, (s.setStage id stage).pollers k = some found →
      k = id ∧ stage = some found ∨ k ≠ id ∧ s.pollers k = some found := by
    intro k found hfound
    unfold Wakeups.setStage at hfound
    dsimp only at hfound
    rw [Function.update_apply] at hfound
    split_ifs at hfound with hk
    · exact Or.inl ⟨hk, hfound⟩
    · exact Or.inr ⟨hk, hfound⟩
  constructor
  · intro k found waker hfound hwaker
    rcases hstage k found hfound with ⟨rfl, rfl⟩ | ⟨hk, hbefore⟩
    · exact howed waker hwaker
    · exact hothers k waker hk (h.registered k found waker hbefore hwaker)
  · intro k waker driver d hfound hd
    rcases hstage k _ hfound with ⟨rfl, hnow⟩ | ⟨-, hbefore⟩
    · exact fun _ _ => hqueue waker driver d hnow hd
    · exact h.queued k waker driver d hbefore hd

theorem Sound.idle (h : s.Sound) (id : ℕ) : (s.setStage id (some .idle)).Sound :=
  h.setStage (fun _ _ _ hmem => hmem) nofun nofun

theorem Sound.poll (h : s.Sound) (id : ℕ) (waker : W) (udpReady : Poll) :
    (s.poll id waker udpReady).Sound := by
  unfold Wakeups.poll
  split_ifs
  · exact h.idle id
  · exact h.idle id
  · exact h.setStage (fun _ _ _ hmem => hmem) nofun nofun

theorem Sound.register (h : s.Sound) (id : ℕ) (waker : W) : (s.register id waker).Sound := by
  refine h.setStage (fun k w hk hmem => mem_registerWaker_of_ne hk hmem) (fun w hw => ?_) nofun
  cases hw
  exact mem_registerWaker_self id waker s.wakers

theorem Sound.recheck (h : s.Sound) {id : ℕ} {waker : W} {woken : Bool}
    (hstage : s.pollers id = some (.registered waker woken)) :
    (s.recheck id waker woken).Sound := by
  unfold Wakeups.recheck
  cases hblocked : s.socket.blockedOn with
  | none => exact h.idle id
  | some driver =>
    dsimp only
    split_ifs with hcapacity
    · exact h.idle id
    refine h.setStage (fun _ _ _ hmem => hmem) (fun w hw => ?_) (fun w k d hwaiting hd => ?_)
    · cases woken with
      | true => cases hw
      | false => exact h.registered id _ w hstage hw
    · cases hwaiting
      rw [Bool.not_eq_true, PathSocket.hasCapacity_eq_false] at hcapacity
      obtain ⟨blocking, full, hblocking, hfull, hcapacity⟩ := hcapacity
      cases hblocked.symm.trans hblocking
      cases hfull.symm.trans hd
      exact RelayDriver.outbound_ne_nil_of_full hcapacity

theorem Sound.dropPoller (h : s.Sound) (id : ℕ) : (s.dropPoller id).Sound :=
  h.setStage (fun _ _ hk hmem => mem_unregisterWaker hk hmem) nofun nofun

theorem pump_kept {socket : PathSocket} {e : Event} (he : ∀ id de, e ≠ .driver id de) {k : ℕ}
    {d' : RelayDriver} (hd' : (socket.step P hostOf e).relay.driver k = some d')
    (hpumping : d'.phase = .pumping) :
    ∃ d, socket.relay.driver k = some d ∧ d.phase = .pumping ∧ d.outbound <+: d'.outbound := by
  by_cases hsend : e.isSend = false
  · rcases PathSocket.driver_step hsend hd' with
      ⟨d, hd, rfl | ⟨-, rfl⟩ | ⟨de, heq, -⟩⟩ | ⟨urls, rfl⟩
    · exact ⟨d', hd, hpumping, List.prefix_rfl⟩
    · exact ⟨d, hd, hpumping, List.prefix_rfl⟩
    · exact absurd heq (he k de)
    · cases hpumping
  · cases e with
    | trySend destination contents result =>
      obtain ⟨d, hd, frames, rfl⟩ := PathSocket.driver_trySend hd'
      exact ⟨d, hd, hpumping, List.prefix_append _ _⟩
    | _ => exact absurd rfl hsend

theorem Sound.socket_step (h : s.Sound) {e : Event} (he : ∀ id de, e ≠ .driver id de) :
    Sound { s with socket := s.socket.step P hostOf e } := by
  refine ⟨h.registered, fun id waker k d' hwaiting hd' hpumping hrest hempty => ?_⟩
  obtain ⟨d, hd, hphase, houtbound⟩ := pump_kept he hd' hpumping
  rw [hempty, List.prefix_nil] at houtbound
  exact h.queued id waker k d hwaiting hd hphase hrest houtbound

theorem Sound.driverStep (h : s.Sound) (id : ℕ) (e : DriverEvent) :
    (s.driverStep P hostOf id e).Sound := by
  unfold Wakeups.driverStep
  cases hd : s.socket.relay.driver id with
  | none => exact h
  | some d =>
    dsimp only
    split_ifs with hadmits
    · refine ⟨h.registered, fun i waker k d' hwaiting hd' hpumping hrest => ?_⟩
      replace hd' : (s.socket.relay.step s.socket.book s.socket.now id e).driver k = some d' := hd'
      rw [RelayClient.driver_step_eq, hd, Option.map_some] at hd'
      split_ifs at hd' with hk
      · subst hk
        obtain rfl := Option.some.inj hd'
        replace hrest := (Function.update_self k _ s.duty).symm.trans hrest
        obtain ⟨hduty, hphase, houtbound⟩ := RelayDriver.step_of_rest hrest hpumping
        rw [houtbound]
        exact h.queued i waker k d hwaiting hd hphase hduty
      · replace hrest := (Function.update_of_ne hk _ s.duty).symm.trans hrest
        exact h.queued i waker k d' hwaiting hd' hpumping hrest
    · exact h

variable [DecidableEq W]

theorem sound_wakeAll (h : s.Registered) : s.wakeAll.Sound := by
  have howed : ∀ id stage, s.wakeAll.pollers id = some stage → stage.owed = none := by
    intro id stage hstage
    obtain ⟨before, hbefore, rfl⟩ := Option.map_eq_some_iff.mp hstage
    exact PollStage.owed_wake fun waker => h id before waker hbefore
  constructor
  · intro id stage waker hstage hwaker
    rw [howed id stage hstage] at hwaker
    cases hwaker
  · intro id waker k d hwaiting
    exact absurd (howed id _ hwaiting) nofun

theorem Sound.settle (h : s.Sound) (id : ℕ) : (s.settle id).Sound := by
  unfold Wakeups.settle
  cases hduty : s.duty id with
  | rest => exact h
  | waking more => cases more <;> exact sound_wakeAll h.registered
  | sending =>
    dsimp only
    split_ifs with hhalf
    · exact sound_wakeAll h.registered
    · -- more than half of the queue is still to be sent
      refine ⟨h.registered, fun i waker k d hwaiting hd hpumping hrest => ?_⟩
      by_cases hk : k = id
      · subst hk
        replace hd : s.socket.relay.driver k = some d := hd
        rw [hd, Option.any_some, Bool.not_eq_true] at hhalf
        exact RelayDriver.outbound_ne_nil_of_not_halfFree hhalf
      · replace hrest := (Function.update_of_ne hk _ s.duty).symm.trans hrest
        exact h.queued i waker k d hwaiting hd hpumping hrest

theorem Sound.step (h : s.Sound) (e : WakeEvent W) : (s.step P hostOf e).Sound := by
  cases e with
  | socket e =>
    cases e with
    | driver id e => exact h.driverStep id e
    | _ => exact h.socket_step nofun
  | settle id => exact h.settle id
  | createPoller =>
    have hidle := h.idle s.nextId
    exact ⟨hidle.registered, hidle.queued⟩
  | poll id waker udpReady =>
    simp only [Wakeups.step]
    split
    · split_ifs
      · exact h
      · exact h.poll id waker udpReady
    · exact h
  | register id =>
    simp only [Wakeups.step]
    split
    · exact h.register id _
    · exact h
  | recheck id =>
    simp only [Wakeups.step]
    split
    · next hstage => exact h.recheck hstage
    · exact h
  | dropPoller id =>
    simp only [Wakeups.step]
    split
    · split_ifs
      · exact h
      · exact h.dropPoller id
    · exact h

end Sound

/-- When the queue of a pump is empty and the pump has nothing to do, every poller whose latest poll
returned pending because of that queue has been woken. -/
theorem no_lost_wakeup {W : Type} [DecidableEq W] (P : Primitives) (hostOf : String → Option String)
    (nodeId : NodeId) (udp : Bool) (udpLocal : SocketAddr) (relays : List String)
    (book : Option TagBook) (reflector : Option SocketAddr) (now unixNow : ℕ)
    (es : List (WakeEvent W)) :
    let s := run (Wakeups.step P hostOf)
      (start (PathSocket.assemble nodeId udp udpLocal relays book reflector now unixNow)) es
    ∀ k d, s.socket.relay.driver k = some d → d.phase = .pumping → d.outbound = [] →
      s.duty k = .rest → ∀ id waker woken, s.pollers id = some (.waiting waker k woken) →
        woken = true := by
  intro s k d hd hpumping hempty hrest id waker woken hwaiting
  have hsound : s.Sound :=
    Runs.invariant (Wakeups.step P hostOf) (sound_start _) (fun _ e h => h.step e) es
  cases woken with
  | true => rfl
  | false => exact absurd hempty (hsound.queued id waker k d hwaiting hd hpumping hrest)

def fillAndDrain (p : NodeId) : List (WakeEvent Unit) :=
  [.socket (.registerPeer p), .socket (.driver 0 .connected), .settle 0] ++
    List.replicate 65 (.socket (.trySend (p.syntheticAddr Primitives.standIn) [0] .ok)) ++
    [.createPoller, .poll 0 () .ready, .register 0, .recheck 0] ++
    (List.replicate 64 [.socket (.driver 0 .sent), .settle 0]).flatten

theorem no_lost_wakeup_drained :
    let s := run (Wakeups.step Primitives.standIn fun _ => none)
      (start (PathSocket.assemble ⟨List.Vector.replicate 32 0⟩ true
        (.v4 (List.Vector.replicate 4 0) 0) ["wss://relay.example"] none none 0 0))
      (fillAndDrain ⟨List.Vector.replicate 32 1⟩)
    s.socket.relay.home.phase = .pumping ∧ s.socket.relay.home.outbound = [] ∧ s.duty 0 = .rest ∧
      s.pollers 0 = some (.waiting () 0 true) := by
  intro s
  obtain ⟨hpumping, hempty, hrest, woken, hwaiting⟩ : s.socket.relay.home.phase = .pumping ∧
      s.socket.relay.home.outbound = [] ∧ s.duty 0 = .rest ∧
      ∃ woken, s.pollers 0 = some (.waiting () 0 woken) := by decide +kernel
  have hall := no_lost_wakeup Primitives.standIn (fun _ => none) ⟨List.Vector.replicate 32 0⟩ true
    (.v4 (List.Vector.replicate 4 0) 0) ["wss://relay.example"] none none 0 0
    (fillAndDrain ⟨List.Vector.replicate 32 1⟩)
  have hs : s = run _ _ _ := rfl
  clear_value s
  dsimp only at hall
  rw [← hs] at hall
  have hwoken := hall 0 _ (RelayClient.driver_zero _) hpumping hempty hrest 0 () woken hwaiting
  rw [hwoken] at hwaiting
  exact ⟨hpumping, hempty, hrest, hwaiting⟩

end Wakeups

end ForgeswornLink
