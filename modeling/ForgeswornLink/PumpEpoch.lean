import ForgeswornLink.PumpUpdates

/-!
# The registered window and the epoch

The pump compares the epoch of a tick with the one it remembered, not with the
one its last registration was computed in. The two belong together for every
registration that the pump makes itself; for the registration of `connect` they
do only if the pump starts in the epoch in which `connect` computed it.
-/

namespace ForgeswornLink
open ByteString Runs Sections

def PumpEvent.reading? : PumpEvent → Option ℕ
  | .compute nowUnix => some nowUnix
  | .start nowUnix => some nowUnix
  | .tick nowUnix => some nowUnix
  | .note nowUnix => some nowUnix
  | .recvTag _ nowUnix => some nowUnix
  | _ => none

def Pump.Keeps (pump : Pump) : Prop :=
  match pump.stage with
  | .computing .connect nowUnix => nowUnix ≤ pump.clock
  | .computing (.refresh tick) nowUnix =>
    nowUnix ≤ pump.clock ∧ pump.lastEpoch = epochIndex tick ∧ epochIndex nowUnix = epochIndex tick
  | .computing .change nowUnix => nowUnix ≤ pump.clock ∧ pump.lastEpoch ≤ epochIndex nowUnix
  | .awaiting => ∃ r, pump.sent = some r ∧ r.computedAt ≤ pump.clock
  | .welcomed => ∃ r, pump.sent = some r ∧ r.computedAt ≤ pump.clock
  | .selecting =>
    ∃ r, pump.sent = some r ∧ r.computedAt ≤ pump.clock ∧ pump.lastEpoch ≤ epochIndex r.computedAt
  | .resolving =>
    ∃ r, pump.sent = some r ∧ r.computedAt ≤ pump.clock ∧ pump.lastEpoch ≤ epochIndex r.computedAt
  | .refreshing tick => pump.lastEpoch = epochIndex tick
  | .noted => pump.lastEpoch ≤ epochIndex pump.clock
  | _ => True

theorem epochIndex_mono {a b : ℕ} (h : a ≤ b) : epochIndex a ≤ epochIndex b :=
  Nat.div_le_div_right h

namespace TagClient
open SharedBook TagBook
variable {P : Primitives} {c : TagClient}

/-- Two readings that should be of one epoch: that of the registration of `connect` and that with
which the pump starts, and the two of a refresh tick. -/
def readings? (c : TagClient) (e : PumpEvent) : Option (ℕ × ℕ) :=
  match e, c.pump.stage with
  | .start nowUnix, .welcomed => c.pump.sent.map fun r => (r.computedAt, nowUnix)
  | .compute nowUnix, .refreshing tick => some (tick, nowUnix)
  | _, _ => none

/-- The clock does not go back, and readings that belong together are of one epoch. -/
def InEpoch (c : TagClient) (e : PumpEvent) : Prop :=
  (∀ nowUnix ∈ e.reading?, c.pump.clock ≤ nowUnix) ∧
    ∀ p ∈ c.readings? e, epochIndex p.1 = epochIndex p.2

instance (c : TagClient) (e : PumpEvent) : Decidable (InEpoch c e) :=
  inferInstanceAs (Decidable (_ ∧ _))

def CompletesTick (P : Primitives) (c : TagClient) (e : PumpEvent) (tick : ℕ) : Prop :=
  (c.step P e).pump.stage = .selecting ∧
    (e = .tick tick ∧ c.pump.stage = .selecting ∨
      ∃ nowUnix, e = .register true ∧ c.pump.stage = .computing (.refresh tick) nowUnix)

theorem keeps_step (h : c.pump.Keeps) {e : PumpEvent} (hin : InEpoch c e) :
    (c.step P e).pump.Keeps := by
  generalize hnext : c.step P e = next
  have hmoved : Moved P c e next := hnext ▸ moved_step P c e
  cases hmoved with
  | stays => exact h
  | works m hm => exact h
  | attempts relayHost hstage => trivial
  | computes cause nowUnix hasks =>
    have hclock : c.pump.clock ≤ nowUnix := hin.1 nowUnix rfl
    rcases hasks with ⟨hstage, rfl⟩ | ⟨tick, hstage, rfl⟩ | ⟨hstage, rfl⟩
    · exact le_refl nowUnix
    · rw [Pump.Keeps, hstage] at h
      have hone : epochIndex tick = epochIndex nowUnix :=
        hin.2 (tick, nowUnix) (by simp [readings?, hstage])
      exact ⟨le_refl nowUnix, h, hone.symm⟩
    · rw [Pump.Keeps, hstage] at h
      exact ⟨le_refl nowUnix, h.trans (epochIndex_mono hclock)⟩
  | registers cause nowUnix source tags hstage hthread =>
    rw [Pump.Keeps, hstage] at h
    cases cause with
    | connect => exact ⟨_, rfl, h⟩
    | refresh tick => exact ⟨_, rfl, h.1, by rw [h.2.1, h.2.2]⟩
    | change => exact ⟨_, rfl, h.1, h.2⟩
  | ends _ hends => trivial
  | welcomes hstage =>
    rw [Pump.Keeps, hstage] at h
    exact h
  | starts nowUnix hstage =>
    rw [Pump.Keeps, hstage] at h
    obtain ⟨r, hr, hread⟩ := h
    have hone : epochIndex r.computedAt = epochIndex nowUnix :=
      hin.2 (r.computedAt, nowUnix) (by simp [readings?, hstage, hr])
    exact ⟨r, hr, hread.trans (hin.1 nowUnix rfl), le_of_eq hone.symm⟩
  | refreshes nowUnix hstage => exact rfl
  | ticks nowUnix hstage hepoch =>
    rw [Pump.Keeps, hstage] at h
    obtain ⟨r, hr, hread, hremembered⟩ := h
    rw [Pump.Keeps, hstage]
    exact ⟨r, hr, hread.trans (hin.1 nowUnix rfl), hremembered⟩
  | notices hstage => trivial
  | notes nowUnix hstage => exact le_refl (epochIndex nowUnix)
  | receives tag nowUnix hstage =>
    rw [Pump.Keeps, hstage] at h
    obtain ⟨r, hr, hread, hremembered⟩ := h
    exact ⟨r, hr, hread.trans (hin.1 nowUnix rfl), hremembered⟩
  | resolves hstage hidle =>
    rw [Pump.Keeps, hstage] at h
    exact h

theorem tick_in_epoch (h : c.pump.Keeps) {e : PumpEvent} (hin : InEpoch c e) {tick : ℕ}
    (hdone : CompletesTick P c e tick) :
    ∃ r, (c.step P e).pump.sent = some r ∧ epochIndex r.computedAt = epochIndex tick := by
  obtain ⟨hselect, ⟨rfl, hstage⟩ | ⟨nowUnix, rfl, hstage⟩⟩ := hdone
  · rw [Pump.Keeps, hstage] at h
    obtain ⟨r, hr, hread, hremembered⟩ := h
    simp only [step, hstage, if_true] at hselect ⊢
    split at hselect
    · cases hselect
    · rename_i hdue
      rw [if_neg hdue]
      have hepoch : epochIndex tick = c.pump.lastEpoch := not_ne_iff.mp fun hne => hdue (Or.inl hne)
      refine ⟨r, hr, le_antisymm ?_ (hepoch.trans_le hremembered)⟩
      exact epochIndex_mono (hread.trans (hin.1 tick rfl))
  · rw [Pump.Keeps, hstage] at h
    have hsent : c.step P (.register true) = c ∨ ∃ source tags,
        c.step P (.register true) = c.register (.refresh tick) nowUnix source tags true := by
      simp only [step, hstage]
      split
      · rename_i hcause hthread
        cases hcause
        exact Or.inr ⟨_, _, rfl⟩
      · exact Or.inl rfl
    rcases hsent with hstep | ⟨source, tags, hstep⟩
    · rw [hstep, hstage] at hselect
      cases hselect
    · rw [hstep]
      exact ⟨_, rfl, h.2.2⟩

theorem window_eq {a b : ℕ} (h : epochIndex a = epochIndex b) : window a = window b := by
  simp only [window, h]

/-- In every run whose steps all keep to the epoch, a refresh tick that ends with the session up
leaves a registration of the epoch of that tick. -/
theorem registered_window_follows_epoch (P : Primitives) (peers : Table NodeId RendezvousPeer)
    (paired : Table NodeId (Block 32)) (es : List PumpEvent)
    (hes : Always (step P) InEpoch (opened peers paired) es) (pre : List PumpEvent) (e : PumpEvent)
    (post : List PumpEvent) (hsplit : es = pre ++ e :: post) (tick : ℕ)
    (htick : CompletesTick P (run (step P) (opened peers paired) pre) e tick) :
    let c := run (step P) (opened peers paired) (pre ++ [e])
    ∃ r, c.pump.sent = some r ∧ epochIndex r.computedAt = epochIndex tick ∧
      r.tags = r.source.holdings.flatMap fun h => (window tick).map
        (h.2.tag P c.pump.relayHost) := by
  intro c
  have hbefore : Always (step P) InEpoch (opened peers paired) pre := by
    rw [hsplit, always_append] at hes
    exact hes.1
  have hkeeps : (run (step P) (opened peers paired) pre).pump.Keeps :=
    invariant_of_always (step P) (I := fun c => c.pump.Keeps)
      (show (opened peers paired).pump.Keeps from trivial)
      (fun _ _ h hin => keeps_step h hin) hbefore
  obtain ⟨r, hr, hepoch⟩ := tick_in_epoch hkeeps (hes pre e post hsplit) htick
  have hc : c = (run (step P) (opened peers paired) pre).step P e := run_snoc (step P) _ pre e
  have hselect : c.pump.stage = .selecting := by
    rw [hc]
    exact htick.1
  obtain ⟨r', hr', htags, -⟩ :=
    (follows_run P peers paired (pre ++ [e])).sent_at hselect rfl
  rw [← hc, hr'] at hr
  cases hr
  refine ⟨r, hr', hepoch, ?_⟩
  rw [htags, registered, window_eq hepoch]

section Example

def tickAfterTheTurn : List PumpEvent :=
  addsPair 1 ++ [.attempt "relay", .compute 7100] ++ List.replicate 2 (.work (.go 0)) ++
    [.register true, .welcome, .start 7101, .tick 7101, .tick 7201, .compute 7201] ++
    List.replicate 2 (.work (.go 0))

theorem tick_after_the_turn_registers :
    let c := run (step .standIn) (opened ∅ ∅) (tickAfterTheTurn ++ [.register true])
    ∃ r, c.pump.sent = some r ∧ epochIndex r.computedAt = 2 := by
  intro c
  have htick : CompletesTick .standIn (run (step .standIn) (opened ∅ ∅) tickAfterTheTurn)
      (.register true) 7201 := ⟨by decide +kernel, Or.inr ⟨7201, rfl, by decide +kernel⟩⟩
  obtain ⟨r, hr, hepoch, -⟩ := registered_window_follows_epoch .standIn ∅ ∅
    (tickAfterTheTurn ++ [.register true]) (by decide +kernel) tickAfterTheTurn
    (.register true) [] rfl 7201 htick
  exact ⟨r, hr, hepoch⟩

def handshakeOverTheTurn : List PumpEvent :=
  addsPair 1 ++ [.attempt "relay", .compute 7199] ++ List.replicate 2 (.work (.go 0)) ++
    [.register true, .welcome, .start 7201]

theorem turn_during_handshake_is_missed :
    let c := run (step .standIn) (opened ∅ ∅) handshakeOverTheTurn
    CompletesTick .standIn c (.tick 7201) 7201 ∧
      (c.step .standIn (.tick 7201)).pump.sent.map (fun r => epochIndex r.computedAt) = some 1 ∧
      epochIndex 7201 = 2 := by
  intro c
  exact ⟨⟨by decide +kernel, Or.inl ⟨rfl, by decide +kernel⟩⟩, by decide +kernel, by decide⟩

end Example

end TagClient
end ForgeswornLink
