import ForgeswornLink.RelayNotices

/-!
# Queues of the relay

What one event can do to the receivers a session has found (`DeliveryMove`) and
to the frames it has queued (`Queues`). Receivers are found only by reading a
datagram, `LooksUp`; frames are queued only as notices or by handing a datagram
over.
-/

namespace ForgeswornLink
open ByteString Runs

namespace Relay
variable {P : Primitives} {config : RelayConfig}

def reads (r : Relay) : RelayEvent → Option ℕ
  | .receive id _ _ =>
    match r.serving.lookup id with
    | some s =>
      match s.stage, s.deliveries with
      | .routing _, [] => some id
      | _, _ => none
    | none => none
  | _ => none

theorem reads_eq_some {r : Relay} {e : RelayEvent} {id : ℕ} (h : r.reads e = some id) :
    ∃ message allowed s mode, e = .receive id message allowed ∧ r.serving.lookup id = some s ∧
      s.stage = .routing mode ∧ s.deliveries = [] := by
  cases e with
  | receive j message allowed =>
    simp only [reads] at h
    split at h
    · rename_i s hs
      split at h
      · rename_i mode hmode hidle
        cases h
        exact ⟨message, allowed, s, mode, rfl, hs, hmode, hidle⟩
      · cases h
    · cases h
  | _ => simp [reads] at h

inductive LooksUp (r : Relay) (id target : ℕ) : RelayEvent → Frame → Prop
  | send {s : RelaySession} {source destination : NodeId} {datagram : List UInt8}
      {message : Message} (hs : r.serving.lookup id = some s)
      (hmode : s.stage = .routing (.identity source))
      (hframe : decodeBinary message = some (.send destination datagram))
      (htarget : r.sessions.lookup destination = some target) :
      LooksUp r id target (.receive id message true) (.recv source datagram)
  | sendTag {s : RelaySession} {current : List Tag} {tag : Tag} {datagram : List UInt8}
      {message : Message} (hs : r.serving.lookup id = some s)
      (hmode : s.stage = .routing (.tags current))
      (hframe : decodeBinary message = some (.sendTag tag datagram))
      (htarget : target ∈ r.registry.holders tag) (hother : target ≠ id) :
      LooksUp r id target (.receive id message true) (.recvTag tag datagram)

/-! ### The deliveries of a session -/

section Deliveries
variable (r : Relay) (id : ℕ)

def deliveriesOf : List (ℕ × Frame) := ((r.serving.lookup id).map RelaySession.deliveries).getD []

theorem deliveriesOf_of_lookup {r : Relay} {id : ℕ} {s : RelaySession}
    (h : r.serving.lookup id = some s) : r.deliveriesOf id = s.deliveries := by
  simp [deliveriesOf, h]

theorem deliveriesOf_put (j : ℕ) (t : RelaySession) :
    (r.put j t).deliveriesOf id = if id = j then t.deliveries else r.deliveriesOf id := by
  simp only [deliveriesOf, lookup_put]
  split <;> rfl

theorem deliveriesOf_alter (j : ℕ) (f : RelaySession → RelaySession)
    (hf : ∀ s, (f s).deliveries = s.deliveries) :
    (r.alter j f).deliveriesOf id = r.deliveriesOf id := by
  unfold deliveriesOf
  rw [lookup_alter]
  split
  · rw [Option.map_map]
    congr 2
    exact funext hf
  · rfl

@[simp] theorem deliveriesOf_trySend (target : ℕ) (frame : Frame) :
    (r.trySend target frame).deliveriesOf id = r.deliveriesOf id := by
  apply deliveriesOf_alter
  intro s
  unfold RelaySession.enqueue
  split <;> rfl

@[simp] theorem deliveriesOf_supersede (ids : List ℕ) :
    (r.supersede ids).deliveriesOf id = r.deliveriesOf id := by
  induction ids generalizing r with
  | nil => rfl
  | cons i ids ih => exact (ih _).trans (deliveriesOf_trySend r id i _)

@[simp] theorem deliveriesOf_setStage (j : ℕ) (stage : RelayStage) :
    (r.setStage j stage).deliveriesOf id = r.deliveriesOf id :=
  deliveriesOf_alter r id j _ fun _ => rfl

@[simp] theorem deliveriesOf_registerTags (j : ℕ) (current next : List Tag) :
    (r.registerTags j current next).deliveriesOf id = r.deliveriesOf id :=
  deliveriesOf_supersede _ id _

@[simp] theorem deliveriesOf_authenticate (j : ℕ) (nodeId : NodeId) :
    (r.authenticate j nodeId).deliveriesOf id = r.deliveriesOf id := by
  rw [authenticate, deliveriesOf_setStage, deliveriesOf_supersede]
  rfl

/-- What an event can do to the deliveries of session `id`. -/
inductive DeliveryMove (r : Relay) (id : ℕ) (e : RelayEvent) (after : List (ℕ × Frame)) : Prop
  | still (hother : e ≠ .deliver id) (hsame : after = r.deliveriesOf id)
  | gone (hother : e ≠ .deliver id) (hnone : after = [])
  | handed (hown : e = .deliver id) (htail : after = (r.deliveriesOf id).tail)
  | found (hreads : r.reads e = some id) (htwo : after.length ≤ 2)
      (hlooked : ∀ p ∈ after, r.LooksUp id p.1 e p.2)

section Moves
variable {r id}

theorem deliveryMove_finish {e : RelayEvent} (he : e ≠ .deliver id) (j : ℕ) (s : RelaySession)
    {r' : Relay} (hr : r'.deliveriesOf id = r.deliveriesOf id) :
    DeliveryMove r id e ((r'.finish j s).deliveriesOf id) := by
  by_cases hid : id = j
  · subst hid
    apply DeliveryMove.gone he
    simp [deliveriesOf, finish]
  · apply DeliveryMove.still he
    rw [← hr]
    simp only [deliveriesOf, finish, Table.lookup_erase_ite, if_neg hid]

theorem deliveryMove_enter (j : ℕ) :
    DeliveryMove r id (.enter j) ((r.enter P config j).deliveriesOf id) := by
  have hother : RelayEvent.enter j ≠ .deliver id := by simp
  unfold enter
  split
  · split
    · split
      · split
        · exact .still hother (deliveriesOf_authenticate r id _ _)
        · exact deliveryMove_finish hother _ _ rfl
      · split
        · exact deliveryMove_finish hother _ _ rfl
        · exact .still hother (by simp)
      · exact deliveryMove_finish hother _ _ rfl
    · exact .still hother rfl
  · exact .still hother rfl

theorem deliveryMove_route {j : ℕ} {s : RelaySession} {mode : Mode} {message : Message}
    {frame : Frame} (hsound : r.registry.Sound) (hs : r.serving.lookup j = some s)
    (hmode : s.stage = .routing mode) (hidle : s.deliveries = [])
    (hframe : decodeBinary message = some frame) (allowed : Bool) :
    DeliveryMove r id (.receive j message allowed)
      ((r.route j mode frame allowed).deliveriesOf id) := by
  have hother : RelayEvent.receive j message allowed ≠ .deliver id := by simp
  have hreads : r.reads (.receive j message allowed) = some j := by simp [reads, hs, hmode, hidle]
  have hfound (found : List (ℕ × Frame)) (htwo : found.length ≤ 2)
      (hlooked : ∀ p ∈ found, r.LooksUp j p.1 (.receive j message allowed) p.2) :
      DeliveryMove r id (.receive j message allowed)
        ((r.alter j fun s => { s with deliveries := found }).deliveriesOf id) := by
    simp only [alter, hs, deliveriesOf_put]
    by_cases hid : id = j
    · subst hid
      rw [if_pos rfl]
      exact .found hreads htwo hlooked
    · rw [if_neg hid]
      exact .still hother rfl
  unfold route
  split
  · rename_i destination datagram source
    split
    · rename_i hallowed
      subst hallowed
      apply hfound
      · cases r.sessions.lookup destination <;> simp
      · intro p hp
        obtain ⟨t, ht, rfl⟩ := List.mem_map.mp hp
        exact .send hs hmode hframe (Option.mem_toList.mp ht)
    · exact .still hother rfl
  · rename_i tag datagram current
    split
    · rename_i hallowed
      subst hallowed
      apply hfound
      · rw [List.length_map]
        exact (List.length_filter_le _ _).trans (hsound.rows.seated tag).length_le
      · intro p hp
        obtain ⟨t, ht, rfl⟩ := List.mem_map.mp hp
        obtain ⟨hin, hne⟩ := List.mem_filter.mp ht
        exact .sendTag hs hmode hframe hin (of_decide_eq_true hne)
    · exact .still hother rfl
  · exact .still hother (by simp)
  · exact .still hother rfl
  · exact .still hother rfl
  · exact .still hother (by simp)

theorem deliveryMove_receive (hsound : r.registry.Sound) (j : ℕ) (message : Message)
    (allowed : Bool) :
    DeliveryMove r id (.receive j message allowed)
      ((r.receive j message allowed).deliveriesOf id) := by
  have hother : RelayEvent.receive j message allowed ≠ .deliver id := by simp
  unfold receive
  split
  · rename_i s hs
    split
    · rename_i mode hmode hidle
      split
      · exact .still hother rfl
      · exact .still hother rfl
      · exact .still hother (by simp)
      · split
        · exact .still hother (by simp)
        · rename_i hframe
          exact deliveryMove_route hsound hs hmode hidle hframe allowed
    · exact .still hother rfl
  · exact .still hother rfl

theorem deliveriesOf_deliver (r : Relay) (id j : ℕ) :
    (r.deliver j).deliveriesOf id =
      if id = j then (r.deliveriesOf id).tail else r.deliveriesOf id := by
  unfold deliver
  split
  · rename_i s hs
    have hd := deliveriesOf_of_lookup hs
    split
    · rename_i hnil
      split
      · rename_i hid
        rw [hid, hd, hnil]
        rfl
      · rfl
    · rename_i target frame rest hcons
      rw [deliveriesOf_trySend, deliveriesOf_put]
      split
      · rename_i hid
        rw [hid, hd, hcons]
        rfl
      · rfl
  · rename_i hnone
    split
    · rename_i hid
      subst hid
      simp [deliveriesOf, hnone]
    · rfl

variable (P config id) in
theorem deliveryMove_step (hsound : r.registry.Sound) (e : RelayEvent) :
    DeliveryMove r id e ((r.step P config e).deliveriesOf id) := by
  cases e with
  | accept source =>
    apply DeliveryMove.still (by simp)
    simp only [step, accept]
    split
    · rfl
    · split <;> rfl
  | hangUp source =>
    apply DeliveryMove.still (by simp)
    simp only [step, hangUp]
    split <;> rfl
  | arrive source challenge first =>
    simp only [step, arrive]
    split
    · rw [deliveriesOf_put]
      split
      · exact .gone (by simp) rfl
      · exact .still (by simp) rfl
    · exact .still (by simp) rfl
  | enter j => exact deliveryMove_enter j
  | receive j message allowed => exact deliveryMove_receive hsound j message allowed
  | deliver j =>
    rw [step, deliveriesOf_deliver]
    by_cases hid : id = j
    · subst hid
      rw [if_pos rfl]
      exact .handed rfl rfl
    · rw [if_neg hid]
      exact .still (fun h => hid (by cases h; rfl)) rfl
  | drain j written =>
    apply DeliveryMove.still (by simp)
    simp only [step, drain]
    split
    · rename_i s hs
      split
      · rw [deliveriesOf_put]
        split
        · rename_i hid
          rw [hid, deliveriesOf_of_lookup hs]
        · rfl
      · rfl
    · rfl
  | leave j =>
    apply DeliveryMove.still (by simp)
    simp only [step, leave]
    split
    · split
      · exact deliveriesOf_setStage r id _ _
      · rfl
    · rfl
  | cleanUp j =>
    simp only [step, cleanUp]
    split
    · split
      · exact deliveryMove_finish (by simp) _ _ rfl
      · exact deliveryMove_finish (by simp) _ _ (deliveriesOf_registerTags r id _ _ _)
      · exact .still (by simp) rfl
    · exact .still (by simp) rfl
  | settle source =>
    apply DeliveryMove.still (by simp)
    simp only [step, settle]
    split <;> rfl

end Moves

end Deliveries

/-! ### The queues -/

def Hands (r : Relay) (id target : ℕ) (e : RelayEvent) (frame : Frame) : Prop :=
  e = .deliver id ∧ ∃ rest, r.deliveriesOf id = (target, frame) :: rest

def Queued (r : Relay) (q : ℕ) (frame : Frame) : Prop :=
  ∃ s, r.serving.lookup q = some s ∧ frame ∈ s.queue

def Queues (new : ℕ → Frame → Prop) (r r' : Relay) : Prop :=
  ∀ q f, r'.Queued q f → r.Queued q f ∨ new q f

section Queues
variable {r r' r'' : Relay} {new : ℕ → Frame → Prop}

theorem queues_of_serving (h : r'.serving = r.serving) : Queues new r r' := by
  rintro q f ⟨s, hs, hf⟩
  rw [h] at hs
  exact Or.inl ⟨s, hs, hf⟩

theorem Queues.trans (h : Queues new r r') (h' : Queues new r' r'') : Queues new r r'' :=
  fun q f hf => (h' q f hf).elim (h q f) Or.inr

theorem queues_put {id : ℕ} {t : RelaySession} (hq : ∀ f ∈ t.queue, r.Queued id f ∨ new id f) :
    Queues new r (r.put id t) := by
  rintro q f ⟨s, hs, hf⟩
  rw [lookup_put] at hs
  split at hs
  · rename_i hid
    cases hs
    subst hid
    exact hq f hf
  · exact Or.inl ⟨s, hs, hf⟩

theorem queues_alter {id : ℕ} {f : RelaySession → RelaySession}
    (hq : ∀ s, ∀ x ∈ (f s).queue, x ∈ s.queue ∨ new id x) : Queues new r (r.alter id f) := by
  cases hs : r.serving.lookup id with
  | none =>
    simp only [alter, hs]
    exact queues_of_serving rfl
  | some s =>
    simp only [alter, hs]
    apply queues_put
    exact fun x hx => (hq s x hx).imp (fun h => ⟨s, hs, h⟩) fun h => h

theorem queues_trySend {target : ℕ} {frame : Frame} (hnew : new target frame) :
    Queues new r (r.trySend target frame) := by
  apply queues_alter
  intro s x hx
  unfold RelaySession.enqueue at hx
  split at hx
  · rcases List.mem_append.mp hx with hx | hx
    · exact Or.inl hx
    · rw [List.mem_singleton.mp hx]
      exact Or.inr hnew
  · exact Or.inl hx

theorem queues_supersede (hnew : ∀ q, new q supersededNotice) (ids : List ℕ) :
    Queues new r (r.supersede ids) := by
  induction ids generalizing r with
  | nil => exact queues_of_serving rfl
  | cons i ids ih => exact (queues_trySend (hnew i)).trans ih

theorem queues_setStage (id : ℕ) (stage : RelayStage) : Queues new r (r.setStage id stage) :=
  queues_alter fun _ _ hx => Or.inl hx

theorem queues_registerTags (hnew : ∀ q, new q supersededNotice) (id : ℕ)
    (current next : List Tag) :
    Queues new r (r.registerTags id current next) := by
  refine Queues.trans ?_ (queues_supersede hnew _)
  exact queues_of_serving rfl

theorem queues_finish (id : ℕ) (s : RelaySession) : Queues new r (r.finish id s) := by
  rintro q f ⟨s', hs', hf⟩
  simp only [finish, Table.lookup_erase_ite] at hs'
  split at hs'
  · cases hs'
  · exact Or.inl ⟨s', hs', hf⟩

def Puts (r : Relay) (e : RelayEvent) (q : ℕ) (frame : Frame) : Prop :=
  frame = supersededNotice ∨ ∃ id, r.Hands id q e frame

theorem puts_notice (e : RelayEvent) (q : ℕ) : r.Puts e q supersededNotice := Or.inl rfl

theorem queues_enter (id : ℕ) : Queues (r.Puts (.enter id)) r (r.enter P config id) := by
  unfold enter
  split
  · split
    · split
      · split
        · refine Queues.trans ?_ (queues_setStage _ _)
          refine Queues.trans ?_ (queues_supersede (puts_notice _) _)
          exact queues_of_serving rfl
        · exact queues_finish _ _
      · split
        · exact queues_finish _ _
        · exact (queues_registerTags (puts_notice _) _ _ _).trans (queues_setStage _ _)
      · exact queues_finish _ _
    · exact queues_of_serving rfl
  · exact queues_of_serving rfl

theorem queues_route {e : RelayEvent} (id : ℕ) (mode : Mode) (frame : Frame) (allowed : Bool) :
    Queues (r.Puts e) r (r.route id mode frame allowed) := by
  unfold route
  split
  · split
    · exact queues_alter fun _ _ hx => Or.inl hx
    · exact queues_of_serving rfl
  · split
    · exact queues_alter fun _ _ hx => Or.inl hx
    · exact queues_of_serving rfl
  · exact (queues_registerTags (puts_notice _) _ _ _).trans (queues_setStage _ _)
  · exact queues_of_serving rfl
  · exact queues_of_serving rfl
  · exact queues_setStage _ _

theorem queues_receive (id : ℕ) (message : Message) (allowed : Bool) :
    Queues (r.Puts (.receive id message allowed)) r (r.receive id message allowed) := by
  unfold receive
  split
  · split
    · split
      · exact queues_of_serving rfl
      · exact queues_of_serving rfl
      · exact queues_setStage _ _
      · split
        · exact queues_setStage _ _
        · exact queues_route _ _ _ _
    · exact queues_of_serving rfl
  · exact queues_of_serving rfl

theorem queues_deliver (id : ℕ) : Queues (r.Puts (.deliver id)) r (r.deliver id) := by
  unfold deliver
  split
  · rename_i s hs
    split
    · exact queues_of_serving rfl
    · rename_i target frame rest hd
      have hhands : r.Puts (.deliver id) target frame :=
        Or.inr ⟨id, rfl, rest, by rw [deliveriesOf_of_lookup hs, hd]⟩
      refine Queues.trans ?_ (queues_trySend hhands)
      exact queues_put fun f hf => Or.inl ⟨s, hs, hf⟩
  · exact queues_of_serving rfl

theorem queues_drain {e : RelayEvent} (id : ℕ) (written : Bool) :
    Queues (r.Puts e) r (r.drain id written) := by
  unfold drain
  split
  · rename_i s hs
    split
    · rename_i hqueue
      apply queues_put
      intro f hf
      exact Or.inl ⟨s, hs, by rw [hqueue]; exact List.mem_cons_of_mem _ hf⟩
    · exact queues_of_serving rfl
  · exact queues_of_serving rfl

variable (P config r) in
theorem queues_step (e : RelayEvent) : Queues (r.Puts e) r (r.step P config e) := by
  cases e with
  | accept source =>
    simp only [step, accept]
    split
    · exact queues_of_serving rfl
    · split <;> exact queues_of_serving rfl
  | hangUp source =>
    simp only [step, hangUp]
    split <;> exact queues_of_serving rfl
  | arrive source challenge first =>
    simp only [step, arrive]
    split
    · refine Queues.trans ?_ (queues_put (by simp))
      exact queues_of_serving rfl
    · exact queues_of_serving rfl
  | enter id => exact queues_enter id
  | receive id message allowed => exact queues_receive id message allowed
  | deliver id => exact queues_deliver id
  | drain id written => exact queues_drain id written
  | leave id =>
    simp only [step, leave]
    split
    · split
      · exact queues_setStage _ _
      · exact queues_of_serving rfl
    · exact queues_of_serving rfl
  | cleanUp id =>
    simp only [step, cleanUp]
    split
    · split
      · refine Queues.trans ?_ (queues_finish _ _)
        exact queues_of_serving rfl
      · exact (queues_registerTags (puts_notice _) _ _ _).trans (queues_finish _ _)
      · exact queues_of_serving rfl
    · exact queues_of_serving rfl
  | settle source =>
    simp only [step, settle]
    split <;> exact queues_of_serving rfl

end Queues

end Relay
end ForgeswornLink
