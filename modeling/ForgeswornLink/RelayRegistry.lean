import ForgeswornLink.Relay

/-!
# The registry of the relay

What the relay knows of its sessions apart from their queues is a `Registry`: the
two maps, the next session ID and the stage of every session. `Move` lists what
one event can do to it, and `move_step` says that nothing else happens.
-/

namespace ForgeswornLink
open ByteString Runs

structure Registry where
  sessions : Table NodeId ℕ
  tags : Seats.Chart Tag ℕ
  nextSessionId : ℕ
  stages : ℕ → Option RelayStage

namespace Registry

def modeOf (g : Registry) (id : ℕ) : Option Mode := (g.stages id).bind RelayStage.mode?

def tagsOf (g : Registry) (id : ℕ) : Option (List Tag) := (g.stages id).bind RelayStage.tags?

def holders (g : Registry) (tag : Tag) : List ℕ := Seats.holders g.tags tag

end Registry

namespace Relay
variable (P : Primitives) (config : RelayConfig)

def registry (r : Relay) : Registry := ⟨r.sessions, r.tags, r.nextSessionId, r.stageOf⟩

def registration (r : Relay) : RelayEvent → Option (ℕ × List Tag)
  | .enter id =>
    match r.stageOf id with
    | some (.opening _ first) =>
      match decodeBinary first with
      | some (.register tags) => if tags = [] then none else some (id, tags)
      | _ => none
    | _ => none
  | .receive id message _ =>
    match r.serving.lookup id with
    | some s =>
      match s.stage, s.deliveries, decodeBinary message with
      | .routing (.tags _), [], some (.register next) => some (id, next)
      | _, _, _ => none
    | none => none
  | _ => none

inductive Move (r : Relay) : RelayEvent → Registry → Prop
  | still {e : RelayEvent} (hreg : r.registration e = none) : Move r e r.registry
  | arrive {source : IpAddr} {challenge : Block 32} {first : Message} :
      Move r (.arrive source challenge first)
        { r.registry with
          nextSessionId := r.nextSessionId + 1
          stages := Function.update r.stageOf r.nextSessionId (some (.opening challenge first)) }
  | refuse {id : ℕ} {challenge : Block 32} {first : Message}
      (hstage : r.stageOf id = some (.opening challenge first))
      (hreg : r.registration (.enter id) = none) :
      Move r (.enter id) { r.registry with stages := Function.update r.stageOf id none }
  | authenticate {id : ℕ} {challenge : Block 32} {first : Message} {nodeId : NodeId}
      {signature : Block 64} (hstage : r.stageOf id = some (.opening challenge first))
      (hfirst : decodeBinary first = some (.auth nodeId signature))
      (hok : ∃ host ∈ config.hosts, verifyRelayAuth P nodeId host challenge signature = true) :
      Move r (.enter id)
        { r.registry with
          sessions := r.sessions.insert nodeId id
          stages := Function.update r.stageOf id (some (.routing (.identity nodeId))) }
  | register {id : ℕ} {challenge : Block 32} {first : Message} {next : List Tag}
      (hstage : r.stageOf id = some (.opening challenge first))
      (hreg : r.registration (.enter id) = some (id, next)) :
      Move r (.enter id)
        { r.registry with
          tags := (Seats.register tagEnds id [] next r.tags).1
          stages := Function.update r.stageOf id (some (.routing (.tags next))) }
  | replace {id : ℕ} {message : Message} {allowed : Bool} {current next : List Tag}
      (hstage : r.stageOf id = some (.routing (.tags current)))
      (hreg : r.registration (.receive id message allowed) = some (id, next)) :
      Move r (.receive id message allowed)
        { r.registry with
          tags := (Seats.register tagEnds id current next r.tags).1
          stages := Function.update r.stageOf id (some (.routing (.tags next))) }
  | leave {e : RelayEvent} {id : ℕ} {mode : Mode} (hstage : r.stageOf id = some (.routing mode))
      (hreg : r.registration e = none) :
      Move r e { r.registry with stages := Function.update r.stageOf id (some (.leaving mode)) }
  | forget {id : ℕ} {nodeId : NodeId} (hstage : r.stageOf id = some (.leaving (.identity nodeId))) :
      Move r (.cleanUp id)
        { r.registry with
          sessions := if r.sessions.lookup nodeId = some id then r.sessions.erase nodeId
            else r.sessions
          stages := Function.update r.stageOf id none }
  | retire {id : ℕ} {current : List Tag} (hstage : r.stageOf id = some (.leaving (.tags current))) :
      Move r (.cleanUp id)
        { r.registry with
          tags := (Seats.register tagEnds id current [] r.tags).1
          stages := Function.update r.stageOf id none }

section Views
variable (r : Relay) (id : ℕ)

theorem stageOf_of_lookup {r : Relay} {id : ℕ} {s : RelaySession}
    (h : r.serving.lookup id = some s) :
    r.stageOf id = some s.stage := by
  simp [stageOf, h]

theorem registry_put (s : RelaySession) :
    (r.put id s).registry =
      { r.registry with stages := Function.update r.stageOf id (some s.stage) } := by
  have hstage : (r.put id s).stageOf = Function.update r.stageOf id (some s.stage) := by
    funext j
    unfold stageOf
    rw [lookup_put]
    by_cases hj : j = id
    · simp [hj]
    · simp [hj]
  unfold registry
  rw [hstage]
  rfl

theorem registry_put_of_stage {s : RelaySession} (h : r.stageOf id = some s.stage) :
    (r.put id s).registry = r.registry := by
  rw [registry_put, ← h, Function.update_eq_self]
  rfl

theorem registry_alter (f : RelaySession → RelaySession) (hf : ∀ s, (f s).stage = s.stage) :
    (r.alter id f).registry = r.registry := by
  cases hs : r.serving.lookup id with
  | none => simp only [alter, hs]
  | some s =>
    simp only [alter, hs]
    apply registry_put_of_stage
    rw [hf, stageOf_of_lookup hs]

theorem registry_trySend (frame : Frame) : (r.trySend id frame).registry = r.registry := by
  apply registry_alter
  intro s
  unfold RelaySession.enqueue
  split <;> rfl

theorem registry_supersede (ids : List ℕ) : (r.supersede ids).registry = r.registry := by
  induction ids generalizing r with
  | nil => rfl
  | cons i ids ih => exact (ih _).trans (registry_trySend r i _)

theorem registry_registerTags (current next : List Tag) :
    (r.registerTags id current next).registry =
      { r.registry with tags := (Seats.register tagEnds id current next r.tags).1 } :=
  registry_supersede _ _

theorem registry_setStage {old : RelayStage} (h : r.stageOf id = some old) (stage : RelayStage) :
    (r.setStage id stage).registry =
      { r.registry with stages := Function.update r.stageOf id (some stage) } := by
  obtain ⟨s, hs, -⟩ := Option.map_eq_some_iff.mp h
  simp only [setStage, alter, hs]
  exact registry_put r id _

theorem registry_finish (s : RelaySession) :
    (r.finish id s).registry =
      { r.registry with stages := Function.update r.stageOf id none } := by
  have hstage : (r.finish id s).stageOf = Function.update r.stageOf id none := by
    funext j
    simp only [stageOf, finish, Table.lookup_erase_ite]
    by_cases hj : j = id
    · simp [hj]
    · simp [hj, stageOf]
  unfold registry
  rw [hstage]
  rfl

end Views

variable {P config} {r : Relay}

theorem registration_enter_of_stage {id : ℕ} {st : RelayStage} (h : r.stageOf id = some st)
    (hst : ∀ challenge first tags, st = .opening challenge first →
      decodeBinary first = some (.register tags) → tags = []) :
    r.registration (.enter id) = none := by
  cases st with
  | routing mode => simp [registration, h]
  | leaving mode => simp [registration, h]
  | opening challenge first =>
    simp only [registration, h]
    split
    · rename_i tags hfirst
      rw [if_pos (hst challenge first tags rfl hfirst)]
    · rfl

theorem stageOf_registerTags (id : ℕ) (current next : List Tag) :
    (r.registerTags id current next).stageOf = r.stageOf :=
  congrArg Registry.stages (registry_registerTags r id current next)

theorem move_enter (id : ℕ) : Move P config r (.enter id) (r.enter P config id).registry := by
  cases hs : r.serving.lookup id with
  | none =>
    simp only [enter, hs]
    exact .still (by simp [registration, stageOf, hs])
  | some s =>
    have hstage := stageOf_of_lookup hs
    cases ho : s.stage with
    | routing mode =>
      simp only [enter, hs, ho]
      exact .still (registration_enter_of_stage hstage (by simp [ho]))
    | leaving mode =>
      simp only [enter, hs, ho]
      exact .still (registration_enter_of_stage hstage (by simp [ho]))
    | opening challenge first =>
      rw [ho] at hstage
      have hrefused (hno : ∀ tags, decodeBinary first = some (.register tags) → tags = []) :
          Move P config r (.enter id) (r.finish id s).registry := by
        rw [registry_finish]
        apply Move.refuse hstage
        apply registration_enter_of_stage hstage
        rintro _ _ tags ⟨⟩ hfirst
        exact hno tags hfirst
      simp only [enter, hs, ho]
      split
      · rename_i nodeId signature hfirst
        split
        · rename_i hok
          have hkept := registry_supersede { r with sessions := r.sessions.insert nodeId id }
            (r.sessions.lookup nodeId).toList
          have hst := congrArg Registry.stages hkept
          rw [authenticate, registry_setStage _ _ ((congrFun hst id).trans hstage), hkept]
          simp only [registry] at hst
          rw [hst]
          exact .authenticate hstage hfirst (by simpa using hok)
        · exact hrefused (by simp [hfirst])
      · rename_i tags hfirst
        split
        · rename_i hnil
          exact hrefused (by simp [hfirst, hnil])
        · rename_i hnil
          have hst := stageOf_registerTags (r := r) id [] tags
          rw [registry_setStage _ _ ((congrFun hst id).trans hstage), registry_registerTags, hst]
          exact .register hstage (by simp [registration, hstage, hfirst, hnil])
      · rename_i hregister
        exact hrefused fun tags hfirst => absurd hfirst (hregister tags)

theorem move_leave {e : RelayEvent} {id : ℕ} {mode : Mode}
    (hstage : r.stageOf id = some (.routing mode)) (hreg : r.registration e = none) :
    Move P config r e (r.setStage id (.leaving mode)).registry := by
  rw [registry_setStage _ _ hstage]
  exact .leave hstage hreg

theorem move_lookUp {e : RelayEvent} (id : ℕ) (found : List (ℕ × Frame))
    (hreg : r.registration e = none) :
    Move P config r e (r.alter id fun s => { s with deliveries := found }).registry := by
  rw [registry_alter]
  · exact .still hreg
  · exact fun _ => rfl

def renewal (id : ℕ) : Mode → Frame → Option (ℕ × List Tag)
  | .tags _, .register next => some (id, next)
  | _, _ => none

theorem move_route {id : ℕ} {s : RelaySession} {mode : Mode} {message : Message} {frame : Frame}
    (hs : r.serving.lookup id = some s) (hmode : s.stage = .routing mode)
    (hidle : s.deliveries = []) (hframe : decodeBinary message = some frame) (allowed : Bool) :
    Move P config r (.receive id message allowed) (r.route id mode frame allowed).registry := by
  have hstage : r.stageOf id = some (.routing mode) := by rw [stageOf_of_lookup hs, hmode]
  have hreg : r.registration (.receive id message allowed) = renewal id mode frame := by
    cases mode <;> cases frame <;> simp [registration, renewal, hs, hmode, hidle, hframe]
  unfold route
  split
  · split
    · exact move_lookUp id _ hreg
    · exact .still hreg
  · split
    · exact move_lookUp id _ hreg
    · exact .still hreg
  · rename_i next current
    have hst := stageOf_registerTags (r := r) id current next
    rw [registry_setStage _ _ ((congrFun hst id).trans hstage), registry_registerTags, hst]
    exact .replace hstage hreg
  · cases mode <;> exact .still hreg
  · cases mode <;> exact .still hreg
  · apply move_leave hstage
    cases mode <;> cases frame <;> simp_all [renewal]

theorem move_receive (id : ℕ) (message : Message) (allowed : Bool) :
    Move P config r (.receive id message allowed) (r.receive id message allowed).registry := by
  cases hs : r.serving.lookup id with
  | none =>
    simp only [receive, hs]
    exact .still (by simp [registration, hs])
  | some s =>
    simp only [receive, hs]
    split
    · rename_i mode hmode hidle
      have hstage : r.stageOf id = some (.routing mode) := by rw [stageOf_of_lookup hs, hmode]
      split
      · exact .still (by simp [registration, hs, decodeBinary])
      · exact .still (by simp [registration, hs, decodeBinary])
      · exact move_leave hstage (by simp [registration, hs, decodeBinary])
      · split
        · rename_i hframe
          exact move_leave hstage (by simp [registration, hs, hframe])
        · rename_i frame hframe
          exact move_route hs hmode hidle hframe allowed
    · rename_i hbusy
      refine .still ?_
      simp only [registration, hs]
      split
      · rename_i hmode hidle _
        exact absurd hidle (hbusy _ hmode)
      · rfl

theorem move_deliver (id : ℕ) : Move P config r (.deliver id) (r.deliver id).registry := by
  have hstill : Move P config r (.deliver id) r.registry := .still rfl
  cases hs : r.serving.lookup id with
  | none => simpa only [deliver, hs] using hstill
  | some s =>
    cases hd : s.deliveries with
    | nil => simpa only [deliver, hs, hd] using hstill
    | cons d rest =>
      simp only [deliver, hs, hd]
      rw [registry_trySend, registry_put_of_stage]
      · exact hstill
      · rw [stageOf_of_lookup hs]

theorem move_drain (id : ℕ) (written : Bool) :
    Move P config r (.drain id written) (r.drain id written).registry := by
  have hstill : Move P config r (.drain id written) r.registry := .still rfl
  cases hs : r.serving.lookup id with
  | none => simpa only [drain, hs] using hstill
  | some s =>
    simp only [drain, hs]
    split
    · rename_i mode frame rest hmode _ _
      have hstage : r.stageOf id = some (.routing mode) := by rw [stageOf_of_lookup hs, hmode]
      generalize (written && !frame.isClose) = goesOn
      cases goesOn with
      | true =>
        rw [registry_put_of_stage _ _ (by simpa using hstage)]
        exact hstill
      | false =>
        rw [registry_put]
        exact .leave hstage rfl
    · exact hstill

variable (P config r) in
theorem move_step (e : RelayEvent) : Move P config r e (r.step P config e).registry := by
  cases e with
  | accept source =>
    simp only [step, accept]
    split
    · exact .still rfl
    · split <;> exact .still rfl
  | hangUp source =>
    simp only [step, hangUp]
    split <;> exact .still rfl
  | arrive source challenge first =>
    simp only [step, arrive]
    split
    · rw [registry_put]
      exact .arrive
    · exact .still rfl
  | enter id => exact move_enter id
  | receive id message allowed => exact move_receive id message allowed
  | deliver id => exact move_deliver id
  | drain id written => exact move_drain id written
  | leave id =>
    simp only [step, Relay.leave]
    split
    · rename_i s hs
      split
      · rename_i mode hmode _
        exact move_leave (by rw [stageOf_of_lookup hs, hmode]) rfl
      · exact .still rfl
    · exact .still rfl
  | cleanUp id =>
    simp only [step, cleanUp]
    split
    · rename_i s hs
      have hstage := stageOf_of_lookup hs
      split
      · rename_i nodeId hmode
        rw [registry_finish]
        exact .forget (by rw [hstage, hmode])
      · rename_i current hmode
        rw [registry_finish, registry_registerTags, stageOf_registerTags]
        exact .retire (by rw [hstage, hmode])
      · exact .still rfl
    · exact .still rfl
  | settle source =>
    simp only [step, settle]
    split <;> exact .still rfl

end Relay
end ForgeswornLink
