import ForgeswornLink.RouteReplacement

/-!
# A pairing result reloads

`pair_route` accepts the card of an answer as a first arrival: no serial was seen
before, and the clock is read when the answer comes. What it hands to the host is
verified again under another context, just after the serial of the card itself and at
the time that was retained. Only the rule on serials reads the difference, and a card
that was new at serial zero has a positive serial. So the record is accepted wherever
a record is read: by `verify_route`, by a start and by an upsert under a new ID.
-/

namespace ForgeswornLink
open Runs ByteString OrderedChecks

theorem pred_lt {serial : UInt64} (h : serial ≠ 0) : serial - 1 < serial := by
  have hpos : serial.toNat ≠ 0 := fun hzero => h (UInt64.toNat_inj.mp hzero)
  have hlt := serial.toNat_lt
  have hone : (1 : UInt64).toNat = 1 := rfl
  rw [UInt64.lt_iff_toNat_lt, UInt64.toNat_sub, hone]
  omega

theorem Card.verify_afterSerial {P : Primitives} {bytes : List UInt8} {now : UInt64}
    {expected : NodeId} {card : Card}
    (h : verify P bytes ((VerifyContext.new now).expecting expected) = .ok card) :
    card.serial ≠ 0 ∧ card.nodeId = expected ∧
      verify P bytes (((VerifyContext.new now).expecting expected).afterSerial (card.serial - 1)) =
        .ok card := by
  simp only [verify, bind_eq_ok, deny_eq_ok, exists_const, Prod.exists] at h ⊢
  obtain ⟨hmin, hmax, hmagic, hversion, hcount, offset, hints, hparse, hoffset, hone, hsig, hissued,
    hlive, hafter, hlifetime, hserial, hexpected, hcard⟩ := h
  obtain rfl := (Except.ok.inj hcard).symm
  have hpositive : be64 (slice bytes 53 61) ≠ 0 := by
    intro hzero
    rw [hzero] at hserial
    exact hserial (UInt64.le_refl _)
  refine ⟨hpositive, ?_, hmin, hmax, hmagic, hversion, hcount, offset, hints, hparse, hoffset, hone,
    hsig, hissued, hlive, hafter, hlifetime, ?_, hexpected, rfl⟩
  · by_contra hother
    exact hexpected (decide_eq_true fun hsame => hother hsame.symm)
  · exact UInt64.not_le.mpr (pred_lt hpositive)

namespace Engine
variable {P : Primitives} {hostOf : String → Option String} {e : Engine}

theorem verifyRoute_enrolled {enrolment : Enrolment} {card : Card} {held : Block 32} {now : UInt64}
    (hname : enrolment.routeId ≠ "")
    (h : Card.verify P card.asBytes ((VerifyContext.new now).expecting enrolment.serverNode) =
      .ok card) :
    verifyRoute P (enrolled enrolment card held now) = .ok (card.nodeId, card) := by
  obtain ⟨hpositive, hnode, hagain⟩ := Card.verify_afterSerial h
  rw [← hnode] at hagain
  have hread := (node_of_verify h).1
  simp only [verifyRoute, enrolled, bind_eq_ok]
  exact ⟨(), deny_eq_ok.mpr hname, card.nodeId, hread, (), deny_eq_ok.mpr hpositive, card,
    verifyCard_eq_ok.mpr hagain, (), deny_eq_ok.mpr fun hne => hne rfl, rfl⟩

/-! ### Enrolments -/

inductive EnrolmentMove (P : Primitives) (e : Engine) : EngineEvent → Table ℕ Enrolment → Prop where
  | kept {event} : EnrolmentMove P e event e.enrolments
  | begun {bundle now draw read session enrolment} (hread : readBundle P bundle now = .ok read)
      (hid : enrolment.routeId = bundle.routeId) :
      EnrolmentMove P e (.pairRoute bundle now draw) (e.enrolments.insert session enrolment)
  | staged {event session found enrolment stage}
      (hlookup : e.enrolments.lookup found = some enrolment) :
      EnrolmentMove P e event (e.enrolments.insert session { enrolment with stage := stage })
  | ended {event} (session : ℕ) : EnrolmentMove P e event (e.enrolments.erase session)

theorem enrolmentMove_pairRoute (bundle : PairingBundle) (now : UInt64) (draw : NodeId) :
    EnrolmentMove P e (.pairRoute bundle now draw)
      (e.pairRoute P hostOf bundle now draw).next.enrolments := by
  unfold pairRoute
  cases hread : readBundle P bundle now with
  | error error => exact .kept
  | ok read =>
    dsimp only
    split_ifs
    any_goals exact .kept
    split
    · exact .kept
    · exact .begun hread rfl

theorem enrolmentMove_pairingAnswered (session : ℕ) (answer : Answer) :
    EnrolmentMove P e (.pairingAnswered session answer)
      (e.pairingAnswered P session answer).next.enrolments := by
  unfold pairingAnswered
  cases hlookup : e.enrolments.lookup session with
  | none => exact .kept
  | some enrolment =>
    dsimp only
    cases enrolment.stage with
    | connected =>
      dsimp only
      split_ifs
      · exact .kept
      · cases readAnswer P enrolment answer with
        | error error => exact .ended session
        | ok read => exact .staged hlookup
    | _ => exact .kept

theorem enrolmentMove_pairingStopped (session : ℕ) :
    EnrolmentMove P e (.pairingStopped session) (e.pairingStopped session).next.enrolments := by
  unfold pairingStopped
  cases e.enrolments.lookup session with
  | none => exact .kept
  | some enrolment =>
    dsimp only
    split_ifs
    · cases enrolment.stage with
      | dialling => exact .ended session
      | connected => exact .ended session
      | answered card held now => exact .kept
    · exact .kept

theorem enrolmentMove_installPairing (session : ℕ) :
    EnrolmentMove P e (.installPairing session) (e.installPairing session).next.enrolments := by
  unfold installPairing
  cases e.enrolments.lookup session with
  | none => exact .kept
  | some enrolment =>
    dsimp only
    cases enrolment.stage with
    | answered card held now =>
      dsimp only
      split_ifs
      · exact .kept
      · exact .ended session
      cases e.routes.lookup enrolment.routeId with
      | none => exact .ended session
      | some existing =>
        dsimp only
        split_ifs <;> exact .ended session
    | _ => exact .kept

theorem enrolmentMove_beside (event : EndpointEvent) :
    EnrolmentMove P e (.endpoint event) (e.beside P hostOf event).next.enrolments := by
  unfold beside
  by_cases hbeside : event.isBeside = false
  · rw [if_pos hbeside]
    exact .kept
  rw [if_neg hbeside]
  cases event.dial with
  | none => exact .kept
  | some session =>
    dsimp only
    by_cases habandoned : session ∈ e.abandoned
    · rw [if_pos habandoned]
      exact .kept
    rw [if_neg habandoned]
    cases e.lock.filter fun d => d.session = session with
    | some d =>
      dsimp only
      split_ifs
      · exact .kept
      · split <;> exact .kept
    | none =>
      cases hlookup : e.enrolments.lookup session with
      | none => exact .kept
      | some enrolment =>
        dsimp only
        split_ifs
        · exact .kept
        · split
          · exact .staged hlookup
          · exact .ended session
          · exact .kept

theorem enrolments_streamCall (call : StreamCall) (routeId : String) :
    (e.streamCall P hostOf call routeId).next.enrolments = e.enrolments := by
  unfold streamCall
  split_ifs
  · rfl
  · rfl
  cases e.routes.lookup routeId with
  | none => rfl
  | some route =>
    dsimp only
    cases call.check route.node with
    | error error => rfl
    | ok _ =>
      dsimp only
      cases e.cached route call with
      | some session => rfl
      | none =>
        dsimp only
        unfold dial
        split_ifs
        · rfl
        · dsimp only
          split <;> rfl

theorem enrolments_giveUp (why : GiveUp) : (e.giveUp why).next.enrolments = e.enrolments := by
  unfold giveUp
  cases e.lock with
  | none => rfl
  | some d =>
    cases why with
    | stopped =>
      dsimp only
      split_ifs <;> rfl
    | timedOut =>
      dsimp only
      split_ifs <;> rfl
    | dropped => rfl

theorem enrolments_upsertRoute (route : Route) :
    (e.upsertRoute P route).next.enrolments = e.enrolments := by
  unfold upsertRoute
  cases verifyRoute P route with
  | error error => rfl
  | ok found =>
    cases secret route.pairedRouteSecret with
    | error error => rfl
    | ok held =>
      dsimp only
      split_ifs
      · rfl
      · rfl
      cases e.routes.lookup route.routeId with
      | none => rfl
      | some existing =>
        dsimp only
        split_ifs <;> rfl

theorem enrolments_removeRoute (routeId : String) :
    (e.removeRoute routeId).next.enrolments = e.enrolments := by
  unfold removeRoute
  split_ifs
  · rfl
  · rfl
  cases e.routes.lookup routeId <;> rfl

theorem enrolmentMove_turn (e : Engine) (event : EngineEvent) :
    EnrolmentMove P e event (e.turn P hostOf event).next.enrolments := by
  cases event with
  | endpoint event => exact enrolmentMove_beside event
  | pairRoute bundle now draw => exact enrolmentMove_pairRoute bundle now draw
  | pairingAnswered session answer => exact enrolmentMove_pairingAnswered session answer
  | pairingStopped session => exact enrolmentMove_pairingStopped session
  | installPairing session => exact enrolmentMove_installPairing session
  | stream call routeId =>
    rw [turn, enrolments_streamCall]
    exact .kept
  | giveUp why =>
    rw [turn, enrolments_giveUp]
    exact .kept
  | upsertRoute route =>
    rw [turn, enrolments_upsertRoute]
    exact .kept
  | removeRoute routeId =>
    rw [turn, enrolments_removeRoute]
    exact .kept
  | stop => exact .kept
  | _ =>
    simp only [turn]
    split_ifs <;> exact .kept

/-- `pair_route` refuses a bundle without a route ID before it does anything else. -/
def Named (e : Engine) : Prop :=
  ∀ session enrolment, e.enrolments.lookup session = some enrolment → enrolment.routeId ≠ ""

theorem readBundle_named {bundle : PairingBundle} {now : UInt64}
    {read : ℕ × Block 16 × NodeId × Card} (h : readBundle P bundle now = .ok read) :
    bundle.routeId ≠ "" := by
  simp only [readBundle, bind_eq_ok, deny_eq_ok] at h
  obtain ⟨_, hname, -⟩ := h
  exact hname

theorem Named.step (h : e.Named) (event : EngineEvent) : (e.step P hostOf event).Named := by
  intro session enrolment hlookup
  have hmove : EnrolmentMove P e event (e.step P hostOf event).enrolments :=
    enrolmentMove_turn e event
  generalize (e.step P hostOf event).enrolments = next at hmove hlookup
  cases hmove with
  | kept => exact h session enrolment hlookup
  | begun hread hid =>
    rw [Table.lookup_insert_ite] at hlookup
    split_ifs at hlookup
    · rw [← Option.some.inj hlookup, hid]
      exact readBundle_named hread
    · exact h session enrolment hlookup
  | @staged _ _ found before stage hbefore =>
    rw [Table.lookup_insert_ite] at hlookup
    split_ifs at hlookup
    · rw [← Option.some.inj hlookup]
      exact h found before hbefore
    · exact h session enrolment hlookup
  | ended erased =>
    rw [Table.lookup_erase_ite] at hlookup
    split_ifs at hlookup
    exact h session enrolment hlookup

theorem answers_run {udp : Bool} {config : EngineConfig} {now unixNow : ℕ} {start : Engine}
    (hstart : Engine.start P udp config now unixNow = .ok start) (es : List EngineEvent) :
    (run (Engine.step P hostOf) start es).Named ∧
      VerifiedAnswers P (run (Engine.step P hostOf) start es).enrolments := by
  obtain ⟨seed, routes, paired, -, -, rfl⟩ := start_eq_ok hstart
  refine invariant (step P hostOf) (I := fun e : Engine => e.Named ∧ VerifiedAnswers P e.enrolments)
    ⟨fun _ _ hlookup => ?_, fun _ _ _ _ _ hlookup => ?_⟩ (fun e event h => ?_) es
  · cases hlookup
  · cases hlookup
  · exact ⟨h.1.step event, (moves_turn e event).verified h.2⟩

theorem installed_enrolled {session : ℕ} {route : Route}
    (h : (e.installPairing session).reply = some (.installed route)) :
    ∃ enrolment card held now, e.enrolments.lookup session = some enrolment ∧
      enrolment.stage = .answered card held now ∧ route = enrolled enrolment card held now ∧
      (e.installPairing session).next.routes.lookup route.routeId =
        some ⟨card.nodeId, card.serial, card, none⟩ := by
  unfold installPairing at h ⊢
  cases hlookup : e.enrolments.lookup session with
  | none =>
    rw [hlookup] at h
    cases h
  | some enrolment =>
    rw [hlookup] at h
    dsimp only at h ⊢
    cases hstage : enrolment.stage with
    | dialling =>
      rw [hstage] at h
      cases h
    | connected =>
      rw [hstage] at h
      cases h
    | answered card held now =>
      rw [hstage] at h
      dsimp only at h ⊢
      split_ifs at h ⊢ with hlock hstopped
      · cases h
      · cases h
      cases hold : e.routes.lookup enrolment.routeId with
      | none =>
        rw [hold] at h
        cases h
        exact ⟨enrolment, card, held, now, rfl, hstage, rfl, AList.lookup_insert _⟩
      | some existing =>
        rw [hold] at h
        dsimp only at h ⊢
        split_ifs at h ⊢ with hnode hserial
        · cases h
        · cases h
        · cases h
          exact ⟨enrolment, card, held, now, rfl, hstage, rfl, AList.lookup_insert _⟩

/-! ### Where a record is read -/

def Loads (P : Primitives) (route : Route) : Prop :=
  ∃ found held, verifyRoute P route = .ok found ∧ secret route.pairedRouteSecret = .ok held

theorem loadRoute_eq_ok {loaded loaded' : Table String RouteState × Table NodeId (Block 32)}
    {route : Route} : loadRoute P loaded route = .ok loaded' ↔
      ∃ node card held, verifyRoute P route = .ok (node, card) ∧ route.routeId ∉ loaded.1 ∧
        secret route.pairedRouteSecret = .ok held ∧
        loaded' = (loaded.1.insert route.routeId ⟨node, route.cardSerial, card, none⟩,
          loaded.2.insert node held) := by
  simp only [loadRoute, bind_eq_ok, deny_eq_ok, exists_const, Prod.exists]
  constructor
  · rintro ⟨node, card, hverify, hnew, held, hsecret, hloaded⟩
    exact ⟨node, card, held, hverify, hnew, hsecret, (Except.ok.inj hloaded).symm⟩
  · rintro ⟨node, card, held, hverify, hnew, hsecret, rfl⟩
    exact ⟨node, card, hverify, hnew, held, hsecret, rfl⟩

theorem loads_iff {routes : List Route}
    {loaded : Table String RouteState × Table NodeId (Block 32)} :
    (∃ loaded', routes.foldlM (loadRoute P) loaded = .ok loaded') ↔
      (∀ route ∈ routes, Loads P route ∧ route.routeId ∉ loaded.1) ∧
        (routes.map Route.routeId).Nodup := by
  induction routes generalizing loaded with
  | nil => exact ⟨fun _ => ⟨nofun, List.nodup_nil⟩, fun _ => ⟨loaded, rfl⟩⟩
  | cons route routes ih =>
    simp only [List.foldlM_cons, bind_eq_ok, List.forall_mem_cons, List.map_cons, List.nodup_cons]
    constructor
    · rintro ⟨loaded', next, hload, hrest⟩
      obtain ⟨node, card, held, hverify, hnew, hsecret, rfl⟩ := loadRoute_eq_ok.mp hload
      obtain ⟨hall, hnodup⟩ := ih.mp ⟨loaded', hrest⟩
      have hfresh : ∀ other ∈ routes, other.routeId ≠ route.routeId ∧ other.routeId ∉ loaded.1 := by
        intro other hother
        have hinsert := (hall other hother).2
        rw [AList.mem_insert, not_or] at hinsert
        exact hinsert
      refine ⟨⟨⟨⟨_, held, hverify, hsecret⟩, hnew⟩, fun other hother => ?_⟩, ?_, hnodup⟩
      · exact ⟨(hall other hother).1, (hfresh other hother).2⟩
      · intro hmem
        obtain ⟨other, hother, hid⟩ := List.mem_map.mp hmem
        exact (hfresh other hother).1 hid
    · rintro ⟨⟨⟨⟨⟨node, card⟩, held, hverify, hsecret⟩, hnew⟩, hall⟩, hdistinct, hnodup⟩
      have hload := loadRoute_eq_ok.mpr ⟨node, card, held, hverify, hnew, hsecret, rfl⟩
      have hfresh : ∀ other ∈ routes, Loads P other ∧
          other.routeId ∉ loaded.1.insert route.routeId ⟨node, route.cardSerial, card, none⟩ := by
        intro other hother
        rw [AList.mem_insert, not_or]
        refine ⟨(hall other hother).1, fun hid => hdistinct ?_, (hall other hother).2⟩
        exact List.mem_map.mpr ⟨other, hother, hid⟩
      obtain ⟨loaded', hrest⟩ := (@ih (_, loaded.2.insert node held)).mpr ⟨hfresh, hnodup⟩
      exact ⟨loaded', _, hload, hrest⟩

theorem starts_iff {udp : Bool} {config : EngineConfig} {now unixNow : ℕ} :
    (∃ e, start P udp config now unixNow = .ok e) ↔
      (block? 32 config.transportSeed).isSome ∧ (∀ route ∈ config.routes, Loads P route) ∧
        (config.routes.map Route.routeId).Nodup := by
  have hloads : (∃ loaded, config.routes.foldlM (loadRoute P) (∅, ∅) = .ok loaded) ↔
      (∀ route ∈ config.routes, Loads P route) ∧ (config.routes.map Route.routeId).Nodup := by
    refine loads_iff.trans (and_congr_left' ?_)
    exact ⟨fun h route hroute => (h route hroute).1,
      fun h route hroute => ⟨h route hroute, AList.notMem_empty _⟩⟩
  rw [← hloads]
  constructor
  · rintro ⟨e, hstart⟩
    obtain ⟨seed, routes, paired, hseed, hfold, -⟩ := start_eq_ok hstart
    exact ⟨by rw [hseed]; rfl, (routes, paired), hfold⟩
  · rintro ⟨hseed, loaded, hfold⟩
    obtain ⟨seed, hseed⟩ := Option.isSome_iff_exists.mp hseed
    rw [start, hseed]
    dsimp only
    rw [hfold]
    exact ⟨_, rfl⟩

theorem lookup_loaded {routes : List Route}
    {loaded loaded' : Table String RouteState × Table NodeId (Block 32)}
    (h : routes.foldlM (loadRoute P) loaded = .ok loaded') :
    (∀ id ∉ routes.map Route.routeId, loaded'.1.lookup id = loaded.1.lookup id) ∧
      ∀ route ∈ routes, ∃ node card, verifyRoute P route = .ok (node, card) ∧
        loaded'.1.lookup route.routeId = some ⟨node, route.cardSerial, card, none⟩ := by
  induction routes generalizing loaded with
  | nil =>
    cases h
    exact ⟨fun _ _ => rfl, nofun⟩
  | cons route routes ih =>
    have hdistinct : route.routeId ∉ routes.map Route.routeId :=
      (List.nodup_cons.mp (loads_iff.mp ⟨loaded', h⟩).2).1
    rw [List.foldlM_cons, bind_eq_ok] at h
    obtain ⟨next, hload, hrest⟩ := h
    obtain ⟨node, card, held, hverify, hnew, hsecret, rfl⟩ := loadRoute_eq_ok.mp hload
    obtain ⟨hkept, hrows⟩ := ih hrest
    refine ⟨fun id hid => ?_, fun other hother => ?_⟩
    · rw [List.map_cons, List.mem_cons, not_or] at hid
      rw [hkept id hid.2, AList.lookup_insert_ne hid.1]
    · rcases List.mem_cons.mp hother with rfl | hother
      · exact ⟨node, card, hverify, by rw [hkept _ hdistinct, AList.lookup_insert]⟩
      · exact hrows other hother

theorem lookup_start {udp : Bool} {config : EngineConfig} {now unixNow : ℕ}
    (h : start P udp config now unixNow = .ok e) {route : Route} (hroute : route ∈ config.routes)
    {node : NodeId} {card : Card} (hverify : verifyRoute P route = .ok (node, card)) :
    e.routes.lookup route.routeId = some ⟨node, route.cardSerial, card, none⟩ := by
  obtain ⟨seed, routes, paired, -, hfold, rfl⟩ := start_eq_ok h
  obtain ⟨node', card', hverify', hlookup⟩ := (lookup_loaded hfold).2 route hroute
  obtain ⟨rfl, rfl⟩ := Prod.mk.inj (Except.ok.inj (hverify.symm.trans hverify'))
  exact hlookup

theorem upsertRoute_fresh {route : Route} {node : NodeId} {card : Card} {held : Block 32}
    (hverify : verifyRoute P route = .ok (node, card))
    (hsecret : secret route.pairedRouteSecret = .ok held) (hlock : e.lock = none)
    (hrunning : e.stopped = false) (hfresh : e.routes.lookup route.routeId = none) :
    (e.upsertRoute P route).reply = some (.installed route) ∧
      (e.upsertRoute P route).next.routes.lookup route.routeId =
        some ⟨node, route.cardSerial, card, none⟩ := by
  rw [upsertRoute, hverify, hsecret]
  dsimp only
  rw [hlock, hrunning, hfresh]
  exact ⟨rfl, AList.lookup_insert _⟩

theorem starts_with_iff {route : Route} (h : Loads P route) {udp : Bool} {config : EngineConfig}
    {before after : List Route} (hroutes : config.routes = before ++ route :: after)
    {now unixNow : ℕ} :
    (∃ e, start P udp config now unixNow = .ok e) ↔
      (∃ e, start P udp { config with routes := before ++ after } now unixNow = .ok e) ∧
        route.routeId ∉ (before ++ after).map Route.routeId := by
  have hperm : (before ++ route :: after).Perm (route :: (before ++ after)) := List.perm_middle
  have hids : (config.routes.map Route.routeId).Nodup ↔
      route.routeId ∉ (before ++ after).map Route.routeId ∧
        ((before ++ after).map Route.routeId).Nodup := by
    rw [hroutes, (hperm.map Route.routeId).nodup_iff, List.map_cons, List.nodup_cons]
  have hall : (∀ other ∈ config.routes, Loads P other) ↔ ∀ other ∈ before ++ after,
      Loads P other := by
    rw [hroutes]
    constructor
    · exact fun hloads other hother => hloads other
        (hperm.mem_iff.mpr (List.mem_cons_of_mem _ hother))
    · intro hloads other hother
      rcases List.mem_cons.mp (hperm.mem_iff.mp hother) with rfl | hother
      · exact h
      · exact hloads other hother
  rw [starts_iff, starts_iff, hids, hall]
  tauto

/-- What `pair_route` returns in any run is accepted wherever a record is read, with the node and
the card it was installed with: by `verify_route`, which has no clock, by a start over routes
with other IDs, and by an upsert under an ID that is not taken. -/
theorem pairing_result_reloads (P : Primitives) (hostOf : String → Option String) (udp : Bool)
    (config : EngineConfig) (now unixNow : ℕ) {start : Engine}
    (hstart : Engine.start P udp config now unixNow = .ok start) (es : List EngineEvent)
    (session : ℕ) (route : Route)
    (hreply : ((run (step P hostOf) start es).turn P hostOf (.installPairing session)).reply =
      some (.installed route)) :
    ∃ node card,
      let row : RouteState := ⟨node, route.cardSerial, card, none⟩
      ((run (step P hostOf) start es).step P hostOf (.installPairing session)).routes.lookup
        route.routeId = some row ∧
      verifyRoute P route = .ok (node, card) ∧
      (∀ udp config before after now unixNow, config.routes = before ++ route :: after →
        ((∃ e, Engine.start P udp config now unixNow = .ok e) ↔
          (∃ e, Engine.start P udp { config with routes := before ++ after } now unixNow = .ok e) ∧
            route.routeId ∉ (before ++ after).map Route.routeId) ∧
        ∀ e, Engine.start P udp config now unixNow = .ok e →
          e.routes.lookup route.routeId = some row) ∧
      ∀ e : Engine, e.lock = none → e.stopped = false → e.routes.lookup route.routeId = none →
        (e.turn P hostOf (.upsertRoute route)).reply = some (.installed route) ∧
          (e.step P hostOf (.upsertRoute route)).routes.lookup route.routeId = some row := by
  obtain ⟨hnamed, hverified⟩ := @answers_run P hostOf _ _ _ _ _ hstart es
  obtain ⟨enrolment, card, held, verifiedAt, hlookup, hstage, rfl, hinstalled⟩ :=
    installed_enrolled hreply
  have hverify : verifyRoute P (enrolled enrolment card held verifiedAt) =
      .ok (card.nodeId, card) :=
    verifyRoute_enrolled (hnamed session enrolment hlookup)
      (hverified session enrolment card held verifiedAt hlookup hstage)
  have hsecret : secret (enrolled enrolment card held verifiedAt).pairedRouteSecret = .ok held :=
    secret_toList held
  refine ⟨card.nodeId, card, hinstalled, hverify, ?_, ?_⟩
  · intro udp config before after now unixNow hroutes
    refine ⟨starts_with_iff ⟨_, held, hverify, hsecret⟩ hroutes, fun e he => ?_⟩
    refine lookup_start he ?_ hverify
    rw [hroutes]
    exact List.mem_append_right _ List.mem_cons_self
  · intro e hlock hrunning hfresh
    exact upsertRoute_fresh hverify hsecret hlock hrunning hfresh

def noRoutes : EngineConfig := ⟨List.replicate 32 9, ["wss://relay"], false, []⟩

def redeem (card : List UInt8) : List EngineEvent :=
  [.endpoint (.environment (.driver 0 .connected)),
    .pairRoute ⟨"a", card, List.replicate 16 3, 160⟩ 150 ⟨List.Vector.replicate 32 4⟩,
    .endpoint (.rendezvous 0 0 .started),
    .endpoint (.dialled 0 (.done (some ⟨List.Vector.replicate 32 1⟩) none
      (some (List.Vector.replicate 16 5)) 0)),
    .pairingAnswered 0 (.frame (List.Vector.replicate 32 6)
      (routeMagic ++ toBe 2 card.length ++ card) 150)]

theorem redeemed_bundle_reloads :
    ∃ e, Engine.start Primitives.standIn false noRoutes 0 0 = .ok e ∧
      let route := storedRoute "a" 1 6 7
      ((run (step Primitives.standIn some) e (redeem route.card)).turn Primitives.standIn some
        (.installPairing 0)).reply = some (.installed route) ∧
      ∃ found, verifyRoute Primitives.standIn route = .ok found := by
  obtain ⟨e, hstart, hreply⟩ : ∃ e, Engine.start Primitives.standIn false noRoutes 0 0 = .ok e ∧
      ((run (step Primitives.standIn some) e (redeem (storedRoute "a" 1 6 7).card)).turn
        Primitives.standIn some (.installPairing 0)).reply =
          some (.installed (storedRoute "a" 1 6 7)) :=
    exists_ok_of_any (by decide +kernel)
  obtain ⟨node, card, -, hverify, -⟩ :=
    pairing_result_reloads Primitives.standIn some false noRoutes
    0 0 hstart _ 0 _ hreply
  exact ⟨e, hstart, hreply, _, hverify⟩

end Engine

end ForgeswornLink
