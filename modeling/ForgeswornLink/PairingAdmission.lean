import ForgeswornLink.SocketBook

/-!
# Admission of a pairing session

The accept loop reads the admission of a route twice: when a connection arrives,
and when the handshake is over and the live route is installed. In between the
admission may be dropped or expire. An arrival stands in its table from the first
reading to the second, so the two readings of a connection can be told from the
run, and each of them from the uses of the book before it.
-/

namespace ForgeswornLink
open Runs ByteString

namespace Endpoint

section Readings
variable {e : Endpoint} {route : NodeId}

theorem pairingActive_iff : e.pairingActive route = true ↔
    ∃ book admission, e.socket.book = some book ∧ (book.routeOf route).admission = some admission ∧
      e.socket.unixNow < admission.expiresAt := by
  unfold pairingActive
  cases e.socket.book with
  | none => simp
  | some book =>
    rw [Option.any_some, TagBook.pairingActive_snd, Option.isSome_iff_exists]
    simp [TagBook.expire, Option.filter_eq_some_iff]

theorem promote_spec (P : Primitives) {secret : Option (Block 16)} {generation : ℕ}
    {calls : List Event} (h : e.promote route secret generation = (calls, none)) :
    e.pairingActive route = true ∧ ∃ exported book, secret = some exported ∧
      calls = [.book (.promotePairing route exported generation e.socket.unixNow)] ∧
      e.socket.book = some book ∧
      ((book.promotePairing route exported generation e.socket.unixNow).1.routeOf route).live =
        some ⟨generation, exported⟩ := by
  unfold promote at h
  cases secret with
  | none => cases h
  | some exported =>
    unfold pairingActive
    cases hbook : e.socket.book with
    | none =>
      rw [hbook] at h
      cases h
    | some book =>
      rw [hbook] at h
      dsimp only at h
      obtain ⟨rfl, hnone⟩ := Prod.mk.inj h
      have hlet : (book.promotePairing route exported generation e.socket.unixNow).2 = true := by
        by_contra hnot
        rw [if_neg hnot] at hnone
        cases hnone
      have hactive := hlet
      rw [TagBook.promotePairing_snd] at hactive
      refine ⟨by rwa [Option.any_some, TagBook.pairingActive_snd], exported, book,
        rfl, rfl, rfl, ?_⟩
      have hinstalls : TagBook.Installs book route ⟨generation, exported⟩
          (.change (.promotePairing route exported generation e.socket.unixNow)) :=
        ⟨e.socket.unixNow, rfl, hlet⟩
      exact (TagBook.live_step (P := P) book route ⟨generation, exported⟩ _).mpr (Or.inl hinstalls)

end Readings

variable (P : Primitives) (hostOf : String → Option String)

/-- The route was registered for first contact, the registration was neither dropped nor found
expired since, and its time is not over. -/
def Standing (start : Endpoint) (es : List EndpointEvent) (route : NodeId) : Prop :=
  ∃ book admission, start.socket.book = some book ∧
    TagBook.Admitted P book (start.bookTrace P hostOf es) route admission ∧
    (run (step P hostOf) start es).socket.unixNow < admission.expiresAt

def TakenIn (start : Endpoint) (es pre : List EndpointEvent) (conn : ℕ) (route : NodeId) : Prop :=
  ∃ remote post, es = pre ++ .incoming remote conn .started :: post ∧
    conn ∉ (run (step P hostOf) start pre).arrivals ∧
    (run (step P hostOf) start pre).socket.inner.bySynthetic.lookup remote = some route ∧
    ∀ handshake, .arrived conn handshake ∉ post

variable {P hostOf} {e start : Endpoint} {es : List EndpointEvent} {conn : ℕ} {arrival : Arrival}
  {event : EndpointEvent}

theorem pairingActive_iff_standing
    (hstart : ∀ book, start.socket.book = some book → ∀ route, book.routeOf route = .none)
    (route : NodeId) :
    (run (step P hostOf) start es).pairingActive route = true ↔
      Standing P hostOf start es route := by
  rw [pairingActive_iff, book_run]
  constructor
  · rintro ⟨book, admission, hbook, hadmission, hnow⟩
    obtain ⟨first, hfirst, rfl⟩ := Option.map_eq_some_iff.mp hbook
    have hadmitted := (TagBook.admission_iff (hstart first hfirst) _ _ _).mp hadmission
    exact ⟨first, admission, hfirst, hadmitted, hnow⟩
  · rintro ⟨first, admission, hfirst, hadmitted, hnow⟩
    rw [hfirst, Option.map_some]
    exact ⟨_, admission, rfl, (TagBook.admission_iff (hstart first hfirst) _ _ _).mpr hadmitted,
      hnow⟩

theorem arrivals_arrived (e : Endpoint) (conn : ℕ) (handshake : Handshake) :
    (e.arrived P hostOf conn handshake).next.arrivals.lookup conn = none := by
  unfold arrived
  cases harrival : e.arrivals.lookup conn with
  | none => exact harrival
  | some arrival =>
    have hdropped : (e.arrivals.erase conn).lookup conn = none := AList.lookup_erase _ _
    dsimp only
    cases handshake with
    | failed error => exact hdropped
    | done presented keys secret generation =>
      cases presented with
      | none => exact hdropped
      | some presented =>
        dsimp only
        cases arrival.session with
        | none =>
          dsimp only
          split_ifs
          · exact hdropped
          · cases (e.dropArrival conn).promote arrival.route secret generation with
            | mk calls failure => cases failure <;> exact hdropped
        | some session =>
          dsimp only
          split_ifs <;> exact hdropped

def TakesIn (e : Endpoint) (conn : ℕ) (arrival : Arrival) (event : EndpointEvent) : Prop :=
  ∃ remote, event = .incoming remote conn .started ∧ conn ∉ e.arrivals ∧
    e.socket.inner.bySynthetic.lookup remote = some arrival.route ∧
    (e.pairingActive arrival.route = true ↔ arrival.session = none)

theorem arrivals_step (h : (e.step P hostOf event).arrivals.lookup conn = some arrival) :
    e.TakesIn conn arrival event ∨
      e.arrivals.lookup conn = some arrival ∧ ∀ handshake, event ≠ .arrived conn handshake := by
  by_cases hover : ∃ handshake, event = .arrived conn handshake
  · obtain ⟨handshake, rfl⟩ := hover
    cases (arrivals_arrived e conn handshake).symm.trans h
  have hgoes : ∀ handshake, event ≠ .arrived conn handshake :=
    fun handshake heq => hover ⟨handshake, heq⟩
  have hmoves : Moves P hostOf e event (e.turn P hostOf event) := moves_turn e event
  change (e.turn P hostOf event).next.arrivals.lookup conn = some arrival at h
  generalize e.turn P hostOf event = t at hmoves h
  cases hmoves with
  | admits hnew hroute hactive =>
    dsimp only at h
    rw [Table.lookup_insert_ite] at h
    split_ifs at h with heq
    · cases h
      subst heq
      exact Or.inl ⟨_, rfl, hnew, hroute, iff_of_true hactive rfl⟩
    · exact Or.inr ⟨h, hgoes⟩
  | accepts hnew hroute hinactive =>
    dsimp only at h
    rw [Table.lookup_insert_ite] at h
    split_ifs at h with heq
    · cases h
      subst heq
      refine Or.inl ⟨_, rfl, hnew, hroute, iff_of_false ?_ (by simp)⟩
      rw [hinactive]
      exact Bool.false_ne_true
    · exact Or.inr ⟨h, hgoes⟩
  | dropsArrival => exact Or.inr ⟨(lookup_dropArrival h).2, hgoes⟩
  | startsArrival => exact Or.inr ⟨(lookup_dropArrival h).2, hgoes⟩
  | startsPairing => exact Or.inr ⟨(lookup_dropArrival h).2, hgoes⟩
  | _ => exact Or.inr ⟨h, hgoes⟩

theorem takenIn_of_arrival (hstart : start.arrivals = ∅)
    (h : (run (step P hostOf) start es).arrivals.lookup conn = some arrival) :
    ∃ pre, TakenIn P hostOf start es pre conn arrival.route ∧
      ((run (step P hostOf) start pre).pairingActive arrival.route = true ↔
        arrival.session = none) := by
  induction es using List.reverseRecOn with
  | nil =>
    rw [run_nil, hstart, AList.lookup_empty] at h
    cases h
  | append_singleton es event ih =>
    rw [run_snoc] at h
    rcases arrivals_step h with ⟨remote, rfl, hnew, hroute, hslot⟩ | ⟨hbefore, hgoes⟩
    · exact ⟨es, ⟨remote, [], rfl, hnew, hroute, fun _ => List.not_mem_nil⟩, hslot⟩
    · obtain ⟨pre, ⟨remote, post, rfl, hnew, hroute, hpost⟩, hslot⟩ := ih hbefore
      refine ⟨pre, ⟨remote, post ++ [event], by simp, hnew, hroute, ?_⟩, hslot⟩
      intro handshake hmem
      rcases List.mem_append.mp hmem with hearlier | hlast
      · exact hpost handshake hearlier
      · exact hgoes handshake (List.mem_singleton.mp hlast).symm

theorem skips_started {calls : List Event} {peer : NodeId} {id : ℕ} {allowDirect : Bool}
    {probeDelay : ℕ} {keys : Option (ProbeKeyId × ProbeKey)} {r : Session × List Event}
    (hr : r = e.started P hostOf calls peer id conn allowDirect probeDelay keys) (s : PathSocket) :
    ∀ c ∈ r.2, s.bookEvents hostOf c = [] := by
  rw [hr]
  cases keys with
  | none => exact List.forall_mem_nil _
  | some held => exact List.forall_mem_singleton.mpr rfl

theorem Moves.pairing {handshake : Handshake} {t : Turn} {id : ℕ}
    (h : Moves P hostOf e (.arrived conn handshake) t) (houtcome : t.outcome = some (.pairing id)) :
    ∃ route presented keys secret generation book,
      e.arrivals.lookup conn = some ⟨route, none⟩ ∧
      handshake = .done (some presented) keys (some secret) generation ∧
      e.pairingActive route = true ∧ (PathSocket.after P hostOf e.socket t.calls).book = some book ∧
      (book.routeOf route).live = some ⟨generation, secret⟩ := by
  generalize hevent : EndpointEvent.arrived conn handshake = event at h
  cases h with
  | startsPairing harrival hpromote _ _ hr =>
    cases hevent
    obtain ⟨hactive, secret, book, rfl, rfl, hbook, hlive⟩ := promote_spec P hpromote
    refine ⟨_, _, _, secret, _, _, harrival, rfl, hactive, ?_, hlive⟩
    dsimp only
    rw [List.append_assoc, List.singleton_append, PathSocket.after, run_cons, PathSocket.book_after]
    · rw [PathSocket.book_step, hbook]
      rfl
    · intro s
      exact List.forall_mem_append.mpr
        ⟨List.forall_mem_cons.mpr ⟨rfl, List.forall_mem_singleton.mpr rfl⟩,
          List.forall_mem_cons.mpr ⟨rfl, skips_started hr s⟩⟩
  | rests _ hfailed =>
    obtain ⟨reason, hreason⟩ := hfailed _ houtcome
    cases hreason
  | dropsArrival _ _ hfailed =>
    obtain ⟨reason, hreason⟩ := hfailed _ houtcome
    cases hreason
  | startsDial => cases hevent
  | _ => cases houtcome

theorem Moves.pinned {handshake : Handshake} {t : Turn} {id : ℕ}
    (h : Moves P hostOf e (.arrived conn handshake) t) (houtcome : t.outcome = some (.pinned id)) :
    ∃ route session keys secret generation,
      e.arrivals.lookup conn = some ⟨route, some session⟩ ∧
      handshake = .done (some route) keys secret generation := by
  generalize hevent : EndpointEvent.arrived conn handshake = event at h
  cases h with
  | startsArrival harrival =>
    cases hevent
    exact ⟨_, _, _, _, _, harrival, rfl⟩
  | rests _ hfailed =>
    obtain ⟨reason, hreason⟩ := hfailed _ houtcome
    cases hreason
  | dropsArrival _ _ hfailed =>
    obtain ⟨reason, hreason⟩ := hfailed _ houtcome
    cases hreason
  | startsDial => cases hevent
  | _ => cases houtcome

/-- Over every run of an endpoint: the accept loop returns a pairing session only if the route
had a standing admission when the connection was taken in and when its live route was
installed, and a pinned one only if it had none then and the key presented is the route's. -/
theorem accept_checks_admission_twice (P : Primitives)
    (hostOf : String → Option String) (udp : Bool) (config : EndpointConfig) (now unixNow : ℕ)
    (es : List EndpointEvent) (conn : ℕ) (handshake : Handshake) :
    let start := openOn udp config now unixNow
    let e := run (step P hostOf) start es
    let outcome := (e.turn P hostOf (.arrived conn handshake)).outcome
    (∀ id, outcome = some (.pairing id) →
      ∃ pre route presented keys secret generation,
        TakenIn P hostOf start es pre conn route ∧
        handshake = .done (some presented) keys (some secret) generation ∧
        Standing P hostOf start pre route ∧ Standing P hostOf start es route ∧
        ∃ book, (e.step P hostOf (.arrived conn handshake)).socket.book = some book ∧
          (book.routeOf route).live = some ⟨generation, secret⟩) ∧
    (∀ id, outcome = some (.pinned id) →
      ∃ pre route keys secret generation,
        TakenIn P hostOf start es pre conn route ∧
        handshake = .done (some route) keys secret generation ∧
        ¬ Standing P hostOf start pre route) ∧
    (∀ arrival, e.arrivals.lookup conn = some arrival → ¬ Standing P hostOf start es arrival.route →
      ∀ id, outcome ≠ some (.pairing id)) := by
  intro start e outcome
  have hread : ∀ es route, (run (step P hostOf) start es).pairingActive route = true ↔
      Standing P hostOf start es route :=
    fun es => pairingActive_iff_standing fun _ hbook => routeOf_open hbook
  have hmoves : Moves P hostOf e (.arrived conn handshake)
      (e.turn P hostOf (.arrived conn handshake)) :=
    moves_turn e _
  refine ⟨fun id houtcome => ?_, fun id houtcome => ?_, fun arrival harrival hnot id houtcome => ?_⟩
  · obtain ⟨route, presented, keys, secret, generation, book, harrival, hdone, hactive,
      hinstalled⟩ :=
      hmoves.pairing houtcome
    obtain ⟨pre, htaken, hslot⟩ := takenIn_of_arrival rfl harrival
    exact ⟨pre, route, presented, keys, secret, generation, htaken, hdone,
      (hread pre route).mp (hslot.mpr rfl), (hread es route).mp hactive, book, hinstalled⟩
  · obtain ⟨route, session, keys, secret, generation, harrival, hdone⟩ := hmoves.pinned houtcome
    obtain ⟨pre, htaken, hslot⟩ := takenIn_of_arrival rfl harrival
    refine ⟨pre, route, keys, secret, generation, htaken, hdone, fun hstanding => ?_⟩
    cases hslot.mp ((hread pre route).mpr hstanding)
  · obtain ⟨route, presented, keys, secret, generation, book, harrival', -, hactive, -⟩ :=
      hmoves.pairing houtcome
    obtain rfl := Option.some.inj (harrival.symm.trans harrival')
    exact hnot ((hread es route).mp hactive)

example :
    let route : NodeId := ⟨List.Vector.replicate 32 1⟩
    let peer : NodeId := ⟨List.Vector.replicate 32 2⟩
    let config := EndpointConfig.new ⟨List.Vector.replicate 32 0⟩
    let start := openOn true { config with pairedRoutes := some ∅ } 0 0
    let es : List EndpointEvent :=
      [.environment (.book (.registerPairing route (List.Vector.replicate 16 3) 100)),
        .environment (.recvRelay route [0] 0), .incoming (route.syntheticAddr .standIn) 7 .started]
    let done := EndpointEvent.arrived 7
      (.done (some peer) none (some (List.Vector.replicate 16 4)) 0)
    let outcome := fun es =>
      ((run (step .standIn fun _ => none) start es).turn .standIn (fun _ => none) done).outcome
    outcome es = some (.pairing 0) ∧ outcome (es ++ [.environment (.clock 100)]) = none := by
  decide +kernel

end Endpoint

end ForgeswornLink
