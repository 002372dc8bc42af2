import ForgeswornLink.PeerSide

/-!
# Two endpoints that dial each other

Two endpoints each dial the other once and accept the connection of the other.
QUIC is reliable here: an Initial that was sent can arrive, and a connection
fails or is closed at one end only if the other end has closed it. Everything
else, the order of the four takeovers, the handshakes, the passes of the drive
loops, the relays and the clocks, is left open.

Each end keeps the newest of its two sessions. If one end accepted before it
dialled, the newest sessions are the two ends of one connection, and it survives.
If both dialled first, each end keeps the connection the other one gives up.
-/

namespace ForgeswornLink
open Runs ByteString

/-- One end of a pair, with how it took the slot of the other so far and whether
its own connection has been started. -/
structure End where
  endpoint : Endpoint
  order : List Role
  launched : Bool

inductive PairEvent where
  | dial (relays : List String)
  | launch
  | arrive (remote : SocketAddr)
  | established (role : Role) (keys : Option (ProbeKeyId × ProbeKey))
      (routeSecret : Option (Block 16)) (generation : ℕ)
  | broken (role : Role) (error : ConnectionError)
  | closeArrives (role : Role) (reason : ConnectionError)
  | own (event : EndpointEvent)

namespace End

def session (v : End) (role : Role) : Option Session :=
  v.endpoint.sessions.lookup (v.order.idxOf role)

def closed (v : End) (role : Role) : Bool := (v.session role).any fun s => s.closed.isSome

def live (v : End) (q : NodeId) : Option ℕ :=
  (v.endpoint.slot q).bind fun i =>
    (v.endpoint.sessions.lookup i).bind fun s => if s.closed.isNone then some s.conn else none

def GaveUp (v : End) : Prop := v.launched = false ∧ ∀ i, v.endpoint.dials.lookup i = none

def takes : EndpointEvent → Role
  | .incoming _ _ _ => .accept
  | _ => .dial

def step (P : Primitives) (hostOf : String → Option String) (v : End) (event : EndpointEvent) :
    End :=
  let e := v.endpoint.step P hostOf event
  { endpoint := e
    order :=
      if e.socket.inner.nextSession = v.endpoint.socket.inner.nextSession then v.order
      else v.order ++ [takes event]
    launched := v.launched || e.dialling (v.order.idxOf .dial) }

end End

abbrev Pair := Bool → End

namespace Pair

section Machine
variable (P : Primitives) (hostOf : String → Option String) (ids : Bool → NodeId)

def start (udp : Bool → Bool) (config : Bool → EndpointConfig) (now unixNow : Bool → ℕ) : Pair :=
  fun x => ⟨Endpoint.openOn (udp x) (config x) (now x) (unixNow x), [], false⟩

/-- An end dials once and accepts once. A handshake or a connection ends for the
other end's close only. -/
def Enabled (w : Pair) (x : Bool) : PairEvent → Prop
  | .dial _ => .dial ∉ (w x).order
  | .arrive remote => .accept ∉ (w x).order ∧ (w !x).launched = true ∧
    (w x).endpoint.socket.inner.bySynthetic.lookup remote = some (ids !x) ∧
    (w x).endpoint.pairingActive (ids !x) = false
  | .broken role _ | .closeArrives role _ => (w !x).closed role.other = true
  | .own event => event.isLocal = true
  | .launch | .established _ _ _ _ => True

instance (w : Pair) (x : Bool) (event : PairEvent) : Decidable (w.Enabled ids x event) := by
  cases event <;> unfold Enabled <;> infer_instance

def handshakeEvent (w : Pair) (x : Bool) (handshake : Handshake) : Role → EndpointEvent
  | .dial => .dialled ((w x).order.idxOf .dial) handshake
  | .accept => .arrived (!x).toNat handshake

def event (w : Pair) (x : Bool) : PairEvent → EndpointEvent
  | .dial relays => .connect (ids !x) relays
  | .launch => .rendezvous ((w x).order.idxOf .dial) x.toNat .started
  | .arrive remote => .incoming remote (!x).toNat .started
  | .established role keys secret generation =>
    w.handshakeEvent x (.done (some (ids !x)) keys secret generation) role
  | .broken role error => w.handshakeEvent x (.failed error) role
  | .closeArrives role reason => .closed ((w x).order.idxOf role) reason
  | .own event => event

def step (w : Pair) (move : Bool × PairEvent) : Pair :=
  if w.Enabled ids move.1 move.2 then
    Function.update w move.1 ((w move.1).step P hostOf (w.event ids move.1 move.2))
  else w

end Machine

/-- Both ends dialled before the connection of the other reached them. -/
def Crossed (w : Pair) : Prop := ∀ x, (w x).order = [.dial, .accept]

def Lost (w : Pair) (x : Bool) : Prop :=
  w.Crossed ∨ (w x).order = [.dial] ∧ (w !x).order = [.accept, .dial]

/-- Both dials were accepted and no handshake is under way, no running drive task
has a signal or a close to act on, and no close is under way. -/
structure Quiescent (w : Pair) : Prop where
  accepted : ∀ x, .accept ∈ (w x).order
  settled : ∀ x, (w x).endpoint.dials.keys = [] ∧ (w x).endpoint.arrivals.keys = []
  processed : ∀ x, ∀ i < (w x).order.length,
    ((w x).endpoint.sessions.lookup i).all (fun s => s.task.isNone ||
      (s.closed.isNone && decide (s.id ∉ (w x).endpoint.socket.inner.notified))) = true
  delivered : ∀ x role, (w !x).closed role.other = true →
    ((w x).session role).all (fun s => s.closed.isSome) = true

/-- One open connection is named by both slots. -/
def Agreed (ids : Bool → NodeId) (w : Pair) : Prop := ∃ c, ∀ x, (w x).live (ids !x) = some c

def orders : List (List Role) := [[], [.dial], [.accept], [.dial, .accept], [.accept, .dial]]

theorem mem_orders : ∀ {l : List Role}, l.Nodup → l ∈ orders
  | [], _ => by decide
  | [.dial], _ => by decide
  | [.accept], _ => by decide
  | [.dial, .accept], _ => by decide
  | [.accept, .dial], _ => by decide
  | [.dial, .dial], h => by simp at h
  | [.accept, .accept], h => by simp at h
  | a :: b :: c :: l, h => by
    simp only [List.nodup_cons, List.mem_cons, not_or] at h
    cases a <;> cases b <;> cases c <;> simp at h

theorem idxOf_newest : ∀ l ∈ orders, ∀ r ∈ [Role.dial, Role.accept], l.getLast? = some r →
    l.idxOf r + 1 = l.length := by
  decide

theorem lost_orders : ∀ l ∈ orders, ∀ m ∈ orders, ∀ r ∈ [Role.dial, Role.accept],
    (.accept ∈ l → .dial ∈ m) → (.accept ∈ m → .dial ∈ l) →
    (l.head? = some .accept → m.head? = some .dial) → l.getLast? = some r → r.other ∈ m →
    (m.getLast? = some r.other → (m = [.dial, .accept] ∧ l = [.dial, .accept]) ∨
      m = [.dial] ∧ l = [.accept, .dial]) →
    (l = [.dial, .accept] ∧ m = [.dial, .accept]) ∨ l = [.dial] ∧ m = [.accept, .dial] := by
  decide

theorem one_accepted_first : ∀ l ∈ orders, ∀ m ∈ orders, .dial ∈ l → .accept ∈ l → .dial ∈ m →
    .accept ∈ m → (l.head? = some .accept → m.head? = some .dial) →
    ¬ (l = [.dial, .accept] ∧ m = [.dial, .accept]) →
    (l = [.dial, .accept] ∧ m = [.accept, .dial]) ∨ l = [.accept, .dial] ∧
      m = [.dial, .accept] := by
  decide

theorem crossed_iff (w : Pair) (x : Bool) :
    w.Crossed ↔ (w x).order = [.dial, .accept] ∧ (w !x).order = [.dial, .accept] :=
  Bool.forall_bool' x

end Pair

section Ends
variable {P : Primitives} {hostOf : String → Option String} {ids : Bool → NodeId} {x : Bool}
  {lost : Prop} {v v' : End}

def End.Sound (ids : Bool → NodeId) (x : Bool) (v : End) : Prop :=
  Endpoint.Side (ids !x) x.toNat (!x).toNat v.order v.launched v.endpoint

structure End.Kept (ids : Bool → NodeId) (x : Bool) (lost : Prop) (v v' : End) : Prop where
  order : v'.order = v.order
  sound : v'.Sound ids x
  stays : v.launched = true → v'.launched = true
  launched : v'.launched = true → v.launched = true ∨ ∃ i, (v.endpoint.dials.lookup i).isSome
  gaveUp : v.GaveUp → v'.GaveUp
  slot : v'.endpoint.slot (ids !x) = v.endpoint.slot (ids !x) ∨ lost ∨ v'.GaveUp
  closed : ∀ i s', v'.endpoint.sessions.lookup i = some s' → s'.closed.isSome →
    i + 1 = v.order.length → (∃ s, v.endpoint.sessions.lookup i = some s ∧ s.closed.isSome) ∨ lost

structure End.Took (ids : Bool → NodeId) (x : Bool) (role : Role) (v v' : End) : Prop where
  order : v'.order = v.order ++ [role]
  sound : v'.Sound ids x
  launched : v'.launched = v.launched
  slot : v'.endpoint.slot (ids !x) = some v.order.length
  sessions : v'.endpoint.sessions = v.endpoint.sessions

theorem End.Kept.of_side {event : EndpointEvent} {freed ended : ℕ → Prop} (h : v.Sound ids x)
    (hside : Endpoint.Side (ids !x) x.toNat (!x).toNat v.order (v.step P hostOf event).launched
      (v.endpoint.step P hostOf event))
    (hdelta : Endpoint.Delta (ids !x) v.endpoint (v.endpoint.step P hostOf event) freed ended)
    (hlaunched : (v.step P hostOf event).launched = true →
      v.launched = true ∨ ∃ i, (v.endpoint.dials.lookup i).isSome)
    (hfreed : ∀ i, freed i → i + 1 = v.order.length → lost ∨ (v.step P hostOf event).GaveUp)
    (hended : ∀ i, ended i → i + 1 = v.order.length → lost) :
    Kept ids x lost v (v.step P hostOf event) := by
  have horder : (v.step P hostOf event).order = v.order := if_pos (hside.next.trans h.next.symm)
  refine ⟨horder, ?_, fun hbefore => Bool.or_eq_true_iff.mpr (Or.inl hbefore),
    hlaunched, ?_, ?_, ?_⟩
  · rw [Sound, horder]
    exact hside
  · rintro ⟨hnot, hnone⟩
    have hafter := fun i => hdelta.dials i (hnone i)
    refine ⟨Bool.or_eq_false_iff.mpr ⟨hnot, ?_⟩, hafter⟩
    rw [Endpoint.dialling, hafter]
    rfl
  · rcases hdelta.slot with hkept | ⟨i, hheld, -, hi⟩
    · exact Or.inl hkept
    · exact Or.inr (hfreed i hi (h.slot i hheld))
  · intro i s' hs' hclosed hi
    exact (hdelta.closed i s' hs' hclosed).imp_right fun hend => hended i hend hi

theorem End.Kept.of_delta {event : EndpointEvent} {freed ended : ℕ → Prop} (h : v.Sound ids x)
    (hmove : Endpoint.Side (ids !x) x.toNat (!x).toNat v.order v.launched
        (v.endpoint.step P hostOf event) ∧
      Endpoint.Delta (ids !x) v.endpoint (v.endpoint.step P hostOf event) freed ended)
    (hfreed : ∀ i, freed i → i + 1 = v.order.length → lost)
    (hended : ∀ i, ended i → i + 1 = v.order.length → lost) :
    Kept ids x lost v (v.step P hostOf event) := by
  obtain ⟨hside, hdelta⟩ := hmove
  have hsame : (v.step P hostOf event).launched = v.launched := hside.dialling_kept _
  refine .of_side h (hsame.symm ▸ hside) hdelta ?_
    (fun i hi hnewest => Or.inl (hfreed i hi hnewest))
    hended
  rw [hsame]
  exact Or.inl

theorem End.Took.of_taken {event : EndpointEvent} {role : Role}
    (h : Endpoint.Taken (ids !x) x.toNat (!x).toNat v.order v.launched v.endpoint
      (v.endpoint.step P hostOf event) role) (hrole : takes event = role) :
    Took ids x role v (v.step P hostOf event) := by
  have horder : (v.step P hostOf event).order = v.order ++ [role] := by
    rw [← hrole]
    refine if_neg ?_
    rw [h.next]
    exact Nat.succ_ne_self _
  have hlaunched : (v.step P hostOf event).launched = v.launched := h.side.dialling_kept _
  refine ⟨horder, ?_, hlaunched, h.slot, h.sessions⟩
  rw [Sound, horder, hlaunched]
  exact h.side

theorem End.Kept.launch (h : v.Sound ids x) (hnodup : v.order.Nodup) :
    Kept ids x lost v
      (v.step P hostOf (.rendezvous (v.order.idxOf .dial) x.toNat .started)) := by
  rcases Endpoint.Side.launch h hnodup (v.order.idxOf .dial) rfl with
    ⟨hside, hdelta, hdialling⟩ | ⟨hnot, hside, hdelta, hnone⟩
  · refine .of_side h hside hdelta ?_ (fun _ hfalse => hfalse.elim) fun _ hfalse => hfalse.elim
    intro hlaunched
    rcases Bool.or_eq_true_iff.mp hlaunched with hbefore | hnow
    · exact Or.inl hbefore
    · exact Or.inr ⟨_, hdialling hnow⟩
  · rw [← hnot] at hside
    have hsame : (v.step P hostOf (.rendezvous (v.order.idxOf .dial) x.toNat .started)).launched =
        v.launched := hside.dialling_kept _
    refine .of_side h (hsame.symm ▸ hside) hdelta ?_
      (fun _ _ _ => Or.inr ⟨hsame.trans hnot, hnone⟩) fun _ hfalse => hfalse.elim
    rw [hsame]
    exact Or.inl

end Ends

namespace Pair

structure Inv (ids : Bool → NodeId) (w : Pair) : Prop where
  sound : ∀ x, (w x).Sound ids x
  nodup : ∀ x, (w x).order.Nodup
  launched : ∀ x, (w x).launched = true → .dial ∈ (w x).order
  accepted : ∀ x, .accept ∈ (w x).order → (w !x).launched = true
  first : ∀ x, (w x).order.head? = some .accept → (w !x).order.head? = some .dial
  closed : ∀ x i s, (w x).endpoint.sessions.lookup i = some s → s.closed.isSome →
    i + 1 = (w x).order.length → w.Lost x
  held : ∀ x, (w x).order ≠ [] →
    (w x).endpoint.slot (ids !x) = some ((w x).order.length - 1) ∨ w.Lost x ∨ (w x).GaveUp

section Runs
variable {P : Primitives} {hostOf : String → Option String} {ids : Bool → NodeId}
  {w : Pair} {x : Bool} {v' : End}

theorem inv_start (ids : Bool → NodeId) (udp : Bool → Bool) (config : Bool → EndpointConfig)
    (now unixNow : Bool → ℕ) : Inv ids (start udp config now unixNow) where
  sound x := Endpoint.side_open _ _ _ _ _ _ _
  nodup _ := List.nodup_nil
  launched _ h := (Bool.false_ne_true h).elim
  accepted _ h := absurd h List.not_mem_nil
  first _ h := by cases h
  closed x i s hs := by
    rw [start, Endpoint.openOn, AList.lookup_empty] at hs
    cases hs
  held _ h := absurd rfl h

theorem Inv.dial_mem (h : Inv ids w) (haccept : .accept ∈ (w !x).order) : .dial ∈ (w x).order := by
  have hlaunched := h.accepted (!x) haccept
  rw [Bool.not_not] at hlaunched
  exact h.launched x hlaunched

theorem Inv.lost_of_peer_closed (h : Inv ids w) {r : Role} {i : ℕ}
    (hpeer : (w !x).closed r.other = true) (hrole : (w x).order[i]? = some r)
    (hnewest : i + 1 = (w x).order.length) : w.Lost x := by
  obtain ⟨s, hs, hclosed⟩ := (Option.any_eq_true _ _).mp hpeer
  obtain ⟨-, -, r', hr', -⟩ := (h.sound !x).sessions _ s hs
  obtain ⟨hlt, -⟩ := List.getElem?_eq_some_iff.mp hr'
  have hmem : r.other ∈ (w !x).order := List.idxOf_lt_length_iff.mp hlt
  have hlast : (w x).order.getLast? = some r := by
    rw [List.getLast?_eq_getElem?, ← hnewest, Nat.add_sub_cancel]
    exact hrole
  have hpeerLast : (w !x).order.getLast? = some r.other →
      ((w !x).order = [.dial, .accept] ∧ (w x).order = [.dial, .accept]) ∨
        (w !x).order = [.dial] ∧ (w x).order = [.accept, .dial] := by
    intro hnewest'
    have hindex := idxOf_newest _ (mem_orders (h.nodup !x)) _ (Role.mem_roles r.other) hnewest'
    rcases h.closed (!x) _ s hs hclosed hindex with hcrossed | hlost
    · exact Or.inl ((crossed_iff w x).mp hcrossed).symm
    · rw [Bool.not_not] at hlost
      exact Or.inr hlost
  exact (lost_orders _ (mem_orders (h.nodup x)) _ (mem_orders (h.nodup !x)) r (Role.mem_roles r)
    (fun haccept => h.launched _ (h.accepted x haccept)) h.dial_mem (h.first x) hlast hmem
    hpeerLast).imp_left (crossed_iff w x).mpr

theorem Inv.handshake (h : Inv ids w) (role : Role) {handshake : Handshake}
    (hpresented : ∀ presented keys secret generation,
      handshake = .done presented keys secret generation → presented = some (ids !x))
    (hfailed : ∀ error, handshake = .failed error → (w !x).closed role.other = true) :
    (w x).Kept ids x (w.Lost x) ((w x).step P hostOf (w.handshakeEvent x handshake role)) := by
  cases role with
  | dial =>
    refine .of_delta (h.sound x) (Endpoint.Side.dialled (h.sound x) _ handshake) ?_
      fun _ hfalse => hfalse.elim
    rintro i ⟨rfl, hrole, error, hhandshake⟩ hnewest
    exact h.lost_of_peer_closed (hfailed error hhandshake) hrole hnewest
  | accept =>
    refine .of_delta (h.sound x) (Endpoint.Side.arrived (h.sound x) hpresented) ?_
      fun _ hfalse => hfalse.elim
    rintro i ⟨hrole, error, hhandshake⟩ hnewest
    exact h.lost_of_peer_closed (hfailed error hhandshake) hrole hnewest

theorem Inv.moves (h : Inv ids w) {event : PairEvent} (henabled : w.Enabled ids x event) :
    (w x).Kept ids x (w.Lost x) ((w x).step P hostOf (w.event ids x event)) ∨
    ∃ role, role ∉ (w x).order ∧ (role = .accept → (w !x).launched = true) ∧
      (w x).Took ids x role ((w x).step P hostOf (w.event ids x event)) := by
  cases event with
  | dial relays =>
    have hside := h.sound x
    have hnot : (w x).launched = false := by
      cases hlaunched : (w x).launched with
      | false => rfl
      | true => exact absurd (h.launched x hlaunched) henabled
    rw [End.Sound, hnot] at hside
    rcases hside.connect relays with ⟨⟨-, hkept⟩, hdelta⟩ | htaken
    · rw [← hnot] at hkept
      exact Or.inl (.of_delta (h.sound x) ⟨hkept, hdelta⟩ (fun _ hfalse => hfalse.elim)
        fun _ hfalse => hfalse.elim)
    · rw [← hnot] at htaken
      exact Or.inr ⟨.dial, henabled, (fun hrole => by cases hrole), .of_taken htaken rfl⟩
  | launch => exact Or.inl (.launch (h.sound x) (h.nodup x))
  | arrive remote =>
    obtain ⟨hfresh, hlaunched, hroute, hactive⟩ := henabled
    exact Or.inr ⟨.accept, hfresh, fun _ => hlaunched,
      .of_taken (Endpoint.Side.incoming (h.sound x) hfresh hroute hactive) rfl⟩
  | established role keys secret generation =>
    refine Or.inl (h.handshake role ?_ fun error hfailed => by cases hfailed)
    rintro presented keys' secret' generation' heq
    exact (Handshake.done.inj heq).1.symm
  | broken role error =>
    exact Or.inl (h.handshake role (fun _ _ _ _ hdone => by cases hdone) fun _ _ => henabled)
  | closeArrives role reason =>
    refine Or.inl (.of_delta (h.sound x) (Endpoint.Side.close (h.sound x) _ reason)
      (fun _ hfalse => hfalse.elim) ?_)
    rintro i rfl hnewest
    have hlt : (w x).order.idxOf role < (w x).order.length := by omega
    refine h.lost_of_peer_closed henabled ?_ hnewest
    rw [List.getElem?_eq_getElem hlt, List.getElem_idxOf hlt]
  | own event =>
    refine Or.inl (.of_delta (h.sound x) (Endpoint.Side.local (h.sound x) henabled) ?_ ?_)
    · rintro i ⟨s, hs, hclosed⟩ hnewest
      exact h.closed x i s hs hclosed hnewest
    · intro i hdisplaced hnewest
      omega

theorem lost_of_orders {w' : Pair} (horders : ∀ y, (w' y).order = (w y).order) (hlost : w.Lost x) :
    w'.Lost x := by
  simp only [Lost, Crossed, horders]
  exact hlost

theorem Inv.kept (h : Inv ids w) (hkept : (w x).Kept ids x (w.Lost x) v') :
    Inv ids (Function.update w x v') := by
  have hself : Function.update w x v' x = v' := Function.update_self x v' w
  have hother : Function.update w x v' (!x) = w !x :=
    Function.update_of_ne (Bool.not_ne_self x) v' w
  have horders : ∀ y, (Function.update w x v' y).order = (w y).order :=
    (Bool.forall_bool' x).mpr ⟨by rw [hself, hkept.order], by rw [hother]⟩
  have hlost : ∀ {y}, w.Lost y → Lost (Function.update w x v') y := lost_of_orders horders
  refine ⟨(Bool.forall_bool' x).mpr ⟨?_, ?_⟩, ?_, (Bool.forall_bool' x).mpr ⟨?_, ?_⟩,
    (Bool.forall_bool' x).mpr ⟨?_, ?_⟩, ?_, (Bool.forall_bool' x).mpr ⟨?_, ?_⟩,
    (Bool.forall_bool' x).mpr ⟨?_, ?_⟩⟩
  all_goals simp only [horders, hself, hother, hkept.order, Bool.not_not]
  · exact hkept.sound
  · exact h.sound !x
  · exact h.nodup
  · intro hlaunched
    rcases hkept.launched hlaunched with hbefore | ⟨i, hsome⟩
    · exact h.launched x hbefore
    · obtain ⟨dial, hdial⟩ := Option.isSome_iff_exists.mp hsome
      exact List.mem_of_getElem? ((h.sound x).dials i dial hdial).1
  · exact h.launched !x
  · exact h.accepted x
  · intro haccept
    refine hkept.stays ?_
    have hlaunched := h.accepted (!x) haccept
    rwa [Bool.not_not] at hlaunched
  · exact h.first
  · intro i s' hs' hclosed hnewest
    rcases hkept.closed i s' hs' hclosed hnewest with ⟨s, hs, hbefore⟩ | hnow
    · exact hlost (h.closed x i s hs hbefore hnewest)
    · exact hlost hnow
  · intro i s hs hclosed hnewest
    exact hlost (h.closed (!x) i s hs hclosed hnewest)
  · intro hnonempty
    rcases h.held x hnonempty with hslot | hbefore | hgave
    · rcases hkept.slot with hsame | hnow | hgives
      · exact Or.inl (hsame.trans hslot)
      · exact Or.inr (Or.inl (hlost hnow))
      · exact Or.inr (Or.inr hgives)
    · exact Or.inr (Or.inl (hlost hbefore))
    · exact Or.inr (Or.inr (hkept.gaveUp hgave))
  · intro hnonempty
    have hheld := h.held (!x) hnonempty
    rw [Bool.not_not] at hheld
    exact hheld.imp_right fun hrest => hrest.imp_left hlost

theorem not_lost_of_fresh {role : Role} (hfresh : role ∉ (w x).order) :
    ¬ w.Lost !x := by
  rintro (hcrossed | ⟨-, hfull⟩)
  · rw [hcrossed x] at hfresh
    cases role <;> simp at hfresh
  · rw [Bool.not_not] at hfull
    rw [hfull] at hfresh
    cases role <;> simp at hfresh

theorem head?_snoc {l : List Role} {r role : Role} (h : l.head? = some r) :
    (l ++ [role]).head? = some r := by
  rw [List.head?_append, h]
  rfl

theorem Inv.first_snoc (h : Inv ids w) {role : Role}
    (haccept : role = .accept → (w !x).launched = true)
    (hhead : ((w x).order ++ [role]).head? = some .accept) : (w !x).order.head? = some .dial := by
  cases hbefore : (w x).order.head? with
  | some r =>
    rw [head?_snoc hbefore] at hhead
    exact h.first x (hbefore.trans hhead)
  | none =>
    have hempty := List.head?_eq_none_iff.mp hbefore
    rw [hempty, List.nil_append, List.head?_cons] at hhead
    have hdialled := h.launched _ (haccept (Option.some.inj hhead))
    cases hpeer : (w !x).order.head? with
    | none =>
      rw [List.head?_eq_none_iff.mp hpeer] at hdialled
      cases hdialled
    | some r =>
      cases r with
      | dial => rfl
      | accept =>
        have hfirst := h.first (!x) hpeer
        rw [Bool.not_not, hbefore] at hfirst
        cases hfirst

theorem Inv.took (h : Inv ids w) {role : Role} (hfresh : role ∉ (w x).order)
    (haccept : role = .accept → (w !x).launched = true) (htook : (w x).Took ids x role v') :
    Inv ids (Function.update w x v') := by
  have hself : Function.update w x v' x = v' := Function.update_self x v' w
  have hother : Function.update w x v' (!x) = w !x :=
    Function.update_of_ne (Bool.not_ne_self x) v' w
  have hsound := htook.sound
  refine ⟨(Bool.forall_bool' x).mpr ⟨?_, ?_⟩, (Bool.forall_bool' x).mpr ⟨?_, ?_⟩,
    (Bool.forall_bool' x).mpr ⟨?_, ?_⟩, (Bool.forall_bool' x).mpr ⟨?_, ?_⟩,
    (Bool.forall_bool' x).mpr ⟨?_, ?_⟩, (Bool.forall_bool' x).mpr ⟨?_, ?_⟩,
    (Bool.forall_bool' x).mpr ⟨?_, ?_⟩⟩
  all_goals simp only [hself, hother, htook.order, htook.launched, Bool.not_not]
  · exact hsound
  · exact h.sound !x
  · exact List.nodup_append.mpr ⟨h.nodup x, List.nodup_singleton role, fun a ha b hb => by
      rw [List.mem_singleton.mp hb]
      exact fun hab => hfresh (hab ▸ ha)⟩
  · exact h.nodup !x
  · exact fun hlaunched => List.mem_append_left _ (h.launched x hlaunched)
  · exact h.launched !x
  · intro hmem
    rcases List.mem_append.mp hmem with hbefore | hnow
    · exact h.accepted x hbefore
    · exact haccept (List.mem_singleton.mp hnow).symm
  · intro hmem
    have hlaunched := h.accepted (!x) hmem
    rwa [Bool.not_not] at hlaunched
  · exact h.first_snoc haccept
  · intro hhead
    have hfirst := h.first (!x) hhead
    rw [Bool.not_not] at hfirst
    exact head?_snoc hfirst
  · intro i s hs _ hnewest
    rw [htook.sessions] at hs
    obtain ⟨-, -, r, hr, -⟩ := (h.sound x).sessions i s hs
    obtain ⟨hlt, -⟩ := List.getElem?_eq_some_iff.mp hr
    rw [List.length_append, List.length_singleton] at hnewest
    omega
  · intro i s hs hclosed hnewest
    exact absurd (h.closed (!x) i s hs hclosed hnewest) (not_lost_of_fresh hfresh)
  · intro _
    rw [htook.slot, List.length_append, List.length_singleton, Nat.add_sub_cancel]
    exact Or.inl rfl
  · intro hnonempty
    have hheld := h.held (!x) hnonempty
    rw [Bool.not_not] at hheld
    refine hheld.imp_right fun hrest => hrest.imp_left fun hlost => ?_
    exact absurd hlost (not_lost_of_fresh hfresh)

theorem Inv.step (h : Inv ids w) (move : Bool × PairEvent) :
    Inv ids (w.step P hostOf ids move) := by
  rw [Pair.step]
  split_ifs with henabled
  · rcases h.moves henabled with hkept | ⟨role, hfresh, haccept, htook⟩
    · exact h.kept hkept
    · exact h.took hfresh haccept htook
  · exact h

theorem inv_run (udp : Bool → Bool) (config : Bool → EndpointConfig) (now unixNow : Bool → ℕ)
    (es : List (Bool × PairEvent)) :
    Inv ids (run (step P hostOf ids) (start udp config now unixNow) es) :=
  invariant _ (inv_start ids udp config now unixNow) (fun _ move h => Inv.step h move) es

theorem Quiescent.not_handshaking (h : w.Quiescent) (i : ℕ) : ¬ (w x).endpoint.Handshaking i := by
  obtain ⟨hdials, harrivals⟩ := h.settled x
  rintro (hdial | ⟨conn, arrival, harrival, -⟩)
  · rw [Table.lookup_of_keys_eq_nil hdials] at hdial
    cases hdial
  · rw [Table.lookup_of_keys_eq_nil harrivals] at harrival
    cases harrival

theorem Inv.live_newest (h : Inv ids w) (hquiescent : w.Quiescent) {i : ℕ} {r : Role}
    (hrole : (w x).order[i]? = some r) (hnewest : i + 1 = (w x).order.length) (hlost : ¬ w.Lost x) :
    (w x).live (ids !x) = some (r.wire x.toNat (!x).toNat) := by
  have hlaunched := h.accepted (!x) (hquiescent.accepted !x)
  rw [Bool.not_not] at hlaunched
  have hslot : (w x).endpoint.slot (ids !x) = some i := by
    have hnonempty : (w x).order ≠ [] := by
      intro hempty
      rw [hempty] at hrole
      cases hrole
    rcases h.held x hnonempty with hheld | hlost' | ⟨hnot, -⟩
    · rw [hheld, ← hnewest, Nat.add_sub_cancel]
    · exact absurd hlost' hlost
    · exact absurd (hlaunched.symm.trans hnot) Bool.noConfusion
  rcases (h.sound x).busy i hslot with hhandshaking | hsome
  · exact absurd hhandshaking (hquiescent.not_handshaking i)
  · obtain ⟨s, hs⟩ := Option.isSome_iff_exists.mp hsome
    obtain ⟨-, -, r', hr', hconn⟩ := (h.sound x).sessions i s hs
    have hopen : s.closed.isNone = true := by
      rw [Option.isNone_iff_eq_none]
      by_contra hclosed
      exact hlost (h.closed x i s hs (Option.isSome_iff_ne_none.mpr hclosed) hnewest)
    rw [End.live, hslot, Option.bind_some, hs, Option.bind_some, if_pos hopen, hconn,
      Option.some.inj (hr'.symm.trans hrole)]

theorem Inv.wire_of_live (h : Inv ids w) {i c : ℕ} {r : Role} (hrole : (w x).order[i]? = some r)
    (hnewest : i + 1 = (w x).order.length) (hlive : (w x).live (ids !x) = some c) :
    c = r.wire x.toNat (!x).toNat := by
  obtain ⟨j, hslot, hrest⟩ := Option.bind_eq_some_iff.mp hlive
  obtain ⟨s, hs, hopen⟩ := Option.bind_eq_some_iff.mp hrest
  obtain rfl : j = i := Nat.succ_injective (((h.sound x).slot j hslot).trans hnewest.symm)
  obtain ⟨-, -, r', hr', hconn⟩ := (h.sound x).sessions j s hs
  split_ifs at hopen
  rw [← Option.some.inj hopen, hconn, Option.some.inj (hr'.symm.trans hrole)]

theorem Inv.not_agreed (h : Inv ids w) (hcrossed : w.Crossed) : ¬ w.Agreed ids := by
  rintro ⟨c, hlive⟩
  have hwire : ∀ x, c = (!x).toNat := by
    intro x
    have hrole : (w x).order[1]? = some .accept := by rw [hcrossed x]; rfl
    have hnewest : 1 + 1 = (w x).order.length := by rw [hcrossed x]; rfl
    exact h.wire_of_live hrole hnewest (hlive x)
  exact absurd ((hwire true).symm.trans (hwire false)) (by decide)

theorem Inv.agreed (h : Inv ids w) (hquiescent : w.Quiescent)
    (hx : (w x).order = [.dial, .accept]) (hy : (w !x).order = [.accept, .dial]) :
    w.Agreed ids := by
  have hlost : ∀ y, ¬ w.Lost y := by
    have hnot : ¬ w.Crossed := fun hcrossed => by
      rw [hcrossed !x] at hy
      cases hy
    refine (Bool.forall_bool' x).mpr ⟨?_, ?_⟩
    · rintro (hcrossed | ⟨hone, -⟩)
      · exact hnot hcrossed
      · rw [hx] at hone
        cases hone
    · rintro (hcrossed | ⟨hone, -⟩)
      · exact hnot hcrossed
      · rw [hy] at hone
        cases hone
  refine ⟨(!x).toNat, (Bool.forall_bool' x).mpr ⟨?_, ?_⟩⟩
  · have hrole : (w x).order[1]? = some .accept := by rw [hx]; rfl
    exact h.live_newest hquiescent hrole (by rw [hx]; rfl) (hlost x)
  · have hrole : (w !x).order[1]? = some .dial := by rw [hy]; rfl
    exact h.live_newest hquiescent hrole (by rw [hy]; rfl) (hlost !x)

end Runs

/-- Once two endpoints that dialled each other have come to rest, they share a
session exactly if they did not cross. -/
theorem agreed_iff_not_crossed (P : Primitives) (hostOf : String → Option String)
    (udp : Bool → Bool) (config : Bool → EndpointConfig) (now unixNow : Bool → ℕ)
    (es : List (Bool × PairEvent)) :
    let ids := fun x => (config x).nodeId
    let w := run (step P hostOf ids) (start udp config now unixNow) es
    w.Quiescent → (w.Agreed ids ↔ ¬ w.Crossed) := by
  intro ids w hquiescent
  have h : Inv ids w := inv_run udp config now unixNow es
  refine ⟨fun hagreed hcrossed => h.not_agreed hcrossed hagreed, fun hnot => ?_⟩
  rw [crossed_iff w true] at hnot
  rcases one_accepted_first _ (mem_orders (h.nodup true)) _ (mem_orders (h.nodup false))
    (h.dial_mem (hquiescent.accepted _)) (hquiescent.accepted true)
    (h.dial_mem (hquiescent.accepted _)) (hquiescent.accepted false) (h.first true) hnot with
    ⟨hx, hy⟩ | ⟨hy, hx⟩
  · exact h.agreed hquiescent hx hy
  · exact h.agreed hquiescent hx hy

section Examples

def relayed (x : Bool) : EndpointConfig :=
  { EndpointConfig.new ⟨List.Vector.replicate 32 (if x then 1 else 0)⟩ with relays :=
    ["wss://relay"] }

def opened : Pair := start (fun _ => true) relayed (fun _ => 0) fun _ => 0

abbrev runRelayed (es : List (Bool × PairEvent)) : Pair :=
  run (step Primitives.standIn (fun _ => none) fun x => (relayed x).nodeId) opened es

def dials (x : Bool) : List (Bool × PairEvent) :=
  [(x, .own (.environment (.driver 0 .connected))), (x, .dial []), (x, .launch)]

def accepts (x : Bool) : List (Bool × PairEvent) :=
  [(x, .own (.environment (.recvRelay (relayed !x).nodeId [0] 0))),
    (x, .arrive ((relayed !x).nodeId.syntheticAddr Primitives.standIn)),
    (!x, .established .dial none none 0), (x, .established .accept none none 0)]

def givesUp (x : Bool) (role : Role) (theirs : ℕ) : List (Bool × PairEvent) :=
  let nonce : Nonce := List.Vector.replicate 16 5
  [(x, .own (.drive 0 .superseded nonce fun _ => (nonce, true))),
    (!x, .closeArrives role.other .applicationClosed),
    (!x, .own (.drive theirs .closed nonce fun _ => (nonce, true)))]

def crossing : List (Bool × PairEvent) :=
  dials true ++ dials false ++ accepts true ++ accepts false ++ givesUp true .dial 1 ++
    givesUp false .dial 1

/-- Each end dialled before the connection of the other reached it. Both sessions
of both ends are closed, and both slots are empty. -/
theorem crossing_leaves_no_session :
    (runRelayed crossing).Quiescent ∧ (runRelayed crossing).Crossed ∧
      (∀ x, (runRelayed crossing x).endpoint.slot (relayed !x).nodeId = none ∧
        ∀ role, (runRelayed crossing x).closed role = true) ∧
      ¬ (runRelayed crossing).Agreed fun x => (relayed x).nodeId := by
  have hslots : ∀ x, (runRelayed crossing x).endpoint.slot (relayed !x).nodeId = none := by
    decide +kernel
  refine ⟨⟨by decide +kernel, by decide +kernel, by decide +kernel, ?_⟩, ?_,
    fun x => ⟨hslots x, ?_⟩, ?_⟩
  · intro x role
    cases x <;> cases role <;> decide +kernel
  · unfold Crossed
    decide +kernel
  · intro role
    cases x <;> cases role <;> decide +kernel
  · rintro ⟨c, hlive⟩
    have hlive := hlive true
    rw [End.live, hslots true] at hlive
    cases hlive

def accepting : List (Bool × PairEvent) :=
  dials true ++ accepts false ++ dials false ++ accepts true ++ givesUp false .accept 0

theorem agreed_iff_not_crossed_accepting :
    (runRelayed accepting).Quiescent ∧ ¬ (runRelayed accepting).Crossed ∧
      (runRelayed accepting).Agreed fun x => (relayed x).nodeId := by
  have hquiescent : (runRelayed accepting).Quiescent := by
    refine ⟨by decide +kernel, by decide +kernel, by decide +kernel, ?_⟩
    intro x role
    cases x <;> cases role <;> decide +kernel
  have hnot : ¬ (runRelayed accepting).Crossed := by
    unfold Crossed
    decide +kernel
  exact ⟨hquiescent, hnot, (agreed_iff_not_crossed Primitives.standIn (fun _ => none) _ relayed _ _
    accepting hquiescent).mpr hnot⟩

end Examples

end Pair

end ForgeswornLink
