import ForgeswornLink.Lib.Filing
import ForgeswornLink.EngineEffects
import ForgeswornLink.PairedSecrets

/-!
# Installed routes and the secrets of the book

A route is reached by the secret the endpoint's book holds for its node. The engine
keeps its routes by ID and the book keeps secrets by node, so the two are a table of
records and a store that does not know their owners: the calls that succeed are the
operations on both, read off their replies. The store agrees with the records until
two route IDs name one node, which no call refuses.
-/

namespace ForgeswornLink
open Runs ByteString OrderedChecks Filing

abbrev RouteLedger := Filing.State String NodeId (Block 32)

abbrev RouteOp := Filing.Op String NodeId (Block 32)

def Route.row (route : Route) : Option (String × NodeId × Block 32) :=
  route.filed.map fun held => (route.routeId, held)

def Reply.routeOps : Option Reply → List RouteOp
  | some (.installed route) => (route.row.map fun row => .install row.1 row.2.1 row.2.2).toList
  | some (.removed routeId) => [.remove routeId]
  | some .wiped => [.clear]
  | _ => []

theorem Reply.routeOps_of_refusal {reply : Option Reply} (h : Reply.isRefusal reply = true) :
    Reply.routeOps reply = [] := by
  cases reply with
  | none => rfl
  | some reply =>
    cases reply with
    | refused error => rfl
    | _ => cases h

namespace Engine
variable (P : Primitives) (hostOf : String → Option String)

def secretOf (e : Engine) (node : NodeId) : Option (Block 32) := e.endpoint.socket.secretOf node

def Names (e : Engine) (routeId : String) (node : NodeId) : Prop :=
  (e.routes.lookup routeId).map RouteState.node = some node

def routeOps (e : Engine) (event : EngineEvent) : List RouteOp :=
  Reply.routeOps (e.turn P hostOf event).reply

noncomputable def ledger (config : EngineConfig) (start : Engine) (es : List EngineEvent) :
    RouteLedger :=
  run Filing.step (load (config.routes.filterMap Route.row))
    (Runs.trace (step P hostOf) (routeOps P hostOf) start es)

structure Mirrors (e : Engine) (s : RouteLedger) : Prop where
  book : e.endpoint.socket.book.isSome
  verified : VerifiedAnswers P e.enrolments
  nodes : ∀ routeId, (e.routes.lookup routeId).map RouteState.node =
    (s.records routeId).map Prod.fst
  store : e.secretOf = s.store

def shares (e : Engine) (routeId : String) (node : NodeId) : Bool :=
  e.routes.entries.any fun entry => decide (entry.1 ≠ routeId ∧ entry.2.node = node)

/-- What a call must meet: other routes that name the node of an installed one have, in the book,
the same secret, and no other route names a node that is dropped. -/
def KeepsApart (e : Engine) (event : EngineEvent) : Prop :=
  match (e.turn P hostOf event).reply with
  | some (.installed route) =>
    ∀ filed ∈ route.filed,
      (e.shares route.routeId filed.1 → e.secretOf filed.1 = some filed.2) ∧
        ∀ old ∈ e.routes.lookup route.routeId, old.node ≠ filed.1 →
          e.shares route.routeId old.node = false
  | some (.removed routeId) => ∀ old ∈ e.routes.lookup routeId, e.shares routeId old.node = false
  | _ => True

instance decidableKeepsApart (e : Engine) (event : EngineEvent) :
    Decidable (e.KeepsApart P hostOf event) := by
  unfold KeepsApart
  split <;> infer_instance

/-- The routes and the book agree: the book has a secret for a node exactly if an installed route
names it, and for the node of each installed route it is the one that route was last installed
with. -/
def Agree (e : Engine) (s : RouteLedger) : Prop :=
  (∀ node, (e.secretOf node).isSome ↔ ∃ routeId, e.Names routeId node) ∧
    ∀ routeId route, e.routes.lookup routeId = some route →
      ∃ held, s.records routeId = some (route.node, held) ∧ e.secretOf route.node = some held

def OneSecret (routes : List Route) : Prop :=
  ∀ r ∈ routes, ∀ r' ∈ routes, ∀ node held held',
    r.filed = some (node, held) → r'.filed = some (node, held') → held = held'

variable {P hostOf} {e : Engine} {s : RouteLedger}

section Secrets
open Endpoint

theorem secretsAfter_dropped (secrets : NodeId → Option (Block 32)) (nodes : List NodeId)
    (p : NodeId) :
    secretsAfter secrets (nodes.map removePaired) p = if p ∈ nodes then none else secrets p := by
  induction nodes generalizing secrets with
  | nil => simp [secretsAfter]
  | cons node nodes ih =>
    rw [List.map_cons, secretsAfter, run_cons]
    refine (ih _).trans ?_
    change (if p ∈ nodes then none else if p = node then none else secrets p) = _
    by_cases hp : p = node <;> by_cases hmem : p ∈ nodes <;> simp [hp, hmem]

theorem write_of {event : EndpointEvent} (h : event.isEnrolment = true ∨ event.isBeside = true) :
    event.write = none := by
  cases event with
  | environment c =>
    cases c with
    | book op => cases op <;> first | rfl | (rcases h with h | h <;> cases h)
    | _ => rfl
  | _ => rfl

theorem secretsAfter_install (secrets : NodeId → Option (Block 32)) (dropped : List NodeId)
    (node : NodeId) (held : Block 32) {after : List EndpointEvent}
    (hafter : ∀ event ∈ after, event.isEnrolment = true) (p : NodeId) :
    secretsAfter secrets (dropped.map removePaired ++ upsertPaired node held :: after) p =
      if p = node then some held else if p ∈ dropped then none else secrets p := by
  rw [secretsAfter, run_append, run_cons,
    run_written EndpointEvent.write fun event hevent => write_of (Or.inl (hafter event hevent))]
  change (if p = node then some held else secretsAfter secrets (dropped.map removePaired) p) = _
  rw [secretsAfter_dropped]

end Secrets

section Mirror

theorem Mirrors.names (h : Mirrors P e s) (routeId : String) (node : NodeId) :
    s.Names routeId node ↔ e.Names routeId node := by
  rw [Names, h.nodes, State.Names]
  cases s.records routeId <;> simp [Prod.ext_iff]

theorem Mirrors.turn (h : Mirrors P e s) {e' : Engine} {events : List EndpointEvent}
    {s' : RouteLedger}
    (hendpoint : e'.endpoint = run (Endpoint.step P hostOf) e.endpoint events)
    (hverified : VerifiedAnswers P e'.enrolments)
    (hnodes : ∀ id, (e'.routes.lookup id).map RouteState.node = (s'.records id).map Prod.fst)
    (hstore : ∀ p, Endpoint.secretsAfter e.secretOf events p = s'.store p) : Mirrors P e' s' := by
  obtain ⟨hbook, hsecrets⟩ := Endpoint.secretOf_run P hostOf h.book events
  rw [← hendpoint] at hbook hsecrets
  exact ⟨hbook, hverified, hnodes, hsecrets.trans (funext hstore)⟩

theorem Mirrors.keep (h : Mirrors P e s) {e' : Engine} {events : List EndpointEvent}
    (hendpoint : e'.endpoint = run (Endpoint.step P hostOf) e.endpoint events)
    (hverified : VerifiedAnswers P e'.enrolments)
    (hnodes : ∀ id,
      (e'.routes.lookup id).map RouteState.node = (e.routes.lookup id).map RouteState.node)
    (hevents : ∀ event ∈ events, event.write = none) : Mirrors P e' s := by
  refine h.turn hendpoint hverified (fun id => (hnodes id).trans (h.nodes id)) fun p => ?_
  rw [Endpoint.secretsAfter, run_written EndpointEvent.write hevents, h.store]

theorem Mirrors.install (h : Mirrors P e s) {route : Route} {node : NodeId} {card : Card}
    {held : Block 32} {dropped : List NodeId} {previous : Option ℕ} {after : List EndpointEvent}
    {e' : Engine} (hverified : VerifiedAnswers P e'.enrolments)
    (hreplaces : e.Replaces route node dropped previous)
    (hafter : ∀ event ∈ after, event.isEnrolment = true)
    (hroutes : e'.routes = e.routes.insert route.routeId ⟨node, route.cardSerial, card, none⟩)
    (hendpoint : e'.endpoint = run (Endpoint.step P hostOf) e.endpoint
      (dropped.map removePaired ++ upsertPaired node held :: after)) :
    Mirrors P e' (Filing.step s (.install route.routeId node held)) := by
  have hdropped {p : NodeId} (hp : p ≠ node) :
      p ∈ dropped ↔ ∃ id, id = route.routeId ∧ s.Names id p := by
    rw [exists_eq_left, h.names, Names]
    rcases hreplaces with ⟨hnone, rfl, -⟩ | ⟨old, hold, -, ⟨rfl, -⟩ | ⟨rfl, hsame, -⟩⟩
    · simp [hnone]
    · simp [hold, eq_comm]
    · rw [hold, Option.map_some, hsame]
      exact iff_of_false List.not_mem_nil fun heq => hp (Option.some.inj heq).symm
  refine h.turn hendpoint hverified (fun id => ?_) fun p => ?_
  · rw [hroutes, Table.lookup_insert_ite]
    change _ = (if id = route.routeId then some (node, held) else s.records id).map Prod.fst
    split_ifs
    · rfl
    · exact h.nodes id
  · rw [secretsAfter_install _ _ _ _ hafter]
    change _ = if p = node then some held else s.without (· = route.routeId) p
    split_ifs with hp hmem
    · rfl
    · rw [without_eq_ite (hdropped hp), if_pos hmem]
    · rw [without_eq_ite (hdropped hp), if_neg hmem, h.store]

theorem Mirrors.remove (h : Mirrors P e s) {routeId : String} {route : RouteState} {e' : Engine}
    (hverified : VerifiedAnswers P e'.enrolments) (hroute : e.routes.lookup routeId = some route)
    (hroutes : e'.routes = e.routes.erase routeId)
    (hendpoint : e'.endpoint = run (Endpoint.step P hostOf) e.endpoint [removePaired route.node]) :
    Mirrors P e' (Filing.step s (.remove routeId)) := by
  refine h.turn hendpoint hverified (fun id => ?_) fun p => ?_
  · rw [hroutes, Table.lookup_erase_ite]
    change _ = (if id = routeId then none else s.records id).map Prod.fst
    split_ifs
    · rfl
    · exact h.nodes id
  · have hnode : p = route.node ↔ ∃ id, id = routeId ∧ s.Names id p := by
      rw [exists_eq_left, h.names, Names, hroute]
      simp [eq_comm]
    change (if p = route.node then none else e.secretOf p) = s.without (· = routeId) p
    rw [without_eq_ite hnode, h.store]

theorem Mirrors.wipe (h : Mirrors P e s) {e' : Engine} (hverified : VerifiedAnswers P e'.enrolments)
    (hroutes : e'.routes = ∅)
    (hendpoint : e'.endpoint = run (Endpoint.step P hostOf) e.endpoint
      (e.routes.entries.map fun entry => removePaired entry.2.node)) :
    Mirrors P e' (Filing.step s .clear) := by
  have hlist : (e.routes.entries.map fun entry => removePaired entry.2.node) =
      (e.routes.entries.map fun entry => entry.2.node).map removePaired := by
    rw [List.map_map]
    rfl
  rw [hlist] at hendpoint
  refine h.turn hendpoint hverified (fun id => by rw [hroutes]; rfl) fun p => ?_
  have hmem : p ∈ (e.routes.entries.map fun entry => entry.2.node) ↔ ∃ id, True ∧ s.Names id p := by
    simp only [true_and, h.names, Names, List.mem_map, Option.map_eq_some_iff]
    constructor
    · rintro ⟨⟨id, route⟩, hentry, hnode⟩
      exact ⟨id, route, AList.mem_lookup_iff.mpr hentry, hnode⟩
    · rintro ⟨id, route, hlookup, hnode⟩
      exact ⟨⟨id, route⟩, AList.mem_lookup_iff.mp hlookup, hnode⟩
  rw [secretsAfter_dropped]
  change _ = s.without (fun _ => True) p
  rw [without_eq_ite hmem, h.store]

theorem Moves.mirrors {event : EngineEvent} {t : EngineTurn} (hmoves : Moves P hostOf e event t)
    (h : Mirrors P e s) :
    Mirrors P { t.next with endpoint := run (Endpoint.step P hostOf) e.endpoint t.events }
      (run Filing.step s (Reply.routeOps t.reply)) := by
  have hverified := hmoves.verified h.verified
  -- most events bring no route and take none away
  have hkeep {e' : Engine} {events : List EndpointEvent} (hafter : VerifiedAnswers P e'.enrolments)
      (hroutes : e'.routes = e.routes) (hevents : ∀ event ∈ events, event.write = none) :
      Mirrors P { e' with endpoint := run (Endpoint.step P hostOf) e.endpoint events } s :=
    h.keep rfl hafter (fun id => by rw [hroutes]) hevents
  cases hmoves with
  | rests hreply =>
    rw [Reply.routeOps_of_refusal hreply]
    exact hkeep hverified rfl (List.forall_mem_nil _)
  | reuses => exact hkeep hverified rfl (List.forall_mem_nil _)
  | dials => exact hkeep hverified rfl (List.forall_mem_singleton.mpr rfl)
  | dialRefused => exact hkeep hverified rfl (List.forall_mem_singleton.mpr rfl)
  | givesUp _ hreply =>
    rw [Reply.routeOps_of_refusal hreply]
    exact hkeep hverified rfl (List.forall_mem_nil _)
  | passes hbeside =>
    exact hkeep hverified rfl (List.forall_mem_singleton.mpr (write_of (Or.inr hbeside)))
  | @connects event d session hbeside =>
    refine h.keep rfl hverified (fun id => ?_)
      (List.forall_mem_singleton.mpr (write_of (Or.inr hbeside)))
    change ((e.cache d.routeId session).lookup id).map RouteState.node = _
    unfold cache
    cases hroute : e.routes.lookup d.routeId with
    | none => rfl
    | some route =>
      rw [Option.elim_some, Table.lookup_insert_ite]
      split_ifs with hid
      · rw [hid, hroute]
        rfl
      · rfl
  | failsDial hbeside =>
    exact hkeep hverified rfl (List.forall_mem_singleton.mpr (write_of (Or.inr hbeside)))
  | enrols _ hevents hreply =>
    rw [Reply.routeOps_of_refusal hreply]
    exact hkeep hverified rfl fun event hevent => write_of (Or.inl (hevents event hevent))
  | @installs event route node card held _ _ _ _ _ _ hfiled _ hreplaces _ hafter =>
    have hops : Reply.routeOps (some (.installed route)) = [.install route.routeId node held] := by
      rw [Reply.routeOps, Route.row, hfiled h.verified]
      rfl
    rw [hops]
    exact h.install hverified hreplaces hafter rfl rfl
  | removes _ _ hroute => exact h.remove hverified hroute rfl rfl
  | closes => exact hkeep hverified rfl (List.forall_mem_singleton.mpr rfl)
  | reannounces => exact hkeep hverified rfl (List.forall_mem_map.mpr fun _ _ => rfl)
  | signals => exact hkeep hverified rfl (List.forall_mem_nil _)
  | stops =>
    refine h.keep rfl hverified (fun id => ?_) (List.forall_mem_nil _)
    change ((e.routes.mapValues _).lookup id).map RouteState.node = _
    rw [Table.lookup_mapValues, Option.map_map]
    rfl
  | closesEndpoint =>
    refine hkeep hverified rfl (List.forall_mem_append.mpr ⟨?_, ?_⟩)
    · exact List.forall_mem_map.mpr fun _ _ => rfl
    · exact List.forall_mem_singleton.mpr rfl
  | wipes => exact h.wipe hverified rfl rfl

end Mirror

section Agreement

theorem shares_iff {routeId : String} {node : NodeId} :
    e.shares routeId node = true ↔ ∃ other, other ≠ routeId ∧ e.Names other node := by
  simp only [shares, List.any_eq_true, decide_eq_true_eq, Names, Option.map_eq_some_iff]
  constructor
  · rintro ⟨⟨other, route⟩, hentry, hother, hnode⟩
    exact ⟨other, hother, route, AList.mem_lookup_iff.mpr hentry, hnode⟩
  · rintro ⟨other, hother, route, hlookup, hnode⟩
    exact ⟨⟨other, route⟩, AList.mem_lookup_iff.mp hlookup, hother, hnode⟩

theorem Mirrors.only_iff (h : Mirrors P e s) {routeId : String} {node : NodeId} :
    s.Only routeId node ↔ e.shares routeId node = false := by
  rw [← Bool.not_eq_true, shares_iff, not_exists]
  constructor
  · rintro honly other ⟨hother, hnames⟩
    exact hother (honly other ((h.names other node).mpr hnames))
  · intro hnone other hnames
    by_contra hother
    exact hnone other ⟨hother, (h.names other node).mp hnames⟩

theorem Mirrors.agree_iff (h : Mirrors P e s) : Agree e s ↔ s.Agrees := by
  have hrecord {id : String} {node : NodeId} {held : Block 32}
      (hid : s.records id = some (node, held)) :
      ∃ route, e.routes.lookup id = some route ∧ route.node = node := by
    have hnodes := h.nodes id
    rw [hid, Option.map_some, Option.map_eq_some_iff] at hnodes
    exact hnodes
  constructor
  · rintro ⟨hsome, hheld⟩ node held
    rw [← h.store]
    constructor
    · intro hsecret
      obtain ⟨id, hnames⟩ := (hsome node).mp (by rw [hsecret]; rfl)
      obtain ⟨route, hroute, rfl⟩ := Option.map_eq_some_iff.mp hnames
      obtain ⟨held', hfiled, hsecret'⟩ := hheld id route hroute
      rw [← Option.some.inj (hsecret.symm.trans hsecret')] at hfiled
      exact ⟨id, hfiled⟩
    · rintro ⟨id, hid⟩
      obtain ⟨route, hroute, rfl⟩ := hrecord hid
      obtain ⟨held', hfiled, hsecret'⟩ := hheld id route hroute
      rw [hsecret', (Prod.mk.inj (Option.some.inj (hfiled.symm.trans hid))).2]
  · intro hagrees
    refine ⟨fun node => ?_, fun id route hroute => ?_⟩
    · rw [h.store, Option.isSome_iff_exists]
      simp only [hagrees node, ← h.names, State.Names]
      exact exists_comm
    · have hnodes := h.nodes id
      rw [hroute, Option.map_some, eq_comm, Option.map_eq_some_iff] at hnodes
      obtain ⟨⟨node, held⟩, hid, rfl⟩ := hnodes
      exact ⟨held, hid, by rw [h.store]; exact hagrees.found hid⟩

theorem Mirrors.agrees_event (h : Mirrors P e s) (hagrees : s.Agrees) (event : EngineEvent) :
    (run Filing.step s (e.routeOps P hostOf event)).Agrees ↔ e.KeepsApart P hostOf event := by
  have hnames {id : String} {node : NodeId} :
      s.Names id node ↔ ∃ route, e.routes.lookup id = some route ∧ route.node = node := by
    rw [h.names, Names, Option.map_eq_some_iff]
  unfold routeOps KeepsApart
  cases (e.turn P hostOf event).reply with
  | none => exact iff_of_true hagrees trivial
  | some reply =>
    cases reply with
    | refused error => exact iff_of_true hagrees trivial
    | stream call routeId session => exact iff_of_true hagrees trivial
    | wiped => exact iff_of_true ((agrees_step hagrees .clear).mpr trivial) trivial
    | removed routeId =>
      refine (agrees_step hagrees (.remove routeId)).trans ?_
      simp only [State.Fits, hnames, h.only_iff]
      constructor
      · intro hfits old hold
        exact hfits old.node ⟨old, hold, rfl⟩
      · rintro hapart node ⟨old, hold, rfl⟩
        exact hapart old hold
    | installed route =>
      simp only [Reply.routeOps, Route.row]
      cases hfiled : route.filed with
      | none => exact iff_of_true hagrees nofun
      | some held =>
        obtain ⟨node, held⟩ := held
        refine (agrees_step hagrees (.install route.routeId node held)).trans ?_
        have hsame : (∀ other w, other ≠ route.routeId → s.records other = some (node, w) →
            w = held) ↔
            (e.shares route.routeId node → e.secretOf node = some held) := by
          constructor
          · intro hsame hshares
            obtain ⟨other, hother, hname⟩ := shares_iff.mp hshares
            obtain ⟨w, hw⟩ := (h.names other node).mpr hname
            rw [h.store, hagrees.found hw, hsame other w hother hw]
          · intro hsecret other w hother hw
            have hheld := hsecret (shares_iff.mpr ⟨other, hother, (h.names other node).mp ⟨w, hw⟩⟩)
            rw [h.store, hagrees.found hw] at hheld
            exact Option.some.inj hheld
        constructor
        · rintro ⟨hvalue, honly⟩ filed heq
          cases heq
          refine ⟨hsame.mp hvalue, fun old hold hne => ?_⟩
          exact h.only_iff.mp (honly old.node hne (hnames.mpr ⟨old, hold, rfl⟩))
        · intro hapart
          obtain ⟨hvalue, honly⟩ := hapart (node, held) rfl
          refine ⟨hsame.mpr hvalue, fun k hk hname => ?_⟩
          obtain ⟨old, hold, rfl⟩ := hnames.mp hname
          exact h.only_iff.mpr (honly old hold hk)

end Agreement

section Start

structure Loaded (routes : List Route)
    (loaded : Table String RouteState × Table NodeId (Block 32)) : Prop where
  rows : (routes.filterMap Route.row).map Prod.fst = routes.map Route.routeId
  ids : (routes.map Route.routeId).Nodup
  nodes : ∀ id, (loaded.1.lookup id).map RouteState.node =
    ((load (routes.filterMap Route.row)).records id).map Prod.fst
  store : ∀ p, loaded.2.lookup p = (load (routes.filterMap Route.row)).store p

theorem loaded_nil : Loaded [] (∅, ∅) := ⟨rfl, List.nodup_nil, fun _ => rfl, fun _ => rfl⟩

theorem Loaded.fresh {routes : List Route}
    {loaded : Table String RouteState × Table NodeId (Block 32)}
    (h : Loaded routes loaded) {id : String} (hid : id ∉ loaded.1) :
    (load (routes.filterMap Route.row)).records id = none ∧ id ∉ routes.map Route.routeId := by
  have hnone : (load (routes.filterMap Route.row)).records id = none := by
    have hnodes := h.nodes id
    rw [AList.lookup_eq_none.mpr hid, Option.map_none, eq_comm, Option.map_eq_none_iff] at hnodes
    exact hnodes
  refine ⟨hnone, fun hmem => ?_⟩
  have hrows := h.ids
  rw [← h.rows] at hmem hrows
  obtain ⟨⟨id', node, held⟩, hrow, rfl⟩ := List.mem_map.mp hmem
  cases hnone.symm.trans ((records_load hrows _ _ _).mpr hrow)

theorem Loaded.snoc {routes : List Route}
    {loaded loaded' : Table String RouteState × Table NodeId (Block 32)}
    (h : Loaded routes loaded) {route : Route} (hload : loadRoute P loaded route = .ok loaded') :
    Loaded (routes ++ [route]) loaded' := by
  simp only [loadRoute, bind_eq_ok, deny_eq_ok, exists_const, Prod.exists] at hload
  obtain ⟨node, card, hverify, hnew, held, hsecret, hloaded⟩ := hload
  obtain rfl := Except.ok.inj hloaded
  have hfiled := Route.filed_of_ok (verifyRoute_spec hverify).1 hsecret
  have hrow : [route].filterMap Route.row = [(route.routeId, node, held)] := by
    simp [Route.row, hfiled]
  obtain ⟨hnone, hfresh⟩ := h.fresh hnew
  refine ⟨?_, ?_, fun id => ?_, fun p => ?_⟩
  · rw [List.filterMap_append, hrow, List.map_append, List.map_append, h.rows]
    rfl
  · rw [List.map_append, List.map_singleton]
    exact h.ids.append (List.nodup_singleton _) (by simpa using hfresh)
  · rw [List.filterMap_append, hrow, load_snoc, Table.lookup_insert_ite]
    change _ = (if id = route.routeId then some (node, held) else _).map Prod.fst
    split_ifs
    · rfl
    · exact h.nodes id
  · rw [List.filterMap_append, hrow, load_snoc, Table.lookup_insert_ite]
    change _ = if p = node then some held else _
    split_ifs
    · rfl
    · have hnot : False ↔ ∃ id, id = route.routeId ∧
          (load (routes.filterMap Route.row)).Names id p := by
        rw [exists_eq_left, State.Names, hnone]
        simp
      rw [without_eq_ite hnot, if_neg id, h.store]

theorem loaded_of_foldlM {routes : List Route}
    {loaded : Table String RouteState × Table NodeId (Block 32)}
    (h : routes.foldlM (loadRoute P) (∅, ∅) = .ok loaded) : Loaded routes loaded := by
  induction routes using List.reverseRecOn generalizing loaded with
  | nil =>
    obtain rfl := Except.ok.inj h
    exact loaded_nil
  | append_singleton routes route ih =>
    rw [List.foldlM_append, bind_eq_ok] at h
    obtain ⟨before, hbefore, hlast⟩ := h
    rw [List.foldlM_cons, bind_eq_ok] at hlast
    obtain ⟨after, hload, hafter⟩ := hlast
    obtain rfl := Except.ok.inj hafter
    exact (ih hbefore).snoc hload

theorem mirrors_start {udp : Bool} {config : EngineConfig} {now unixNow : ℕ}
    (h : start P udp config now unixNow = .ok e) :
    Mirrors P e (load (config.routes.filterMap Route.row)) ∧
      ((config.routes.filterMap Route.row).map Prod.fst).Nodup := by
  obtain ⟨seed, routes, paired, -, hfold, rfl⟩ := start_eq_ok h
  have hloaded := loaded_of_foldlM hfold
  refine ⟨⟨rfl, fun _ _ _ _ _ hlookup => ?_, hloaded.nodes, funext hloaded.store⟩, ?_⟩
  · cases hlookup
  · rw [hloaded.rows]
    exact hloaded.ids

theorem oneSecret_iff (routes : List Route) :
    OneSecret routes ↔ ∀ i k v j w, (i, k, v) ∈ routes.filterMap Route.row →
      (j, k, w) ∈ routes.filterMap Route.row → v = w := by
  simp only [List.mem_filterMap, Route.row, Option.map_eq_some_iff, Prod.exists, Prod.mk.injEq]
  constructor
  · rintro h i k v j w ⟨r, hr, node, held, hfiled, -, rfl, rfl⟩
      ⟨r', hr', node', held', hfiled', -, rfl, rfl⟩
    exact h r hr r' hr' _ _ _ hfiled hfiled'
  · intro h r hr r' hr' node held held' hfiled hfiled'
    exact h _ _ _ _ _ ⟨r, hr, node, held, hfiled, rfl, rfl, rfl⟩
      ⟨r', hr', node, held', hfiled', rfl, rfl, rfl⟩

end Start

theorem mirrors_run {udp : Bool} {config : EngineConfig} {now unixNow : ℕ}
    (h : start P udp config now unixNow = .ok e) (es : List EngineEvent) :
    Mirrors P (run (step P hostOf) e es) (ledger P hostOf config e es) := by
  induction es using List.reverseRecOn with
  | nil => exact (mirrors_start h).1
  | append_singleton es event ih =>
    rw [run_snoc, ledger, trace_snoc, run_append]
    exact (moves_turn _ event).mirrors ih

def storedRoute (routeId : String) (seed held : UInt8) (serial : UInt64) : Route :=
  ⟨routeId, (Card.sign Primitives.standIn ⟨List.Vector.replicate 32 seed⟩ 100 200
    serial []).asBytes, List.replicate 32 held, serial, 150⟩

def oneRoute : EngineConfig :=
  ⟨List.replicate 32 9, ["wss://relay"], false, [storedRoute "a" 1 5 7]⟩

/-- In every run of an engine the installed routes and the book agree in every state exactly if no
node was configured with two secrets and every call kept the routes apart. -/
theorem routes_and_book_agree_iff (P : Primitives) (hostOf : String → Option String) (udp : Bool)
    (config : EngineConfig) (now unixNow : ℕ) {e : Engine}
    (hstart : start P udp config now unixNow = .ok e) (es : List EngineEvent) :
    (∀ pre post, es = pre ++ post →
      Agree (run (step P hostOf) e pre) (ledger P hostOf config e pre)) ↔
    OneSecret config.routes ∧ Always (step P hostOf) (KeepsApart P hostOf) e es := by
  have hmirrors : ∀ pre, Mirrors P (run (step P hostOf) e pre) (ledger P hostOf config e pre) :=
    fun pre => mirrors_run hstart pre
  have hinit : Agree e (ledger P hostOf config e []) ↔ OneSecret config.routes := by
    refine (hmirrors []).agree_iff.trans ?_
    rw [oneSecret_iff]
    exact agrees_load (mirrors_start hstart).2
  rw [← hinit]
  refine histories_iff_always _ (fun pre event hpre => ?_) es
  rw [(hmirrors _).agree_iff, ledger, trace_snoc, run_append]
  exact (hmirrors pre).agrees_event ((hmirrors pre).agree_iff.mp hpre) event

theorem separate_routes_agree :
    ∃ e, start Primitives.standIn false oneRoute 0 0 = .ok e ∧
      Agree (run (step Primitives.standIn some) e
          [.upsertRoute (storedRoute "b" 2 6 7), .removeRoute "a"])
        (ledger Primitives.standIn some oneRoute e
          [.upsertRoute (storedRoute "b" 2 6 7), .removeRoute "a"]) := by
  obtain ⟨e, hstart, hapart⟩ : ∃ e, start Primitives.standIn false oneRoute 0 0 = .ok e ∧
      Always (step Primitives.standIn some) (KeepsApart Primitives.standIn some) e
        [.upsertRoute (storedRoute "b" 2 6 7), .removeRoute "a"] :=
    exists_ok_of_any (by decide +kernel)
  have hone : OneSecret oneRoute.routes := by
    intro r hr r' hr' node held held' hfiled hfiled'
    rw [List.mem_singleton.mp hr] at hfiled
    rw [List.mem_singleton.mp hr'] at hfiled'
    cases hfiled.symm.trans hfiled'
    rfl
  have hagree := (routes_and_book_agree_iff Primitives.standIn some false oneRoute 0 0 hstart _).mpr
    ⟨hone, hapart⟩
  exact ⟨e, hstart, hagree _ [] (List.append_nil _).symm⟩

/-- Two route IDs for one node, with the same card and secret: removing the second leaves the
first installed without its secret, and a request on it is refused. -/
theorem removed_twin_takes_the_secret :
    ∃ e, start Primitives.standIn false oneRoute 0 0 = .ok e ∧
      let e' := run (step Primitives.standIn some) e
        [.upsertRoute (storedRoute "b" 1 5 7), .removeRoute "b"]
      (e'.routes.lookup "a").map RouteState.node = some ⟨List.Vector.replicate 32 1⟩ ∧
        e'.secretOf ⟨List.Vector.replicate 32 1⟩ = none ∧
        (e'.turn Primitives.standIn some (.stream .requestJson "a")).reply =
          some (.refused (.transport "rendezvous")) :=
  exists_ok_of_any (by decide +kernel)

end Engine

end ForgeswornLink
