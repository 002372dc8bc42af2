import ForgeswornLink.Endpoint
import ForgeswornLink.SessionHistory

/-!
# What one event of an endpoint does

Every branch of every handler is one of a few moves on the three tables, with
calls on the socket of a known shape: a slot is taken by a dial, by an arrival or
by a promoted pairing connection, and nothing else of the endpoint takes one.
-/

namespace ForgeswornLink
open Runs NewestWins ByteString

def Event.isQuiet : Event → Bool
  | .beginSession _ | .endSession _ _ | .takeNotice _ | .sendProbes _ _ => false
  | _ => true

theorem Event.touchesSlots_of_quiet {e : Event} (h : e.isQuiet = true) :
    e.touchesSlots = false := by
  cases e with
  | beginSession p => cases h
  | endSession p session => cases h
  | takeNotice session => cases h
  | _ => rfl

theorem Event.quiet_of_environment {e : Event} (h : e.isEnvironment = true) : e.isQuiet = true := by
  cases e with
  | beginSession p => cases h
  | endSession p session => cases h
  | takeNotice session => cases h
  | sendProbes p draws => cases h
  | _ => rfl

def Quiet (calls : List Event) : Prop := ∀ c ∈ calls, c.isQuiet = true

theorem Quiet.nil : Quiet [] := List.forall_mem_nil _

theorem Quiet.cons {c : Event} {calls : List Event} (hc : c.isQuiet = true) (h : Quiet calls) :
    Quiet (c :: calls) := List.forall_mem_cons.mpr ⟨hc, h⟩

theorem Quiet.append {calls calls' : List Event} (h : Quiet calls) (h' : Quiet calls') :
    Quiet (calls ++ calls') := List.forall_mem_append.mpr ⟨h, h'⟩

theorem Quiet.no_begin {calls : List Event} (h : Quiet calls) (p : NodeId) :
    Event.beginSession p ∉ calls := fun hmem => Bool.noConfusion (h _ hmem)

theorem Quiet.no_end {calls : List Event} (h : Quiet calls) (p : NodeId) (id : ℕ) :
    Event.endSession p id ∉ calls := fun hmem => Bool.noConfusion (h _ hmem)

/-- What the endpoint calls without a slot, a probe key or a direct path in it: names, relay
routes, candidates, and the admissions it reads or promotes. -/
def Event.isPlain : Event → Bool
  | .registerPeer _ | .setPeerRelays _ _ | .copyRelayRoute _ _ | .setPeerCandidates _ _
  | .book (.prune _) | .book (.promotePairing _ _ _ _) => true
  | _ => false

theorem Event.quiet_of_plain {e : Event} (h : e.isPlain = true) : e.isQuiet = true := by
  cases e with
  | beginSession p => cases h
  | endSession p session => cases h
  | takeNotice session => cases h
  | sendProbes p draws => cases h
  | _ => rfl

def Plain (calls : List Event) : Prop := ∀ c ∈ calls, c.isPlain = true

theorem Plain.nil : Plain [] := List.forall_mem_nil _

theorem Plain.cons {c : Event} {calls : List Event} (hc : c.isPlain = true) (h : Plain calls) :
    Plain (c :: calls) := List.forall_mem_cons.mpr ⟨hc, h⟩

theorem Plain.append {calls calls' : List Event} (h : Plain calls) (h' : Plain calls') :
    Plain (calls ++ calls') := List.forall_mem_append.mpr ⟨h, h'⟩

theorem Plain.quiet {calls : List Event} (h : Plain calls) : Quiet calls :=
  fun c hc => Event.quiet_of_plain (h c hc)

def Event.isPathCall : Event → Bool
  | .dropDirect _ _ | .sendProbes _ _ | .requeryReflector _ => true
  | _ => false

def Event.isOwn : Event → Bool
  | .registerPeer _ | .setPeerRelays _ _ | .copyRelayRoute _ _ | .setPeerCandidates _ _
  | .book (.prune _) | .book (.promotePairing _ _ _ _) | .beginSession _ | .endSession _ _
  | .takeNotice _ | .registerProbeKey _ _ _ _ | .unregisterProbeKey _ | .dropDirect _ _
  | .sendProbes _ _ | .requeryReflector _ => true
  | _ => false

theorem Event.own_of_plain {e : Event} (h : e.isPlain = true) : e.isOwn = true := by
  cases e with
  | book op => cases op <;> first | rfl | cases h
  | _ => first | rfl | cases h

theorem Event.own_of_pathCall {e : Event} (h : e.isPathCall = true) : e.isOwn = true := by
  cases e <;> first | rfl | cases h

namespace Session

theorem pathCalls_iterate (s : Session) (t : Drive) (k : PathSocket) (draws : ℕ → Nonce × Bool) :
    ∀ c ∈ (s.iterate t k draws).2, c.isPathCall = true := by
  unfold iterate
  dsimp only
  split_ifs
  · exact List.forall_mem_nil _
  cases (t.follow k s.peer).relayState with
  | up url =>
    dsimp only
    unfold relayUp
    generalize s.welcome (t.follow k s.peer) k = w
    obtain ⟨s', u'⟩ := w
    dsimp only
    split_ifs
    · exact List.forall_mem_nil _
    · intro c hc
      have hstep := step_advance (s'.prepare u' k).1 (s'.prepare u' k).2 k draws
      rcases hstep.calls c hc with rfl | ⟨draws', rfl⟩ <;> rfl
  | _ => exact List.forall_mem_nil _

theorem own_drive (s : Session) (k : PathSocket) (wake : Wake) (nonce : Nonce)
    (draws : ℕ → Nonce × Bool) : ∀ c ∈ (s.drive k wake nonce draws).2, c.isOwn = true := by
  have hforget : ∀ c ∈ s.forgetKey, c.isOwn = true := by
    intro c hc
    obtain ⟨keyId, rfl⟩ := mem_forgetKey hc
    rfl
  have hpass := s.pass_drive k wake nonce draws
  generalize s.drive k wake nonce draws = r at hpass
  cases hpass with
  | waits h => exact List.forall_mem_nil _
  | @goes t h calls hcalls =>
    have hpath : ∀ c ∈ (s.iterate t k draws).2, c.isOwn = true :=
      fun c hc => Event.own_of_pathCall (s.pathCalls_iterate t k draws c hc)
    rcases hcalls with rfl | rfl
    · exact hpath
    · exact List.forall_mem_cons.mpr ⟨rfl, hpath⟩
  | displaced htask hselect h => exact List.forall_mem_cons.mpr ⟨rfl, hforget⟩
  | ends htask hselect h =>
    exact List.forall_mem_append.mpr ⟨hforget, List.forall_mem_singleton.mpr rfl⟩

end Session

def Note.event (session : ℕ) : Note → EndpointEvent
  | .control message => .control session message
  | .controlSent => .controlSent session
  | .requestDirect => .requestDirect session
  | .reannounce => .reannounce session
  | .closed reason => .closed session reason

def EndpointEvent.isLocal : EndpointEvent → Bool
  | .environment _ | .drive _ _ _ _ | .control _ _ | .controlSent _ | .requestDirect _
  | .reannounce _ => true
  | _ => false

namespace Endpoint

variable (P : Primitives) (hostOf : String → Option String)

/-- The event takes the slot of `p`: this side dials, a connection from `p`'s
address comes in, or a pairing connection that presented `p` is promoted. -/
def TakesOver (e : Endpoint) (p : NodeId) : EndpointEvent → Prop
  | .connect peer _ => peer = p
  | .connectPairing peer _ _ _ _ => peer = p
  | .incoming remote _ _ =>
    e.socket.inner.bySynthetic.lookup remote = some p ∧ e.pairingActive p = false
  | .arrived conn (.done presented _ _ _) =>
    presented = some p ∧ (e.arrivals.lookup conn).any (fun arrival => arrival.session.isNone) = true
  | _ => False

def started (e : Endpoint) (calls : List Event) (peer : NodeId) (id conn : ℕ) (allowDirect : Bool)
    (probeDelay : ℕ) (keys : Option (ProbeKeyId × ProbeKey)) : Session × List Event :=
  Session.start (PathSocket.after P hostOf e.socket calls) peer id conn allowDirect probeDelay keys

inductive Moves (e : Endpoint) : EndpointEvent → Turn → Prop where
  | rests {event calls outcome} (hcalls : Plain calls)
      (houtcome : ∀ o, outcome = some o → ∃ reason, o = .failed reason) :
      Moves e event ⟨e, calls, outcome⟩
  | happens {event} (henv : event.isEnvironment = true) :
      Moves e (.environment event) ⟨e, [event], none⟩
  | dials {event dial before after} (hbefore : Plain before) (hafter : Plain after)
      (hover : e.TakesOver dial.peer event) (hconn : dial.conn = none)
      (hlocal : event.isLocal = false) :
      Moves e event ⟨{ e with dials := e.dials.insert e.socket.inner.nextSession dial },
        before ++ .beginSession dial.peer :: after, none⟩
  | launches {session conn dial} (hdial : e.dials.lookup session = some dial) :
      Moves e (.rendezvous session conn .started)
        ⟨{ e with dials := e.dials.insert session { dial with conn := some conn } }, [], none⟩
  | abandons {session conn dial} (hdial : e.dials.lookup session = some dial) :
      Moves e (.rendezvous session conn .noConfig)
        ⟨e.dropDial session, [], some (.failed .identity)⟩
  | failsDial {event session dial calls reason} (hdial : e.dials.lookup session = some dial)
      (hcalls : Plain calls) (hlocal : event.isLocal = false) :
      Moves e event
        ⟨e.dropDial session, calls ++ [.endSession dial.peer session], some (.failed reason)⟩
  | startsDial {session handshake dial conn calls allowDirect probeDelay keys outcome}
      (hdial : e.dials.lookup session = some dial) (hconn : dial.conn = some conn)
      (hcalls : Plain calls) (hallow : allowDirect = true → e.allowDirect = true) {r}
      (hr : r = e.started P hostOf calls dial.peer session conn allowDirect probeDelay keys) :
      Moves e (.dialled session handshake)
        ⟨(e.dropDial session).setSession session r.1, calls ++ r.2, outcome⟩
  | admits {remote conn route calls} (hnew : conn ∉ e.arrivals)
      (hroute : e.socket.inner.bySynthetic.lookup remote = some route)
      (hactive : e.pairingActive route = true) (hcalls : Plain calls) :
      Moves e (.incoming remote conn .started)
        ⟨{ e with arrivals := e.arrivals.insert conn ⟨route, none⟩ }, calls, none⟩
  | accepts {remote conn route before} (hnew : conn ∉ e.arrivals)
      (hroute : e.socket.inner.bySynthetic.lookup remote = some route)
      (hinactive : e.pairingActive route = false) (hbefore : Plain before) :
      Moves e (.incoming remote conn .started)
        ⟨{ e with arrivals := e.arrivals.insert conn ⟨route, some e.socket.inner.nextSession⟩ },
          before ++ [.beginSession route], none⟩
  | refuses {remote conn route before}
      (hroute : e.socket.inner.bySynthetic.lookup remote = some route)
      (hinactive : e.pairingActive route = false) (hbefore : Plain before) :
      Moves e (.incoming remote conn .refused)
        ⟨e, before ++ .beginSession route :: [.endSession route e.socket.inner.nextSession], none⟩
  | overlooks {remote conn route before}
      (hroute : e.socket.inner.bySynthetic.lookup remote = some route)
      (hinactive : e.pairingActive route = false) (hbefore : Plain before) :
      Moves e (.incoming remote conn .noConfig)
        ⟨e, before ++ [.beginSession route], some (.failed .identity)⟩
  | dropsArrival {conn handshake arrival calls outcome}
      (harrival : e.arrivals.lookup conn = some arrival) (hcalls : Plain calls)
      (houtcome : ∀ o, outcome = some o → ∃ reason, o = .failed reason) :
      Moves e (.arrived conn handshake) ⟨e.dropArrival conn, calls ++ release arrival, outcome⟩
  | startsArrival {conn route session keys secret generation}
      (harrival : e.arrivals.lookup conn = some ⟨route, some session⟩) {r}
      (hr : r = e.started P hostOf [] route session conn e.allowDirect e.probeDelay keys) :
      Moves e (.arrived conn (.done (some route) keys secret generation))
        ⟨(e.dropArrival conn).setSession session r.1, r.2, some (.pinned session)⟩
  | startsPairing {conn route presented keys secret generation calls}
      (harrival : e.arrivals.lookup conn = some ⟨route, none⟩)
      (hpromote : e.promote route secret generation = (calls, none)) (hcalls : Plain calls)
      {id} (hid : id = e.socket.inner.nextSession) {r}
      (hr : r = e.started P hostOf ((calls ++ [.registerPeer presented,
        .copyRelayRoute route presented]) ++ [.beginSession presented]) presented id conn
          false 0 keys) :
      Moves e (.arrived conn (.done (some presented) keys secret generation))
        ⟨(e.dropArrival conn).setSession id r.1,
          (calls ++ [.registerPeer presented, .copyRelayRoute route presented]) ++
            .beginSession presented :: r.2, some (.pairing id)⟩
  | drives {session s wake nonce draws} (hs : e.sessions.lookup session = some s) {r}
      (hr : r = s.drive e.socket wake nonce draws) :
      Moves e (.drive session wake nonce draws) ⟨e.setSession session r.1, r.2, none⟩
  | notes {session s n} (hs : e.sessions.lookup session = some s) :
      Moves e (n.event session) ⟨e.setSession session (s.note n).1, (s.note n).2, none⟩

inductive Does (e : Endpoint) : EndpointEvent → Turn → Prop where
  | quiet {event calls outcome} (hcalls : Quiet calls) : Does e event ⟨e, calls, outcome⟩
  | dials {event dial before after} (hbefore : Quiet before) (hafter : Quiet after)
      (hover : e.TakesOver dial.peer event) (hlocal : event.isLocal = false) :
      Does e event ⟨{ e with dials := e.dials.insert e.socket.inner.nextSession dial },
        before ++ .beginSession dial.peer :: after, none⟩
  | launches {event session dial conn} (hdial : e.dials.lookup session = some dial)
      (hlocal : event.isLocal = false) :
      Does e event
        ⟨{ e with dials := e.dials.insert session { dial with conn := some conn } }, [], none⟩
  | abandons {event session outcome} (hlocal : event.isLocal = false) :
      Does e event ⟨e.dropDial session, [], outcome⟩
  | failsDial {event session dial calls outcome} (hdial : e.dials.lookup session = some dial)
      (hcalls : Quiet calls) (hlocal : event.isLocal = false) :
      Does e event ⟨e.dropDial session, calls ++ [.endSession dial.peer session], outcome⟩
  | startsDial {event session dial conn calls allowDirect probeDelay keys outcome}
      (hdial : e.dials.lookup session = some dial) (hconn : dial.conn = some conn)
      (hcalls : Quiet calls) (hallow : allowDirect = true → e.allowDirect = true) {r}
      (hr : r = e.started P hostOf calls dial.peer session conn allowDirect probeDelay keys)
      (hlocal : event.isLocal = false) :
      Does e event ⟨(e.dropDial session).setSession session r.1, calls ++ r.2, outcome⟩
  | admits {event conn route calls} (hcalls : Quiet calls) (hlocal : event.isLocal = false) :
      Does e event ⟨{ e with arrivals := e.arrivals.insert conn ⟨route, none⟩ }, calls, none⟩
  | accepts {event conn route before} (hbefore : Quiet before) (hover : e.TakesOver route event)
      (hlocal : event.isLocal = false) :
      Does e event
        ⟨{ e with arrivals := e.arrivals.insert conn ⟨route, some e.socket.inner.nextSession⟩ },
          before ++ [.beginSession route], none⟩
  | refuses {event route before after outcome} (hbefore : Quiet before)
      (hafter : after = [] ∨ after = [.endSession route e.socket.inner.nextSession])
      (hover : e.TakesOver route event) (hlocal : event.isLocal = false) :
      Does e event ⟨e, before ++ .beginSession route :: after, outcome⟩
  | dropsArrival {event conn arrival calls outcome}
      (harrival : e.arrivals.lookup conn = some arrival) (hcalls : Quiet calls)
      (hlocal : event.isLocal = false) :
      Does e event ⟨e.dropArrival conn, calls ++ release arrival, outcome⟩
  | startsArrival {event conn route session probeDelay keys outcome}
      (harrival : e.arrivals.lookup conn = some ⟨route, some session⟩) {r}
      (hr : r = e.started P hostOf [] route session conn e.allowDirect probeDelay keys)
      (hlocal : event.isLocal = false) :
      Does e event ⟨(e.dropArrival conn).setSession session r.1, r.2, outcome⟩
  | startsPairing {event conn peer before keys outcome} (hbefore : Quiet before)
      (hover : e.TakesOver peer event) {id} (hid : id = e.socket.inner.nextSession) {r}
      (hr : r = e.started P hostOf (before ++ [.beginSession peer]) peer id conn false 0 keys)
      (hlocal : event.isLocal = false) :
      Does e event
        ⟨(e.dropArrival conn).setSession id r.1, before ++ .beginSession peer :: r.2, outcome⟩
  | drives {session s wake nonce draws} (hs : e.sessions.lookup session = some s) {r}
      (hr : r = s.drive e.socket wake nonce draws) :
      Does e (.drive session wake nonce draws) ⟨e.setSession session r.1, r.2, none⟩
  | closes {session s reason} (hs : e.sessions.lookup session = some s) :
      Does e (.closed session reason) ⟨e.setSession session (s.closeWith reason), [], none⟩
  | notes {event session s s' calls} (hs : e.sessions.lookup session = some s) (hkept : s.Kept s')
      (hreport : s'.report = s.report) (htask : s'.task = s.task) (hcalls : Quiet calls) :
      Does e event ⟨e.setSession session s', calls, none⟩

variable {P hostOf} {e : Endpoint}

theorem plain_prune (e : Endpoint) : Plain e.pruneCalls := .cons rfl .nil

theorem plain_promote (e : Endpoint) (route : NodeId) (secret : Option (Block 16))
    (generation : ℕ) :
    Plain (e.promote route secret generation).1 := by
  unfold promote
  split
  · exact .nil
  · exact .nil
  · exact .cons rfl .nil

theorem moves_stay (e : Endpoint) (event : EndpointEvent) : Moves P hostOf e event e.stay :=
  .rests .nil nofun

theorem moves_fail (e : Endpoint) (event : EndpointEvent) {calls : List Event}
    (hcalls : Plain calls) (reason : FailReason) : Moves P hostOf e event (e.fail calls reason) :=
  .rests hcalls fun _ houtcome => ⟨reason, (Option.some.inj houtcome).symm⟩

theorem moves_connect (e : Endpoint) (peer : NodeId) (relays : List String) :
    Moves P hostOf e (.connect peer relays) (e.connect peer relays) := by
  have hbefore : Plain [.registerPeer peer] := .cons rfl .nil
  have hafter : Plain [.setPeerRelays peer relays] := .cons rfl .nil
  unfold connect
  split_ifs
  · exact moves_fail e _ .nil _
  · exact moves_fail e _ .nil _
  · exact .dials hbefore hafter rfl rfl rfl

theorem moves_connectPairing (e : Endpoint) (peer : NodeId) (relays : List String) (route : NodeId)
    (expiresAt : ℕ) (belongs : Bool) :
    Moves P hostOf e (.connectPairing peer relays route expiresAt belongs)
      (e.connectPairing peer relays route expiresAt belongs) := by
  have hbefore : Plain (e.pruneCalls ++ [.registerPeer route, .registerPeer peer]) :=
    (plain_prune e).append (.cons rfl (.cons rfl .nil))
  have hafter : Plain [.setPeerRelays route relays, .copyRelayRoute route peer] :=
    .cons rfl (.cons rfl .nil)
  unfold connectPairing
  split_ifs
  · exact moves_fail e _ .nil _
  · exact moves_fail e _ .nil _
  · exact moves_fail e _ .nil _
  · exact moves_fail e _ (plain_prune e) _
  · exact .dials hbefore hafter rfl rfl rfl

theorem moves_rendezvous (e : Endpoint) (session conn : ℕ) (admission : Admission) :
    Moves P hostOf e (.rendezvous session conn admission)
      (e.rendezvous session conn admission) := by
  unfold rendezvous
  cases hdial : e.dials.lookup session with
  | none => exact moves_stay e _
  | some dial =>
    dsimp only
    by_cases hconn : dial.conn.isSome = true
    · rw [if_pos hconn]
      exact moves_stay e _
    rw [if_neg hconn]
    have hwait : Moves P hostOf e (.rendezvous session conn admission)
        (if dial.since + e.rendezvousTimeout ≤ e.socket.now then e.failDial session dial [] .timeout
          else e.stay) := by
      split_ifs
      · exact .failsDial hdial .nil rfl
      · exact moves_stay e _
    cases (e.socket.relay.driver dial.driver).map RelayDriver.status with
    | none => exact hwait
    | some status =>
      cases status with
      | connecting => exact hwait
      | reconnecting => exact hwait
      | superseded => exact .failsDial hdial .nil rfl
      | failed => exact .failsDial hdial .nil rfl
      | up url =>
        cases admission with
        | started => exact .launches hdial
        | refused => exact .failsDial hdial .nil rfl
        | noConfig => exact .abandons hdial

theorem moves_dialled (e : Endpoint) (session : ℕ) (handshake : Handshake) :
    Moves P hostOf e (.dialled session handshake) (e.dialled P hostOf session handshake) := by
  unfold dialled
  cases hdial : e.dials.lookup session with
  | none => exact moves_stay e _
  | some dial =>
    dsimp only
    cases hconn : dial.conn with
    | none => exact moves_stay e _
    | some conn =>
      cases handshake with
      | failed error => exact .failsDial hdial .nil rfl
      | done presented keys secret generation =>
        dsimp only
        split_ifs
        · have hpromote := plain_promote e dial.route secret generation
          cases hresult : e.promote dial.route secret generation with
          | mk calls failure =>
            rw [hresult] at hpromote
            cases failure with
            | some reason => exact .failsDial hdial hpromote rfl
            | none =>
              refine .startsDial hdial hconn hpromote ?_ rfl
              nofun
        · exact .startsDial hdial hconn .nil (fun h => h) rfl

theorem moves_incoming (e : Endpoint) (remote : SocketAddr) (conn : ℕ) (admission : Admission)
    (hnew : conn ∉ e.arrivals) :
    Moves P hostOf e (.incoming remote conn admission) (e.incoming remote conn admission) := by
  unfold incoming
  cases hroute : e.socket.inner.bySynthetic.lookup remote with
  | none => exact moves_stay e _
  | some route =>
    dsimp only
    have hread : Plain (if e.socket.book.isSome then e.pruneCalls else []) := by
      split_ifs
      · exact plain_prune e
      · exact .nil
    by_cases hactive : e.pairingActive route = true
    · rw [if_pos hactive]
      cases admission with
      | started => exact .admits hnew hroute hactive hread
      | refused => exact .rests hread nofun
      | noConfig => exact moves_fail e _ hread _
    · rw [if_neg hactive]
      rw [Bool.not_eq_true] at hactive
      cases admission with
      | started => exact .accepts hnew hroute hactive hread
      | refused =>
        dsimp only
        rw [List.append_assoc]
        exact .refuses hroute hactive hread
      | noConfig => exact .overlooks hroute hactive hread

theorem moves_arrived (e : Endpoint) (conn : ℕ) (handshake : Handshake) :
    Moves P hostOf e (.arrived conn handshake) (e.arrived P hostOf conn handshake) := by
  unfold arrived
  cases harrival : e.arrivals.lookup conn with
  | none => exact moves_stay e _
  | some arrival =>
    dsimp only
    cases handshake with
    | failed error => exact .dropsArrival harrival .nil nofun
    | done presented keys secret generation =>
      cases presented with
      | none => exact .dropsArrival harrival .nil nofun
      | some presented =>
        obtain ⟨route, session⟩ := arrival
        cases session with
        | none =>
          dsimp only
          split_ifs
          · exact .dropsArrival harrival .nil nofun
          · have hpromote := plain_promote (e.dropArrival conn) route secret generation
            cases hresult : (e.dropArrival conn).promote route secret generation with
            | mk calls failure =>
              rw [hresult] at hpromote
              cases failure with
              | some reason =>
                have hdrop : Moves P hostOf e
                    (.arrived conn (.done (some presented) keys secret generation))
                    ⟨e.dropArrival conn, calls ++ release ⟨route, none⟩, none⟩ :=
                  .dropsArrival harrival hpromote nofun
                rw [release, List.append_nil] at hdrop
                exact hdrop
              | none =>
                have hsplit : calls ++ [.registerPeer presented, .copyRelayRoute route presented,
                    .beginSession presented] =
                    (calls ++ [.registerPeer presented, .copyRelayRoute route presented]) ++
                      [.beginSession presented] := by simp
                dsimp only
                rw [hsplit]
                unfold startSession
                dsimp only
                rw [List.append_assoc _ [Event.beginSession presented]]
                exact .startsPairing harrival hresult hpromote rfl rfl
        | some session =>
          dsimp only
          split_ifs with hother
          · exact .dropsArrival harrival .nil fun _ houtcome => ⟨_, (Option.some.inj houtcome).symm⟩
          · obtain rfl := not_ne_iff.mp hother
            exact .startsArrival harrival rfl

theorem moves_onSession (session : ℕ) (n : Note) :
    Moves P hostOf e (n.event session) (e.onSession session fun s => s.note n) := by
  unfold onSession
  cases hs : e.sessions.lookup session with
  | none => exact moves_stay e _
  | some s => exact .notes hs

theorem moves_turn (e : Endpoint) (event : EndpointEvent) :
    Moves P hostOf e event (e.turn P hostOf event) := by
  cases event with
  | environment event =>
    simp only [turn]
    split_ifs with henv
    · exact .happens henv
    · exact moves_stay e _
  | connect peer relays => exact moves_connect e peer relays
  | connectPairing peer relays route expiresAt belongs =>
    exact moves_connectPairing e peer relays route expiresAt belongs
  | rendezvous session conn admission => exact moves_rendezvous e session conn admission
  | dialled session handshake => exact moves_dialled e session handshake
  | incoming remote conn admission =>
    simp only [turn]
    split_ifs with hknown
    · exact moves_stay e _
    · exact moves_incoming e remote conn admission hknown
  | arrived conn handshake => exact moves_arrived e conn handshake
  | drive session wake nonce draws =>
    simp only [turn, onSession]
    cases hs : e.sessions.lookup session with
    | none => exact moves_stay e _
    | some s => exact .drives hs rfl
  | control session message => exact moves_onSession session (.control message)
  | controlSent session => exact moves_onSession session .controlSent
  | requestDirect session => exact moves_onSession session .requestDirect
  | reannounce session => exact moves_onSession session .reannounce
  | closed session reason => exact moves_onSession session (.closed reason)

theorem plain_note (s : Session) (n : Note) : Plain (s.note n).2 := by
  cases n with
  | control message =>
    simp only [Session.note]
    split_ifs
    · cases message with
      | candidates addrs => exact .cons rfl .nil
      | punchNow => exact .nil
      | unknown => exact .nil
    · exact .nil
  | _ => exact .nil

theorem mem_started {r : Session × List Event} {calls : List Event} {peer : NodeId} {id conn : ℕ}
    {allowDirect : Bool} {probeDelay : ℕ} {keys : Option (ProbeKeyId × ProbeKey)}
    (hr : r = e.started P hostOf calls peer id conn allowDirect probeDelay keys) {c : Event}
    (hc : c ∈ r.2) : ∃ held, keys = some held ∧ c = .registerProbeKey id peer held.1 held.2 := by
  rw [hr] at hc
  cases keys with
  | none => cases hc
  | some held => exact ⟨held, rfl, List.mem_singleton.mp hc⟩

theorem mem_release {arrival : Arrival} {c : Event} (hc : c ∈ release arrival) :
    ∃ session, c = .endSession arrival.route session := by
  unfold release at hc
  cases hsession : arrival.session with
  | none =>
    rw [hsession] at hc
    cases hc
  | some session =>
    rw [hsession] at hc
    exact ⟨session, List.mem_singleton.mp hc⟩

theorem own_started {r : Session × List Event} {calls : List Event} {peer : NodeId} {id conn : ℕ}
    {allowDirect : Bool} {probeDelay : ℕ} {keys : Option (ProbeKeyId × ProbeKey)}
    (hr : r = e.started P hostOf calls peer id conn allowDirect probeDelay keys) :
    ∀ c ∈ r.2, c.isOwn = true := by
  intro c hc
  obtain ⟨held, -, rfl⟩ := mem_started hr hc
  rfl

theorem Moves.own {event : EndpointEvent} {t : Turn} (h : Moves P hostOf e event t)
    (hevent : ∀ c, event ≠ .environment c) : ∀ c ∈ t.calls, c.isOwn = true := by
  have hplain {calls : List Event} (hcalls : Plain calls) : ∀ c ∈ calls, c.isOwn = true :=
    fun c hc => Event.own_of_plain (hcalls c hc)
  cases h with
  | rests hcalls => exact hplain hcalls
  | happens => exact absurd rfl (hevent _)
  | dials hbefore hafter =>
    exact List.forall_mem_append.mpr
      ⟨hplain hbefore, List.forall_mem_cons.mpr ⟨rfl, hplain hafter⟩⟩
  | launches => exact List.forall_mem_nil _
  | abandons => exact List.forall_mem_nil _
  | failsDial _ hcalls =>
    exact List.forall_mem_append.mpr ⟨hplain hcalls, List.forall_mem_singleton.mpr rfl⟩
  | startsDial _ _ hcalls _ hr => exact List.forall_mem_append.mpr ⟨hplain hcalls, own_started hr⟩
  | admits _ _ _ hcalls => exact hplain hcalls
  | accepts _ _ _ hbefore =>
    exact List.forall_mem_append.mpr ⟨hplain hbefore, List.forall_mem_singleton.mpr rfl⟩
  | refuses _ _ hbefore =>
    refine List.forall_mem_append.mpr ⟨hplain hbefore, List.forall_mem_cons.mpr ⟨rfl, ?_⟩⟩
    exact List.forall_mem_singleton.mpr rfl
  | overlooks _ _ hbefore =>
    exact List.forall_mem_append.mpr ⟨hplain hbefore, List.forall_mem_singleton.mpr rfl⟩
  | dropsArrival _ hcalls =>
    refine List.forall_mem_append.mpr ⟨hplain hcalls, fun c hc => ?_⟩
    obtain ⟨session, rfl⟩ := mem_release hc
    rfl
  | startsArrival _ hr => exact own_started hr
  | @startsPairing conn route presented keys secret generation calls harrival _ hcalls
      id hid r hr =>
    have hbefore : Plain (calls ++ [.registerPeer presented, .copyRelayRoute route presented]) :=
      hcalls.append (.cons rfl (.cons rfl .nil))
    exact List.forall_mem_append.mpr
      ⟨hplain hbefore, List.forall_mem_cons.mpr ⟨rfl, own_started hr⟩⟩
  | drives _ hr =>
    rw [hr]
    exact Session.own_drive _ _ _ _ _
  | notes => exact hplain (plain_note _ _)

theorem kept_note (s : Session) {n : Note} (hn : ∀ reason, n ≠ .closed reason) :
    s.Kept (s.note n).1 := by
  refine ⟨(s.note_spec n).1, ?_⟩
  cases n with
  | control message =>
    simp only [Session.note]
    split_ifs
    · cases message <;> rfl
    · rfl
  | controlSent => rfl
  | requestDirect => exact (Session.kept_requestDirect s).closed
  | reannounce => exact ((Session.kept_request s _).trans (Session.kept_requestDirect _)).closed
  | closed reason => exact absurd rfl (hn reason)

theorem Moves.does {event : EndpointEvent} {t : Turn} (h : Moves P hostOf e event t) :
    Does P hostOf e event t := by
  cases h with
  | rests hcalls => exact .quiet hcalls.quiet
  | happens henv => exact .quiet (.cons (Event.quiet_of_environment henv) .nil)
  | dials hbefore hafter hover _ hlocal => exact .dials hbefore.quiet hafter.quiet hover hlocal
  | launches hdial => exact .launches hdial rfl
  | abandons hdial => exact .abandons rfl
  | failsDial hdial hcalls hlocal => exact .failsDial hdial hcalls.quiet hlocal
  | startsDial hdial hconn hcalls hallow hr =>
    exact .startsDial hdial hconn hcalls.quiet hallow hr rfl
  | admits _ _ _ hcalls => exact .admits hcalls.quiet rfl
  | accepts _ hroute hinactive hbefore => exact .accepts hbefore.quiet ⟨hroute, hinactive⟩ rfl
  | refuses hroute hinactive hbefore =>
    exact .refuses hbefore.quiet (Or.inr rfl) ⟨hroute, hinactive⟩ rfl
  | overlooks hroute hinactive hbefore =>
    exact .refuses hbefore.quiet (Or.inl rfl) ⟨hroute, hinactive⟩ rfl
  | dropsArrival harrival hcalls => exact .dropsArrival harrival hcalls.quiet rfl
  | startsArrival harrival hr => exact .startsArrival harrival hr rfl
  | @startsPairing conn route presented keys secret generation calls harrival _ hcalls
      id hid r hr =>
    have hbefore : Quiet (calls ++ [.registerPeer presented, .copyRelayRoute route presented]) :=
      hcalls.quiet.append (.cons rfl (.cons rfl .nil))
    have hover : e.TakesOver presented
        (.arrived conn (.done (some presented) keys secret generation)) :=
      ⟨rfl, by rw [harrival]; rfl⟩
    exact .startsPairing hbefore hover hid hr rfl
  | drives hs hr => exact .drives hs hr
  | @notes session s n hs =>
    obtain ⟨-, hreport, -, htask⟩ := s.note_spec n
    by_cases hn : ∃ reason, n = .closed reason
    · obtain ⟨reason, rfl⟩ := hn
      exact .closes hs
    · have hother : ∀ reason, n ≠ .closed reason := fun reason heq => hn ⟨reason, heq⟩
      exact .notes hs (kept_note s hother) hreport htask (plain_note s n).quiet

theorem does_turn (e : Endpoint) (event : EndpointEvent) :
    Does P hostOf e event (e.turn P hostOf event) := (moves_turn e event).does

theorem quiet_started {r : Session × List Event} {calls : List Event} {peer : NodeId} {id conn : ℕ}
    {allowDirect : Bool} {probeDelay : ℕ} {keys : Option (ProbeKeyId × ProbeKey)}
    (hr : r = e.started P hostOf calls peer id conn allowDirect probeDelay keys) : Quiet r.2 := by
  intro c hc
  obtain ⟨held, -, rfl⟩ := mem_started hr hc
  rfl

theorem lookup_setSession {e : Endpoint} {session id : ℕ} {s s' : Session}
    (h : (e.setSession session s).sessions.lookup id = some s') :
    id = session ∧ s' = s ∨ e.sessions.lookup id = some s' := by
  rw [setSession, Table.lookup_insert_ite] at h
  split_ifs at h with hid
  · exact Or.inl ⟨hid, (Option.some.inj h).symm⟩
  · exact Or.inr h

theorem lookup_dropDial {e : Endpoint} {id i : ℕ} {dial : Dial}
    (h : (e.dropDial id).dials.lookup i = some dial) :
    i ≠ id ∧ e.dials.lookup i = some dial := by
  rw [dropDial, Table.lookup_erase_ite] at h
  split_ifs at h with hi
  exact ⟨hi, h⟩

theorem lookup_dropArrival {e : Endpoint} {conn c : ℕ} {arrival : Arrival}
    (h : (e.dropArrival conn).arrivals.lookup c = some arrival) :
    c ≠ conn ∧ e.arrivals.lookup c = some arrival := by
  rw [dropArrival, Table.lookup_erase_ite] at h
  split_ifs at h with hc
  exact ⟨hc, h⟩

/-- The rule for properties of every session: a session starts with it, and a pass
of its task and the notes beside it keep it. -/
theorem Moves.sessions {event : EndpointEvent} {t : Turn} {Q Q' : Session → Prop}
    (h : Moves P hostOf e event t) (hQ : ∀ id s, e.sessions.lookup id = some s → Q s)
    (hkeep : ∀ s, Q s → Q' s)
    (hstart : ∀ calls rest peer id conn allowDirect probeDelay keys, t.calls = calls ++ rest →
      (allowDirect = true → e.allowDirect = true) →
      Q' (e.started P hostOf calls peer id conn allowDirect probeDelay keys).1)
    (hdrive : ∀ session s wake nonce draws, event = .drive session wake nonce draws →
      e.sessions.lookup session = some s → t.calls = (s.drive e.socket wake nonce draws).2 → Q s →
      Q' (s.drive e.socket wake nonce draws).1)
    (hnote : ∀ s n, Q s → Q' (s.note n).1)
    (id : ℕ) (s : Session) (hs : t.next.sessions.lookup id = some s) : Q' s := by
  cases h with
  | startsDial hdial hconn hcalls hallow hr =>
    rcases lookup_setSession hs with ⟨-, rfl⟩ | hbefore
    · rw [hr] at hstart ⊢
      exact hstart _ _ _ _ _ _ _ _ rfl hallow
    · exact hkeep s (hQ id s hbefore)
  | startsArrival harrival hr =>
    rcases lookup_setSession hs with ⟨-, rfl⟩ | hbefore
    · rw [hr] at hstart ⊢
      exact hstart [] _ _ _ _ _ _ _ rfl fun hallow => hallow
    · exact hkeep s (hQ id s hbefore)
  | startsPairing harrival hpromote hcalls hid hr =>
    rcases lookup_setSession hs with ⟨-, rfl⟩ | hbefore
    · rw [hr] at hstart ⊢
      refine hstart _ _ _ _ _ _ _ _ (List.append_cons _ _ _) ?_
      nofun
    · exact hkeep s (hQ id s hbefore)
  | drives hs' hr =>
    rcases lookup_setSession hs with ⟨-, rfl⟩ | hbefore
    · rw [hr] at hdrive ⊢
      exact hdrive _ _ _ _ _ rfl hs' rfl (hQ _ _ hs')
    · exact hkeep s (hQ id s hbefore)
  | notes hs' =>
    rcases lookup_setSession hs with ⟨-, rfl⟩ | hbefore
    · exact hnote _ _ (hQ _ _ hs')
    · exact hkeep s (hQ id s hbefore)
  | _ => exact hkeep s (hQ id s hs)

theorem session_reports {start : Endpoint} (hstart : start.sessions = ∅) (es : List EndpointEvent)
    (id : ℕ) (s : Session) (hs : (run (step P hostOf) start es).sessions.lookup id = some s) :
    ∃ k peer id conn allowDirect probeDelay keys events,
      s = (run Reporting.step (.begin k k peer id conn allowDirect probeDelay keys)
        events).session := by
  induction es using List.reverseRecOn generalizing id s with
  | nil =>
    rw [run_nil, hstart, AList.lookup_empty] at hs
    cases hs
  | append_singleton es event ih =>
    rw [run_snoc] at hs
    refine (moves_turn _ event).sessions ih (fun _ hrun => hrun) ?_ ?_ ?_ id s hs
    · intro calls rest peer id conn allowDirect probeDelay keys _ _
      exact ⟨_, peer, id, conn, allowDirect, probeDelay, keys, [], rfl⟩
    · rintro session s wake nonce draws - - -
        ⟨k, peer, id, conn, allowDirect, probeDelay, keys, events, rfl⟩
      refine ⟨k, peer, id, conn, allowDirect, probeDelay, keys,
        events ++ [.pass (run (step P hostOf) start es).socket wake nonce draws], ?_⟩
      rw [run_snoc]
      rfl
    · rintro s n ⟨k, peer, id, conn, allowDirect, probeDelay, keys, events, rfl⟩
      refine ⟨k, peer, id, conn, allowDirect, probeDelay, keys, events ++ [.note n], ?_⟩
      rw [run_snoc]
      rfl

/-- A local event changes at most one session, which stays the same session; it is
closed only after a takeover, and frees its slot only after it was closed. -/
theorem local_turn {event : EndpointEvent} (hlocal : event.isLocal = true)
    (hsound : ∀ id s, e.sessions.lookup id = some s → s.Sound fun _ => True) :
    let t := e.turn P hostOf event
    (t.next = e ∧ Quiet t.calls) ∨
    ∃ id s s', e.sessions.lookup id = some s ∧ t.next = e.setSession id s' ∧ s.Same s' ∧
      (s'.Sound fun _ => True) ∧ (s'.closed = s.closed ∨ s.id ∈ e.socket.inner.notified) ∧
      ∀ c ∈ t.calls, c.touchesSlots = true →
        c = .takeNotice s.id ∧ s.id ∈ e.socket.inner.notified ∨
          c = .endSession s.peer s.id ∧ s.closed.isSome := by
  intro t
  have hdoes : Does P hostOf e event t := does_turn e event
  generalize t = t at hdoes
  cases hdoes with
  | quiet hcalls => exact Or.inl ⟨rfl, hcalls⟩
  | drives hs hr =>
    have hdriven := Session.drive_spec (k := e.socket) (hsound _ _ hs) (fun _ _ => trivial)
    refine Or.inr ⟨_, _, _, hs, rfl, ?_⟩
    rw [hr]
    exact ⟨(hdriven _ _ _).same, (hdriven _ _ _).sound, (hdriven _ _ _).closed,
      (hdriven _ _ _).slots⟩
  | notes hs hkept hreport htask hcalls =>
    refine Or.inr ⟨_, _, _, hs, rfl, hkept.same, ?_, Or.inl hkept.closed, ?_⟩
    · intro t ht
      exact hsound _ _ hs t (htask ▸ ht)
    · intro c hc htouches
      exact Bool.noConfusion ((Event.touchesSlots_of_quiet (hcalls c hc)).symm.trans htouches)
  | closes hs => cases hlocal
  | dials _ _ _ hother => exact Bool.noConfusion (hlocal.symm.trans hother)
  | launches _ hother => exact Bool.noConfusion (hlocal.symm.trans hother)
  | abandons hother => exact Bool.noConfusion (hlocal.symm.trans hother)
  | failsDial _ _ hother => exact Bool.noConfusion (hlocal.symm.trans hother)
  | startsDial _ _ _ _ _ hother => exact Bool.noConfusion (hlocal.symm.trans hother)
  | admits _ hother => exact Bool.noConfusion (hlocal.symm.trans hother)
  | accepts _ _ hother => exact Bool.noConfusion (hlocal.symm.trans hother)
  | refuses _ _ _ hother => exact Bool.noConfusion (hlocal.symm.trans hother)
  | dropsArrival _ _ hother => exact Bool.noConfusion (hlocal.symm.trans hother)
  | startsArrival _ _ hother => exact Bool.noConfusion (hlocal.symm.trans hother)
  | startsPairing _ _ _ _ hother => exact Bool.noConfusion (hlocal.symm.trans hother)

end Endpoint

end ForgeswornLink
