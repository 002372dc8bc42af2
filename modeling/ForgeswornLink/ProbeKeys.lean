import ForgeswornLink.PathEffects
import ForgeswornLink.Lib.Keyring

/-!
# The probe keys on record

The key on record for a peer and the index from key ids back to peers are a
keyring: only the start of a session registers one and only its end unregisters
one. Everything else of the socket leaves both as they are.
-/

namespace ForgeswornLink
open Runs Keyring

namespace Inner

def keys (i : Inner) : Keys NodeId ProbeKeyId where
  index keyId := i.byKeyId.lookup keyId
  key p := (i.entry p).probeKey.map Prod.fst

theorem keys_congr {i j : Inner} (hindex : j.byKeyId = i.byKeyId)
    (hkey : ∀ p, (j.entry p).probeKey = (i.entry p).probeKey) : j.keys = i.keys := by
  unfold keys
  rw [hindex]
  simp only [hkey]

theorem byKeyId_unindex (i : Inner) (d : Option Proven) : (i.unindex d).byKeyId = i.byKeyId := by
  cases d <;> rfl

theorem byKeyId_beginSession (i : Inner) (p : NodeId) :
    (i.beginSession p).1.byKeyId = i.byKeyId := by
  rw [beginSession, byKeyId_unindex, (onlyPeers_modifyExisting _ p _).byKeyId]

theorem byKeyId_dropDirect (i : Inner) (p : NodeId) (session : ℕ) :
    (i.dropDirect p session).byKeyId = i.byKeyId := by
  unfold dropDirect
  split_ifs
  · rfl
  · rw [byKeyId_unindex, (onlyPeers_modifyExisting _ p _).byKeyId]

theorem keys_registerProbeKey (i : Inner) (p : NodeId) (keyId : ProbeKeyId) (key : ProbeKey) :
    (i.registerProbeKey p keyId key).keys = i.keys.step (.register p keyId) := by
  have hkey : ∀ q, ((i.registerProbeKey p keyId key).entry q).probeKey.map Prod.fst =
      Function.update i.keys.key p (some keyId) q := by
    intro q
    rw [Function.update_apply]
    have hentry : (i.registerProbeKey p keyId key).entry q =
        if q = p then { i.entry p with probeKey := some (keyId, key) } else i.entry q :=
      entry_modify i p q fun e => { e with probeKey := some (keyId, key) }
    rw [hentry]
    split_ifs <;> rfl
  have hindex : ∀ k, (i.registerProbeKey p keyId key).byKeyId.lookup k =
      Function.update (i.keys.release p) keyId (some p) k := by
    intro k
    rw [Function.update_apply, registerProbeKey, Table.lookup_insert_ite]
    split_ifs
    · rfl
    · unfold Keys.release keys
      dsimp only
      cases (i.entry p).probeKey with
      | none => rfl
      | some held =>
        dsimp only [Option.map_some]
        rw [Table.lookup_erase_ite, Function.update_apply]
  exact congrArg₂ Keys.mk (funext hindex) (funext hkey)

theorem keys_unregisterProbeKey (i : Inner) (keyId : ProbeKeyId) :
    (i.unregisterProbeKey keyId).keys = i.keys.step (.unregister keyId) := by
  have hindex : i.keys.index keyId = i.byKeyId.lookup keyId := rfl
  unfold unregisterProbeKey
  simp only [Keys.step, hindex]
  cases i.byKeyId.lookup keyId with
  | none => rfl
  | some p =>
    have herased : (fun k => (i.byKeyId.erase keyId).lookup k) =
        Function.update i.keys.index keyId none := by
      funext k
      rw [Function.update_apply, Table.lookup_erase_ite]
      rfl
    have hheld : (i.entry p).probeKey.any (fun held => held.1 == keyId) = true ↔
        i.keys.key p = some keyId := by
      have hkey : i.keys.key p = (i.entry p).probeKey.map Prod.fst := rfl
      rw [hkey]
      cases (i.entry p).probeKey <;> simp
    dsimp only
    by_cases hkey : i.keys.key p = some keyId
    · rw [if_pos hkey]
      refine (congrArg keys (if_pos (hheld.mpr hkey))).trans ?_
      refine congrArg₂ Keys.mk ?_ ?_
      · rw [← herased, (onlyPeers_modifyExisting _ p _).byKeyId]
      · funext q
        rw [Function.update_apply, entry_modifyExisting _ _ _ rfl]
        split_ifs <;> rfl
    · rw [if_neg hkey]
      refine (congrArg keys (if_neg fun h => hkey (hheld.mp h))).trans ?_
      exact congrArg₂ Keys.mk herased rfl

end Inner

def Event.keyOp : Event → Option (Op NodeId ProbeKeyId)
  | .registerProbeKey _ p keyId _ => some (.register p keyId)
  | .unregisterProbeKey keyId => some (.unregister keyId)
  | _ => none

namespace PathSocket
variable (P : Primitives) (hostOf : String → Option String)

structure KeysKept (i j : Inner) : Prop where
  index : j.byKeyId = i.byKeyId
  held : ∀ p, (j.entry p).probeKey = (i.entry p).probeKey

theorem keysKept_recvDirect (s : PathSocket) (sender : SocketAddr) (data : List UInt8)
    (draw : Nonce × Bool) : KeysKept s.inner (s.recvDirect P sender data draw).1.inner := by
  rcases recvDirect_cases P s sender data draw with
    ⟨q, keyId, key, nonce, -, hexec⟩ | ⟨q, keyId, key, nonce, -, hexec⟩ |
    ⟨inbound, reflexive, reflectorNonce, hexec⟩
  · rw [hexec]
    exact ⟨(Inner.onlyPeers_handlePing s.inner q key _ _ s.now draw).byKeyId, fun p =>
      Inner.proj_handlePing Peer.probeKey (fun _ _ _ => rfl) (fun _ _ _ => rfl) s.inner q p key _ _
        s.now draw⟩
  · rw [hexec]
    unfold Inner.acceptPong
    dsimp only
    split_ifs
    · exact ⟨rfl, fun _ => rfl⟩
    · have hproved (e : Peer) : (e.prove nonce sender.unmapIpv6 s.now).probeKey = e.probeKey := rfl
      exact ⟨rfl, fun p => Inner.proj_modify Peer.probeKey hproved s.inner q p⟩
  · rw [hexec]
    exact ⟨rfl, fun _ => rfl⟩

theorem keysKept_step (s : PathSocket) {e : Event} (he : e.keyOp = none) :
    KeysKept s.inner (s.step P hostOf e).inner := by
  have hquiet : e.touchesPaths = false → KeysKept s.inner (s.step P hostOf e).inner := fun he =>
    ⟨index_step_of_quiet P hostOf Inner.byKeyId (fun _ _ _ _ _ => rfl) s he,
      proj_step_of_quiet P hostOf Peer.probeKey (fun _ _ _ _ => rfl) s he⟩
  cases e with
  | registerProbeKey session p keyId key => cases he
  | unregisterProbeKey keyId => cases he
  | beginSession p =>
    refine ⟨Inner.byKeyId_beginSession s.inner p, fun q => ?_⟩
    change ((s.inner.beginSession p).1.entry q).probeKey = _
    rw [Inner.entry_beginSession]
    split_ifs with hq
    · rw [hq]
      rfl
    · rfl
  | dropDirect p session =>
    refine ⟨Inner.byKeyId_dropDirect s.inner p session, fun q => ?_⟩
    change ((s.inner.dropDirect p session).entry q).probeKey = _
    rw [Inner.entry_dropDirect]
    split_ifs with hq
    · rw [hq.1]
    · rfl
  | sendProbes p draws =>
    exact ⟨(Inner.onlyPeers_sendProbes s.inner s.udp p s.now draws).byKeyId, fun q =>
      Inner.proj_sendProbes Peer.probeKey (fun _ _ _ _ => rfl) s.inner s.udp p q s.now draws⟩
  | recvDirect sender data draw => exact keysKept_recvDirect P s sender data draw
  | _ => exact hquiet rfl

theorem keys_step (s : PathSocket) (e : Event) :
    (s.step P hostOf e).inner.keys = run Keys.step s.inner.keys e.keyOp.toList := by
  have hkept : e.keyOp = none → (s.step P hostOf e).inner.keys = s.inner.keys := fun he =>
    Inner.keys_congr (keysKept_step P hostOf s he).index (keysKept_step P hostOf s he).held
  cases e with
  | registerProbeKey session p keyId key => exact Inner.keys_registerProbeKey s.inner p keyId key
  | unregisterProbeKey keyId => exact Inner.keys_unregisterProbeKey s.inner keyId
  | _ => exact hkept rfl

theorem keys_after (s : PathSocket) (es : List Event) :
    (after P hostOf s es).inner.keys = run Keys.step s.inner.keys (es.filterMap Event.keyOp) := by
  induction es generalizing s with
  | nil => rfl
  | cons e es ih =>
    rw [after, run_cons]
    refine (ih _).trans ?_
    rw [keys_step, List.filterMap_cons]
    cases e.keyOp <;> rfl

end PathSocket

namespace Inner
variable {i : Inner} {p : NodeId} {keyId : ProbeKeyId} {key : ProbeKey}

theorem probeKey_unregisterProbeKey {old : ProbeKeyId} (hne : old ≠ keyId)
    (hheld : (i.entry p).probeKey = some (keyId, key)) :
    ((i.unregisterProbeKey old).entry p).probeKey = some (keyId, key) := by
  unfold unregisterProbeKey
  cases i.byKeyId.lookup old with
  | none => exact hheld
  | some q =>
    dsimp only
    split_ifs with hold
    · rw [entry_modifyExisting _ _ _ rfl]
      split_ifs with hq
      · -- then the peer whose key goes is the one that has the other key
        rw [← hq] at hold
        change (i.entry p).probeKey.any _ = true at hold
        rw [hheld, Option.any_some, beq_iff_eq] at hold
        exact absurd hold.symm hne
      · exact hheld
    · exact hheld

theorem byKeyId_unregisterProbeKey {old : ProbeKeyId} (hne : old ≠ keyId) :
    (i.unregisterProbeKey old).byKeyId.lookup keyId = i.byKeyId.lookup keyId := by
  unfold unregisterProbeKey
  cases i.byKeyId.lookup old with
  | none => rfl
  | some q =>
    have herased : (i.byKeyId.erase old).lookup keyId = i.byKeyId.lookup keyId :=
      AList.lookup_erase_ne hne.symm
    dsimp only
    split_ifs
    · rw [(onlyPeers_modifyExisting _ q _).byKeyId]
      exact herased
    · exact herased

theorem probeSession_eq_some :
    i.probeSession keyId = some (p, key) ↔
      i.byKeyId.lookup keyId = some p ∧ ∃ held, (i.entry p).probeKey = some (held, key) := by
  unfold probeSession
  cases i.byKeyId.lookup keyId with
  | none => simp
  | some q =>
    simp only [Option.map_eq_some_iff, Prod.mk.injEq, Option.some.injEq, Prod.exists]
    constructor
    · rintro ⟨held, key', hheld, rfl, rfl⟩
      exact ⟨rfl, held, hheld⟩
    · rintro ⟨rfl, held, hheld⟩
      exact ⟨held, key, hheld, rfl, rfl⟩

end Inner

/-- A session registers one key, for its one peer, and no two sessions export the same key id. -/
structure DistinctSessions (es : List Event) : Prop where
  once : ∀ session p keyId key p' keyId' key', Event.registerProbeKey session p keyId key ∈ es →
    Event.registerProbeKey session p' keyId' key' ∈ es → p = p' ∧ keyId = keyId' ∧ key = key'
  distinct : ∀ session session' p p' keyId key key',
    Event.registerProbeKey session p keyId key ∈ es →
    Event.registerProbeKey session' p' keyId key' ∈ es → session = session'

theorem DistinctSessions.same {es : List Event} (h : DistinctSessions es) {session session' : ℕ}
    {p p' : NodeId} {keyId : ProbeKeyId} {key key' : ProbeKey}
    (hfirst : Event.registerProbeKey session p keyId key ∈ es)
    (hsecond : Event.registerProbeKey session' p' keyId key' ∈ es) : p = p' ∧ key = key' := by
  obtain rfl := h.distinct _ _ _ _ _ _ _ hfirst hsecond
  obtain ⟨hpeer, -, hkey⟩ := h.once _ _ _ _ _ _ _ hfirst hsecond
  exact ⟨hpeer, hkey⟩

namespace PathSocket
variable {P : Primitives} {hostOf : String → Option String} {start : PathSocket} {es : List Event}
  {p : NodeId} {keyId : ProbeKeyId} {key : ProbeKey}

theorem held_step {s : PathSocket} {e : Event}
    (h : ((s.step P hostOf e).inner.entry p).probeKey = some (keyId, key)) :
    (∃ session, e = .registerProbeKey session p keyId key) ∨
      (s.inner.entry p).probeKey = some (keyId, key) := by
  have hkept : e.keyOp = none → (s.inner.entry p).probeKey = some (keyId, key) := fun he =>
    ((keysKept_step P hostOf s he).held p).symm.trans h
  cases e with
  | registerProbeKey session q keyId' key' =>
    have hentry : (s.inner.registerProbeKey q keyId' key').entry p =
        if p = q then { s.inner.entry q with probeKey := some (keyId', key') }
          else s.inner.entry p :=
      Inner.entry_modify s.inner q p fun e => { e with probeKey := some (keyId', key') }
    rw [step, exec, hentry] at h
    split_ifs at h with hq
    · cases h
      exact Or.inl ⟨session, by rw [hq]⟩
    · exact Or.inr h
  | unregisterProbeKey old =>
    refine Or.inr ?_
    change ((s.inner.unregisterProbeKey old).entry p).probeKey = _ at h
    unfold Inner.unregisterProbeKey at h
    cases hindex : s.inner.byKeyId.lookup old with
    | none =>
      rw [hindex] at h
      exact h
    | some q =>
      rw [hindex] at h
      dsimp only at h
      split_ifs at h
      · rw [Inner.entry_modifyExisting _ _ _ rfl] at h
        split_ifs at h
        exact h
      · exact h
  | _ => exact Or.inr (hkept rfl)

theorem registered_of_held (hstart : start.inner = {})
    (h : ((after P hostOf start es).inner.entry p).probeKey = some (keyId, key)) :
    ∃ session, Event.registerProbeKey session p keyId key ∈ es := by
  induction es using List.reverseRecOn with
  | nil =>
    rw [after, run_nil, hstart] at h
    cases h
  | append_singleton es e ih =>
    rw [after, run_snoc] at h
    rcases held_step h with ⟨session, rfl⟩ | hbefore
    · exact ⟨session, List.mem_append_right _ (List.mem_singleton_self _)⟩
    · obtain ⟨session, hmem⟩ := ih hbefore
      exact ⟨session, List.mem_append_left _ hmem⟩

theorem register_of_keyOp {value : NodeId}
    (h : Op.register value keyId ∈ es.filterMap Event.keyOp) :
    ∃ session key, Event.registerProbeKey session value keyId key ∈ es := by
  obtain ⟨e, hmem, he⟩ := List.mem_filterMap.mp h
  cases e with
  | registerProbeKey session q keyId' key' =>
    cases he
    exact ⟨session, key', hmem⟩
  | _ => cases he

theorem index_iff_held (hstart : start.inner = {}) (h : DistinctSessions es) (keyId : ProbeKeyId)
    (p : NodeId) : (after P hostOf start es).inner.byKeyId.lookup keyId = some p ↔
      ∃ key, ((after P hostOf start es).inner.entry p).probeKey = some (keyId, key) := by
  have honly : ∀ v v', Op.register v keyId ∈ es.filterMap Event.keyOp →
      Op.register v' keyId ∈ es.filterMap Event.keyOp → v = v' := by
    intro v v' hv hv'
    obtain ⟨session, key, hmem⟩ := register_of_keyOp hv
    obtain ⟨session', key', hmem'⟩ := register_of_keyOp hv'
    exact (h.same hmem hmem').1
  have hagrees := (agrees_run honly).1
  have hkeys : (after P hostOf start es).inner.keys =
      run Keys.step Keys.empty (es.filterMap Event.keyOp) := by
    rw [keys_after, hstart]
    rfl
  rw [← hkeys] at hagrees
  refine (hagrees p).trans ?_
  change ((after P hostOf start es).inner.entry p).probeKey.map Prod.fst = some keyId ↔ _
  rw [Option.map_eq_some_iff]
  constructor
  · rintro ⟨⟨held, key⟩, hheld, rfl⟩
    exact ⟨key, hheld⟩
  · rintro ⟨key, hheld⟩
    exact ⟨(keyId, key), hheld, rfl⟩

/-- In every run of a path socket whose sessions have distinct key ids: the index leads from a key
id to a peer exactly if the key of that id is on record for the peer; what it gives for a key id is
the key registered under it; and unregistering another key id leaves a key on record and found. -/
theorem probe_key_index_coherent (P : Primitives) (hostOf : String → Option String)
    (nodeId : NodeId) (udp : Bool) (udpLocal : SocketAddr) (relays : List String)
    (book : Option TagBook) (reflector : Option SocketAddr) (now unixNow : ℕ) (es : List Event)
    (h : DistinctSessions es) :
    let i := (after P hostOf
      (assemble nodeId udp udpLocal relays book reflector now unixNow) es).inner
    (∀ keyId p, i.byKeyId.lookup keyId = some p ↔ ∃ key, (i.entry p).probeKey = some (keyId, key)) ∧
    (∀ keyId p key, i.probeSession keyId = some (p, key) →
      (∃ session, Event.registerProbeKey session p keyId key ∈ es) ∧
      ∀ session' p' key', Event.registerProbeKey session' p' keyId key' ∈ es →
        p' = p ∧ key' = key) ∧
    ∀ old keyId p key, old ≠ keyId → (i.entry p).probeKey = some (keyId, key) →
      ((i.unregisterProbeKey old).entry p).probeKey = some (keyId, key) ∧
        (i.unregisterProbeKey old).probeSession keyId = some (p, key) := by
  intro i
  have hindex : ∀ keyId p, i.byKeyId.lookup keyId = some p ↔
      ∃ key, (i.entry p).probeKey = some (keyId, key) := index_iff_held rfl h
  refine ⟨hindex, fun keyId p key hsession => ?_, fun old keyId p key hne hheld => ?_⟩
  · obtain ⟨hlookup, held, hheld⟩ := Inner.probeSession_eq_some.mp hsession
    obtain ⟨key', hheld'⟩ := (hindex keyId p).mp hlookup
    rw [hheld'] at hheld
    cases hheld
    obtain ⟨session, hmem⟩ := registered_of_held rfl hheld'
    exact ⟨⟨session, hmem⟩, fun session' p' key' hmem' => h.same hmem' hmem⟩
  · have hkept := Inner.probeKey_unregisterProbeKey hne hheld
    refine ⟨hkept, Inner.probeSession_eq_some.mpr ⟨?_, keyId, hkept⟩⟩
    rw [Inner.byKeyId_unregisterProbeKey hne]
    exact (hindex keyId p).mpr ⟨key, hheld⟩

theorem late_unregister_keeps_newer_key :
    let p : NodeId := ⟨List.Vector.replicate 32 1⟩
    let old : ProbeKeyId := List.Vector.replicate 8 3
    let new : ProbeKeyId := List.Vector.replicate 8 4
    let key : ProbeKey := List.Vector.replicate 32 5
    let es := [Event.registerProbeKey 0 p old key, .registerProbeKey 1 p new key]
    let i := (after Primitives.standIn (fun _ => none) (assemble ⟨List.Vector.replicate 32 0⟩ true
      (.v4 (List.Vector.replicate 4 0) 0) [] none none 0 0) es).inner
    DistinctSessions es ∧ (i.unregisterProbeKey old).probeSession new = some (p, key) := by
  intro p old new key es i
  have hids : old ≠ new := by decide
  have hdistinct : DistinctSessions es := by
    constructor
    · intro session p₁ k₁ key₁ p₂ k₂ key₂ h₁ h₂
      simp only [es, List.mem_cons, Event.registerProbeKey.injEq, List.not_mem_nil,
        or_false] at h₁ h₂
      rcases h₁ with ⟨rfl, rfl, rfl, rfl⟩ | ⟨rfl, rfl, rfl, rfl⟩ <;>
        rcases h₂ with ⟨h, rfl, rfl, rfl⟩ | ⟨h, rfl, rfl, rfl⟩ <;> simp_all
    · intro session session' p₁ p₂ k key₁ key₂ h₁ h₂
      simp only [es, List.mem_cons, Event.registerProbeKey.injEq, List.not_mem_nil,
        or_false] at h₁ h₂
      rcases h₁ with ⟨rfl, rfl, rfl, rfl⟩ | ⟨rfl, rfl, rfl, rfl⟩ <;>
        rcases h₂ with ⟨h, rfl, hk, rfl⟩ | ⟨h, rfl, hk, rfl⟩ <;> simp_all
  exact ⟨hdistinct, ((probe_key_index_coherent Primitives.standIn (fun _ => none) _ _ _ _ _ _ _ _ es
    hdistinct).2.2 old new p key hids (by decide +kernel)).2⟩

end PathSocket

end ForgeswornLink
