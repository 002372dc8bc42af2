import ForgeswornLink.Lib.Renaming
import ForgeswornLink.TagNetwork

/-!
# What the relay learns of names

In tag mode no node ID leaves an endpoint. Rename the peers of every book one to
one, in the tables it starts with and in every call: the relay and everything on
its wires stay as they were, and each endpoint is told the new name of the peer a
datagram comes from. Hash maps list their entries in an order that depends on the
names; the order in which a registration lists its tags is part of its event, and of
the peers that a datagram may be taken to come from none is singled out.
-/

namespace ForgeswornLink
open ByteString Runs

namespace TagBook
variable (ρ : NodeId ↪ NodeId)

def rename (book : TagBook) : TagBook where
  peers := book.peers.rename ρ
  pairing := book.pairing.rename ρ
  paired := book.paired.rename ρ
  version := book.version
  sendCache := ⟨book.sendCache.host, book.sendCache.tags.rename (ρ.prodMap (.refl ℕ))⟩

theorem isEmpty_rename (book : TagBook) : (book.rename ρ).isEmpty = book.isEmpty := by
  simp only [isEmpty, rename, Table.entries_rename, List.isEmpty_map]

theorem pruneExpired_rename (book : TagBook) (nowUnix : ℕ) :
    (book.rename ρ).pruneExpired nowUnix = (book.pruneExpired nowUnix).rename ρ := by
  unfold pruneExpired
  simp only [rename, Table.mapValues_rename, Table.retain_rename,
    Table.entries_rename, List.any_map, List.length_map, Function.comp_def]
  split_ifs <;> rfl

theorem registration_rename (P : Primitives) (book : TagBook) (relayHost : String) (nowUnix : ℕ) :
    (book.rename ρ).registration P relayHost nowUnix =
      ((book.registration P relayHost nowUnix).1.rename ρ,
        (book.registration P relayHost nowUnix).2) := by
  unfold registration
  rw [pruneExpired_rename]
  simp only [rename, Table.entries_rename, List.flatMap_map]

theorem derive_rename (P : Primitives) (book : TagBook) (peer : NodeId) (relayHost : String)
    (epoch : ℕ) :
    (book.rename ρ).derive P (ρ peer) relayHost epoch = book.derive P peer relayHost epoch := by
  simp only [derive, rename, Table.lookup_rename]

theorem cacheFor_rename (cache : SendCache) (relayHost : String) :
    cacheFor ⟨cache.host, cache.tags.rename (ρ.prodMap (.refl ℕ))⟩ relayHost =
      ⟨(cacheFor cache relayHost).host,
        (cacheFor cache relayHost).tags.rename (ρ.prodMap (.refl ℕ))⟩ := by
  unfold cacheFor
  split_ifs <;> rfl

theorem tagForSend_rename (P : Primitives) (book : TagBook) (peer : NodeId) (relayHost : String)
    (nowUnix : ℕ) :
    (book.rename ρ).tagForSend P (ρ peer) relayHost nowUnix =
      ((book.tagForSend P peer relayHost nowUnix).1.rename ρ,
        (book.tagForSend P peer relayHost nowUnix).2) := by
  have hlookup (tags : Table (NodeId × ℕ) Tag) :
      (tags.rename (ρ.prodMap (.refl ℕ))).lookup (ρ peer, epochIndex nowUnix) =
        tags.lookup (peer, epochIndex nowUnix) :=
    Table.lookup_rename (ρ.prodMap (.refl ℕ)) tags (peer, epochIndex nowUnix)
  have hinsert (tags : Table (NodeId × ℕ) Tag) (tag : Tag) :
      (tags.rename (ρ.prodMap (.refl ℕ))).insert (ρ peer, epochIndex nowUnix) tag =
        Table.rename (ρ.prodMap (.refl ℕ)) (tags.insert (peer, epochIndex nowUnix) tag) :=
    Table.insert_rename (ρ.prodMap (.refl ℕ)) tags (peer, epochIndex nowUnix) tag
  unfold tagForSend
  rw [pruneExpired_rename]
  generalize book.pruneExpired nowUnix = pruned
  have hcache : cacheFor (pruned.rename ρ).sendCache relayHost = _ := cacheFor_rename ρ _ relayHost
  simp only [hcache, hlookup, derive_rename]
  cases (cacheFor pruned.sendCache relayHost).tags.lookup (peer, epochIndex nowUnix) with
  | some tag => rfl
  | none =>
    cases pruned.derive P peer relayHost (epochIndex nowUnix) with
    | none => rfl
    | some tag =>
      simp only [Table.entries_rename, List.length_map]
      split_ifs
      · have hfirst := hinsert ∅ tag
        rw [Table.rename_empty] at hfirst
        rw [hfirst]
        rfl
      · rw [hinsert]
        rfl

theorem resolve_rename (P : Primitives) (book : TagBook) (tag : Tag) (relayHost : String)
    (nowUnix : ℕ) :
    (book.rename ρ).resolve P tag relayHost nowUnix =
      ((book.resolve P tag relayHost nowUnix).1.rename ρ,
        (book.resolve P tag relayHost nowUnix).2.map ρ) := by
  unfold resolve
  rw [pruneExpired_rename]
  simp only [rename, Table.entries_rename, List.find?_map, Function.comp_def, Option.map_map,
    Option.orElse_eq_or, Option.map_or]

theorem candidates_rename (P : Primitives) (book : TagBook) (tag : Tag) (relayHost : String)
    (nowUnix : ℕ) :
    (book.rename ρ).candidates P tag relayHost nowUnix =
      (book.candidates P tag relayHost nowUnix).map ρ := by
  have hclaimants (pieces : List (NodeId × Material)) :
      claimants P tag relayHost nowUnix (pieces.map (Prod.map ρ id)) =
        (claimants P tag relayHost nowUnix pieces).map ρ := by
    simp only [claimants, List.filter_map, List.map_map]
    rfl
  have hpeers (book : TagBook) : (book.rename ρ).peerHoldings = book.peerHoldings.map
      (Prod.map ρ id) := by
    simp only [peerHoldings, rename, Table.entries_rename, List.map_map]
    rfl
  have hpaired (book : TagBook) :
      (book.rename ρ).pairedHoldings = book.pairedHoldings.map (Prod.map ρ id) := by
    simp only [pairedHoldings, rename, Table.entries_rename, List.map_map]
    rfl
  have hpairing (book : TagBook) :
      (book.rename ρ).pairingHoldings = book.pairingHoldings.map (Prod.map ρ id) := by
    simp only [pairingHoldings, rename, Table.entries_rename, List.flatMap_map, List.map_flatMap,
      List.map_map]
    rfl
  simp only [candidates, pruneExpired_rename, hpeers, hpairing, hpaired, hclaimants, ne_eq,
    List.map_eq_nil_iff]
  split_ifs <;> rfl

theorem unusedRoute_rename (book : TagBook) (route : NodeId) :
    (book.rename ρ).unusedRoute (ρ route) = book.unusedRoute route := by
  simp only [unusedRoute, rename, Table.mem_rename]

theorem removePairing_rename (book : TagBook) (route : NodeId) :
    (book.rename ρ).removePairing (ρ route) =
      ((book.removePairing route).1.rename ρ, (book.removePairing route).2) := by
  unfold removePairing
  simp only [rename, Table.lookup_rename, Table.erase_rename, Table.insert_rename]
  cases book.pairing.lookup route with
  | none => rfl
  | some entry => dsimp only; split_ifs <;> rfl

theorem promotePairing_rename (book : TagBook) (route : NodeId) (secret : Block 16)
    (generation nowUnix : ℕ) :
    (book.rename ρ).promotePairing (ρ route) secret generation nowUnix =
      ((book.promotePairing route secret generation nowUnix).1.rename ρ,
        (book.promotePairing route secret generation nowUnix).2) := by
  unfold promotePairing
  rw [pruneExpired_rename]
  simp only [rename, Table.lookup_rename, Table.insert_rename]
  cases (book.pruneExpired nowUnix).pairing.lookup route with
  | none => rfl
  | some entry => dsimp only; split_ifs <;> rfl

theorem removeLivePairing_rename (book : TagBook) (route : NodeId) (generation : ℕ) :
    (book.rename ρ).removeLivePairing (ρ route) generation =
      ((book.removeLivePairing route generation).1.rename ρ,
        (book.removeLivePairing route generation).2) := by
  unfold removeLivePairing
  simp only [rename, Table.lookup_rename, Table.erase_rename, Table.insert_rename]
  cases book.pairing.lookup route with
  | none => rfl
  | some entry => dsimp only; split_ifs <;> rfl

def Op.rename : Op → Op
  | .upsert peer material => .upsert (ρ peer) material
  | .remove peer => .remove (ρ peer)
  | .upsertPaired peer secret => .upsertPaired (ρ peer) secret
  | .removePaired peer => .removePaired (ρ peer)
  | .registerPairing route secret expiresAt => .registerPairing (ρ route) secret expiresAt
  | .removePairing route => .removePairing (ρ route)
  | .promotePairing route secret generation nowUnix =>
    .promotePairing (ρ route) secret generation nowUnix
  | .removeLivePairing route generation => .removeLivePairing (ρ route) generation
  | .prune nowUnix => .prune nowUnix

theorem apply_rename (book : TagBook) (op : Op) :
    (book.rename ρ).apply (op.rename ρ) = (book.apply op).rename ρ := by
  cases op with
  | upsert peer material =>
    simp only [Op.rename, apply, upsert, rename, bump, Table.insert_rename]; rfl
  | remove peer => simp only [Op.rename, apply, remove, rename, bump, Table.erase_rename]; rfl
  | upsertPaired peer secret =>
    simp only [Op.rename, apply, upsertPaired, rename, bump, Table.insert_rename]; rfl
  | removePaired peer =>
    simp only [Op.rename, apply, removePaired, rename, Table.mem_rename, Table.erase_rename]
    split_ifs <;> rfl
  | registerPairing route secret expiresAt =>
    simp only [Op.rename, apply, unusedRoute_rename, registerPairing]
    split_ifs
    · simp only [rename, Table.insert_rename]
      rfl
    · rfl
  | removePairing route => exact congrArg Prod.fst (removePairing_rename ρ book route)
  | promotePairing route secret generation nowUnix =>
    exact congrArg Prod.fst (promotePairing_rename ρ book route secret generation nowUnix)
  | removeLivePairing route generation =>
    exact congrArg Prod.fst (removeLivePairing_rename ρ book route generation)
  | prune nowUnix => exact pruneExpired_rename ρ book nowUnix

def BookEvent.rename : BookEvent → BookEvent
  | .change op => .change (op.rename ρ)
  | .send peer relayHost nowUnix => .send (ρ peer) relayHost nowUnix

theorem step_rename (P : Primitives) (book : TagBook) (e : BookEvent) :
    (book.rename ρ).step P (e.rename ρ) = (book.step P e).rename ρ := by
  cases e with
  | change op => exact apply_rename ρ book op
  | send peer relayHost nowUnix =>
    exact congrArg Prod.fst (tagForSend_rename ρ P book peer relayHost nowUnix)

end TagBook

namespace RelayDriver
variable (ρ : NodeId ↪ NodeId)

theorem step_rename (d : RelayDriver) (book : TagBook) (now : ℕ) (e : DriverEvent) :
    d.step (some (book.rename ρ)) now e = d.step (some book) now e := by
  cases e <;> simp only [step, Option.any_some, Option.isNone_some, TagBook.isEmpty_rename]

theorem trySend_rename (P : Primitives) (hostOf : String → Option String) (d : RelayDriver)
    (book : TagBook) (destination : NodeId) (datagram : List UInt8) (nowUnix : ℕ) :
    d.trySend P hostOf (some (book.rename ρ)) (ρ destination) datagram nowUnix =
      ((d.trySend P hostOf (some book) destination datagram nowUnix).1,
        (d.trySend P hostOf (some book) destination datagram nowUnix).2.1.map (TagBook.rename ρ),
        (d.trySend P hostOf (some book) destination datagram nowUnix).2.2) := by
  unfold trySend
  split_ifs with hstop
  · rfl
  · simp only [tagFor_eq]
    cases d.currentHost hostOf with
    | none => rfl
    | some host =>
      simp only [TagBook.tagForSend_rename]
      rcases book.tagForSend P destination host nowUnix with ⟨next, none | tag⟩ <;> rfl

end RelayDriver

namespace NetworkEvent
variable {ι κ : Type}

def rename (ρ : NodeId ↪ NodeId) : NetworkEvent ι κ → NetworkEvent ι κ
  | .book k e => .book k (e.rename ρ)
  | .trySend i destination datagram nowUnix => .trySend i (ρ destination) datagram nowUnix
  | e => e

end NetworkEvent

namespace TagNetwork
variable {ι κ : Type}

def rename (ρ : NodeId ↪ NodeId) (n : TagNetwork ι κ) : TagNetwork ι κ :=
  { n with books := fun k => (n.books k).rename ρ }

section Fields
variable (ρ : NodeId ↪ NodeId) (n : TagNetwork ι κ)

@[simp] theorem rename_relay : (n.rename ρ).relay = n.relay := rfl

@[simp] theorem rename_books (k : κ) : (n.rename ρ).books k = (n.books k).rename ρ := rfl

@[simp] theorem rename_drivers : (n.rename ρ).drivers = n.drivers := rfl

@[simp] theorem rename_session : (n.rename ρ).session = n.session := rfl

@[simp] theorem rename_wires : (n.rename ρ).wires = n.wires := rfl

@[simp] theorem nextDown_rename (i : ι) : (n.rename ρ).nextDown i = n.nextDown i := rfl

@[simp] theorem host_rename (hostOf : String → Option String) (i : ι) :
    (n.rename ρ).host hostOf i = n.host hostOf i := rfl

end Fields

variable [DecidableEq ι] [DecidableEq κ] {P : Primitives} {config : RelayConfig}
  {hostOf : String → Option String} {owner : ι → κ} (ρ : NodeId ↪ NodeId) (n : TagNetwork ι κ)

omit [DecidableEq ι] in
theorem setBook_rename (k : κ) (book : TagBook) :
    (n.rename ρ).setBook k (book.rename ρ) = (n.setBook k book).rename ρ := by
  simp only [setBook, rename]
  congr 1
  funext k'
  by_cases h : k' = k
  · subst h
    rw [Function.update_self, Function.update_self]
  · rw [Function.update_of_ne h, Function.update_of_ne h]

omit [DecidableEq ι] [DecidableEq κ] in
theorem sendUp_rename (id : ℕ) (frame : Frame) :
    (n.rename ρ).sendUp id frame = (n.sendUp id frame).rename ρ := by
  simp only [sendUp, rename_wires]
  cases n.wires.lookup id <;> rfl

omit [DecidableEq κ] in
theorem task_rename (i : ι) (now : ℕ) (e : DriverEvent) :
    (n.rename ρ).task owner i now e = (n.task owner i now e).rename ρ := by
  simp only [task, rename, RelayDriver.step_rename]

theorem dial_rename (i : ι) (source : IpAddr) (challenge : Block 32) (nowUnix : ℕ)
    (listed : List Tag) :
    (n.rename ρ).dial P hostOf owner i source challenge nowUnix listed =
      (n.dial P hostOf owner i source challenge nowUnix listed).rename ρ := by
  simp only [dial, rename_session, rename_drivers, rename_relay, rename_books,
    TagBook.registration_rename, setBook_rename]
  split
  · split_ifs <;> rfl
  · rfl

theorem take_rename (i : ι) (nowUnix now : ℕ) (frame : Option Frame) :
    (n.rename ρ).take P hostOf owner i nowUnix now frame =
      (n.take P hostOf owner i nowUnix now frame).rename ρ := by
  unfold take
  split
  · simp only [rename_books, host_rename, TagBook.resolve_rename, setBook_rename]
  · rfl
  · exact task_rename ρ n i now _
  · exact task_rename ρ n i now _

theorem step_rename (e : NetworkEvent ι κ) :
    (n.rename ρ).step P config hostOf owner (e.rename ρ) =
    (n.step P config hostOf owner e).rename ρ := by
  cases e with
  | book k e =>
    simp only [NetworkEvent.rename, step, rename_books, TagBook.step_rename, setBook_rename]
  | relay e =>
    have hstranger : (n.rename ρ).stranger e = n.stranger e := by cases e <;> rfl
    simp only [NetworkEvent.rename, step, hstranger]
    split_ifs <;> rfl
  | dial i source challenge nowUnix listed =>
    exact dial_rename ρ n i source challenge nowUnix listed
  | welcome i now =>
    simp only [NetworkEvent.rename, step, welcome, rename_session, rename_relay, task_rename]
    split
    · split_ifs <;> rfl
    · rfl
  | task i now e =>
    simp only [NetworkEvent.rename, step, rename_session, task_rename]
    split_ifs <;> rfl
  | register i nowUnix listed =>
    simp only [NetworkEvent.rename, step, register, rename_session, rename_drivers, rename_books,
      host_rename, TagBook.registration_rename, setBook_rename, sendUp_rename]
    split
    · split_ifs <;> rfl
    · rfl
  | trySend i destination datagram nowUnix =>
    simp only [NetworkEvent.rename, step, trySend, rename_drivers, rename_books,
      RelayDriver.trySend_rename, Option.getD_map, setBook_rename]
    rfl
  | write i now =>
    simp only [NetworkEvent.rename, step, write, rename_session, rename_drivers, task_rename,
      sendUp_rename]
    split <;> rfl
  | carry id allowed =>
    simp only [NetworkEvent.rename, step, carry, rename_wires]
    split
    · split
      · rename_i bytes rest hup
        by_cases hreads : n.relay.reads (.receive id (.binary bytes) allowed) = some id
        · refine (if_pos hreads).trans ?_
          rw [if_pos hreads]
          rfl
        · refine (if_neg hreads).trans ?_
          rw [if_neg hreads]
      · rfl
    · rfl
  | drain id written =>
    simp only [NetworkEvent.rename, step, drain, rename_wires, rename_relay]
    split <;> rfl
  | read i nowUnix now =>
    simp only [NetworkEvent.rename, step, read, nextDown_rename]
    split
    · rename_i id w bytes hnext
      exact take_rename ρ { n with wires := n.wires.insert id w } i nowUnix now _
    · rfl

omit [DecidableEq ι] [DecidableEq κ] in
theorem mayHandUp_rename (e : NetworkEvent ι κ) :
    (n.rename ρ).mayHandUp P hostOf owner (e.rename ρ) =
      (n.mayHandUp P hostOf owner e).map (Prod.map ρ id) := by
  cases e with
  | read i nowUnix now =>
    simp only [NetworkEvent.rename, mayHandUp, nextDown_rename, rename_books, host_rename,
      TagBook.candidates_rename]
    split
    · split
      · simp only [List.map_map]
        rfl
      · rfl
    · rfl
  | _ => rfl

/-- The relay's state, the bytes on every wire and the drivers are the same whatever the peers are
called, for every order in which the registrations list their tags; what an endpoint may be handed
is what it was, under the new name. -/
theorem relay_learns_no_names (P : Primitives) (config : RelayConfig)
    (hostOf : String → Option String) (owner : ι → κ) (ρ : NodeId ↪ NodeId)
    (peers : κ → Table NodeId RendezvousPeer) (paired : κ → Table NodeId (Block 32))
    (urls : ι → List String) (es : List (NetworkEvent ι κ)) (e : NetworkEvent ι κ) :
    let plain := run (step P config hostOf owner) (start peers paired urls) es
    let renamed := run (step P config hostOf owner)
      (start (fun k => (peers k).rename ρ) (fun k => (paired k).rename ρ) urls)
      (es.map (NetworkEvent.rename ρ))
    renamed.relay = plain.relay ∧ renamed.wires = plain.wires ∧ renamed.session = plain.session ∧
      renamed.drivers = plain.drivers ∧
      ∀ name datagram, (name, datagram) ∈ renamed.mayHandUp P hostOf owner (e.rename ρ) ↔
        ∃ peer, (peer, datagram) ∈ plain.mayHandUp P hostOf owner e ∧ name = ρ peer := by
  intro plain renamed
  have hrun : renamed = plain.rename ρ :=
    run_rename (fun n e => step_rename ρ n e) (start peers paired urls) es
  rw [hrun]
  refine ⟨rfl, rfl, rfl, rfl, fun name datagram => ?_⟩
  rw [mayHandUp_rename, List.mem_map]
  constructor
  · rintro ⟨⟨peer, _⟩, hpeer, heq⟩
    cases heq
    exact ⟨peer, hpeer, rfl⟩
  · rintro ⟨peer, hpeer, rfl⟩
    exact ⟨(peer, datagram), hpeer, rfl⟩

end TagNetwork
end ForgeswornLink
