import ForgeswornLink.Lib.Runs
import ForgeswornLink.TagBook

/-!
# Material of the rendezvous book

A tag is derived from a piece of material: the ECDH pair of a peer, a pairing
secret, or the secret of a paired route. `holdings` lists every piece with its
key, in the order in which `registration` and `resolve` walk the three tables,
and `chosen` is the piece a send uses; the three functions are described by them.
A cached send tag is always the one that the present material gives.
-/

namespace ForgeswornLink
open ByteString Runs

deriving instance DecidableEq for RendezvousPeer

inductive Material where
  | pair (peer : RendezvousPeer)
  | pairing (secret : Block 16)
  | paired (secret : Block 32)
deriving DecidableEq

def Material.tag (P : Primitives) (relayHost : String) : Material → ℕ → Tag
  | .pair peer => deriveTag P peer.case peer.staticX peer.ephX relayHost
  | .pairing secret => derivePairingTag P secret relayHost
  | .paired secret => derivePairedRouteTag P secret relayHost

namespace PairingRoute

def none : PairingRoute := ⟨Option.none, Option.none⟩

def secrets (route : PairingRoute) : List (Block 16) :=
  (route.admission.map ExpiringSecret.secret).toList ++
    (route.live.map LivePairingRoute.secret).toList

/-- The secret a send uses: the admission first, the live route for what is left after it. -/
def sendSecret (route : PairingRoute) : Option (Block 16) :=
  (route.admission.map ExpiringSecret.secret).or (route.live.map LivePairingRoute.secret)

theorem sendSecret_mem {route : PairingRoute} {secret : Block 16}
    (h : route.sendSecret = some secret) : secret ∈ route.secrets := by
  obtain ⟨admission, live⟩ := route
  cases admission <;> cases live <;> simp_all [sendSecret, secrets]

end PairingRoute

namespace TagBook
variable {P : Primitives}

/-! ### Under the locks

A call that may change the book does so under the lock of one table and bumps
after it has let go; the flag says whether it bumps. -/

section Locks
variable (book : TagBook)

def dropPaired (peer : NodeId) : TagBook × Bool :=
  ({ book with paired := book.paired.erase peer }, decide (peer ∈ book.paired))

def takeAdmission (route : NodeId) : TagBook × Bool :=
  match book.pairing.lookup route with
  | none => (book, false)
  | some entry =>
    let pairing :=
      if entry.live.isNone then book.pairing.erase route
      else book.pairing.insert route { entry with admission := none }
    ({ book with pairing := pairing }, entry.admission.isSome)

def dropLive (route : NodeId) (generation : ℕ) : TagBook × Bool :=
  match book.pairing.lookup route with
  | none => (book, false)
  | some entry =>
    let removed := entry.live.any (fun live => live.generation == generation)
    let live := if removed then none else entry.live
    let pairing :=
      if entry.admission.isNone && live.isNone then book.pairing.erase route
      else book.pairing.insert route { entry with live := live }
    ({ book with pairing := pairing }, removed)

def installLive (route : NodeId) (secret : Block 16) (generation : ℕ) : TagBook × Bool :=
  match book.pairing.lookup route with
  | none => (book, false)
  | some entry =>
    if entry.admission.isNone then (book, false)
    else
      ({ book with
          pairing := book.pairing.insert route { entry with live := some ⟨generation, secret⟩ } },
        true)

def dropExpired (nowUnix : ℕ) : TagBook × Bool :=
  let pairing := (book.pairing.mapValues (expire nowUnix)).retain
    (fun _ route => route.admission.isSome || route.live.isSome)
  ({ book with pairing := pairing }, book.pairing.entries.any (fun e => expired nowUnix e.2) ||
    pairing.entries.length != book.pairing.entries.length)

def bumpIf (changed : TagBook × Bool) : TagBook := if changed.2 then changed.1.bump else changed.1

theorem removePairing_eq (route : NodeId) : book.removePairing route =
    (bumpIf (book.takeAdmission route), (book.takeAdmission route).2) := by
  unfold removePairing takeAdmission
  cases book.pairing.lookup route <;> rfl

theorem removeLivePairing_eq (route : NodeId) (generation : ℕ) :
    book.removeLivePairing route generation =
      (bumpIf (book.dropLive route generation), (book.dropLive route generation).2) := by
  unfold removeLivePairing dropLive
  cases book.pairing.lookup route <;> rfl

theorem pruneExpired_eq (nowUnix : ℕ) :
    book.pruneExpired nowUnix = bumpIf (book.dropExpired nowUnix) := rfl

theorem promotePairing_eq (route : NodeId) (secret : Block 16) (generation nowUnix : ℕ) :
    book.promotePairing route secret generation nowUnix =
      (bumpIf ((book.pruneExpired nowUnix).installLive route secret generation),
        ((book.pruneExpired nowUnix).installLive route secret generation).2) := by
  simp only [promotePairing, installLive]
  generalize book.pruneExpired nowUnix = pruned
  cases pruned.pairing.lookup route with
  | none => rfl
  | some entry => cases hadmission : entry.admission <;> simp [hadmission, bumpIf]

theorem removePaired_eq (peer : NodeId) :
    book.removePaired peer = if peer ∈ book.paired then bumpIf (book.dropPaired peer)
      else book := by
  unfold removePaired
  split
  · rename_i h
    simp [bumpIf, dropPaired, h]
  · rfl

end Locks

/-! ### Routes, one key at a time -/

section Routes
variable (book : TagBook)

def routeOf (route : NodeId) : PairingRoute := (book.pairing.lookup route).getD .none

theorem routeOf_bumpIf (changed : TagBook × Bool) :
    (bumpIf changed).routeOf = changed.1.routeOf := by
  unfold bumpIf
  split <;> rfl

theorem routeOf_of_lookup {book : TagBook} {route : NodeId} {entry : PairingRoute}
    (h : book.pairing.lookup route = some entry) : book.routeOf route = entry := by
  simp [routeOf, h]

theorem routeOf_insert (route : NodeId) (entry : PairingRoute) (k : NodeId) :
    routeOf { book with pairing := book.pairing.insert route entry } k =
      if k = route then entry else book.routeOf k := by
  simp only [routeOf, Table.lookup_insert_ite]
  split <;> rfl

theorem routeOf_erase (route k : NodeId) :
    routeOf { book with pairing := book.pairing.erase route } k =
      if k = route then .none else book.routeOf k := by
  simp only [routeOf, Table.lookup_erase_ite]
  split <;> rfl

theorem routeOf_dropExpired (nowUnix : ℕ) (k : NodeId) :
    (book.dropExpired nowUnix).1.routeOf k = expire nowUnix (book.routeOf k) := by
  simp only [routeOf, dropExpired, Table.lookup_retain, Table.lookup_mapValues]
  cases book.pairing.lookup k with
  | none => rfl
  | some entry =>
    simp only [Option.map_some, Option.getD_some]
    generalize expire nowUnix entry = left
    obtain ⟨admission, live⟩ := left
    cases admission <;> cases live <;> simp [Option.filter, PairingRoute.none]

theorem routeOf_takeAdmission (route k : NodeId) :
    (book.takeAdmission route).1.routeOf k =
      if k = route then { book.routeOf k with admission := none } else book.routeOf k := by
  unfold takeAdmission
  cases hentry : book.pairing.lookup route with
  | none =>
    by_cases hk : k = route
    · subst hk
      simp [routeOf, hentry, PairingRoute.none]
    · simp [hk]
  | some entry =>
    obtain ⟨admission, live⟩ := entry
    by_cases hk : k = route
    · subst hk
      cases live <;>
        simp [routeOf_insert, routeOf_erase, routeOf_of_lookup hentry, PairingRoute.none]
    · cases live <;> simp [routeOf_insert, routeOf_erase, hk]

theorem routeOf_dropLive (route : NodeId) (generation : ℕ) (k : NodeId) :
    (book.dropLive route generation).1.routeOf k =
      if k = route ∧ (book.routeOf k).live.any (fun live => live.generation == generation) then
        { book.routeOf k with live := none }
      else book.routeOf k := by
  unfold dropLive
  cases hentry : book.pairing.lookup route with
  | none =>
    by_cases hk : k = route
    · subst hk
      simp [routeOf, hentry, PairingRoute.none]
    · simp [hk]
  | some entry =>
    obtain ⟨admission, live⟩ := entry
    by_cases hk : k = route
    · subst hk
      rw [routeOf_of_lookup hentry]
      cases hremoved : live.any (fun live => live.generation == generation) with
      | true =>
        cases admission <;> simp [hremoved, routeOf_insert, routeOf_erase, PairingRoute.none]
      | false =>
        cases admission <;> cases live <;>
          simp [hremoved, routeOf_insert, routeOf_erase, PairingRoute.none]
    · simp only [hk, false_and, if_false]
      generalize live.any (fun live => live.generation == generation) = removed
      cases removed <;> cases admission <;> cases live <;> simp [routeOf_insert, routeOf_erase, hk]

theorem routeOf_installLive (route : NodeId) (secret : Block 16) (generation : ℕ) (k : NodeId) :
    (book.installLive route secret generation).1.routeOf k =
      if k = route ∧ (book.routeOf k).admission.isSome then
        { book.routeOf k with live := some ⟨generation, secret⟩ }
      else book.routeOf k := by
  unfold installLive
  cases hentry : book.pairing.lookup route with
  | none =>
    by_cases hk : k = route
    · subst hk
      simp [routeOf, hentry, PairingRoute.none]
    · simp [hk]
  | some entry =>
    obtain ⟨admission, live⟩ := entry
    by_cases hk : k = route
    · subst hk
      cases admission <;> simp [routeOf_insert, routeOf_of_lookup hentry]
    · cases admission <;> simp [routeOf_insert, hk]

end Routes

structure SameMaterial (book next : TagBook) : Prop where
  routes : ∀ k, next.routeOf k = book.routeOf k
  paired : ∀ k, next.paired.lookup k = book.paired.lookup k
  peers : ∀ k, next.peers.lookup k = book.peers.lookup k

section Unchanged
variable {book : TagBook}

theorem SameMaterial.refl (book : TagBook) : book.SameMaterial book :=
  ⟨fun _ => rfl, fun _ => rfl, fun _ => rfl⟩

theorem SameMaterial.trans {next last : TagBook} (h : book.SameMaterial next)
    (h' : next.SameMaterial last) : book.SameMaterial last :=
  ⟨fun k => (h'.routes k).trans (h.routes k), fun k => (h'.paired k).trans (h.paired k),
    fun k => (h'.peers k).trans (h.peers k)⟩

theorem dropPaired_same {peer : NodeId} (h : (book.dropPaired peer).2 = false) :
    book.SameMaterial (book.dropPaired peer).1 := by
  have hnone : book.paired.lookup peer = none :=
    AList.lookup_eq_none.mpr (by simpa [dropPaired] using h)
  refine ⟨fun _ => rfl, fun k => ?_, fun _ => rfl⟩
  simp only [dropPaired, Table.lookup_erase_ite]
  split
  · rename_i hk
    rw [hk, hnone]
  · rfl

theorem takeAdmission_snd (route : NodeId) :
    (book.takeAdmission route).2 = (book.routeOf route).admission.isSome := by
  unfold takeAdmission routeOf
  cases book.pairing.lookup route <;> simp [PairingRoute.none]

theorem dropLive_snd (route : NodeId) (generation : ℕ) :
    (book.dropLive route generation).2 =
      (book.routeOf route).live.any (fun live => live.generation == generation) := by
  unfold dropLive routeOf
  cases book.pairing.lookup route <;> simp [PairingRoute.none]

theorem installLive_snd (route : NodeId) (secret : Block 16) (generation : ℕ) :
    (book.installLive route secret generation).2 = (book.routeOf route).admission.isSome := by
  unfold installLive routeOf
  cases book.pairing.lookup route with
  | none => simp [PairingRoute.none]
  | some entry => cases hadmission : entry.admission <;> simp [hadmission]

theorem tables_takeAdmission (book : TagBook) (route : NodeId) :
    (book.takeAdmission route).1.paired = book.paired ∧
      (book.takeAdmission route).1.peers = book.peers ∧
      (book.takeAdmission route).1.sendCache = book.sendCache := by
  unfold takeAdmission
  cases book.pairing.lookup route <;> exact ⟨rfl, rfl, rfl⟩

theorem tables_dropLive (book : TagBook) (route : NodeId) (generation : ℕ) :
    (book.dropLive route generation).1.paired = book.paired ∧
      (book.dropLive route generation).1.peers = book.peers ∧
      (book.dropLive route generation).1.sendCache = book.sendCache := by
  unfold dropLive
  cases book.pairing.lookup route <;> exact ⟨rfl, rfl, rfl⟩

theorem tables_installLive (book : TagBook) (route : NodeId) (secret : Block 16) (generation : ℕ) :
    (book.installLive route secret generation).1.paired = book.paired ∧
      (book.installLive route secret generation).1.peers = book.peers ∧
      (book.installLive route secret generation).1.sendCache = book.sendCache := by
  unfold installLive
  cases book.pairing.lookup route with
  | none => exact ⟨rfl, rfl, rfl⟩
  | some entry =>
    dsimp only
    split <;> exact ⟨rfl, rfl, rfl⟩

theorem takeAdmission_same {route : NodeId} (h : (book.takeAdmission route).2 = false) :
    book.SameMaterial (book.takeAdmission route).1 := by
  obtain ⟨hpaired, hpeers, -⟩ := tables_takeAdmission book route
  rw [takeAdmission_snd] at h
  refine ⟨fun k => ?_, fun k => by rw [hpaired], fun k => by rw [hpeers]⟩
  rw [routeOf_takeAdmission]
  split
  · rename_i hk
    subst hk
    rw [Option.isSome_eq_false_iff, Option.isNone_iff_eq_none] at h
    rw [← h]
  · rfl

theorem dropLive_same {route : NodeId} {generation : ℕ}
    (h : (book.dropLive route generation).2 = false) :
    book.SameMaterial (book.dropLive route generation).1 := by
  obtain ⟨hpaired, hpeers, -⟩ := tables_dropLive book route generation
  rw [dropLive_snd] at h
  refine ⟨fun k => ?_, fun k => by rw [hpaired], fun k => by rw [hpeers]⟩
  rw [routeOf_dropLive]
  split
  · rename_i hk
    rw [hk.1, h] at hk
    cases hk.2
  · rfl

theorem installLive_same {route : NodeId} {secret : Block 16} {generation : ℕ}
    (h : (book.installLive route secret generation).2 = false) :
    book.SameMaterial (book.installLive route secret generation).1 := by
  obtain ⟨hpaired, hpeers, -⟩ := tables_installLive book route secret generation
  rw [installLive_snd] at h
  refine ⟨fun k => ?_, fun k => by rw [hpaired], fun k => by rw [hpeers]⟩
  rw [routeOf_installLive]
  split
  · rename_i hk
    rw [hk.1, h] at hk
    cases hk.2
  · rfl

theorem dropExpired_same {nowUnix : ℕ} (h : (book.dropExpired nowUnix).2 = false) :
    book.SameMaterial (book.dropExpired nowUnix).1 := by
  have hnone : book.pairing.entries.any (fun e => expired nowUnix e.2) = false :=
    (Bool.or_eq_false_iff.mp h).1
  refine ⟨fun k => ?_, fun _ => rfl, fun _ => rfl⟩
  rw [routeOf_dropExpired]
  apply expire_of_unexpired
  unfold routeOf
  cases hentry : book.pairing.lookup k with
  | none => rfl
  | some entry =>
    have hmem := AList.mem_lookup_iff.mp (Option.mem_def.mpr hentry)
    simpa using List.any_eq_false.mp hnone _ hmem

end Unchanged

/-! ### What the three functions derive from -/

def holdings (book : TagBook) : List (NodeId × Material) :=
  book.peers.entries.map (fun e => (e.1, .pair e.2)) ++
    book.pairing.entries.flatMap (fun e => e.2.secrets.map fun secret => (e.1, .pairing secret)) ++
    book.paired.entries.map (fun e => (e.1, .paired e.2))

section Tables
variable (book : TagBook)

def peerHoldings : List (NodeId × Material) := book.peers.entries.map fun e => (e.1, .pair e.2)

def pairingHoldings : List (NodeId × Material) :=
  book.pairing.entries.flatMap fun e => e.2.secrets.map fun secret => (e.1, .pairing secret)

def pairedHoldings : List (NodeId × Material) := book.paired.entries.map fun e => (e.1, .paired e.2)

end Tables

def chosen (book : TagBook) (peer : NodeId) : Option Material :=
  ((book.routeOf peer).sendSecret.map Material.pairing).or
    (((book.paired.lookup peer).map Material.paired).or
      ((book.peers.lookup peer).map Material.pair))

def matchesIn (P : Primitives) (relayHost : String) (epochs : List ℕ) (tag : Tag)
    (holding : NodeId × Material) : Bool :=
  epochs.any fun epoch => holding.2.tag P relayHost epoch == tag

theorem registration_eq (book : TagBook) (relayHost : String) (nowUnix : ℕ) :
    (book.registration P relayHost nowUnix).2 =
      (book.pruneExpired nowUnix).holdings.flatMap fun h =>
        (window nowUnix).map (h.2.tag P relayHost) := by
  simp only [registration, holdings, List.flatMap_append, List.flatMap_map, List.flatMap_assoc,
    Material.tag]
  congr 2
  apply List.flatMap_congr
  intro e _
  obtain ⟨k, admission, live⟩ := e
  cases admission <;> cases live <;> simp [PairingRoute.secrets]

theorem find?_secrets {p : NodeId × Material → Bool}
    (entries : List (Sigma fun _ : NodeId => PairingRoute)) :
    ((entries.flatMap fun e =>
        e.2.secrets.map fun secret => (e.1, Material.pairing secret)).find? p).map Prod.fst =
      (entries.find? fun e =>
        e.2.secrets.any fun secret => p (e.1, .pairing secret)).map Sigma.fst := by
  induction entries with
  | nil => rfl
  | cons e entries ih =>
    simp only [List.flatMap_cons, List.find?_append, List.find?_cons]
    cases hany : e.2.secrets.any fun secret => p (e.1, .pairing secret) with
    | false =>
      have hnone :
          (e.2.secrets.map fun secret => (e.1, Material.pairing secret)).find? p = none := by
        rw [List.find?_eq_none]
        intro x hx
        obtain ⟨secret, hsecret, rfl⟩ := List.mem_map.mp hx
        have hfalse := List.any_eq_false.mp hany secret hsecret
        simpa using hfalse
      simpa [hnone] using ih
    | true =>
      obtain ⟨secret, hsecret, hp⟩ := List.any_eq_true.mp hany
      cases hfind : (e.2.secrets.map fun secret => (e.1, Material.pairing secret)).find? p with
      | none =>
        have hfalse := List.find?_eq_none.mp hfind _ (List.mem_map_of_mem hsecret)
        exact absurd hp hfalse
      | some x =>
        obtain ⟨secret', -, rfl⟩ := List.mem_map.mp (List.mem_of_find?_eq_some hfind)
        rfl

theorem resolve_eq (book : TagBook) (tag : Tag) (relayHost : String) (nowUnix : ℕ) :
    (book.resolve P tag relayHost nowUnix).2 =
      ((book.pruneExpired nowUnix).holdings.find?
        (matchesIn P relayHost (window nowUnix) tag)).map Prod.fst := by
  have hroute (e : Sigma fun _ : NodeId => PairingRoute) :
      ((window nowUnix).any fun epoch =>
        e.2.admission.any (fun a => derivePairingTag P a.secret relayHost epoch == tag) ||
          e.2.live.any (fun l => derivePairingTag P l.secret relayHost epoch == tag)) =
      e.2.secrets.any fun secret =>
        matchesIn P relayHost (window nowUnix) tag (e.1, .pairing secret) := by
    obtain ⟨k, admission, live⟩ := e
    rw [Bool.eq_iff_iff]
    cases admission <;> cases live <;>
      simp [PairingRoute.secrets, matchesIn, Material.tag, and_or_left, exists_or]
  simp only [resolve, holdings, List.find?_append, Option.map_or, find?_secrets, List.find?_map,
    Option.map_map, hroute]
  simp only [Option.or_eq_orElse]
  rfl

def claimants (P : Primitives) (tag : Tag) (relayHost : String) (nowUnix : ℕ)
    (pieces : List (NodeId × Material)) : List NodeId :=
  (pieces.filter (matchesIn P relayHost (window nowUnix) tag)).map Prod.fst

/-- Whom a tag may be attributed to. The first of the three tables that has a match decides; which
of its matches is found depends on the order in which a hash map lists its entries. -/
def candidates (P : Primitives) (book : TagBook) (tag : Tag) (relayHost : String) (nowUnix : ℕ) :
    List NodeId :=
  let book := book.pruneExpired nowUnix
  let ofPeers := claimants P tag relayHost nowUnix book.peerHoldings
  let ofPairing := claimants P tag relayHost nowUnix book.pairingHoldings
  let ofPaired := claimants P tag relayHost nowUnix book.pairedHoldings
  if ofPeers ≠ [] then ofPeers else if ofPairing ≠ [] then ofPairing else ofPaired

theorem resolve_eq_head? (book : TagBook) (tag : Tag) (relayHost : String) (nowUnix : ℕ) :
    (book.resolve P tag relayHost nowUnix).2 = (book.candidates P tag relayHost nowUnix).head? := by
  have hfirst (l l' : List NodeId) : (if l ≠ [] then l else l').head? = l.head?.or l'.head? := by
    cases l <;> simp
  have hfound (pieces : List (NodeId × Material)) :
      (pieces.find? (matchesIn P relayHost (window nowUnix) tag)).map Prod.fst =
        (claimants P tag relayHost nowUnix pieces).head? := by
    rw [claimants, List.head?_map, List.head?_filter]
  rw [resolve_eq]
  simp only [holdings, List.find?_append, Option.map_or, hfound, candidates, hfirst,
    Option.or_assoc]
  rfl

/-- The same book, its hash maps listing their entries in another order. -/
structure Reordered (book book' : TagBook) : Prop where
  peers : book'.peers.entries.Perm book.peers.entries
  pairing : book'.pairing.entries.Perm book.pairing.entries
  paired : book'.paired.entries.Perm book.paired.entries

theorem Reordered.pruneExpired {book book' : TagBook} (h : book.Reordered book') (nowUnix : ℕ) :
    (book.pruneExpired nowUnix).Reordered (book'.pruneExpired nowUnix) := by
  have hpairing := (h.pairing.map fun e => ⟨e.1, expire nowUnix e.2⟩).filter
    fun e : Sigma fun _ : NodeId => PairingRoute => e.2.admission.isSome || e.2.live.isSome
  simp only [pruneExpired_eq, bumpIf]
  constructor
  · split_ifs <;> exact h.peers
  · split_ifs <;> exact hpairing
  · split_ifs <;> exact h.paired

theorem Reordered.candidates {book book' : TagBook} (h : book.Reordered book') (tag : Tag)
    (relayHost : String) (nowUnix : ℕ) :
    (book'.candidates P tag relayHost nowUnix).Perm (book.candidates P tag relayHost nowUnix) := by
  have hclaim {l l' : List (NodeId × Material)} (hperm : l'.Perm l) :
      (claimants P tag relayHost nowUnix l').Perm (claimants P tag relayHost nowUnix l) :=
    (hperm.filter _).map _
  have hfirst {l l' m m' : List NodeId} (hl : l'.Perm l) (hm : m'.Perm m) :
      (if l' ≠ [] then l' else m').Perm (if l ≠ [] then l else m) := by
    have hnil : l' = [] ↔ l = [] := ⟨fun h => (h ▸ hl).nil_eq.symm, fun h => (h ▸ hl).eq_nil⟩
    simp only [ne_eq, hnil]
    split_ifs
    · exact hm
    · exact hl
  obtain ⟨hpeers, hpairing, hpaired⟩ := h.pruneExpired nowUnix
  exact hfirst (hclaim (hpeers.map _))
    (hfirst (hclaim (hpairing.flatMap_right _)) (hclaim (hpaired.map _)))

theorem mem_registration {book : TagBook} {relayHost : String} {nowUnix : ℕ} {tag : Tag} :
    tag ∈ (book.registration P relayHost nowUnix).2 ↔
      ∃ h ∈ (book.pruneExpired nowUnix).holdings, ∃ epoch ∈ window nowUnix,
        h.2.tag P relayHost epoch = tag := by
  simp only [registration_eq, List.mem_flatMap, List.mem_map]

theorem matchesIn_iff {relayHost : String} {epochs : List ℕ} {tag : Tag} {h : NodeId × Material} :
    matchesIn P relayHost epochs tag h = true ↔
      ∃ epoch ∈ epochs, h.2.tag P relayHost epoch = tag := by
  simp [matchesIn]

theorem holding_of_candidate {book : TagBook} {tag : Tag} {relayHost : String} {nowUnix : ℕ}
    {peer : NodeId} (h : peer ∈ book.candidates P tag relayHost nowUnix) :
    ∃ material epoch, (peer, material) ∈ (book.pruneExpired nowUnix).holdings ∧
      epoch ∈ window nowUnix ∧ material.tag P relayHost epoch = tag := by
  have hclaimed {pieces : List (NodeId × Material)}
      (hmem : peer ∈ claimants P tag relayHost nowUnix pieces)
      (hpieces : pieces ⊆ (book.pruneExpired nowUnix).holdings) :
      ∃ material epoch, (peer, material) ∈ (book.pruneExpired nowUnix).holdings ∧
        epoch ∈ window nowUnix ∧ material.tag P relayHost epoch = tag := by
    obtain ⟨⟨_, material⟩, hpiece, rfl⟩ := List.mem_map.mp hmem
    obtain ⟨hpiece, hmatch⟩ := List.mem_filter.mp hpiece
    obtain ⟨epoch, hepoch, htag⟩ := matchesIn_iff.mp hmatch
    exact ⟨material, epoch, hpieces hpiece, hepoch, htag⟩
  simp only [candidates] at h
  split_ifs at h
  · exact hclaimed h fun _ hx => List.mem_append_left _ (List.mem_append_left _ hx)
  · exact hclaimed h fun _ hx => List.mem_append_left _ (List.mem_append_right _ hx)
  · exact hclaimed h fun _ hx => List.mem_append_right _ hx

theorem resolve_eq_some {book : TagBook} {relayHost : String} {nowUnix : ℕ} {tag : Tag} {k : NodeId}
    (htag : tag ∈ (book.registration P relayHost nowUnix).2)
    (hown : ∀ h ∈ (book.pruneExpired nowUnix).holdings, ∀ epoch ∈ window nowUnix,
      h.2.tag P relayHost epoch = tag → h.1 = k) :
    (book.resolve P tag relayHost nowUnix).2 = some k := by
  rw [resolve_eq]
  cases hfind : (book.pruneExpired nowUnix).holdings.find?
      (matchesIn P relayHost (window nowUnix) tag) with
  | none =>
    obtain ⟨h, hh, hmatch⟩ := mem_registration.mp htag
    exact absurd (matchesIn_iff.mpr hmatch) (List.find?_eq_none.mp hfind h hh)
  | some h =>
    obtain ⟨epoch, hepoch, hmatch⟩ := matchesIn_iff.mp (List.find?_some hfind)
    rw [Option.map_some, hown h (List.mem_of_find?_eq_some hfind) epoch hepoch hmatch]

theorem resolve_isSome_iff {book : TagBook} {relayHost : String} {nowUnix : ℕ} {tag : Tag} :
    (book.resolve P tag relayHost nowUnix).2.isSome = true ↔
      tag ∈ (book.registration P relayHost nowUnix).2 := by
  rw [resolve_eq, Option.isSome_map, List.find?_isSome, mem_registration]
  simp only [matchesIn_iff]

theorem derive_eq (book : TagBook) (peer : NodeId) (relayHost : String) (epoch : ℕ) :
    book.derive P peer relayHost epoch =
      (book.chosen peer).map fun material => material.tag P relayHost epoch := by
  unfold derive chosen routeOf
  cases book.pairing.lookup peer with
  | none =>
    cases book.paired.lookup peer <;> cases book.peers.lookup peer <;>
      simp [PairingRoute.sendSecret, PairingRoute.none, Material.tag]
  | some route =>
    obtain ⟨admission, live⟩ := route
    cases admission <;> cases live <;> cases book.paired.lookup peer <;>
      cases book.peers.lookup peer <;> simp [PairingRoute.sendSecret, Material.tag]

theorem mem_entries_of_lookup {V : Type} {m : Table NodeId V} {k : NodeId} {v : V}
    (h : m.lookup k = some v) : ⟨k, v⟩ ∈ m.entries :=
  AList.mem_lookup_iff.mp (Option.mem_def.mpr h)

theorem mem_holdings_of_secret {book : TagBook} {peer : NodeId} {secret : Block 16}
    (h : secret ∈ (book.routeOf peer).secrets) : (peer, .pairing secret) ∈ book.holdings := by
  unfold routeOf at h
  cases hroute : book.pairing.lookup peer with
  | none => simp [hroute, PairingRoute.none, PairingRoute.secrets] at h
  | some route =>
    rw [hroute, Option.getD_some] at h
    refine List.mem_append_left _ (List.mem_append_right _ ?_)
    exact List.mem_flatMap.mpr ⟨_, mem_entries_of_lookup hroute, List.mem_map.mpr ⟨secret, h, rfl⟩⟩

theorem mem_holdings_of_chosen {book : TagBook} {peer : NodeId} {material : Material}
    (h : book.chosen peer = some material) : (peer, material) ∈ book.holdings := by
  unfold chosen at h
  cases hsecret : (book.routeOf peer).sendSecret with
  | some secret =>
    simp only [hsecret, Option.map_some, Option.some_or, Option.some.injEq] at h
    rw [← h]
    exact mem_holdings_of_secret (PairingRoute.sendSecret_mem hsecret)
  | none =>
    cases hpaired : book.paired.lookup peer with
    | some secret =>
      simp only [hsecret, hpaired, Option.map_none, Option.map_some, Option.none_or, Option.some_or,
        Option.some.injEq] at h
      rw [← h]
      exact List.mem_append_right _ (List.mem_map.mpr ⟨_, mem_entries_of_lookup hpaired, rfl⟩)
    | none =>
      cases hpeer : book.peers.lookup peer with
      | none => simp [hsecret, hpaired, hpeer] at h
      | some pair =>
        simp only [hsecret, hpaired, hpeer, Option.map_none, Option.map_some, Option.none_or,
          Option.some.injEq] at h
        rw [← h]
        refine List.mem_append_left _ (List.mem_append_left _ ?_)
        exact List.mem_map.mpr ⟨_, mem_entries_of_lookup hpeer, rfl⟩

/-! ### The send cache -/

/-- Every cached tag is the one the present material gives. -/
def CacheExact (P : Primitives) (book : TagBook) : Prop :=
  ∀ peer epoch tag, book.sendCache.tags.lookup (peer, epoch) = some tag →
    book.derive P peer book.sendCache.host epoch = some tag

theorem cacheExact_bump (book : TagBook) : book.bump.CacheExact P := by
  intro peer epoch tag h
  simp [bump] at h

theorem SameMaterial.chosen {book next : TagBook} (h : book.SameMaterial next) (peer : NodeId) :
    next.chosen peer = book.chosen peer := by
  simp only [TagBook.chosen, h.routes, h.paired, h.peers]

theorem SameMaterial.derive {book next : TagBook} (h : book.SameMaterial next) (peer : NodeId)
    (relayHost : String) (epoch : ℕ) :
    next.derive P peer relayHost epoch = book.derive P peer relayHost epoch := by
  rw [derive_eq, h.chosen, ← derive_eq]

theorem CacheExact.bumpIf {book : TagBook} (h : book.CacheExact P) {changed : TagBook × Bool}
    (hcache : changed.1.sendCache = book.sendCache)
    (hsame : changed.2 = false → book.SameMaterial changed.1) : (bumpIf changed).CacheExact P := by
  unfold TagBook.bumpIf
  split
  · exact cacheExact_bump _
  · rename_i hno
    intro peer epoch tag htag
    rw [hcache] at htag ⊢
    rw [(hsame (by simpa using hno)).derive]
    exact h peer epoch tag htag

theorem cacheExact_pruneExpired {book : TagBook} (h : book.CacheExact P) (nowUnix : ℕ) :
    (book.pruneExpired nowUnix).CacheExact P := by
  rw [pruneExpired_eq]
  exact h.bumpIf rfl dropExpired_same

theorem cacheExact_apply {book : TagBook} (h : book.CacheExact P) (op : Op) :
    (book.apply op).CacheExact P := by
  cases op with
  | upsert peer material => exact cacheExact_bump _
  | remove peer => exact cacheExact_bump _
  | upsertPaired peer secret => exact cacheExact_bump _
  | removePaired peer =>
    simp only [apply, removePaired_eq]
    split
    · exact h.bumpIf rfl dropPaired_same
    · exact h
  | registerPairing route secret expiresAt =>
    simp only [apply]
    split
    · exact cacheExact_bump _
    · exact h
  | removePairing route =>
    simp only [apply, removePairing_eq]
    exact h.bumpIf (tables_takeAdmission _ route).2.2 takeAdmission_same
  | promotePairing route secret generation nowUnix =>
    simp only [apply, promotePairing_eq]
    exact (cacheExact_pruneExpired h nowUnix).bumpIf
      (tables_installLive _ route secret generation).2.2
      installLive_same
  | removeLivePairing route generation =>
    simp only [apply, removeLivePairing_eq]
    exact h.bumpIf (tables_dropLive _ route generation).2.2 dropLive_same
  | prune nowUnix => exact cacheExact_pruneExpired h nowUnix

theorem cacheFor_exact {book : TagBook} (h : book.CacheExact P) {relayHost : String} {peer : NodeId}
    {epoch : ℕ} {tag : Tag}
    (hcached : (cacheFor book.sendCache relayHost).tags.lookup (peer, epoch) = some tag) :
    book.derive P peer relayHost epoch = some tag := by
  unfold cacheFor at hcached
  split at hcached
  · simp at hcached
  · rename_i hhost
    rw [not_ne_iff] at hhost
    rw [← hhost]
    exact h peer epoch tag hcached

theorem cacheFor_host (cache : SendCache) (relayHost : String) :
    (cacheFor cache relayHost).host = relayHost := by
  unfold cacheFor
  split
  · rfl
  · rename_i hhost
    exact not_ne_iff.mp hhost

theorem tagForSend_eq {book : TagBook} (h : book.CacheExact P) (peer : NodeId) (relayHost : String)
    (nowUnix : ℕ) :
    (book.tagForSend P peer relayHost nowUnix).2 =
      (book.pruneExpired nowUnix).derive P peer relayHost (epochIndex nowUnix) := by
  have hpruned := cacheExact_pruneExpired h nowUnix
  simp only [tagForSend]
  split
  · rename_i tag hcached
    exact (cacheFor_exact hpruned hcached).symm
  · split
    · rename_i hnone
      exact hnone.symm
    · rename_i tag hsome
      exact hsome.symm

theorem cacheExact_tagForSend {book : TagBook} (h : book.CacheExact P) (peer : NodeId)
    (relayHost : String) (nowUnix : ℕ) :
    (book.tagForSend P peer relayHost nowUnix).1.CacheExact P := by
  have hpruned := cacheExact_pruneExpired h nowUnix
  have hkeep : CacheExact P { book.pruneExpired nowUnix with
      sendCache := cacheFor (book.pruneExpired nowUnix).sendCache relayHost } := by
    intro other epoch tag htag
    rw [cacheFor_host]
    exact cacheFor_exact hpruned htag
  simp only [tagForSend]
  split
  · exact hkeep
  · split
    · exact hkeep
    · rename_i tag hsome
      intro other epoch tag' htag'
      simp only [Table.lookup_insert_ite] at htag'
      split at htag'
      · rename_i heq
        obtain ⟨rfl, rfl⟩ := Prod.mk.inj heq
        cases htag'
        simp only [cacheFor_host]
        exact hsome
      · split at htag'
        · simp at htag'
        · exact hkeep other epoch tag' htag'

/-- What the rest of the endpoint does with the book; any other read only prunes. -/
inductive BookEvent where
  | change (op : Op)
  | send (peer : NodeId) (relayHost : String) (nowUnix : ℕ)

def step (P : Primitives) (book : TagBook) : BookEvent → TagBook
  | .change op => book.apply op
  | .send peer relayHost nowUnix => (book.tagForSend P peer relayHost nowUnix).1

theorem cacheExact_step {book : TagBook} (h : book.CacheExact P) (e : BookEvent) :
    (book.step P e).CacheExact P := by
  cases e with
  | change op => exact cacheExact_apply h op
  | send peer relayHost nowUnix => exact cacheExact_tagForSend h peer relayHost nowUnix

theorem cacheExact_run (peers : Table NodeId RendezvousPeer) (paired : Table NodeId (Block 32))
    (es : List BookEvent) : (run (step P) (withPaired peers paired) es).CacheExact P := by
  refine invariant (step P) (I := CacheExact P) ?_ (fun _ e h => cacheExact_step h e) es
  intro peer epoch tag h
  simp [withPaired] at h

end TagBook
end ForgeswornLink
