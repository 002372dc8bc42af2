import ForgeswornLink.RelayFrame
import ForgeswornLink.Lib.Table

/-!
# The rendezvous book

The endpoint's side of tag mode, spec section 9. Three tables hold what a tag
can be derived from: the pairs of the shell, the short-lived first-contact
routes, and the durable paired routes. Every change of material bumps the
version and clears the send cache, so a cached tag always has material behind
it; reads drop first-contact admissions that have expired.
-/

namespace ForgeswornLink
open ByteString

def rendezvousSalt : List UInt8 :=
  [0x66, 0x6f, 0x72, 0x67, 0x65, 0x73, 0x77, 0x6f, 0x72, 0x6e, 0x2d, 0x6c, 0x69, 0x6e, 0x6b,
    0x2f, 0x72, 0x65, 0x6e, 0x64, 0x65, 0x7a, 0x76, 0x6f, 0x75, 0x73, 0x2f, 0x76, 0x31]

def epochSeconds : ℕ := 3600
def pairingCase : UInt8 := 0x03
def pairedRouteCase : UInt8 := 0x04

inductive TagCase where
  | none
  | one
  | both
deriving DecidableEq

def TagCase.byte : TagCase → UInt8
  | .none => 0x00
  | .one => 0x01
  | .both => 0x02

def epochIndex (unixSeconds : ℕ) : ℕ := unixSeconds / epochSeconds

def deriveFromIkm (P : Primitives) (ikm : List UInt8) (relayHost : String) (epoch : ℕ) : Tag :=
  ⟨P.hkdfSha256 ikm rendezvousSalt (relayHost.toUTF8.data.toList ++ [0] ++ toBe 8 epoch)⟩

def deriveTag (P : Primitives) (case : TagCase) (staticX ephX : Block 32) (relayHost : String)
    (epoch : ℕ) : Tag :=
  deriveFromIkm P ([case.byte] ++ staticX.toList ++ ephX.toList) relayHost epoch

def derivePairingTag (P : Primitives) (pairingSecret : Block 16) (relayHost : String)
    (epoch : ℕ) : Tag :=
  deriveFromIkm P ([pairingCase] ++ pairingSecret.toList) relayHost epoch

def derivePairedRouteTag (P : Primitives) (secret : Block 32) (relayHost : String)
    (epoch : ℕ) : Tag :=
  deriveFromIkm P ([pairedRouteCase] ++ secret.toList) relayHost epoch

structure RendezvousPeer where
  case : TagCase
  staticX : Block 32
  ephX : Block 32

structure ExpiringSecret where
  secret : Block 16
  expiresAt : ℕ

structure LivePairingRoute where
  generation : ℕ
  secret : Block 16

structure PairingRoute where
  admission : Option ExpiringSecret
  live : Option LivePairingRoute

structure SendCache where
  host : String
  tags : Table (NodeId × ℕ) Tag

def sendCacheCap : ℕ := 4096

structure TagBook where
  peers : Table NodeId RendezvousPeer
  pairing : Table NodeId PairingRoute
  paired : Table NodeId (Block 32)
  version : ℕ
  sendCache : SendCache

namespace TagBook

def withPaired (peers : Table NodeId RendezvousPeer) (paired : Table NodeId (Block 32)) : TagBook :=
  ⟨peers, ∅, paired, 0, ⟨"", ∅⟩⟩

def bump (book : TagBook) : TagBook :=
  { book with
    version := book.version + 1
    sendCache := { book.sendCache with tags := ∅ } }

def upsert (book : TagBook) (peer : NodeId) (material : RendezvousPeer) : TagBook :=
  bump { book with peers := book.peers.insert peer material }

def remove (book : TagBook) (peer : NodeId) : TagBook :=
  bump { book with peers := book.peers.erase peer }

def upsertPaired (book : TagBook) (peer : NodeId) (secret : Block 32) : TagBook :=
  bump { book with paired := book.paired.insert peer secret }

def removePaired (book : TagBook) (peer : NodeId) : TagBook :=
  if peer ∈ book.paired then bump { book with paired := book.paired.erase peer } else book

/-- Whether a random route ID is new to every table; the loop of the source draws until it is. -/
def unusedRoute (book : TagBook) (route : NodeId) : Bool :=
  route ∉ book.peers && route ∉ book.pairing && route ∉ book.paired

def registerPairing (book : TagBook) (route : NodeId) (secret : Block 16) (expiresAt : ℕ) :
    TagBook :=
  bump { book with
    pairing := book.pairing.insert route ⟨some ⟨secret, expiresAt⟩, none⟩ }

def removePairing (book : TagBook) (route : NodeId) : TagBook × Bool :=
  match book.pairing.lookup route with
  | none => (book, false)
  | some entry =>
    let removed := entry.admission.isSome
    let pairing :=
      if entry.live.isNone then book.pairing.erase route
      else book.pairing.insert route { entry with admission := none }
    let next := { book with pairing := pairing }
    (if removed then next.bump else next, removed)

def expire (nowUnix : ℕ) (route : PairingRoute) : PairingRoute :=
  { route with admission := route.admission.filter (fun secret => nowUnix < secret.expiresAt) }

def expired (nowUnix : ℕ) (route : PairingRoute) : Bool :=
  route.admission.any (fun secret => secret.expiresAt ≤ nowUnix)

def pruneExpired (book : TagBook) (nowUnix : ℕ) : TagBook :=
  let pairing := (book.pairing.mapValues (expire nowUnix)).retain
    (fun _ route => route.admission.isSome || route.live.isSome)
  let changed := book.pairing.entries.any (fun e => expired nowUnix e.2) ||
    pairing.entries.length != book.pairing.entries.length
  let next := { book with pairing := pairing }
  if changed then next.bump else next

def promotePairing (book : TagBook) (route : NodeId) (secret : Block 16) (generation nowUnix : ℕ) :
    TagBook × Bool :=
  let book := book.pruneExpired nowUnix
  match book.pairing.lookup route with
  | none => (book, false)
  | some entry =>
    if entry.admission.isNone then (book, false)
    else
      (bump { book with
        pairing := book.pairing.insert route { entry with live := some ⟨generation, secret⟩ } },
        true)

def removeLivePairing (book : TagBook) (route : NodeId) (generation : ℕ) : TagBook × Bool :=
  match book.pairing.lookup route with
  | none => (book, false)
  | some entry =>
    let removed := entry.live.any (fun live => live.generation == generation)
    let live := if removed then none else entry.live
    let pairing :=
      if entry.admission.isNone && live.isNone then book.pairing.erase route
      else book.pairing.insert route { entry with live := live }
    let next := { book with pairing := pairing }
    (if removed then next.bump else next, removed)

def pairingActive (book : TagBook) (route : NodeId) (nowUnix : ℕ) : TagBook × Bool :=
  let book := book.pruneExpired nowUnix
  (book, (book.pairing.lookup route).any (fun entry => entry.admission.isSome))

def isEmpty (book : TagBook) : Bool :=
  book.peers.entries.isEmpty && book.pairing.entries.isEmpty && book.paired.entries.isEmpty

def contains (book : TagBook) (peer : NodeId) : Bool :=
  peer ∈ book.peers || peer ∈ book.pairing || peer ∈ book.paired

def window (nowUnix : ℕ) : List ℕ :=
  let current := epochIndex nowUnix
  if current = 0 then [current, current + 1] else [current - 1, current, current + 1]

def registration (P : Primitives) (book : TagBook) (relayHost : String) (nowUnix : ℕ) :
    TagBook × List Tag :=
  let book := book.pruneExpired nowUnix
  let epochs := window nowUnix
  let ofPeers := book.peers.entries.flatMap fun e =>
    epochs.map (deriveTag P e.2.case e.2.staticX e.2.ephX relayHost)
  let ofPairing := book.pairing.entries.flatMap fun e =>
    (match e.2.admission with
      | some admission => epochs.map (derivePairingTag P admission.secret relayHost)
      | none => []) ++
    (match e.2.live with
      | some live => epochs.map (derivePairingTag P live.secret relayHost)
      | none => [])
  let ofPaired := book.paired.entries.flatMap fun e =>
    epochs.map (derivePairedRouteTag P e.2 relayHost)
  (book, ofPeers ++ ofPairing ++ ofPaired)

/-- The tag for one peer from its material: an admission first, then a live
route, then a durable route, then the pair of the shell. -/
def derive (P : Primitives) (book : TagBook) (peer : NodeId) (relayHost : String) (epoch : ℕ) :
    Option Tag :=
  let ofPairing := (book.pairing.lookup peer).bind fun route =>
    match route.admission with
    | some admission => some (derivePairingTag P admission.secret relayHost epoch)
    | none => route.live.map fun live => derivePairingTag P live.secret relayHost epoch
  match ofPairing with
  | some tag => some tag
  | none =>
    match book.paired.lookup peer with
    | some secret => some (derivePairedRouteTag P secret relayHost epoch)
    | none => (book.peers.lookup peer).map fun material =>
      deriveTag P material.case material.staticX material.ephX relayHost epoch

def cacheFor (cache : SendCache) (relayHost : String) : SendCache :=
  if cache.host ≠ relayHost then ⟨relayHost, ∅⟩ else cache

def tagForSend (P : Primitives) (book : TagBook) (peer : NodeId) (relayHost : String)
    (nowUnix : ℕ) : TagBook × Option Tag :=
  let book := book.pruneExpired nowUnix
  let epoch := epochIndex nowUnix
  let cache := cacheFor book.sendCache relayHost
  match cache.tags.lookup (peer, epoch) with
  | some tag => ({ book with sendCache := cache }, some tag)
  | none =>
    match book.derive P peer relayHost epoch with
    | none => ({ book with sendCache := cache }, none)
    | some tag =>
      let tags := if cache.tags.entries.length ≥ sendCacheCap then ∅ else cache.tags
      ({ book with sendCache := { cache with tags := tags.insert (peer, epoch) tag } }, some tag)

def resolve (P : Primitives) (book : TagBook) (tag : Tag) (relayHost : String) (nowUnix : ℕ) :
    TagBook × Option NodeId :=
  let book := book.pruneExpired nowUnix
  let epochs := window nowUnix
  let ofPeers := book.peers.entries.find? fun e =>
    epochs.any fun epoch => deriveTag P e.2.case e.2.staticX e.2.ephX relayHost epoch == tag
  let ofPairing := book.pairing.entries.find? fun e =>
    epochs.any fun epoch =>
      e.2.admission.any (fun a => derivePairingTag P a.secret relayHost epoch == tag) ||
        e.2.live.any (fun l => derivePairingTag P l.secret relayHost epoch == tag)
  let ofPaired := book.paired.entries.find? fun e =>
    epochs.any fun epoch => derivePairedRouteTag P e.2 relayHost epoch == tag
  (book, ((ofPeers.map Sigma.fst).orElse fun _ => ofPairing.map Sigma.fst).orElse fun _ =>
    ofPaired.map Sigma.fst)

def sendable (book : TagBook) (peer : NodeId) : Bool :=
  (book.pairing.lookup peer).any (fun route => route.admission.isSome || route.live.isSome) ||
    (book.paired.lookup peer).isSome || (book.peers.lookup peer).isSome

theorem derive_isSome (P : Primitives) (book : TagBook) (peer : NodeId) (relayHost : String)
    (epoch : ℕ) : (book.derive P peer relayHost epoch).isSome = book.sendable peer := by
  unfold derive sendable
  cases hpairing : book.pairing.lookup peer with
  | none => cases book.paired.lookup peer <;> simp
  | some route =>
    cases hadmission : route.admission with
    | some admission => simp [hadmission]
    | none =>
      cases hlive : route.live with
      | some live => simp [hadmission, hlive]
      | none => cases book.paired.lookup peer <;> simp [hadmission, hlive]

def CacheBacked (book : TagBook) : Prop :=
  ∀ peer epoch, (book.sendCache.tags.lookup (peer, epoch)).isSome → book.sendable peer = true

theorem cacheBacked_bump (book : TagBook) : book.bump.CacheBacked := by
  intro peer epoch h
  simp [bump] at h

theorem cacheBacked_withPaired (peers : Table NodeId RendezvousPeer)
    (paired : Table NodeId (Block 32)) : (withPaired peers paired).CacheBacked := by
  intro peer epoch h
  simp [withPaired] at h

theorem expire_of_unexpired {nowUnix : ℕ} {route : PairingRoute}
    (h : expired nowUnix route = false) : expire nowUnix route = route := by
  obtain ⟨admission, live⟩ := route
  cases admission with
  | none => rfl
  | some secret =>
    have hlater : nowUnix < secret.expiresAt := by simpa [expired] using h
    simp [expire, Option.filter, hlater]

theorem sendable_of_unexpired {book : TagBook} {nowUnix : ℕ} {peer : NodeId}
    (hnone : book.pairing.entries.any (fun e => expired nowUnix e.2) = false)
    (h : book.sendable peer = true) :
    sendable { book with
      pairing := (book.pairing.mapValues (expire nowUnix)).retain
        (fun _ route => route.admission.isSome || route.live.isSome) } peer = true := by
  unfold sendable at h ⊢
  rw [Table.lookup_retain, Table.lookup_mapValues]
  cases hpairing : book.pairing.lookup peer with
  | none =>
    rw [hpairing] at h
    simpa using h
  | some route =>
    rw [hpairing] at h
    have hmem := AList.mem_lookup_iff.mp (Option.mem_def.mpr hpairing)
    have hroute : expired nowUnix route = false := by
      rw [List.any_eq_false] at hnone
      simpa using hnone _ hmem
    rw [Option.map_some, expire_of_unexpired hroute]
    cases hkeep : route.admission.isSome || route.live.isSome with
    | true => simp [Option.filter, hkeep]
    | false => simpa [Option.filter, hkeep] using h

theorem cacheBacked_pruneExpired {book : TagBook} (nowUnix : ℕ) (h : book.CacheBacked) :
    (book.pruneExpired nowUnix).CacheBacked := by
  unfold pruneExpired
  dsimp only
  split_ifs with hchanged
  · exact cacheBacked_bump _
  · rw [Bool.or_eq_true, not_or, Bool.not_eq_true] at hchanged
    intro peer epoch hcached
    exact sendable_of_unexpired hchanged.1 (h peer epoch hcached)

theorem cacheFor_lookup {cache : SendCache} {relayHost : String} {k : NodeId × ℕ}
    (h : ((cacheFor cache relayHost).tags.lookup k).isSome) : (cache.tags.lookup k).isSome := by
  unfold cacheFor at h
  split_ifs at h
  · simp at h
  · exact h

theorem tagForSend_isSome (P : Primitives) {book : TagBook} (h : book.CacheBacked) (peer : NodeId)
    (relayHost : String) (nowUnix : ℕ) :
    (book.tagForSend P peer relayHost nowUnix).2.isSome =
      (book.pruneExpired nowUnix).sendable peer := by
  have hbacked := cacheBacked_pruneExpired nowUnix h
  unfold tagForSend
  dsimp only
  split
  · rename_i tag hcached
    have := hbacked peer (epochIndex nowUnix) (cacheFor_lookup (by rw [hcached]; rfl))
    rw [this]
    rfl
  · rw [← derive_isSome P _ peer relayHost (epochIndex nowUnix)]
    split
    all_goals
      rename_i hderive
      rw [hderive]

theorem tagForSend_sendable (P : Primitives) (book : TagBook) (peer other : NodeId)
    (relayHost : String) (nowUnix : ℕ) :
    (book.tagForSend P peer relayHost nowUnix).1.sendable other =
      (book.pruneExpired nowUnix).sendable other := by
  unfold tagForSend
  dsimp only
  split
  · rfl
  · split <;> rfl

def usableAt (nowUnix : ℕ) (route : PairingRoute) : Bool :=
  route.admission.any (fun secret => nowUnix < secret.expiresAt) || route.live.isSome

theorem pairing_pruneExpired (book : TagBook) (nowUnix : ℕ) :
    (book.pruneExpired nowUnix).pairing = (book.pairing.mapValues (expire nowUnix)).retain
      (fun _ route => route.admission.isSome || route.live.isSome) := by
  unfold pruneExpired
  dsimp only
  split_ifs <;> rfl

theorem usableAt_eq (nowUnix : ℕ) (route : PairingRoute) :
    ((expire nowUnix route).admission.isSome || (expire nowUnix route).live.isSome) =
      usableAt nowUnix route := by
  obtain ⟨admission, live⟩ := route
  cases admission with
  | none => rfl
  | some secret =>
    by_cases hlater : nowUnix < secret.expiresAt <;> simp [expire, usableAt, Option.filter, hlater]

theorem usableAt_expire (nowUnix : ℕ) (route : PairingRoute) :
    usableAt nowUnix (expire nowUnix route) = usableAt nowUnix route := by
  obtain ⟨admission, live⟩ := route
  cases admission with
  | none => rfl
  | some secret =>
    by_cases hlater : nowUnix < secret.expiresAt <;> simp [expire, usableAt, Option.filter, hlater]

theorem pruneExpired_rest (book : TagBook) (nowUnix : ℕ) :
    (book.pruneExpired nowUnix).paired = book.paired ∧
      (book.pruneExpired nowUnix).peers = book.peers := by
  unfold pruneExpired
  dsimp only
  split_ifs <;> exact ⟨rfl, rfl⟩

theorem sendable_pruneExpired (book : TagBook) (nowUnix : ℕ) (peer : NodeId) :
    (book.pruneExpired nowUnix).sendable peer =
      ((book.pairing.lookup peer).any (usableAt nowUnix) || (book.paired.lookup peer).isSome ||
        (book.peers.lookup peer).isSome) := by
  obtain ⟨hpaired, hpeers⟩ := pruneExpired_rest book nowUnix
  rw [sendable, hpaired, hpeers, pairing_pruneExpired, Table.lookup_retain, Table.lookup_mapValues]
  cases book.pairing.lookup peer with
  | none => rfl
  | some route =>
    rw [Option.map_some, Option.any_some, ← usableAt_eq]
    cases hkeep : (expire nowUnix route).admission.isSome || (expire nowUnix route).live.isSome <;>
      simp [Option.filter, hkeep]

theorem sendable_after_tagForSend (P : Primitives) (book : TagBook) (peer other : NodeId)
    (relayHost : String) (nowUnix : ℕ) :
    ((book.tagForSend P peer relayHost nowUnix).1.pruneExpired nowUnix).sendable other =
      (book.pruneExpired nowUnix).sendable other := by
  have htables : ∀ cache, ({ book.pruneExpired nowUnix with sendCache := cache }.pruneExpired
      nowUnix).sendable other = (book.pruneExpired nowUnix).sendable other := by
    intro cache
    obtain ⟨hpaired, hpeers⟩ := pruneExpired_rest book nowUnix
    rw [sendable_pruneExpired, sendable_pruneExpired]
    dsimp only
    rw [hpaired, hpeers, pairing_pruneExpired, Table.lookup_retain, Table.lookup_mapValues]
    cases book.pairing.lookup other with
    | none => rfl
    | some route =>
      have hkept := usableAt_eq nowUnix route
      rw [Option.map_some, Option.any_some, ← hkept]
      cases hkeep : (expire nowUnix route).admission.isSome || (expire nowUnix route).live.isSome
      · simp [Option.filter, hkeep]
      · rw [hkeep] at hkept
        simp [Option.filter, hkeep, usableAt_expire, ← hkept]
  unfold tagForSend
  dsimp only
  split
  · exact htables _
  · split <;> exact htables _

theorem cacheBacked_tagForSend (P : Primitives) {book : TagBook} (h : book.CacheBacked)
    (peer : NodeId) (relayHost : String) (nowUnix : ℕ) :
    (book.tagForSend P peer relayHost nowUnix).1.CacheBacked := by
  have hbacked := cacheBacked_pruneExpired nowUnix h
  intro other epoch hcached
  rw [tagForSend_sendable]
  unfold tagForSend at hcached
  dsimp only at hcached
  split at hcached
  · exact hbacked other epoch (cacheFor_lookup hcached)
  · rename_i hmiss
    split at hcached
    · exact hbacked other epoch (cacheFor_lookup hcached)
    · rename_i tag hderive
      dsimp only at hcached
      rw [Table.lookup_insert_ite] at hcached
      by_cases hsame : (other, epoch) = (peer, epochIndex nowUnix)
      · obtain ⟨rfl, -⟩ := Prod.mk.inj hsame
        rw [← derive_isSome P _ other relayHost (epochIndex nowUnix), hderive]
        rfl
      · rw [if_neg hsame] at hcached
        split_ifs at hcached
        · simp at hcached
        · exact hbacked other epoch (cacheFor_lookup hcached)

/-- The calls that change or prune the book, other than a send. -/
inductive Op where
  | upsert (peer : NodeId) (material : RendezvousPeer)
  | remove (peer : NodeId)
  | upsertPaired (peer : NodeId) (secret : Block 32)
  | removePaired (peer : NodeId)
  | registerPairing (route : NodeId) (secret : Block 16) (expiresAt : ℕ)
  | removePairing (route : NodeId)
  | promotePairing (route : NodeId) (secret : Block 16) (generation nowUnix : ℕ)
  | removeLivePairing (route : NodeId) (generation : ℕ)
  | prune (nowUnix : ℕ)

def apply (book : TagBook) : Op → TagBook
  | .upsert peer material => book.upsert peer material
  | .remove peer => book.remove peer
  | .upsertPaired peer secret => book.upsertPaired peer secret
  | .removePaired peer => book.removePaired peer
  | .registerPairing route secret expiresAt =>
    if book.unusedRoute route then book.registerPairing route secret expiresAt else book
  | .removePairing route => (book.removePairing route).1
  | .promotePairing route secret generation nowUnix =>
    (book.promotePairing route secret generation nowUnix).1
  | .removeLivePairing route generation => (book.removeLivePairing route generation).1
  | .prune nowUnix => book.pruneExpired nowUnix

theorem cacheBacked_of_sendable {book next : TagBook} (h : book.CacheBacked)
    (hcache : next.sendCache = book.sendCache)
    (hsend : ∀ peer, book.sendable peer = true → next.sendable peer = true) : next.CacheBacked := by
  intro peer epoch hcached
  rw [hcache] at hcached
  exact hsend peer (h peer epoch hcached)

theorem sendable_setPairing {book : TagBook} {route : NodeId} {entry : PairingRoute}
    (hentry : book.pairing.lookup route = some entry) {pairing : Table NodeId PairingRoute}
    (hother : ∀ peer, peer ≠ route → pairing.lookup peer = book.pairing.lookup peer)
    (hroute : (entry.admission.isSome || entry.live.isSome) = true →
      pairing.lookup route = some entry) (peer : NodeId) (h : book.sendable peer = true) :
    sendable { book with pairing := pairing } peer = true := by
  unfold sendable at h ⊢
  dsimp only
  by_cases hp : peer = route
  · subst hp
    cases hkeep : entry.admission.isSome || entry.live.isSome with
    | true => simp [hroute hkeep, hkeep]
    | false =>
      rw [hentry, Option.any_some, hkeep, Bool.false_or] at h
      rw [Bool.or_assoc, h, Bool.or_true]
  · rw [hother peer hp]
    exact h

theorem cacheBacked_removePairing {book : TagBook} (h : book.CacheBacked) (route : NodeId) :
    (book.removePairing route).1.CacheBacked := by
  unfold removePairing
  cases hentry : book.pairing.lookup route with
  | none => exact h
  | some entry =>
    dsimp only
    cases hadmission : entry.admission with
    | some admission => exact cacheBacked_bump _
    | none =>
      refine cacheBacked_of_sendable h rfl (sendable_setPairing hentry ?_ ?_)
      · intro peer hp
        split_ifs
        · rw [Table.lookup_erase_ite, if_neg hp]
        · rw [Table.lookup_insert_ite, if_neg hp]
      · intro hkeep
        rw [hadmission, Option.isSome_none, Bool.false_or] at hkeep
        have hlive : ¬ entry.live.isNone = true := by
          rw [Option.isNone_iff_eq_none]
          rintro hnone
          rw [hnone] at hkeep
          cases hkeep
        rw [if_neg hlive, Table.lookup_insert_ite, if_pos rfl]
        cases entry
        simp_all

theorem cacheBacked_removeLivePairing {book : TagBook} (h : book.CacheBacked) (route : NodeId)
    (generation : ℕ) : (book.removeLivePairing route generation).1.CacheBacked := by
  unfold removeLivePairing
  cases hentry : book.pairing.lookup route with
  | none => exact h
  | some entry =>
    dsimp only
    cases hremoved : entry.live.any (fun live => live.generation == generation) with
    | true => exact cacheBacked_bump _
    | false =>
      simp only [Bool.false_eq_true, if_false]
      refine cacheBacked_of_sendable h rfl (sendable_setPairing hentry ?_ ?_)
      · intro peer hp
        split_ifs
        · rw [Table.lookup_erase_ite, if_neg hp]
        · rw [Table.lookup_insert_ite, if_neg hp]
      · intro hkeep
        have hlive : ¬ (entry.admission.isNone && entry.live.isNone) = true := by
          cases hadmission : entry.admission <;> cases hl : entry.live <;> simp_all
        rw [if_neg hlive, Table.lookup_insert_ite, if_pos rfl]

theorem cacheBacked_apply {book : TagBook} (h : book.CacheBacked) (op : Op) :
    (book.apply op).CacheBacked := by
  cases op with
  | upsert peer material => exact cacheBacked_bump _
  | remove peer => exact cacheBacked_bump _
  | upsertPaired peer secret => exact cacheBacked_bump _
  | removePaired peer =>
    simp only [apply, removePaired]
    split_ifs
    · exact cacheBacked_bump _
    · exact h
  | registerPairing route secret expiresAt =>
    simp only [apply]
    split_ifs
    · exact cacheBacked_bump _
    · exact h
  | removePairing route => exact cacheBacked_removePairing h route
  | promotePairing route secret generation nowUnix =>
    simp only [apply, promotePairing]
    have hpruned := cacheBacked_pruneExpired nowUnix h
    split
    · exact hpruned
    · split_ifs
      · exact hpruned
      · exact cacheBacked_bump _
  | removeLivePairing route generation => exact cacheBacked_removeLivePairing h route generation
  | prune nowUnix => exact cacheBacked_pruneExpired nowUnix h

end TagBook

end ForgeswornLink
