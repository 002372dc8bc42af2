import ForgeswornLink.BookMaterial

/-!
# Registered, resolvable and sendable tags

The tags an endpoint registers are those it can attribute, and the tags it sends
with are among them; across two endpoints the same holds within an hour of clock
skew. Attribution assumes that the pieces of material in the book give different
tags in the epochs registered. A registration has one tag for each piece and
epoch, so a book of more than 85 pieces registers more than a frame can carry.
-/

namespace ForgeswornLink
open ByteString Runs

namespace TagBook
variable {P : Primitives}

/-- Different pieces of material give different tags in these epochs. -/
def DistinctTags (P : Primitives) (book : TagBook) (relayHost : String) (epochs : List ℕ) : Prop :=
  ∀ h ∈ book.holdings, ∀ h' ∈ book.holdings, ∀ epoch ∈ epochs, ∀ epoch' ∈ epochs,
    h.2.tag P relayHost epoch = h'.2.tag P relayHost epoch' → h.2 = h'.2

def OnlyUnder (book : TagBook) (material : Material) (k : NodeId) : Prop :=
  ∀ h ∈ book.holdings, h.2 = material → h.1 = k

theorem mem_window {nowUnix epoch : ℕ} :
    epoch ∈ window nowUnix ↔ epoch ≤ epochIndex nowUnix + 1 ∧ epochIndex nowUnix ≤ epoch + 1 := by
  unfold window
  generalize epochIndex nowUnix = current
  by_cases hzero : current = 0
  · simp [hzero]
    omega
  · simp [hzero]
    omega

instance (book : TagBook) (relayHost : String) (epochs : List ℕ) :
    Decidable (DistinctTags P book relayHost epochs) := by
  unfold DistinctTags
  infer_instance

instance (book : TagBook) (material : Material) (k : NodeId) :
    Decidable (book.OnlyUnder material k) := by
  unfold OnlyUnder
  infer_instance

theorem epochIndex_mem_window {now now' : ℕ} (h₁ : now ≤ now' + 3600) (h₂ : now' ≤ now + 3600) :
    epochIndex now ∈ window now' := by
  rw [mem_window]
  simp only [epochIndex, epochSeconds]
  omega

theorem registered_of_chosen (P : Primitives) {book : TagBook} (relayHost : String)
    {nowUnix epoch : ℕ} {k : NodeId} {material : Material} (hepoch : epoch ∈ window nowUnix)
    (hchosen : (book.pruneExpired nowUnix).chosen k = some material) :
    material.tag P relayHost epoch ∈ (book.registration P relayHost nowUnix).2 ∧
      (DistinctTags P (book.pruneExpired nowUnix) relayHost (window nowUnix) →
        (book.pruneExpired nowUnix).OnlyUnder material k →
        (book.resolve P (material.tag P relayHost epoch) relayHost nowUnix).2 = some k) := by
  have hmem := mem_holdings_of_chosen hchosen
  have htag : material.tag P relayHost epoch ∈ (book.registration P relayHost nowUnix).2 :=
    mem_registration.mpr ⟨_, hmem, epoch, hepoch, rfl⟩
  refine ⟨htag, fun hdistinct honly => resolve_eq_some htag ?_⟩
  intro h hh epoch' hepoch' heq
  exact honly h hh (hdistinct h hh _ hmem epoch' hepoch' epoch hepoch heq)

/-- In every book reached, a tag is attributed exactly if it is registered, and the tag of a send is
registered and attributed to the peer it is for. -/
theorem registered_resolved_sent_agree (P : Primitives) (peers : Table NodeId RendezvousPeer)
    (paired : Table NodeId (Block 32)) (es : List BookEvent) (relayHost : String) (nowUnix : ℕ) :
    let book := run (step P) (withPaired peers paired) es
    (∀ tag, (book.resolve P tag relayHost nowUnix).2.isSome = true ↔
      tag ∈ (book.registration P relayHost nowUnix).2) ∧
    ∀ peer tag, (book.tagForSend P peer relayHost nowUnix).2 = some tag →
      tag ∈ (book.registration P relayHost nowUnix).2 ∧
      ∃ material, (book.pruneExpired nowUnix).chosen peer = some material ∧
        (DistinctTags P (book.pruneExpired nowUnix) relayHost (window nowUnix) →
          (book.pruneExpired nowUnix).OnlyUnder material peer →
          (book.resolve P tag relayHost nowUnix).2 = some peer) := by
  intro book
  refine ⟨fun tag => resolve_isSome_iff, fun peer tag hsend => ?_⟩
  rw [tagForSend_eq (cacheExact_run peers paired es), derive_eq, Option.map_eq_some_iff] at hsend
  obtain ⟨material, hchosen, rfl⟩ := hsend
  have hepoch : epochIndex nowUnix ∈ window nowUnix := epochIndex_mem_window (by omega) (by omega)
  obtain ⟨htag, hattributed⟩ := registered_of_chosen P relayHost hepoch hchosen
  exact ⟨htag, material, hchosen, hattributed⟩

/-- Book `A` under `a` and book `B` under `b` hold the same material in the same tables. A live
route matters only where there is no admission. -/
structure Shares (A B : TagBook) (a b : NodeId) : Prop where
  peers : A.peers.lookup a = B.peers.lookup b
  paired : A.paired.lookup a = B.paired.lookup b
  admission : (A.routeOf a).admission.map ExpiringSecret.secret =
    (B.routeOf b).admission.map ExpiringSecret.secret
  live : (A.routeOf a).admission = none →
    (A.routeOf a).live.map LivePairingRoute.secret = (B.routeOf b).live.map LivePairingRoute.secret

theorem Shares.chosen {A B : TagBook} {a b : NodeId} (h : Shares A B a b) :
    B.chosen b = A.chosen a := by
  have hsecret : (B.routeOf b).sendSecret = (A.routeOf a).sendSecret := by
    unfold PairingRoute.sendSecret
    rw [← h.admission]
    cases hadmission : (A.routeOf a).admission with
    | some admission => simp
    | none => rw [h.live hadmission]
  simp only [TagBook.chosen, hsecret, h.peers, h.paired]

def FreshAt (book : TagBook) (k : NodeId) (nowUnix : ℕ) : Prop :=
  ∀ admission ∈ (book.routeOf k).admission, nowUnix < admission.expiresAt

instance (book : TagBook) (k : NodeId) (nowUnix : ℕ) : Decidable (book.FreshAt k nowUnix) := by
  unfold FreshAt
  infer_instance

theorem chosen_of_fresh {book : TagBook} {k : NodeId} {nowUnix : ℕ} (h : book.FreshAt k nowUnix) :
    (book.pruneExpired nowUnix).chosen k = book.chosen k := by
  obtain ⟨hpaired, hpeers⟩ := pruneExpired_rest book nowUnix
  have hroute : (book.pruneExpired nowUnix).routeOf k = book.routeOf k := by
    rw [pruneExpired_eq, routeOf_bumpIf, routeOf_dropExpired]
    apply expire_of_unexpired
    unfold expired
    cases hadmission : (book.routeOf k).admission with
    | none => rfl
    | some admission => simpa using h admission hadmission
  simp only [chosen, hroute, hpaired, hpeers]

/-- Two ends that hold the same material for each other meet within an hour of clock skew. -/
theorem ends_meet_within_an_hour (P : Primitives) (peers : Table NodeId RendezvousPeer)
    (paired : Table NodeId (Block 32)) (es : List BookEvent) (A B : TagBook)
    (hA : A = run (step P) (withPaired peers paired) es) (a b : NodeId) (relayHost : String)
    (nowA nowB : ℕ) (material : Material)
    (hshares : Shares A B a b) (hmaterial : A.chosen a = some material)
    (hskewA : nowA ≤ nowB + 3600) (hskewB : nowB ≤ nowA + 3600)
    (hfreshA : A.FreshAt a nowA) (hfreshB : B.FreshAt b nowB)
    (hdistinct : DistinctTags P (B.pruneExpired nowB) relayHost (window nowB))
    (honly : (B.pruneExpired nowB).OnlyUnder material b) :
    ∃ tag, (A.tagForSend P a relayHost nowA).2 = some tag ∧
      tag ∈ (B.registration P relayHost nowB).2 ∧
      (B.resolve P tag relayHost nowB).2 = some b := by
  have hexact : A.CacheExact P := hA ▸ cacheExact_run peers paired es
  have hchosen : (B.pruneExpired nowB).chosen b = some material := by
    rw [chosen_of_fresh hfreshB, hshares.chosen, hmaterial]
  obtain ⟨htag, hattributed⟩ :=
    registered_of_chosen P relayHost (epochIndex_mem_window hskewA hskewB) hchosen
  refine ⟨material.tag P relayHost (epochIndex nowA), ?_, htag, hattributed hdistinct honly⟩
  rw [tagForSend_eq hexact, derive_eq, chosen_of_fresh hfreshA, hmaterial]
  rfl

section Example

def nodeOf (n : ℕ) : NodeId := ⟨readBlock 32 [UInt8.ofNat n] 0⟩

def pairingBook (route : NodeId) : List BookEvent :=
  [.change (.registerPairing route (readBlock 16 [7] 0) 10000),
    .change (.upsertPaired (nodeOf 9) (readBlock 32 [8] 0))]

theorem ends_meet_across_an_epoch :
    ∃ tag, ((run (step .standIn) (withPaired ∅ ∅) (pairingBook (nodeOf 1))).tagForSend .standIn
        (nodeOf 1) "" 3599).2 = some tag ∧
      ((run (step .standIn) (withPaired ∅ ∅) (pairingBook (nodeOf 2))).resolve .standIn
        tag "" 7199).2 = some (nodeOf 2) := by
  have hmeet := ends_meet_within_an_hour .standIn ∅ ∅ (pairingBook (nodeOf 1)) _
    (run (step .standIn) (withPaired ∅ ∅) (pairingBook (nodeOf 2))) rfl (nodeOf 1)
    (nodeOf 2) "" 3599 7199 (.pairing (readBlock 16 [7] 0))
    ⟨by decide +kernel, by decide +kernel, by decide +kernel, by decide +kernel⟩ (by decide +kernel)
    (by omega) (by omega) (by decide +kernel) (by decide +kernel) (by decide +kernel)
    (by decide +kernel)
  obtain ⟨tag, hsend, -, hresolve⟩ := hmeet
  exact ⟨tag, hsend, hresolve⟩

theorem pairing_send_is_attributed :
    ∃ tag, ((run (step .standIn) (withPaired ∅ ∅) (pairingBook (nodeOf 1))).tagForSend .standIn
        (nodeOf 1) "" 4000).2 = some tag ∧
      ((run (step .standIn) (withPaired ∅ ∅) (pairingBook (nodeOf 1))).resolve .standIn
        tag "" 4000).2 = some (nodeOf 1) := by
  have hagree := registered_resolved_sent_agree .standIn ∅ ∅ (pairingBook (nodeOf 1)) "" 4000
  have hsend : ((run (step .standIn) (withPaired ∅ ∅) (pairingBook (nodeOf 1))).tagForSend .standIn
      (nodeOf 1) "" 4000).2.isSome = true := by decide +kernel
  obtain ⟨tag, htag⟩ := Option.isSome_iff_exists.mp hsend
  obtain ⟨-, material, hchosen, hattributed⟩ := hagree.2 (nodeOf 1) tag htag
  have hmaterial : ((run (step .standIn) (withPaired ∅ ∅)
      (pairingBook (nodeOf 1))).pruneExpired 4000).chosen (nodeOf 1) =
        some (.pairing (readBlock 16 [7] 0)) := by decide +kernel
  rw [hmaterial] at hchosen
  cases hchosen
  exact ⟨tag, htag, hattributed (by decide +kernel) (by decide +kernel)⟩

end Example

/-! ### The frame that carries the registration -/

theorem length_registration (book : TagBook) (relayHost : String) (nowUnix : ℕ) :
    (book.registration P relayHost nowUnix).2.length =
      (book.pruneExpired nowUnix).holdings.length * (window nowUnix).length := by
  rw [registration_eq, List.length_flatMap]
  simp

theorem register_accepted_iff {tags : List Tag} :
    Frame.decode (Frame.encode (.register tags)) = some (.register tags) ↔
      tags.length ≤ maxTagsPerRegister := by
  rw [Frame.decode_eq_some]
  exact and_iff_right rfl

/-- The relay accepts the registration of a book exactly if its pieces of material, in all the
epochs registered, fit one frame. -/
theorem registration_accepted_iff (P : Primitives) (peers : Table NodeId RendezvousPeer)
    (paired : Table NodeId (Block 32)) (es : List BookEvent) (relayHost : String) (nowUnix : ℕ) :
    let book := run (step P) (withPaired peers paired) es
    let tags := (book.registration P relayHost nowUnix).2
    Frame.decode (Frame.encode (.register tags)) = some (.register tags) ↔
      (book.pruneExpired nowUnix).holdings.length * (window nowUnix).length ≤ 256 := by
  intro book tags
  rw [register_accepted_iff, length_registration]
  rfl

def largeRoster : List BookEvent :=
  (List.range 86).map fun n =>
    .change (.upsert (nodeOf n) ⟨.both, readBlock 32 [] 0, readBlock 32 [] 0⟩)

theorem large_roster_refused :
    let book := run (step .standIn) (withPaired ∅ ∅) largeRoster
    let tags := (book.registration .standIn "relay" 3600).2
    Frame.decode (Frame.encode (.register tags)) = none := by
  intro book tags
  have hpieces : (book.pruneExpired 3600).holdings.length = 86 := by decide +kernel
  have hlength : tags.length = 258 := by
    rw [length_registration, hpieces]
    decide
  cases hd : Frame.decode (Frame.encode (.register tags)) with
  | none => rfl
  | some frame =>
    obtain ⟨hbytes, hbound⟩ := Frame.decode_eq_some.mp hd
    rw [← Frame.encode_injective hbytes] at hbound
    have hle : tags.length ≤ 256 := hbound
    omega

end TagBook
end ForgeswornLink
