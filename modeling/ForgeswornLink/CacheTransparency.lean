import ForgeswornLink.BookSections

/-!
# The send cache among interleaved calls

A cached tag of a peer, and what a send has read of the tables so far, agree with
the peer's material as long as that material does not change; a section that
changes it is followed by `clear_cache`, so they agree whenever no thread still
has the cache to clear. A send that starts then answers what a book without a
cache would derive, whatever the other threads do meanwhile to other peers.
-/

namespace ForgeswornLink
open ByteString Runs Sections

namespace TagBook
variable {P : Primitives} {book book' : TagBook} {k : NodeId}

def materialOf (book : TagBook) (k : NodeId) :
    PairingRoute × Option (Block 32) × Option RendezvousPeer :=
  (book.routeOf k, book.paired.lookup k, book.peers.lookup k)

theorem SameMaterial.materialOf (h : book.SameMaterial book') (k : NodeId) :
    book'.materialOf k = book.materialOf k := by
  simp only [TagBook.materialOf, h.routes, h.paired, h.peers]

theorem sendPairing_eq (book : TagBook) (peer : NodeId) (relayHost : String) (epoch : ℕ) :
    book.sendPairing P peer relayHost epoch =
      (book.routeOf peer).sendSecret.map fun secret =>
        derivePairingTag P secret relayHost epoch := by
  unfold sendPairing routeOf
  cases book.pairing.lookup peer with
  | none => rfl
  | some route =>
    obtain ⟨admission, live⟩ := route
    cases admission <;> cases live <;> rfl

theorem result_of_materialOf {f : Fill} (h : book'.materialOf f.peer = book.materialOf f.peer) :
    f.result P book' = f.result P book := by
  simp only [materialOf, Prod.mk.injEq] at h
  obtain ⟨hroute, hpaired, hpeers⟩ := h
  simp only [Fill.result, sendPairing_eq, sendPaired, sendPeers, hroute, hpaired, hpeers]

theorem derive_of_materialOf (h : book'.materialOf k = book.materialOf k) (relayHost : String)
    (epoch : ℕ) : book'.derive P k relayHost epoch = book.derive P k relayHost epoch := by
  rw [derive_stages, derive_stages]
  exact result_of_materialOf (f := ⟨0, k, relayHost, epoch, .pairing⟩) h

end TagBook

namespace SharedBook
open TagBook
variable {P : Primitives} {k : NodeId} {s : SharedBook} {t : ℕ} {i : BookSection} {o : Outcome}

structure SoundFor (P : Primitives) (k : NodeId) (s : SharedBook) : Prop where
  cached : ∀ epoch tag, s.book.sendCache.tags.lookup (k, epoch) = some tag →
    s.book.derive P k s.book.sendCache.host epoch = some tag
  read : ∀ f, s.filling = some f → f.peer = k →
    s.book.sendCache.host = f.relayHost ∧ f.result P s.book = s.book.derive P k f.relayHost f.epoch

theorem SoundFor.of_materialOf {s' : SharedBook} (h : SoundFor P k s)
    (hmaterial : s'.book.materialOf k = s.book.materialOf k)
    (hcache : s'.book.sendCache = s.book.sendCache) (hfilling : s'.filling = s.filling) :
    SoundFor P k s' := by
  constructor
  · intro epoch tag htag
    rw [hcache] at htag ⊢
    rw [derive_of_materialOf hmaterial]
    exact h.cached epoch tag htag
  · intro f hf hpeer
    rw [hfilling] at hf
    subst hpeer
    rw [hcache, derive_of_materialOf hmaterial, result_of_materialOf hmaterial]
    exact h.read f hf rfl

theorem soundFor_empty (htags : s.book.sendCache.tags = ∅) (hfilling : s.filling = none) :
    SoundFor P k s := by
  constructor
  · intro epoch tag htag
    simp [htags] at htag
  · intro f hf
    simp [hfilling] at hf

theorem SoundFor.cacheFor (h : SoundFor P k s) {relayHost : String} {epoch : ℕ} {tag : Tag}
    (htag : (cacheFor s.book.sendCache relayHost).tags.lookup (k, epoch) = some tag) :
    s.book.derive P k relayHost epoch = some tag := by
  unfold TagBook.cacheFor at htag
  split at htag
  · simp at htag
  · rename_i hhost
    rw [← not_ne_iff.mp hhost]
    exact h.cached epoch tag htag

theorem soundFor_lockCache (h : SoundFor P k s) (hfilling : s.filling = none) (t : ℕ)
    (peer : NodeId) (relayHost : String) (nowUnix : ℕ) :
    SoundFor P k (s.lockCache t peer relayHost nowUnix).shared := by
  unfold lockCache
  dsimp only
  split
  · constructor
    · intro epoch tag htag
      rw [cacheFor_host]
      exact h.cacheFor htag
    · intro f hf
      simp [hfilling] at hf
  · constructor
    · intro epoch tag htag
      rw [cacheFor_host]
      exact h.cacheFor htag
    · intro f hf hpeer
      cases hf
      subst hpeer
      exact ⟨cacheFor_host _ _, (derive_stages ..).symm⟩

theorem soundFor_fill (h : SoundFor P k s) {f : Fill} (hf : s.filling = some f) :
    SoundFor P k (s.fill P f).shared := by
  rcases fill_cases (P := P) s f with ⟨stage, hfill, hresult, -⟩ | hfill
  · rw [hfill]
    refine ⟨h.cached, ?_⟩
    intro f' hf' hpeer
    cases hf'
    rw [hresult]
    exact h.read f hf hpeer
  · rw [hfill]
    refine ⟨?_, by simp⟩
    cases hresult : f.result P s.book with
    | none => exact h.cached
    | some tag =>
      intro epoch tag' htag'
      simp only [filled, storeTag, Table.lookup_insert_ite] at htag'
      split at htag'
      · rename_i heq
        obtain ⟨hpeer, rfl⟩ := Prod.mk.inj heq
        cases htag'
        obtain ⟨hhost, hread⟩ := h.read f hf hpeer.symm
        simp only [filled, storeTag, hhost]
        exact hread.symm.trans hresult
      · split at htag'
        · simp at htag'
        · exact h.cached epoch tag' htag'

theorem soundFor_exec (h : SoundFor P k s) (hexec : exec P t s i = some o)
    (hmaterial : o.shared.book.materialOf k = s.book.materialOf k) : SoundFor P k o.shared := by
  cases ran_exec hexec with
  | changes next answer hcache hsame => exact h.of_materialOf hmaterial hcache rfl
  | reads more answer => exact h
  | counts => exact h.of_materialOf hmaterial rfl rfl
  | notifies => exact h.of_materialOf hmaterial rfl rfl
  | clears hfilling => exact soundFor_empty rfl hfilling
  | locks hfilling peer relayHost nowUnix =>
    exact soundFor_lockCache h hfilling t peer relayHost nowUnix
  | fills f hfilling ht => exact soundFor_fill h hfilling

/-! ### Settled unless the cache is still to be cleared -/

abbrev BookPool := Pool SharedBook BookSection BookAnswer

abbrev step (P : Primitives) : BookPool → Move BookCall → BookPool := Sections.step body (exec P)

def opened (peers : Table NodeId RendezvousPeer) (paired : Table NodeId (Block 32)) : BookPool :=
  idlePool ⟨withPaired peers paired, 0, none⟩

theorem exec_clearCache (h : exec P t s .clearCache = some o) : SoundFor P k o.shared := by
  simp only [exec] at h
  split at h
  · cases h
  · rename_i hfilling
    cases h
    exact soundFor_empty rfl hfilling

theorem soundFor_run (peers : Table NodeId RendezvousPeer) (paired : Table NodeId (Block 32))
    (ms : List (Move BookCall)) (k : NodeId) :
    SoundFor P k (run (step P) (opened peers paired) ms).shared ∨
      Owes (· = .clearCache) (run (step P) (opened peers paired) ms) := by
  apply invariant (step P) (I := fun pool => SoundFor P k pool.shared ∨ Owes (· = .clearCache) pool)
  · exact Or.inl (soundFor_empty rfl rfl)
  · intro pool m h
    apply settled_or_owed_step body (exec P) _ _ h m
    · rintro t i o hexec rfl
      exact exec_clearCache hexec
    · intro t i o hexec hsound
      rcases same_exec hexec with hsame | hmore
      · exact Or.inl (soundFor_exec hsound hexec (hsame.materialOf k))
      · exact Or.inr ⟨.clearCache, by simp [hmore, bumpSections], rfl⟩

/-! ### A locked cache has a fill to come -/

def FillPending (pool : BookPool) : Prop :=
  ∀ f, pool.shared.filling = some f → .fill ∈ (pool.threads f.thread).todo

theorem exec_fill_eq (h : exec P t s .fill = some o) :
    ∃ f, s.filling = some f ∧ f.thread = t ∧ o = s.fill P f := by
  simp only [exec] at h
  split at h
  · rename_i f hf
    split at h
    · rename_i ht
      cases h
      exact ⟨f, hf, ht, rfl⟩
    · cases h
  · cases h

theorem filling_exec (hexec : exec P t s i = some o) :
    (o.shared.filling = s.filling ∧ i ≠ .fill) ∨ o.shared.filling = none ∨
      ∃ f, o.shared.filling = some f ∧ f.thread = t ∧ o.more = [.fill] := by
  by_cases hi : i = .fill
  · subst hi
    obtain ⟨f, hf, ht, rfl⟩ := exec_fill_eq hexec
    rcases fill_cases (P := P) s f with ⟨stage, hfill, -⟩ | hfill
    · rw [hfill]
      exact Or.inr (Or.inr ⟨_, rfl, ht, rfl⟩)
    · rw [hfill]
      exact Or.inr (Or.inl rfl)
  · cases ran_exec hexec with
    | changes next answer hcache hsame => exact Or.inl ⟨rfl, hi⟩
    | reads more answer => exact Or.inl ⟨rfl, hi⟩
    | counts => exact Or.inl ⟨rfl, hi⟩
    | notifies => exact Or.inl ⟨rfl, hi⟩
    | clears hfilling => exact Or.inl ⟨rfl, hi⟩
    | locks hfilling peer relayHost nowUnix =>
      unfold lockCache
      dsimp only
      split
      · exact Or.inl ⟨rfl, hi⟩
      · exact Or.inr (Or.inr ⟨_, rfl, rfl, rfl⟩)
    | fills f hfilling ht =>
      rcases fill_cases (P := P) s f with ⟨stage, hfill, -⟩ | hfill
      · rw [hfill]
        exact Or.inr (Or.inr ⟨_, rfl, ht, rfl⟩)
      · rw [hfill]
        exact Or.inr (Or.inl rfl)

theorem fillPending_run (peers : Table NodeId RendezvousPeer) (paired : Table NodeId (Block 32))
    (ms : List (Move BookCall)) : FillPending (run (step P) (opened peers paired) ms) := by
  apply invariant (step P) (I := FillPending)
  · intro f hf
    cases hf
  · intro pool m h
    generalize hnext : step P pool m = next
    have hdid : Did body (exec P) pool m next := hnext ▸ did_step body (exec P) pool m
    intro f hf
    cases hdid with
    | stays => exact h f hf
    | @takes t c htodo =>
      have hfill := h f hf
      have hne : f.thread ≠ t := by
        intro heq
        simp [heq, htodo] at hfill
      rwa [put_threads_of_ne pool _ hne]
    | @runs t i rest o htodo hexec =>
      rcases filling_exec hexec with ⟨hsame, hi⟩ | hnone | ⟨f', hf', ht, hmore⟩
      · have hfill := h f (hsame ▸ hf)
        by_cases hne : f.thread = t
        · rw [hne, htodo] at hfill
          rw [hne, put_threads_self]
          exact List.mem_append_right _ ((List.mem_cons.mp hfill).resolve_left (Ne.symm hi))
        · rwa [put_threads_of_ne pool _ hne]
      · rw [put_shared, hnone] at hf
        cases hf
      · rw [put_shared, hf'] at hf
        cases hf
        rw [ht, put_threads_self, hmore]
        exact List.mem_cons_self

/-! ### A send among the others -/

def freshTag (P : Primitives) (book : TagBook) (peer : NodeId) (relayHost : String) (nowUnix : ℕ) :
    Option Tag :=
  let epoch := epochIndex nowUnix
  match (book.routeOf peer).admission.filter fun admission => nowUnix < admission.expiresAt with
  | some admission => some (derivePairingTag P admission.secret relayHost epoch)
  | none =>
    match (book.routeOf peer).live with
    | some live => some (derivePairingTag P live.secret relayHost epoch)
    | none =>
      match book.paired.lookup peer with
      | some secret => some (derivePairedRouteTag P secret relayHost epoch)
      | none => (book.peers.lookup peer).map fun material =>
        deriveTag P material.case material.staticX material.ephX relayHost epoch

def left (nowUnix : ℕ) (m : PairingRoute × Option (Block 32) × Option RendezvousPeer) :
    PairingRoute × Option (Block 32) × Option RendezvousPeer :=
  (expire nowUnix m.1, m.2)

theorem derive_left {book book' : TagBook} {nowUnix : ℕ}
    (h : book'.materialOf k = left nowUnix (book.materialOf k)) (relayHost : String) :
    book'.derive P k relayHost (epochIndex nowUnix) = freshTag P book k relayHost nowUnix := by
  simp only [materialOf, left, Prod.mk.injEq] at h
  obtain ⟨hroute, hpaired, hpeers⟩ := h
  rw [derive_stages, sendPairing_eq, sendPaired, sendPeers, hroute, hpaired, hpeers]
  simp only [freshTag, expire, PairingRoute.sendSecret]
  cases (book.routeOf k).admission.filter fun admission => nowUnix < admission.expiresAt with
  | some admission => simp
  | none =>
    cases (book.routeOf k).live with
    | some live => simp
    | none => cases book.paired.lookup k <;> simp

inductive Sending (P : Primitives) (t : ℕ) (k : NodeId) (relayHost : String) (nowUnix : ℕ)
    (m : PairingRoute × Option (Block 32) × Option RendezvousPeer) (answer : Option Tag)
    (pool : BookPool) : Prop
  | pruning (htodo : (pool.threads t).todo = [.dropExpired nowUnix, .lockCache k relayHost nowUnix])
      (hm : pool.shared.book.materialOf k = m) (hs : SoundFor P k pool.shared)
  | bumping (rest : List BookSection) (hrest : rest <:+ bumpSections)
      (htodo : (pool.threads t).todo = rest ++ [.lockCache k relayHost nowUnix])
      (hm : pool.shared.book.materialOf k = left nowUnix m)
      (hs : SoundFor P k pool.shared ∨ .clearCache ∈ rest)
  | filling (f : Fill) (hf : pool.shared.filling = some f) (ht : f.thread = t) (hk : f.peer = k)
      (hhost : f.relayHost = relayHost) (hepoch : f.epoch = epochIndex nowUnix)
      (htodo : (pool.threads t).todo = [.fill])
      (hm : pool.shared.book.materialOf k = left nowUnix m) (hs : SoundFor P k pool.shared)
  | done (htodo : (pool.threads t).todo = [])
      (hanswer : (pool.threads t).answer = some (.tag answer))

/-- The moves of the others that leave the material of `k` alone. -/
def LeavesAlone (P : Primitives) (t : ℕ) (k : NodeId) (pool : BookPool) (m : Move BookCall) :
    Prop :=
  m = .go t ∨ m.thread ≠ t ∧
    (step P pool m).shared.book.materialOf k = pool.shared.book.materialOf k

section Send
variable {relayHost : String} {nowUnix : ℕ} {pool : BookPool} {mv : Move BookCall}
  {answer : Option Tag} {m : PairingRoute × Option (Block 32) × Option RendezvousPeer}

theorem soundFor_step (h : SoundFor P k pool.shared)
    (hm : (step P pool mv).shared.book.materialOf k = pool.shared.book.materialOf k) :
    SoundFor P k (step P pool mv).shared := by
  refine shared_step body (exec P)
    (Q := fun s => s.book.materialOf k = pool.shared.book.materialOf k →
    SoundFor P k s) (fun _ => h) ?_ hm
  intro t i o _ hexec hm'
  exact soundFor_exec h hexec hm'

theorem filling_step_other (hother : mv.thread ≠ t) {f : Fill} (hf : pool.shared.filling = some f)
    (ht : f.thread = t) : (step P pool mv).shared.filling = some f := by
  refine shared_step body (exec P) (Q := fun s => s.filling = some f) hf ?_
  rintro t' i o rfl hexec
  cases ran_exec hexec with
  | changes next answer hcache hsame => exact hf
  | reads more answer => exact hf
  | counts => exact hf
  | notifies => exact hf
  | clears hfilling => rw [hf] at hfilling; cases hfilling
  | locks hfilling peer relayHost nowUnix => rw [hf] at hfilling; cases hfilling
  | fills f' hfilling ht' =>
    rw [hf] at hfilling
    cases hfilling
    exact absurd (ht'.symm.trans ht) hother

theorem sending_other (h : Sending P t k relayHost nowUnix m answer pool) (hother : mv.thread ≠ t)
    (hm : (step P pool mv).shared.book.materialOf k = pool.shared.book.materialOf k) :
    Sending P t k relayHost nowUnix m answer (step P pool mv) := by
  have hthread := threads_step_of_ne body (exec P) pool hother
  cases h with
  | pruning htodo hm' hs => exact .pruning (hthread ▸ htodo) (hm.trans hm') (soundFor_step hs hm)
  | bumping rest hrest htodo hm' hs =>
    exact .bumping rest hrest (hthread ▸ htodo) (hm.trans hm')
      (hs.imp_left fun hsound => soundFor_step hsound hm)
  | filling f hf ht hk hhost hepoch htodo hm' hs =>
    exact .filling f (filling_step_other hother hf ht) ht hk hhost hepoch (hthread ▸ htodo)
      (hm.trans hm') (soundFor_step hs hm)
  | done htodo hanswer => exact .done (hthread ▸ htodo) (hthread ▸ hanswer)

theorem sending_own {i : BookSection} {rest : List BookSection}
    (htodo : (pool.threads t).todo = i :: rest)
    (hblocked : Sending P t k relayHost nowUnix m answer pool)
    (hruns : ∀ o, exec P t pool.shared i = some o → Sending P t k relayHost nowUnix m answer
      (pool.put o.shared t ⟨o.more ++ rest, o.answer.or (pool.threads t).answer⟩)) :
    Sending P t k relayHost nowUnix m answer (step P pool (.go t)) := by
  cases hexec : exec P t pool.shared i with
  | none => rwa [step, step_blocked body (exec P) htodo hexec]
  | some o =>
    rw [step, step_go body (exec P) htodo hexec]
    exact hruns o hexec

theorem materialOf_dropExpired (book : TagBook) (nowUnix : ℕ) (k : NodeId) :
    (book.dropExpired nowUnix).1.materialOf k = left nowUnix (book.materialOf k) := by
  simp only [materialOf, left, routeOf_dropExpired]
  rfl

theorem suffix_bumpSections {rest : List BookSection} (h : rest <:+ bumpSections) :
    rest = bumpSections ∨ rest = [.notify, .clearCache] ∨ rest = [.clearCache] ∨ rest = [] := by
  simpa [bumpSections, List.suffix_cons_iff] using h

theorem sending_locks (hfresh : ∀ book : TagBook, book.materialOf k = left nowUnix m →
      book.derive P k relayHost (epochIndex nowUnix) = answer)
    (hm : pool.shared.book.materialOf k = left nowUnix m) (hs : SoundFor P k pool.shared)
    (hexec : exec P t pool.shared (.lockCache k relayHost nowUnix) = some o) :
    Sending P t k relayHost nowUnix m answer
      (pool.put o.shared t ⟨o.more ++ [], o.answer.or (pool.threads t).answer⟩) := by
  have hsound := soundFor_exec hs hexec
  simp only [exec] at hexec
  split at hexec
  · cases hexec
  · cases hexec
    have hmaterial := (lockCache_tables pool.shared t k relayHost nowUnix).materialOf k
    have hs' := hsound hmaterial
    simp only [lockCache] at hmaterial hs' ⊢
    split
    · rename_i tag htag
      rw [htag] at hmaterial hs'
      refine .done (by simp) ?_
      rw [put_threads_self, ← hfresh _ hm, hs.cacheFor htag]
      rfl
    · rename_i htag
      rw [htag] at hmaterial hs'
      exact .filling ⟨t, k, relayHost, epochIndex nowUnix, .pairing⟩ rfl rfl rfl rfl rfl (by simp)
        (hmaterial.trans hm) hs'

theorem sending_step (hfresh : ∀ book : TagBook, book.materialOf k = left nowUnix m →
      book.derive P k relayHost (epochIndex nowUnix) = answer)
    (h : Sending P t k relayHost nowUnix m answer pool) (hmv : LeavesAlone P t k pool mv) :
    Sending P t k relayHost nowUnix m answer (step P pool mv) := by
  rcases hmv with rfl | ⟨hother, hm⟩
  · cases h with
    | pruning htodo hm hs =>
      refine sending_own htodo (.pruning htodo hm hs) ?_
      intro o hexec
      cases hexec
      have hm' : (pool.shared.book.dropExpired nowUnix).1.materialOf k = left nowUnix m := by
        rw [materialOf_dropExpired, hm]
      refine .bumping (bumpWhen (pool.shared.book.dropExpired nowUnix).2) ?_
        (by simp [changed]) hm' ?_
      · cases (pool.shared.book.dropExpired nowUnix).2 <;> simp [bumpWhen]
      · cases hflag : (pool.shared.book.dropExpired nowUnix).2 with
        | true => exact Or.inr (by simp [bumpWhen, bumpSections])
        | false =>
          exact Or.inl (soundFor_exec hs (t := t) (i := .dropExpired nowUnix) rfl
            ((dropExpired_same hflag).materialOf k))
    | bumping rest hrest htodo hm hs =>
      have hblocked : Sending P t k relayHost nowUnix m answer pool :=
        .bumping rest hrest htodo hm hs
      rcases suffix_bumpSections hrest with rfl | rfl | rfl | rfl
      · refine sending_own htodo hblocked ?_
        intro o hexec
        cases hexec
        exact .bumping [.notify, .clearCache] (by simp [bumpSections]) (by simp) hm
          (Or.inr (by simp))
      · refine sending_own htodo hblocked ?_
        intro o hexec
        cases hexec
        exact .bumping [.clearCache] (by simp [bumpSections, List.suffix_cons_iff]) (by simp) hm
          (Or.inr (by simp))
      · refine sending_own htodo hblocked ?_
        intro o hexec
        have hs' : SoundFor P k o.shared := exec_clearCache hexec
        simp only [exec] at hexec
        split at hexec
        · cases hexec
        · cases hexec
          exact .bumping [] (List.nil_suffix) (by simp) hm (Or.inl hs')
      · refine sending_own htodo hblocked ?_
        intro o hexec
        exact sending_locks hfresh hm (hs.resolve_right (by simp)) hexec
    | filling f hf ht hk hhost hepoch htodo hm hs =>
      refine sending_own htodo (.filling f hf ht hk hhost hepoch htodo hm hs) ?_
      intro o hexec
      have hs' := soundFor_exec hs hexec
      obtain ⟨f', hf', -, rfl⟩ := exec_fill_eq hexec
      rw [hf] at hf'
      cases hf'
      have hmaterial := (fill_tables (P := P) pool.shared f).materialOf k
      replace hs' := hs' hmaterial
      rcases fill_cases (P := P) pool.shared f with ⟨stage, hfill, -⟩ | hfill
      · rw [hfill] at hs' hmaterial ⊢
        exact .filling _ rfl ht hk hhost hepoch (by simp) (hmaterial.trans hm) hs'
      · rw [hfill]
        refine .done (by simp) ?_
        have hread := (hs.read f hf hk).2
        rw [hhost, hepoch, hfresh _ hm] at hread
        rw [put_threads_self, hread]
        rfl
    | done htodo hanswer =>
      rw [step, step_idle body (exec P) htodo]
      exact .done htodo hanswer
  · exact sending_other h hother hm

theorem sending_run (hfresh : ∀ book : TagBook, book.materialOf k = left nowUnix m →
      book.derive P k relayHost (epochIndex nowUnix) = answer)
    (h : Sending P t k relayHost nowUnix m answer pool) {later : List (Move BookCall)}
    (hlater : Always (step P) (LeavesAlone P t k) pool later) :
    Sending P t k relayHost nowUnix m answer (run (step P) pool later) :=
  invariant_of_always (step P) h (fun _ _ hsending hmv => sending_step hfresh hsending hmv) hlater

end Send

/-- Once nothing is left to clear, a send answers what a book without a cache would derive, whatever
the other threads do to other peers; where every thread is idle it runs to that answer. -/
theorem send_cache_transparent (P : Primitives) (peers : Table NodeId RendezvousPeer)
    (paired : Table NodeId (Block 32)) (ms : List (Move BookCall)) (t : ℕ) (peer : NodeId)
    (relayHost : String) (nowUnix : ℕ)
    (hidle : ((run (step P) (opened peers paired) ms).threads t).todo = [])
    (hreturned : ∀ t', .clearCache ∉ ((run (step P) (opened peers paired) ms).threads t').todo) :
    let pool := run (step P) (opened peers paired) ms
    let called := step P pool (.call t (.tagForSend peer relayHost nowUnix))
    let fresh := freshTag P pool.shared.book peer relayHost nowUnix
    (∀ later, Always (step P) (LeavesAlone P t peer) called later →
      ((run (step P) called later).threads t).todo = [] →
      ((run (step P) called later).threads t).answer = some (.tag fresh)) ∧
    ((∀ t', (pool.threads t').todo = []) →
      ∃ n, (run (step P) called (List.replicate n (.go t))).threads t =
        ⟨[], some (.tag fresh)⟩) := by
  intro pool called fresh
  have hcalled : called = pool.put pool.shared t
      ⟨body (.tagForSend peer relayHost nowUnix), none⟩ :=
    step_call body (exec P) hidle _
  have hsound : SoundFor P peer pool.shared := by
    refine (soundFor_run peers paired ms peer).resolve_right ?_
    rintro ⟨t', i, hi, rfl⟩
    exact hreturned t' hi
  have hsending : Sending P t peer relayHost nowUnix (pool.shared.book.materialOf peer)
      fresh called := by
    rw [hcalled]
    exact .pruning (by simp [body]) rfl hsound
  have hanswers (later : List (Move BookCall))
      (hlater : Always (step P) (LeavesAlone P t peer) called later)
      (hdone : ((run (step P) called later).threads t).todo = []) :
      ((run (step P) called later).threads t).answer = some (.tag fresh) := by
    cases sending_run (fun book hbook => derive_left hbook relayHost) hsending hlater with
    | pruning htodo => simp [hdone] at htodo
    | bumping rest hrest htodo => simp [hdone] at htodo
    | filling f hf ht hk hhost hepoch htodo => simp [hdone] at htodo
    | done htodo hanswer => exact hanswer
  refine ⟨hanswers, ?_⟩
  intro hall
  have hunlocked : pool.shared.filling = none := by
    rw [Option.eq_none_iff_forall_ne_some]
    intro f hf
    have hfill := fillPending_run peers paired ms f hf
    simp only [pool] at hall
    simp [hall f.thread] at hfill
  obtain ⟨changes', hcompletes⟩ :=
    runsTo_call (P := P) (t := t) pool.shared.book (.tagForSend peer relayHost nowUnix)
      pool.shared.changes
  have hshared : called.shared = ⟨pool.shared.book, pool.shared.changes, none⟩ := by
    rw [hcalled, put_shared, ← hunlocked]
  obtain ⟨n, hn⟩ := completes_run body (exec P) hcompletes hshared
    (by rw [hcalled, put_threads_self])
  refine ⟨n, ?_⟩
  have hanswer := hanswers (List.replicate n (.go t)) ?_ (by rw [hn, put_threads_self])
  · rw [hn, put_threads_self] at hanswer ⊢
    exact congrArg (Thread.mk []) hanswer
  · intro pre mv post hsplit
    have hmem : mv ∈ List.replicate n (Move.go t) := by simp [hsplit]
    exact Or.inl (List.eq_of_mem_replicate hmem)

section Example

def replacedPeer : NodeId := ⟨readBlock 32 [9] 0⟩

def pairOf (b : UInt8) : RendezvousPeer := ⟨.both, readBlock 32 [b] 0, readBlock 32 [] 0⟩

def replacedPair : List (Move BookCall) :=
  [.call 0 (.change (.upsert replacedPeer (pairOf 1)))] ++ List.replicate 4 (.go 0) ++
    [.call 1 (.tagForSend replacedPeer "relay" 4000)] ++ List.replicate 6 (.go 1) ++
    [.call 0 (.change (.upsert replacedPeer (pairOf 2)))] ++ List.replicate 4 (.go 0)

theorem replacedPair_idle (t : ℕ) :
    ((run (step .standIn) (opened ∅ ∅) replacedPair).threads t).todo = [] := by
  by_cases h₀ : t = 0
  · subst h₀
    exact List.isEmpty_iff.mp (by decide +kernel)
  by_cases h₁ : t = 1
  · subst h₁
    exact List.isEmpty_iff.mp (by decide +kernel)
  have hother : ∀ mv ∈ replacedPair, mv.thread ≠ t := by
    simp [replacedPair, Move.thread, Ne.symm h₀, Ne.symm h₁]
  rw [threads_run_of_ne body (exec .standIn) _ hother]
  rfl

theorem send_follows_the_replaced_pair :
    let pool := run (step .standIn) (opened ∅ ∅) replacedPair
    pool.shared.book.sendCache.host = "relay" ∧
    ∃ n, (run (step .standIn) (step .standIn pool (.call 1 (.tagForSend replacedPeer "relay" 4000)))
        (List.replicate n (.go 1))).threads 1 =
      ⟨[], some (.tag
        (some (deriveTag .standIn .both (pairOf 2).staticX (pairOf 2).ephX "relay" 1)))⟩ := by
  intro pool
  have hsend := send_cache_transparent .standIn ∅ ∅ replacedPair 1 replacedPeer "relay" 4000
    (replacedPair_idle 1) (fun t => by simp [replacedPair_idle t])
  have hfresh : freshTag .standIn pool.shared.book replacedPeer "relay" 4000 =
      some (deriveTag .standIn .both (pairOf 2).staticX (pairOf 2).ephX "relay" 1) := by
        decide +kernel
  rw [← hfresh]
  exact ⟨by decide +kernel, hsend.2 replacedPair_idle⟩

end Example

end SharedBook
end ForgeswornLink
