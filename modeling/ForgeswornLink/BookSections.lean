import ForgeswornLink.Lib.Sections
import ForgeswornLink.BookMaterial

/-!
# The rendezvous book at lock granularity

Each table of the book has a lock of its own, the send cache another; version and
change channel are atomic. A call of the book is a list of sections, each run
under one lock, or under all three table locks where the source holds them
together. `tag_for_send` is the exception: it keeps the cache locked while it
reads one table after the other, so a `Fill` stands for the held lock and for
what has been read so far.
-/

namespace ForgeswornLink
open ByteString Runs Sections

inductive FillStage where
  | pairing
  | paired
  | peers
  | store (tag : Tag)

/-- The cache is locked by a send of this thread. -/
structure Fill where
  thread : ℕ
  peer : NodeId
  relayHost : String
  epoch : ℕ
  stage : FillStage

structure SharedBook where
  book : TagBook
  changes : ℕ
  filling : Option Fill

inductive BookSection where
  | upsert (peer : NodeId) (material : RendezvousPeer)
  | remove (peer : NodeId)
  | upsertPaired (peer : NodeId) (secret : Block 32)
  | dropPaired (peer : NodeId)
  | drawRoute (route : NodeId) (secret : Block 16) (expiresAt : ℕ)
  | insertRoute (route : NodeId) (secret : Block 16) (expiresAt : ℕ)
  | takeAdmission (route : NodeId)
  | installLive (route : NodeId) (secret : Block 16) (generation : ℕ)
  | dropLive (route : NodeId) (generation : ℕ)
  | dropExpired (nowUnix : ℕ)
  | readActive (route : NodeId)
  | nextVersion
  | notify
  | clearCache
  | snapshot (relayHost : String) (nowUnix : ℕ)
  | lockCache (peer : NodeId) (relayHost : String) (nowUnix : ℕ)
  | fill
  | resolvePeers (tag : Tag) (relayHost : String) (nowUnix : ℕ)
  | resolvePairing (tag : Tag) (relayHost : String) (nowUnix : ℕ)
  | resolvePaired (tag : Tag) (relayHost : String) (nowUnix : ℕ)

inductive BookAnswer where
  | flag (b : Bool)
  -- The tags of a registration, with the book they were derived from.
  | tags (source : TagBook) (tags : List Tag)
  | tag (tag : Option Tag)
  | node (peer : Option NodeId)

inductive BookCall where
  | change (op : TagBook.Op)
  | active (route : NodeId) (nowUnix : ℕ)
  | registration (relayHost : String) (nowUnix : ℕ)
  | tagForSend (peer : NodeId) (relayHost : String) (nowUnix : ℕ)
  | resolve (tag : Tag) (relayHost : String) (nowUnix : ℕ)

namespace TagBook

/-! ### Reads under one lock -/

section Reads
variable (P : Primitives) (book : TagBook)

def registered (relayHost : String) (nowUnix : ℕ) : List Tag :=
  book.holdings.flatMap fun h => (window nowUnix).map (h.2.tag P relayHost)

def sendPairing (peer : NodeId) (relayHost : String) (epoch : ℕ) : Option Tag :=
  (book.pairing.lookup peer).bind fun route =>
    match route.admission with
    | some admission => some (derivePairingTag P admission.secret relayHost epoch)
    | none => route.live.map fun live => derivePairingTag P live.secret relayHost epoch

def sendPaired (peer : NodeId) (relayHost : String) (epoch : ℕ) : Option Tag :=
  (book.paired.lookup peer).map fun secret => derivePairedRouteTag P secret relayHost epoch

def sendPeers (peer : NodeId) (relayHost : String) (epoch : ℕ) : Option Tag :=
  (book.peers.lookup peer).map fun material =>
    deriveTag P material.case material.staticX material.ephX relayHost epoch

def storeTag (peer : NodeId) (epoch : ℕ) (tag : Tag) : TagBook :=
  let cache := book.sendCache
  let tags := if cache.tags.entries.length ≥ sendCacheCap then ∅ else cache.tags
  { book with sendCache := { cache with tags := tags.insert (peer, epoch) tag } }

def resolveIn (tag : Tag) (relayHost : String) (nowUnix : ℕ) (pieces : List (NodeId × Material)) :
    Option NodeId :=
  (pieces.find? (matchesIn P relayHost (window nowUnix) tag)).map Prod.fst

end Reads

theorem registration_registered (P : Primitives) (book : TagBook) (relayHost : String)
    (nowUnix : ℕ) :
    book.registration P relayHost nowUnix =
      (book.pruneExpired nowUnix, (book.pruneExpired nowUnix).registered P relayHost nowUnix) :=
  Prod.ext rfl (registration_eq book relayHost nowUnix)

theorem resolve_tables (P : Primitives) (book : TagBook) (tag : Tag) (relayHost : String)
    (nowUnix : ℕ) :
    book.resolve P tag relayHost nowUnix =
      (book.pruneExpired nowUnix,
        (resolveIn P tag relayHost nowUnix (book.pruneExpired nowUnix).peerHoldings).or
          ((resolveIn P tag relayHost nowUnix (book.pruneExpired nowUnix).pairingHoldings).or
            (resolveIn P tag relayHost nowUnix (book.pruneExpired nowUnix).pairedHoldings))) := by
  refine Prod.ext rfl ?_
  rw [resolve_eq]
  simp only [resolveIn, holdings, List.find?_append, Option.map_or, Option.or_assoc]
  rfl

theorem derive_stages (P : Primitives) (book : TagBook) (peer : NodeId)
    (relayHost : String) (epoch : ℕ) :
    book.derive P peer relayHost epoch =
      (book.sendPairing P peer relayHost epoch).or
        ((book.sendPaired P peer relayHost epoch).or (book.sendPeers P peer relayHost epoch)) := by
  unfold derive sendPairing sendPaired sendPeers
  cases book.paired.lookup peer <;> cases book.pairing.lookup peer with
  | none => simp
  | some route =>
    obtain ⟨admission, live⟩ := route
    cases admission <;> cases live <;> simp

end TagBook

def FillStage.after (found : Option Tag) (missed : FillStage) : FillStage :=
  match found with
  | some tag => .store tag
  | none => missed

def FillStage.left : FillStage → ℕ
  | .pairing => 3
  | .paired => 2
  | .peers => 1
  | .store _ => 0

def Fill.result (P : Primitives) (book : TagBook) (f : Fill) : Option Tag :=
  match f.stage with
  | .pairing => (book.sendPairing P f.peer f.relayHost f.epoch).or
      ((book.sendPaired P f.peer f.relayHost f.epoch).or
        (book.sendPeers P f.peer f.relayHost f.epoch))
  | .paired => (book.sendPaired P f.peer f.relayHost f.epoch).or
      (book.sendPeers P f.peer f.relayHost f.epoch)
  | .peers => book.sendPeers P f.peer f.relayHost f.epoch
  | .store tag => some tag

namespace SharedBook
open TagBook

def bumpSections : List BookSection := [.nextVersion, .notify, .clearCache]

def bumpWhen (changed : Bool) : List BookSection := if changed then bumpSections else []

def body : BookCall → List BookSection
  | .change (.upsert peer material) => [.upsert peer material]
  | .change (.remove peer) => [.remove peer]
  | .change (.upsertPaired peer secret) => [.upsertPaired peer secret]
  | .change (.removePaired peer) => [.dropPaired peer]
  | .change (.registerPairing route secret expiresAt) => [.drawRoute route secret expiresAt]
  | .change (.removePairing route) => [.takeAdmission route]
  | .change (.promotePairing route secret generation nowUnix) =>
    [.dropExpired nowUnix, .installLive route secret generation]
  | .change (.removeLivePairing route generation) => [.dropLive route generation]
  | .change (.prune nowUnix) => [.dropExpired nowUnix]
  | .active route nowUnix => [.dropExpired nowUnix, .readActive route]
  | .registration relayHost nowUnix => [.dropExpired nowUnix, .snapshot relayHost nowUnix]
  | .tagForSend peer relayHost nowUnix => [.dropExpired nowUnix, .lockCache peer relayHost nowUnix]
  | .resolve tag relayHost nowUnix => [.dropExpired nowUnix, .resolvePeers tag relayHost nowUnix]

abbrev Outcome := Sections.Outcome SharedBook BookSection BookAnswer

/-- A table was changed under its lock; the flag says whether a bump follows. -/
def changed (s : SharedBook) (next : TagBook × Bool) (answer : Option BookAnswer) : Outcome :=
  ⟨{ s with book := next.1 }, bumpWhen next.2, answer⟩

def lockCache (s : SharedBook) (t : ℕ) (peer : NodeId) (relayHost : String) (nowUnix : ℕ) :
    Outcome :=
  let cache := cacheFor s.book.sendCache relayHost
  let next := { s with book := { s.book with sendCache := cache } }
  match cache.tags.lookup (peer, epochIndex nowUnix) with
  | some tag => ⟨next, [], some (.tag (some tag))⟩
  | none =>
    ⟨{ next with filling := some ⟨t, peer, relayHost, epochIndex nowUnix, .pairing⟩ }, [.fill],
      none⟩

def fill (P : Primitives) (s : SharedBook) (f : Fill) : Outcome :=
  match f.stage with
  | .pairing =>
    ⟨{ s with filling := some { f with
        stage := FillStage.after (s.book.sendPairing P f.peer f.relayHost f.epoch) .paired } },
        [.fill], none⟩
  | .paired =>
    ⟨{ s with filling := some { f with
        stage := FillStage.after (s.book.sendPaired P f.peer f.relayHost f.epoch) .peers } },
        [.fill], none⟩
  | .peers =>
    match s.book.sendPeers P f.peer f.relayHost f.epoch with
    | some tag => ⟨{ s with filling := some { f with stage := .store tag } }, [.fill], none⟩
    | none => ⟨{ s with filling := none }, [], some (.tag none)⟩
  | .store tag =>
    ⟨{ s with book := s.book.storeTag f.peer f.epoch tag, filling := none }, [],
      some (.tag (some tag))⟩

def search (s : SharedBook) (found : Option NodeId) (next : List BookSection) : Outcome :=
  match found with
  | some peer => ⟨s, [], some (.node (some peer))⟩
  | none => ⟨s, next, some (.node none)⟩

def exec (P : Primitives) (t : ℕ) (s : SharedBook) : BookSection → Option Outcome
  | .upsert peer material =>
    some (s.changed ({ s.book with peers := s.book.peers.insert peer material }, true) none)
  | .remove peer => some (s.changed ({ s.book with peers := s.book.peers.erase peer }, true) none)
  | .upsertPaired peer secret =>
    some (s.changed ({ s.book with paired := s.book.paired.insert peer secret }, true) none)
  | .dropPaired peer => some (s.changed (s.book.dropPaired peer) none)
  | .drawRoute route secret expiresAt =>
    some ⟨s, if s.book.unusedRoute route then [.insertRoute route secret expiresAt] else [], none⟩
  | .insertRoute route secret expiresAt =>
    some (s.changed ({ s.book with
      pairing := s.book.pairing.insert route ⟨some ⟨secret, expiresAt⟩, none⟩ }, true) none)
  | .takeAdmission route =>
    let next := s.book.takeAdmission route
    some (s.changed next (some (.flag next.2)))
  | .installLive route secret generation =>
    let next := s.book.installLive route secret generation
    some (s.changed next (some (.flag next.2)))
  | .dropLive route generation =>
    let next := s.book.dropLive route generation
    some (s.changed next (some (.flag next.2)))
  | .dropExpired nowUnix => some (s.changed (s.book.dropExpired nowUnix) none)
  | .readActive route =>
    some ⟨s, [],
      some (.flag ((s.book.pairing.lookup route).any fun entry => entry.admission.isSome))⟩
  | .nextVersion =>
    some ⟨{ s with book := { s.book with version := s.book.version + 1 } }, [], none⟩
  | .notify => some ⟨{ s with changes := s.changes + 1 }, [], none⟩
  | .clearCache =>
    match s.filling with
    | some _ => none
    | none =>
      some ⟨{ s with book := { s.book with sendCache := { s.book.sendCache with tags := ∅ } } },
        [], none⟩
  | .snapshot relayHost nowUnix =>
    some ⟨s, [], some (.tags s.book (s.book.registered P relayHost nowUnix))⟩
  | .lockCache peer relayHost nowUnix =>
    match s.filling with
    | some _ => none
    | none => some (s.lockCache t peer relayHost nowUnix)
  | .fill =>
    match s.filling with
    | some f => if f.thread = t then some (s.fill P f) else none
    | none => none
  | .resolvePeers tag relayHost nowUnix =>
    some (s.search (resolveIn P tag relayHost nowUnix s.book.peerHoldings)
      [.resolvePairing tag relayHost nowUnix])
  | .resolvePairing tag relayHost nowUnix =>
    some (s.search (resolveIn P tag relayHost nowUnix s.book.pairingHoldings)
      [.resolvePaired tag relayHost nowUnix])
  | .resolvePaired tag relayHost nowUnix =>
    some (s.search (resolveIn P tag relayHost nowUnix s.book.pairedHoldings) [])

/-! ### What a section can do -/

inductive Ran (P : Primitives) (t : ℕ) (s : SharedBook) : Outcome → Prop
  | changes (next : TagBook × Bool) (answer : Option BookAnswer)
      (hcache : next.1.sendCache = s.book.sendCache)
      (hsame : next.2 = false → s.book.SameMaterial next.1) : Ran P t s (s.changed next answer)
  | reads (more : List BookSection) (answer : Option BookAnswer) : Ran P t s ⟨s, more, answer⟩
  | counts : Ran P t s ⟨{ s with book := { s.book with version := s.book.version + 1 } }, [], none⟩
  | notifies : Ran P t s ⟨{ s with changes := s.changes + 1 }, [], none⟩
  | clears (h : s.filling = none) : Ran P t s
      ⟨{ s with book := { s.book with sendCache := { s.book.sendCache with tags := ∅ } } },
        [], none⟩
  | locks (h : s.filling = none) (peer : NodeId) (relayHost : String) (nowUnix : ℕ) :
    Ran P t s (s.lockCache t peer relayHost nowUnix)
  | fills (f : Fill) (h : s.filling = some f) (ht : f.thread = t) : Ran P t s (s.fill P f)

variable {P : Primitives} {t : ℕ} {s : SharedBook} {i : BookSection} {o : Outcome}

theorem ran_search (found : Option NodeId) (next : List BookSection) :
    Ran P t s (s.search found next) := by
  cases found <;> exact .reads _ _

theorem ran_exec (h : exec P t s i = some o) : Ran P t s o := by
  cases i with
  | upsert peer material => cases h; exact .changes _ _ rfl (by simp)
  | remove peer => cases h; exact .changes _ _ rfl (by simp)
  | upsertPaired peer secret => cases h; exact .changes _ _ rfl (by simp)
  | dropPaired peer => cases h; exact .changes _ _ rfl dropPaired_same
  | drawRoute route secret expiresAt => cases h; exact .reads _ _
  | insertRoute route secret expiresAt => cases h; exact .changes _ _ rfl (by simp)
  | takeAdmission route =>
    cases h
    exact .changes _ _ (tables_takeAdmission _ route).2.2 takeAdmission_same
  | installLive route secret generation =>
    cases h
    exact .changes _ _ (tables_installLive _ route secret generation).2.2 installLive_same
  | dropLive route generation =>
    cases h
    exact .changes _ _ (tables_dropLive _ route generation).2.2 dropLive_same
  | dropExpired nowUnix => cases h; exact .changes _ _ rfl dropExpired_same
  | readActive route => cases h; exact .reads _ _
  | nextVersion => cases h; exact .counts
  | notify => cases h; exact .notifies
  | clearCache =>
    simp only [exec] at h
    split at h
    · cases h
    · rename_i hfilling
      cases h
      exact .clears hfilling
  | snapshot relayHost nowUnix => cases h; exact .reads _ _
  | lockCache peer relayHost nowUnix =>
    simp only [exec] at h
    split at h
    · cases h
    · rename_i hfilling
      cases h
      exact .locks hfilling peer relayHost nowUnix
  | fill =>
    simp only [exec] at h
    split at h
    · rename_i f hfilling
      split at h
      · rename_i ht
        cases h
        exact .fills f hfilling ht
      · cases h
    · cases h
  | resolvePeers tag relayHost nowUnix => cases h; exact ran_search _ _
  | resolvePairing tag relayHost nowUnix => cases h; exact ran_search _ _
  | resolvePaired tag relayHost nowUnix => cases h; exact ran_search _ _

theorem lockCache_tables (s : SharedBook) (t : ℕ) (peer : NodeId) (relayHost : String)
    (nowUnix : ℕ) :
    s.book.SameMaterial (s.lockCache t peer relayHost nowUnix).shared.book := by
  unfold lockCache
  dsimp only
  split <;> exact ⟨fun _ => rfl, fun _ => rfl, fun _ => rfl⟩

theorem fill_tables (s : SharedBook) (f : Fill) : s.book.SameMaterial (s.fill P f).shared.book := by
  unfold fill
  split
  · exact .refl _
  · exact .refl _
  · split <;> exact .refl _
  · exact ⟨fun _ => rfl, fun _ => rfl, fun _ => rfl⟩

theorem same_exec (h : exec P t s i = some o) :
    s.book.SameMaterial o.shared.book ∨ o.more = bumpSections := by
  cases ran_exec h with
  | changes next answer hcache hsame =>
    cases hflag : next.2 with
    | false => exact Or.inl (hsame hflag)
    | true => exact Or.inr (by simp [changed, bumpWhen, hflag])
  | reads more answer => exact Or.inl (.refl _)
  | counts => exact Or.inl ⟨fun _ => rfl, fun _ => rfl, fun _ => rfl⟩
  | notifies => exact Or.inl (.refl _)
  | clears hfilling => exact Or.inl ⟨fun _ => rfl, fun _ => rfl, fun _ => rfl⟩
  | locks hfilling peer relayHost nowUnix =>
    exact Or.inl (lockCache_tables s t peer relayHost nowUnix)
  | fills f hfilling ht => exact Or.inl (fill_tables s f)

/-! ### A call that runs alone -/

end SharedBook

open TagBook in
def BookCall.alone (P : Primitives) (book : TagBook) : BookCall → TagBook × Option BookAnswer
  | .change (.removePairing route) =>
    ((book.removePairing route).1, some (.flag (book.removePairing route).2))
  | .change (.promotePairing route secret generation nowUnix) =>
    let next := book.promotePairing route secret generation nowUnix
    (next.1, some (.flag next.2))
  | .change (.removeLivePairing route generation) =>
    let next := book.removeLivePairing route generation
    (next.1, some (.flag next.2))
  | .change op => (book.apply op, none)
  | .active route nowUnix =>
    ((book.pairingActive route nowUnix).1, some (.flag (book.pairingActive route nowUnix).2))
  | .registration relayHost nowUnix =>
    let next := book.registration P relayHost nowUnix
    (next.1, some (.tags next.1 next.2))
  | .tagForSend peer relayHost nowUnix =>
    let next := book.tagForSend P peer relayHost nowUnix
    (next.1, some (.tag next.2))
  | .resolve tag relayHost nowUnix =>
    let next := book.resolve P tag relayHost nowUnix
    (next.1, some (.node next.2))

namespace SharedBook
open TagBook
variable {P : Primitives} {t : ℕ} {todo rest : List BookSection} {a a' : Option BookAnswer}
  {book : TagBook}

/-- Alone with the cache unlocked, the sections leave this book and this answer. -/
def RunsTo (P : Primitives) (t : ℕ) (book : TagBook) (todo : List BookSection)
    (a : Option BookAnswer) (next : TagBook × Option BookAnswer) : Prop :=
  ∀ changes, ∃ changes',
    Completes (exec P) t ⟨book, changes, none⟩ todo a ⟨next.1, changes', none⟩ next.2

theorem runsTo_done (book : TagBook) (a : Option BookAnswer) : RunsTo P t book [] a (book, a) :=
  fun changes => ⟨changes, .done _ _⟩

theorem runsTo_goes {i : BookSection} {next : TagBook × Option BookAnswer} (book' : TagBook)
    (more : List BookSection) (answer : Option BookAnswer)
    (hexec : ∀ changes, exec P t ⟨book, changes, none⟩ i =
      some ⟨⟨book', changes, none⟩, more, answer⟩)
    (h : RunsTo P t book' (more ++ rest) (answer.or a) next) :
    RunsTo P t book (i :: rest) a next := by
  intro changes
  obtain ⟨changes', hcompletes⟩ := h changes
  exact ⟨changes', .goes (hexec changes) hcompletes⟩

theorem runsTo_changed {i : BookSection} {next : TagBook × Option BookAnswer}
    (under : TagBook × Bool) (answer : Option BookAnswer)
    (hexec : ∀ changes, exec P t ⟨book, changes, none⟩ i =
      some (changed ⟨book, changes, none⟩ under answer))
    (h : RunsTo P t (bumpIf under) rest (answer.or a) next) :
    RunsTo P t book (i :: rest) a next := by
  obtain ⟨book', flag⟩ := under
  cases flag with
  | false => exact runsTo_goes book' [] answer hexec h
  | true =>
    intro changes
    obtain ⟨changes', hcompletes⟩ := h (changes + 1)
    exact ⟨changes', .goes (hexec changes) (.goes rfl (.goes rfl (.goes rfl hcompletes)))⟩

theorem runsTo_changes {i : BookSection} (under : TagBook × Bool) (answer : Option BookAnswer)
    (hexec : ∀ changes, exec P t ⟨book, changes, none⟩ i =
      some (changed ⟨book, changes, none⟩ under answer)) :
    RunsTo P t book [i] a (bumpIf under, answer.or a) :=
  runsTo_changed under answer hexec (runsTo_done _ _)

theorem runsTo_prune {nowUnix : ℕ} {next : TagBook × Option BookAnswer}
    (h : RunsTo P t (book.pruneExpired nowUnix) rest a next) :
    RunsTo P t book (.dropExpired nowUnix :: rest) a next := by
  refine runsTo_changed (book.dropExpired nowUnix) none (fun _ => rfl) ?_
  exact h

theorem dropPaired_of_notMem {peer : NodeId} (h : peer ∉ book.paired) :
    book.dropPaired peer = (book, false) := by
  have herase : book.paired.erase peer = book.paired :=
    AList.ext (List.kerase_of_notMem_keys h)
  simp [dropPaired, herase, h]

theorem runsTo_change (book : TagBook) (op : Op) :
    RunsTo P t book (body (.change op)) none (BookCall.alone P book (.change op)) := by
  cases op with
  | upsert peer material =>
    exact runsTo_changes ({ book with peers := book.peers.insert peer material }, true)
      none fun _ => rfl
  | remove peer =>
    exact runsTo_changes ({ book with peers := book.peers.erase peer }, true) none fun _ => rfl
  | upsertPaired peer secret =>
    exact runsTo_changes ({ book with paired := book.paired.insert peer secret }, true)
      none fun _ => rfl
  | removePaired peer =>
    have hnext : bumpIf (book.dropPaired peer) = book.removePaired peer := by
      rw [removePaired_eq]
      split
      · rfl
      · rename_i h
        rw [dropPaired_of_notMem h]
        rfl
    simp only [BookCall.alone, apply, ← hnext]
    exact runsTo_changes (book.dropPaired peer) none fun _ => rfl
  | registerPairing route secret expiresAt =>
    simp only [BookCall.alone, apply]
    refine runsTo_goes book
      (if book.unusedRoute route then [.insertRoute route secret expiresAt] else [])
      none (fun _ => rfl) ?_
    cases hunused : book.unusedRoute route with
    | false => exact runsTo_done _ _
    | true =>
      exact runsTo_changes ({ book with
        pairing := book.pairing.insert route ⟨some ⟨secret, expiresAt⟩, none⟩ }, true)
          none fun _ => rfl
  | removePairing route =>
    simp only [BookCall.alone, removePairing_eq]
    exact runsTo_changes (book.takeAdmission route)
      (some (.flag (book.takeAdmission route).2)) fun _ => rfl
  | promotePairing route secret generation nowUnix =>
    simp only [BookCall.alone, promotePairing_eq]
    apply runsTo_prune
    exact runsTo_changes ((book.pruneExpired nowUnix).installLive route secret generation)
      (some (.flag ((book.pruneExpired nowUnix).installLive route secret generation).2))
      fun _ => rfl
  | removeLivePairing route generation =>
    simp only [BookCall.alone, removeLivePairing_eq]
    exact runsTo_changes (book.dropLive route generation)
      (some (.flag (book.dropLive route generation).2)) fun _ => rfl
  | prune nowUnix =>
    apply runsTo_prune
    exact runsTo_done _ _

/-! ### The fill -/

def filled (book : TagBook) (f : Fill) : Option Tag → TagBook
  | some tag => book.storeTag f.peer f.epoch tag
  | none => book

theorem exec_fill {s : SharedBook} {f : Fill} (h : s.filling = some f) :
    exec P f.thread s .fill = some (s.fill P f) := by
  simp [exec, h]

theorem fill_cases (s : SharedBook) (f : Fill) :
    (∃ stage, s.fill P f = ⟨{ s with filling := some { f with stage := stage } }, [.fill], none⟩ ∧
      Fill.result P s.book { f with stage := stage } = f.result P s.book ∧
        stage.left < f.stage.left) ∨
    s.fill P f = ⟨{ s with book := filled s.book f (f.result P s.book), filling := none }, [],
      some (.tag (f.result P s.book))⟩ := by
  obtain ⟨thread, peer, relayHost, epoch, stage⟩ := f
  cases stage with
  | pairing =>
    refine Or.inl ⟨_, rfl, ?_⟩
    cases hfound : s.book.sendPairing P peer relayHost epoch <;>
      simp [Fill.result, FillStage.after, FillStage.left, hfound]
  | paired =>
    refine Or.inl ⟨_, rfl, ?_⟩
    cases hfound : s.book.sendPaired P peer relayHost epoch <;>
      simp [Fill.result, FillStage.after, FillStage.left, hfound]
  | peers =>
    cases hfound : s.book.sendPeers P peer relayHost epoch with
    | none => exact Or.inr (by simp [fill, Fill.result, filled, hfound])
    | some tag =>
      refine Or.inl ⟨.store tag, by simp [fill, hfound], ?_⟩
      simp [Fill.result, FillStage.left, hfound]
  | store tag => exact Or.inr rfl

theorem completes_fill (book : TagBook) (changes : ℕ) (f : Fill) :
    Completes (exec P) f.thread ⟨book, changes, some f⟩ [.fill] a
      ⟨filled book f (f.result P book), changes, none⟩ (some (.tag (f.result P book))) := by
  induction hleft : f.stage.left using Nat.strong_induction_on generalizing f a with
  | _ n ih =>
    have hexec : exec P f.thread ⟨book, changes, some f⟩ .fill = _ := exec_fill rfl
    rcases fill_cases (P := P) ⟨book, changes, some f⟩ f with ⟨stage, hfill, hresult, hless⟩ | hfill
    · rw [hfill] at hexec
      refine .goes hexec ?_
      rw [← hresult]
      exact ih stage.left (hleft ▸ hless) { f with stage := stage } rfl
    · rw [hfill] at hexec
      exact .goes hexec (.done _ _)

theorem runsTo_lockCache (book : TagBook) (peer : NodeId) (relayHost : String) (nowUnix : ℕ) :
    RunsTo P t (book.pruneExpired nowUnix) [.lockCache peer relayHost nowUnix] none
      (BookCall.alone P book (.tagForSend peer relayHost nowUnix)) := by
  simp only [BookCall.alone, tagForSend]
  generalize book.pruneExpired nowUnix = pruned
  intro changes
  refine ⟨changes, .goes rfl ?_⟩
  cases hcached : (cacheFor pruned.sendCache relayHost).tags.lookup (peer, epochIndex nowUnix) with
  | some tag =>
    simp only [lockCache, hcached]
    exact .done _ _
  | none =>
    simp only [lockCache, hcached]
    have hfill := completes_fill (P := P) (a := none)
      { pruned with sendCache := cacheFor pruned.sendCache relayHost } changes
      ⟨t, peer, relayHost, epochIndex nowUnix, .pairing⟩
    simp only [Fill.result, ← derive_stages] at hfill
    have hderive : derive P { pruned with sendCache := cacheFor pruned.sendCache relayHost }
      peer relayHost
        (epochIndex nowUnix) = pruned.derive P peer relayHost (epochIndex nowUnix) := rfl
    rw [hderive] at hfill
    cases hfound : pruned.derive P peer relayHost (epochIndex nowUnix) with
    | none => simpa [hfound, filled] using hfill
    | some tag => simpa [hfound, filled, storeTag] using hfill

theorem runsTo_search {i : BookSection} {more : List BookSection} {found' : Option NodeId}
    (found : Option NodeId) (hexec : ∀ changes, exec P t ⟨book, changes, none⟩ i =
      some (search ⟨book, changes, none⟩ found more))
    (h : RunsTo P t book more (some (.node none)) (book, some (.node found'))) :
    RunsTo P t book [i] a (book, some (.node (found.or found'))) := by
  cases found with
  | some peer => exact runsTo_goes book [] (some (.node (some peer))) hexec (runsTo_done _ _)
  | none =>
    refine runsTo_goes book more (some (.node none)) hexec ?_
    simpa using h

/-- Alone, a call of sections does what the sequential function does. -/
theorem runsTo_call (book : TagBook) (c : BookCall) :
    RunsTo P t book (body c) none (c.alone P book) := by
  cases c with
  | change op => exact runsTo_change book op
  | active route nowUnix =>
    apply runsTo_prune
    refine runsTo_goes (book.pruneExpired nowUnix) []
      (some (.flag (book.pairingActive route nowUnix).2)) (fun _ => rfl) ?_
    exact runsTo_done _ _
  | registration relayHost nowUnix =>
    simp only [BookCall.alone, registration_registered]
    apply runsTo_prune
    refine runsTo_goes (book.pruneExpired nowUnix) [] (some (.tags (book.pruneExpired nowUnix)
      ((book.pruneExpired nowUnix).registered P relayHost nowUnix))) (fun _ => rfl) ?_
    exact runsTo_done _ _
  | tagForSend peer relayHost nowUnix =>
    exact runsTo_prune (runsTo_lockCache book peer relayHost nowUnix)
  | resolve tag relayHost nowUnix =>
    simp only [BookCall.alone, resolve_tables]
    apply runsTo_prune
    generalize book.pruneExpired nowUnix = pruned
    refine runsTo_search (resolveIn P tag relayHost nowUnix pruned.peerHoldings) (fun _ => rfl) ?_
    refine runsTo_search (resolveIn P tag relayHost nowUnix pruned.pairingHoldings)
      (fun _ => rfl) ?_
    rw [← Option.or_none (o := resolveIn P tag relayHost nowUnix pruned.pairedHoldings)]
    exact runsTo_search _ (fun _ => rfl) (runsTo_done _ _)

end SharedBook
end ForgeswornLink
