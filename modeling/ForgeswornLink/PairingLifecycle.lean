import ForgeswornLink.BookMaterial

/-!
# The life of a pairing

A first-contact route has two halves with different owners: the admission of the
product, which is dropped or expires, and the live route of a connection, which
is installed by `promote_pairing` and taken back by the connection that installed
it. `routeOf_step` says what any use of the book does to the two halves of one
route; an admission then stands exactly since its registration with nothing that
ends it, and a live route exactly since its promotion.
-/

namespace ForgeswornLink
open ByteString Runs

namespace TagBook
variable {P : Primitives}

def BookEvent.time? : BookEvent → Option ℕ
  | .change (.promotePairing _ _ _ nowUnix) => some nowUnix
  | .change (.prune nowUnix) => some nowUnix
  | .send _ _ nowUnix => some nowUnix
  | _ => none

def BookEvent.act (book : TagBook) (route : NodeId) (held : PairingRoute) : BookEvent → PairingRoute
  | .change (.registerPairing r secret expiresAt) =>
    if route = r ∧ book.unusedRoute r then ⟨some ⟨secret, expiresAt⟩, none⟩ else held
  | .change (.removePairing r) => if route = r then { held with admission := none } else held
  | .change (.promotePairing r secret generation _) =>
    if route = r ∧
      held.admission.isSome then { held with live := some ⟨generation, secret⟩ } else held
  | .change (.removeLivePairing r generation) =>
    if route = r ∧ held.live.any (fun live => live.generation == generation) then
      { held with live := none }
    else held
  | _ => held

def expireAt (time? : Option ℕ) (held : PairingRoute) : PairingRoute :=
  match time? with
  | some nowUnix => expire nowUnix held
  | none => held

theorem routeOf_pruneExpired (book : TagBook) (nowUnix : ℕ) (route : NodeId) :
    (book.pruneExpired nowUnix).routeOf route = expire nowUnix (book.routeOf route) := by
  rw [pruneExpired_eq, routeOf_bumpIf, routeOf_dropExpired]

theorem routeOf_tagForSend (book : TagBook) (peer : NodeId) (relayHost : String) (nowUnix : ℕ)
    (route : NodeId) :
    (book.tagForSend P peer relayHost nowUnix).1.routeOf route =
      expire nowUnix (book.routeOf route) := by
  rw [← routeOf_pruneExpired]
  simp only [tagForSend]
  split
  · rfl
  · split <;> rfl

theorem routeOf_registerPairing (book : TagBook) (r : NodeId) (secret : Block 16) (expiresAt : ℕ)
    (route : NodeId) :
    (book.registerPairing r secret expiresAt).routeOf route =
      if route = r then ⟨some ⟨secret, expiresAt⟩, none⟩ else book.routeOf route :=
  routeOf_insert book r _ route

theorem routeOf_step (book : TagBook) (e : BookEvent) (route : NodeId) :
    (book.step P e).routeOf route = e.act book route (expireAt e.time? (book.routeOf route)) := by
  cases e with
  | send peer relayHost nowUnix => exact routeOf_tagForSend book peer relayHost nowUnix route
  | change op =>
    cases op with
    | upsert peer material => rfl
    | remove peer => rfl
    | upsertPaired peer secret => rfl
    | removePaired peer =>
      simp only [step, apply, removePaired]
      split <;> rfl
    | registerPairing r secret expiresAt =>
      simp only [step, apply, BookEvent.act, BookEvent.time?, expireAt]
      by_cases hunused : book.unusedRoute r = true
      · simp [hunused, routeOf_registerPairing]
      · simp [hunused]
    | removePairing r =>
      simp only [step, apply, removePairing_eq, routeOf_bumpIf, routeOf_takeAdmission,
        BookEvent.act, BookEvent.time?, expireAt]
    | promotePairing r secret generation nowUnix =>
      simp only [step, apply, promotePairing_eq, routeOf_bumpIf, routeOf_installLive,
        routeOf_pruneExpired, BookEvent.act, BookEvent.time?, expireAt]
      rfl
    | removeLivePairing r generation =>
      simp only [step, apply, removeLivePairing_eq, routeOf_bumpIf, routeOf_dropLive, BookEvent.act,
        BookEvent.time?, expireAt]
      rfl
    | prune nowUnix => exact routeOf_pruneExpired book nowUnix route

theorem routeOf_of_unused {book : TagBook} {route : NodeId} (h : book.unusedRoute route = true) :
    book.routeOf route = .none := by
  have hnot : route ∉ book.pairing := by
    simp only [unusedRoute, Bool.and_eq_true, decide_eq_true_eq] at h
    exact h.1.2
  simp [routeOf, AList.lookup_eq_none.mpr hnot]

/-! ### Admissions -/

def Registers (book : TagBook) (route : NodeId) (admission : ExpiringSecret) (e : BookEvent) :
    Prop :=
  e = .change (.registerPairing route admission.secret admission.expiresAt) ∧
    book.unusedRoute route = true

/-- The handle is dropped, or an operation is given a time that is not before the expiry. -/
def BookEvent.Ends (route : NodeId) (expiresAt : ℕ) (e : BookEvent) : Prop :=
  e = .change (.removePairing route) ∨ ∃ nowUnix ∈ e.time?, expiresAt ≤ nowUnix

theorem admission_expireAt {time? : Option ℕ} {held : PairingRoute} {admission : ExpiringSecret} :
    (expireAt time? held).admission = some admission ↔
      held.admission = some admission ∧ ∀ nowUnix ∈ time?, nowUnix < admission.expiresAt := by
  cases time? with
  | none => simp [expireAt]
  | some nowUnix => simp [expireAt, expire, Option.filter_eq_some_iff]

theorem admission_step (book : TagBook) (route : NodeId) (admission : ExpiringSecret)
    (e : BookEvent) :
    ((book.step P e).routeOf route).admission = some admission ↔
      Registers book route admission e ∨
        (book.routeOf route).admission = some admission ∧ ¬ e.Ends route admission.expiresAt := by
  rw [routeOf_step]
  have hheld := @admission_expireAt e.time? (book.routeOf route) admission
  cases e with
  | send peer relayHost nowUnix =>
    simpa [BookEvent.act, Registers, BookEvent.Ends, BookEvent.time?] using hheld
  | change op =>
    cases op with
    | registerPairing r secret expiresAt =>
      simp only [BookEvent.time?, expireAt, BookEvent.act]
      obtain ⟨secret', expiresAt'⟩ := admission
      split
      · rename_i h
        obtain ⟨rfl, hunused⟩ := h
        simp [Registers, hunused, routeOf_of_unused hunused, PairingRoute.none]
      · rename_i h
        have hnot : ¬ Registers book route ⟨secret', expiresAt'⟩
            (.change (.registerPairing r secret expiresAt)) := by
          rintro ⟨heq, hunused⟩
          cases heq
          exact h ⟨rfl, hunused⟩
        simp [hnot, BookEvent.Ends, BookEvent.time?]
    | removePairing r =>
      simp only [BookEvent.time?, expireAt, BookEvent.act]
      split
      · rename_i h
        simp [Registers, BookEvent.Ends, h]
      · rename_i h
        simp [Registers, BookEvent.Ends, BookEvent.time?, Ne.symm h]
    | promotePairing r secret generation nowUnix =>
      simp only [BookEvent.act]
      split <;> simpa [Registers, BookEvent.Ends, BookEvent.time?] using hheld
    | removeLivePairing r generation =>
      simp only [BookEvent.act]
      split <;> simpa [Registers, BookEvent.Ends, BookEvent.time?] using hheld
    | _ => simpa [BookEvent.act, Registers, BookEvent.Ends, BookEvent.time?] using hheld

/-- The route was registered with this secret and expiry, and nothing has ended that since. -/
def Admitted (P : Primitives) (start : TagBook) (es : List BookEvent) (route : NodeId)
    (admission : ExpiringSecret) : Prop :=
  Since (fun pre e => Registers (run (step P) start pre) route admission e)
    (fun _ e => ¬ e.Ends route admission.expiresAt) es

theorem admission_iff {start : TagBook} (hstart : ∀ route, start.routeOf route = .none)
    (es : List BookEvent) (route : NodeId) (admission : ExpiringSecret) :
    ((run (step P) start es).routeOf route).admission = some admission ↔
      Admitted P start es route admission := by
  have hnone : ¬ (start.routeOf route).admission = some admission := by
    simp [hstart, PairingRoute.none]
  exact holds_iff_since (p := fun book : TagBook => (book.routeOf route).admission = some admission)
    hnone (fun book e => admission_step book route admission e) es

/-! ### Live routes -/

def Installs (book : TagBook) (route : NodeId) (live : LivePairingRoute) (e : BookEvent) : Prop :=
  ∃ nowUnix, e = .change (.promotePairing route live.secret live.generation nowUnix) ∧
    (book.promotePairing route live.secret live.generation nowUnix).2 = true

theorem promotePairing_snd (book : TagBook) (route : NodeId) (secret : Block 16)
    (generation nowUnix : ℕ) : (book.promotePairing route secret generation nowUnix).2 =
      (expire nowUnix (book.routeOf route)).admission.isSome := by
  rw [promotePairing_eq, installLive_snd, routeOf_pruneExpired]

theorem live_expireAt (time? : Option ℕ) (held : PairingRoute) :
    (expireAt time? held).live = held.live := by
  cases time? <;> rfl

theorem live_step (book : TagBook) (route : NodeId) (live : LivePairingRoute) (e : BookEvent) :
    ((book.step P e).routeOf route).live = some live ↔
      Installs book route live e ∨
        (book.routeOf route).live = some live ∧
          (e ≠ .change (.removeLivePairing route live.generation) ∧
            ∀ other, ¬ Installs book route other e) := by
  rw [routeOf_step]
  have hheld := live_expireAt e.time? (book.routeOf route)
  obtain ⟨generation', secret'⟩ := live
  cases e with
  | send peer relayHost nowUnix => simp [BookEvent.act, Installs, hheld]
  | change op =>
    cases op with
    | registerPairing r secret expiresAt =>
      simp only [BookEvent.time?, expireAt, BookEvent.act]
      split
      · rename_i h
        obtain ⟨rfl, hunused⟩ := h
        simp [Installs, routeOf_of_unused hunused, PairingRoute.none]
      · simp [Installs]
    | removePairing r =>
      simp only [BookEvent.time?, expireAt, BookEvent.act]
      split <;> simp [Installs]
    | promotePairing r secret generation nowUnix =>
      simp only [BookEvent.act]
      split
      · rename_i h
        obtain ⟨rfl, hsome⟩ := h
        have hlet : (book.promotePairing route secret generation nowUnix).2 = true := by
          rw [promotePairing_snd]
          exact hsome
        constructor
        · intro heq
          cases heq
          exact Or.inl ⟨nowUnix, rfl, hlet⟩
        · rintro (⟨now', heq, -⟩ | ⟨-, -, hnone⟩)
          · cases heq
            rfl
          · exact absurd ⟨nowUnix, rfl, hlet⟩ (hnone ⟨generation, secret⟩)
      · rename_i h
        have hnone (other : LivePairingRoute) :
            ¬ Installs book route other
              (.change (.promotePairing r secret generation nowUnix)) := by
          rintro ⟨now', heq, hlet⟩
          cases heq
          rw [promotePairing_snd] at hlet
          exact h ⟨rfl, hlet⟩
        simp [hheld, hnone]
    | removeLivePairing r generation =>
      simp only [BookEvent.act]
      split
      · rename_i h
        obtain ⟨rfl, hmatch⟩ := h
        rw [hheld] at hmatch
        refine iff_of_false (by simp) ?_
        rintro (⟨_, heq, -⟩ | ⟨hlive, hne, -⟩)
        · cases heq
        · rw [hlive, Option.any_some, beq_iff_eq] at hmatch
          exact hne (by rw [← hmatch])
      · rename_i h
        rw [hheld] at h ⊢
        have hother (hlive : (book.routeOf route).live = some ⟨generation', secret'⟩) :
            BookEvent.change (.removeLivePairing r generation) ≠
              .change (.removeLivePairing route generation') := by
          intro heq
          cases heq
          exact h ⟨rfl, by simp [hlive]⟩
        simp only [Installs]
        constructor
        · intro hlive
          exact Or.inr ⟨hlive, hother hlive, by simp⟩
        · rintro (⟨_, heq, -⟩ | ⟨hlive, -⟩)
          · cases heq
          · exact hlive
    | _ => simp [BookEvent.act, Installs, hheld]

/-- A promotion installed this live route, and neither its own clean-up nor another promotion
has come since. -/
def Installed (P : Primitives) (start : TagBook) (es : List BookEvent) (route : NodeId)
    (live : LivePairingRoute) : Prop :=
  Since (fun pre e => Installs (run (step P) start pre) route live e)
    (fun pre e => e ≠ .change (.removeLivePairing route live.generation) ∧
      ∀ other, ¬ Installs (run (step P) start pre) route other e) es

theorem live_iff {start : TagBook} (hstart : ∀ route, start.routeOf route = .none)
    (es : List BookEvent) (route : NodeId) (live : LivePairingRoute) :
    ((run (step P) start es).routeOf route).live = some live ↔ Installed P start es route live := by
  have hnone : ¬ (start.routeOf route).live = some live := by simp [hstart, PairingRoute.none]
  exact holds_iff_since (p := fun book : TagBook => (book.routeOf route).live = some live)
    hnone (fun book e => live_step book route live e) es

/-! ### No entry without a half -/

def NoEmpty (book : TagBook) : Prop :=
  ∀ route entry, book.pairing.lookup route = some entry →
    entry.admission.isSome = true ∨ entry.live.isSome = true

section NoEmpty
variable {book : TagBook}

theorem noEmpty_bumpIf {changed : TagBook × Bool} (h : changed.1.NoEmpty) :
    (bumpIf changed).NoEmpty := by
  unfold bumpIf
  split
  · exact h
  · exact h

theorem noEmpty_insert (h : book.NoEmpty) (route : NodeId) {entry : PairingRoute}
    (hentry : entry.admission.isSome = true ∨ entry.live.isSome = true) :
    NoEmpty { book with pairing := book.pairing.insert route entry } := by
  intro k held hheld
  rw [Table.lookup_insert_ite] at hheld
  split at hheld
  · cases hheld
    exact hentry
  · exact h k held hheld

theorem noEmpty_erase (h : book.NoEmpty) (route : NodeId) :
    NoEmpty { book with pairing := book.pairing.erase route } := by
  intro k held hheld
  rw [Table.lookup_erase_ite] at hheld
  split at hheld
  · cases hheld
  · exact h k held hheld

theorem noEmpty_takeAdmission (h : book.NoEmpty) (route : NodeId) :
    (book.takeAdmission route).1.NoEmpty := by
  unfold takeAdmission
  cases book.pairing.lookup route with
  | none => exact h
  | some entry =>
    cases hlive : entry.live with
    | none => simpa [hlive] using noEmpty_erase h route
    | some live =>
      have hhalf : (none : Option ExpiringSecret).isSome = true ∨
          (some live).isSome = true := Or.inr rfl
      simpa [hlive] using noEmpty_insert h route hhalf

theorem noEmpty_dropLive (h : book.NoEmpty) (route : NodeId) (generation : ℕ) :
    (book.dropLive route generation).1.NoEmpty := by
  unfold dropLive
  cases book.pairing.lookup route with
  | none => exact h
  | some entry =>
    dsimp only
    generalize (if entry.live.any (fun live => live.generation == generation) = true then none
      else entry.live) = left
    split
    · exact noEmpty_erase h route
    · rename_i hkeep
      apply noEmpty_insert h route
      simpa [Option.isSome_iff_ne_none, imp_iff_not_or] using hkeep

theorem noEmpty_installLive (h : book.NoEmpty) (route : NodeId) (secret : Block 16)
    (generation : ℕ) :
    (book.installLive route secret generation).1.NoEmpty := by
  unfold installLive
  cases book.pairing.lookup route with
  | none => exact h
  | some entry =>
    dsimp only
    split
    · exact h
    · exact noEmpty_insert h route (by simp)

theorem noEmpty_pruneExpired (book : TagBook) (nowUnix : ℕ) :
    (book.pruneExpired nowUnix).NoEmpty := by
  rw [pruneExpired_eq]
  apply noEmpty_bumpIf
  intro k held hheld
  simp only [dropExpired, Table.lookup_retain, Option.filter_eq_some_iff] at hheld
  simpa using hheld.2

theorem noEmpty_step (h : book.NoEmpty) (e : BookEvent) : (book.step P e).NoEmpty := by
  cases e with
  | send peer relayHost nowUnix =>
    have hpruned := noEmpty_pruneExpired book nowUnix
    simp only [step, tagForSend]
    split
    · exact hpruned
    · split <;> exact hpruned
  | change op =>
    cases op with
    | upsert peer material => exact h
    | remove peer => exact h
    | upsertPaired peer secret => exact h
    | removePaired peer =>
      simp only [step, apply, removePaired]
      split <;> exact h
    | registerPairing r secret expiresAt =>
      simp only [step, apply]
      split
      · exact noEmpty_insert h r (by simp)
      · exact h
    | removePairing r =>
      simp only [step, apply, removePairing_eq]
      exact noEmpty_bumpIf (noEmpty_takeAdmission h r)
    | promotePairing r secret generation nowUnix =>
      simp only [step, apply, promotePairing_eq]
      exact noEmpty_bumpIf
        (noEmpty_installLive (noEmpty_pruneExpired book nowUnix) r secret generation)
    | removeLivePairing r generation =>
      simp only [step, apply, removeLivePairing_eq]
      exact noEmpty_bumpIf (noEmpty_dropLive h r generation)
    | prune nowUnix => exact noEmpty_pruneExpired book nowUnix

end NoEmpty

/-! ### What the reads see -/

theorem mem_holdings_pairing {book : TagBook} {route : NodeId} {secret : Block 16} :
    (route, .pairing secret) ∈ book.holdings ↔ secret ∈ (book.routeOf route).secrets := by
  constructor
  · intro h
    simp only [holdings, List.mem_append, List.mem_map, List.mem_flatMap,
      Prod.mk.injEq, reduceCtorEq, and_false, exists_false, false_or, or_false,
      Material.pairing.injEq] at h
    obtain ⟨e, he, secret', hsecret, hroute, rfl⟩ := h
    rw [← hroute, routeOf_of_lookup (AList.mem_lookup_iff.mpr he)]
    exact hsecret
  · exact mem_holdings_of_secret

theorem mem_secrets {held : PairingRoute} {secret : Block 16} :
    secret ∈ held.secrets ↔
      (∃ admission, held.admission = some admission ∧ admission.secret = secret) ∨
      ∃ live, held.live = some live ∧ live.secret = secret := by
  obtain ⟨admission, live⟩ := held
  cases admission <;> cases live <;> simp [PairingRoute.secrets, eq_comm]

structure ReadsFrom (P : Primitives) (book : TagBook) (nowUnix : ℕ)
    (pieces : List (NodeId × Material)) : Prop where
  registers : ∀ relayHost, (book.registration P relayHost nowUnix).2 =
    pieces.flatMap fun piece => (window nowUnix).map (piece.2.tag P relayHost)
  resolves : ∀ tag relayHost, (book.resolve P tag relayHost nowUnix).2 =
    (pieces.find? (matchesIn P relayHost (window nowUnix) tag)).map Prod.fst
  sends : ∀ peer relayHost tag, (book.tagForSend P peer relayHost nowUnix).2 = some tag →
    ∃ material, (peer, material) ∈ pieces ∧ material.tag P relayHost (epochIndex nowUnix) = tag

theorem readsFrom_holdings {book : TagBook} (h : book.CacheExact P) (nowUnix : ℕ) :
    ReadsFrom P book nowUnix (book.pruneExpired nowUnix).holdings := by
  refine ⟨fun relayHost => registration_eq book relayHost nowUnix,
    fun tag relayHost => resolve_eq book tag relayHost nowUnix, ?_⟩
  intro peer relayHost tag htag
  rw [tagForSend_eq h, derive_eq, Option.map_eq_some_iff] at htag
  obtain ⟨material, hchosen, rfl⟩ := htag
  exact ⟨material, mem_holdings_of_chosen hchosen, rfl⟩

structure RouteReads (P : Primitives) (book : TagBook) (route : NodeId) (nowUnix : ℕ)
    (admitted : ExpiringSecret → Prop) (installed : LivePairingRoute → Prop) : Prop where
  active : (book.pairingActive route nowUnix).2 = true ↔ ∃ admission, admitted admission
  promotes : ∀ secret generation, (book.promotePairing route secret generation nowUnix).2 = true ↔
    ∃ admission, admitted admission
  derives : ∃ pieces, ReadsFrom P book nowUnix pieces ∧ ∀ secret,
    (route, .pairing secret) ∈ pieces ↔
    (∃ admission, admitted admission ∧ admission.secret = secret) ∨
      ∃ live, installed live ∧ live.secret = secret

theorem pairingActive_snd (book : TagBook) (route : NodeId) (nowUnix : ℕ) :
    (book.pairingActive route nowUnix).2 =
    (expire nowUnix (book.routeOf route)).admission.isSome := by
  rw [← routeOf_pruneExpired]
  simp only [pairingActive, routeOf]
  cases (book.pruneExpired nowUnix).pairing.lookup route <;> rfl

theorem routeReads {book : TagBook} (h : book.CacheExact P) (route : NodeId) (nowUnix : ℕ) :
    RouteReads P book route nowUnix
      (fun admission => (expire nowUnix (book.routeOf route)).admission = some admission)
      (fun live => (book.routeOf route).live = some live) := by
  refine ⟨?_, ?_, _, readsFrom_holdings h nowUnix, ?_⟩
  · rw [pairingActive_snd, Option.isSome_iff_exists]
  · intro secret generation
    rw [promotePairing_snd, Option.isSome_iff_exists]
  · intro secret
    rw [mem_holdings_pairing, routeOf_pruneExpired, mem_secrets]
    rfl

/-! ### The lifecycle -/

def BookEvent.Draws (route : NodeId) (e : BookEvent) : Prop :=
  ∃ secret expiresAt, e = .change (.registerPairing route secret expiresAt)

theorem admission_ended {book : TagBook} {route : NodeId} {admission : ExpiringSecret}
    {e : BookEvent} (h : (book.routeOf route).admission = some admission)
    (he : e.Ends route admission.expiresAt) :
    ((book.step P e).routeOf route).admission = none := by
  rw [Option.eq_none_iff_forall_ne_some]
  intro other hother
  rcases (admission_step book route other e).mp hother with ⟨rfl, -⟩ | ⟨hheld, hnot⟩
  · rcases he with heq | ⟨nowUnix, htime, -⟩
    · cases heq
    · cases htime
  · rw [h] at hheld
    cases hheld
    exact hnot he

theorem admission_stays_ended {book : TagBook} {route : NodeId} {post : List BookEvent}
    (h : (book.routeOf route).admission = none) (hpost : ∀ e ∈ post, ¬ e.Draws route) :
    ((run (step P) book post).routeOf route).admission = none := by
  induction post generalizing book with
  | nil => exact h
  | cons e post ih =>
    rw [run_cons]
    refine ih ?_ fun e' he' => hpost e' (List.mem_cons_of_mem e he')
    rw [Option.eq_none_iff_forall_ne_some]
    intro other hother
    rcases (admission_step book route other e).mp hother with ⟨heq, -⟩ | ⟨hheld, -⟩
    · exact hpost e List.mem_cons_self ⟨_, _, heq⟩
    · rw [h] at hheld
      cases hheld

theorem pairing_lifecycle (P : Primitives) (peers : Table NodeId RendezvousPeer)
    (paired : Table NodeId (Block 32)) (es : List BookEvent) :
    let start := withPaired peers paired
    let book := run (step P) start es
    (∀ route entry, book.pairing.lookup route = some entry →
      entry.admission.isSome = true ∨ entry.live.isSome = true) ∧
    (∀ route nowUnix, RouteReads P book route nowUnix
      (Admitted P start (es ++ [.change (.prune nowUnix)]) route) (Installed P start es route)) ∧
    (∀ route admission pre e post, es = pre ++ e :: post → Admitted P start pre route admission →
      e.Ends route admission.expiresAt → (∀ later ∈ post, ¬ later.Draws route) →
      ∀ nowUnix, RouteReads P book route nowUnix (fun _ => False) (Installed P start es route)) ∧
    ∀ route generation,
      ((book.removeLivePairing route generation).2 = true ↔
        ∃ secret, Installed P start es route ⟨generation, secret⟩) ∧
      (book.removeLivePairing route generation).1.routeOf route =
        ⟨(book.routeOf route).admission,
          if (book.removeLivePairing route generation).2 then none else (book.routeOf route).live⟩ ∧
      ∀ other, other ≠ route →
        (book.removeLivePairing route generation).1.routeOf other = book.routeOf other := by
  intro start book
  have hstart (route : NodeId) : start.routeOf route = .none := by
    simp [start, routeOf, withPaired]
  have hcache : book.CacheExact P := cacheExact_run peers paired es
  refine ⟨?_, ?_, ?_, ?_⟩
  · have hempty : start.NoEmpty := by
      intro route entry hentry
      simp [start, withPaired] at hentry
    exact invariant (step P) (I := NoEmpty) hempty (fun _ e h => noEmpty_step h e) es
  · intro route nowUnix
    have hreads := routeReads hcache route nowUnix
    have hadmitted (admission : ExpiringSecret) :
        (expire nowUnix (book.routeOf route)).admission = some admission ↔
          Admitted P start (es ++ [.change (.prune nowUnix)]) route admission := by
      rw [← admission_iff hstart, run_snoc, ← routeOf_pruneExpired]
      rfl
    simpa only [hadmitted, live_iff hstart, book] using hreads
  · rintro route admission pre e post hes hheld hends hpost nowUnix
    have hreads := routeReads hcache route nowUnix
    have hnone : (book.routeOf route).admission = none := by
      simp only [book, hes, run_append, run_cons]
      exact admission_stays_ended
        (admission_ended ((admission_iff hstart pre route admission).mpr hheld)
        hends) hpost
    simpa [expire, hnone, live_iff hstart, book] using hreads
  · intro route generation
    rw [removeLivePairing_eq, routeOf_bumpIf, dropLive_snd]
    refine ⟨?_, ?_, ?_⟩
    · rw [Option.any_eq_true]
      constructor
      · rintro ⟨⟨generation', secret⟩, hlive, hmatch⟩
        obtain rfl := beq_iff_eq.mp hmatch
        exact ⟨secret, (live_iff hstart es route _).mp hlive⟩
      · rintro ⟨secret, hinstalled⟩
        exact ⟨_, (live_iff hstart es route _).mpr hinstalled, beq_self_eq_true generation⟩
    · simp only [routeOf_dropLive, true_and]
      split <;> rfl
    · intro other hother
      rw [routeOf_dropLive, if_neg (fun h => hother h.1)]

end TagBook
end ForgeswornLink
