import ForgeswornLink.BookAgreement
import ForgeswornLink.PairingLifecycle

/-!
# Card rotation at the two ends of a pair

`TagBook::upsert` replaces the material of a pair at one end, and the other end
follows in its own time. A book holds one generation of a pair's material and
the three epochs of the window are epochs of that generation, so the tags of one
end are attributed at the other exactly while both hold the same one. Between the
rotations the ends may send to anyone, resolve and register.
-/

namespace ForgeswornLink
open ByteString Runs

namespace TagBook
variable {P : Primitives}

def Holds (book : TagBook) (k : NodeId) : Material → Prop
  | .pair pair => book.peers.lookup k = some pair
  | .pairing secret => secret ∈ (book.routeOf k).secrets
  | .paired secret => book.paired.lookup k = some secret

theorem mem_holdings {book : TagBook} {k : NodeId} {material : Material} :
    (k, material) ∈ book.holdings ↔ book.Holds k material := by
  have hpeers (pair) : book.peers.lookup k = some pair ↔ ⟨k, pair⟩ ∈ book.peers.entries :=
    AList.mem_lookup_iff
  have hpaired (secret) : book.paired.lookup k = some secret ↔ ⟨k, secret⟩ ∈ book.paired.entries :=
    AList.mem_lookup_iff
  cases material with
  | pair pair => simp [holdings, Holds, hpeers]
  | paired secret => simp [holdings, Holds, hpaired]
  | pairing secret =>
    constructor
    · intro h
      simp only [holdings, List.mem_append, List.mem_map, List.mem_flatMap, Prod.mk.injEq,
        reduceCtorEq, and_false, exists_false, or_false, false_or, Material.pairing.injEq] at h
      obtain ⟨⟨k', route⟩, hroute, secret', hsecret, rfl, rfl⟩ := h
      rw [Holds, routeOf_of_lookup (AList.mem_lookup_iff.mpr hroute)]
      exact hsecret
    · exact mem_holdings_of_secret

theorem secrets_expire (nowUnix : ℕ) (route : PairingRoute) :
    (expire nowUnix route).secrets ⊆ route.secrets := by
  intro secret h
  simp only [PairingRoute.secrets, expire, List.mem_append, Option.mem_toList,
    Option.map_eq_some_iff, Option.filter_eq_some_iff] at h ⊢
  rcases h with ⟨admission, ⟨hadmission, -⟩, rfl⟩ | hlive
  · exact Or.inl ⟨admission, hadmission, rfl⟩
  · exact Or.inr hlive

theorem holds_of_pruneExpired {book : TagBook} {nowUnix : ℕ} {k : NodeId} {material : Material}
    (h : (book.pruneExpired nowUnix).Holds k material) : book.Holds k material := by
  obtain ⟨hpaired, hpeers⟩ := pruneExpired_rest book nowUnix
  cases material with
  | pair pair => rwa [Holds, hpeers] at h
  | paired secret => rwa [Holds, hpaired] at h
  | pairing secret =>
    rw [Holds, routeOf_pruneExpired] at h
    exact secrets_expire nowUnix _ h

theorem chosen_eq_pair {book : TagBook} {k : NodeId} {pair : RendezvousPeer} :
    book.chosen k = some (.pair pair) ↔
      book.routeOf k = .none ∧ book.paired.lookup k = none ∧ book.peers.lookup k = some pair := by
  unfold chosen
  generalize book.routeOf k = route
  obtain ⟨admission, live⟩ := route
  cases admission <;> cases live <;> cases book.paired.lookup k <;> cases book.peers.lookup k <;>
    simp [PairingRoute.sendSecret, PairingRoute.none]

theorem chosen_pair_pruneExpired {book : TagBook} {k : NodeId} {pair : RendezvousPeer} (nowUnix : ℕ)
    (h : book.chosen k = some (.pair pair)) :
    (book.pruneExpired nowUnix).chosen k = some (.pair pair) := by
  rw [chosen_of_fresh ?_, h]
  intro admission hadmission
  rw [(chosen_eq_pair.mp h).1] at hadmission
  exact nomatch hadmission

theorem tagForSend_fst (book : TagBook) (peer : NodeId) (relayHost : String) (nowUnix : ℕ) :
    ∃ cache, (book.tagForSend P peer relayHost nowUnix).1 =
      { book.pruneExpired nowUnix with sendCache := cache } := by
  simp only [tagForSend]
  split
  · exact ⟨_, rfl⟩
  · split
    · exact ⟨_, rfl⟩
    · exact ⟨_, rfl⟩

end TagBook

inductive PairSide where
  | left
  | right
deriving DecidableEq

def PairSide.other : PairSide → PairSide
  | left => right
  | right => left

/-- Two ends by their node ids, and the material of the pair before and after. -/
structure Rotation where
  names : PairSide → NodeId
  old : RendezvousPeer
  new : RendezvousPeer

inductive RotationEvent where
  | rotate (side : PairSide)
  | send (side : PairSide) (peer : NodeId) (relayHost : String) (nowUnix : ℕ)
  | read (side : PairSide) (nowUnix : ℕ)
deriving DecidableEq

namespace Rotation

def step (P : Primitives) (r : Rotation) (books : PairSide → TagBook) : RotationEvent →
    PairSide → TagBook
  | .rotate side => Function.update books side ((books side).upsert (r.names side.other) r.new)
  | .send side peer relayHost nowUnix =>
    Function.update books side ((books side).tagForSend P peer relayHost nowUnix).1
  | .read side nowUnix => Function.update books side ((books side).pruneExpired nowUnix)

def Meets (P : Primitives) (r : Rotation) (books : PairSide → TagBook) (relayHost : String)
    (now : PairSide → ℕ) (sender : PairSide) : Prop :=
  ∃ tag, ((books sender).tagForSend P (r.names sender.other) relayHost (now sender)).2 = some tag ∧
    ((books sender.other).resolve P tag relayHost (now sender.other)).2 = some (r.names sender)

/-- Both ends hold the old material for each other and use it, no other peer has
either generation, and what a book may hold gives different tags. -/
structure Ready (P : Primitives) (r : Rotation) (books : PairSide → TagBook) (relayHost : String)
    (now : PairSide → ℕ) : Prop where
  reached : ∀ side, ∃ peers paired es,
    books side = run (TagBook.step P) (TagBook.withPaired peers paired) es
  held : ∀ side, (books side).chosen (r.names side.other) = some (.pair r.old)
  only : ∀ side, ∀ h ∈ (books side).holdings, h.2 = .pair r.old ∨ h.2 = .pair r.new →
    h.1 = r.names side.other
  distinct : ∀ side,
    ∀ m ∈ .pair r.old :: .pair r.new :: (books side).holdings.map Prod.snd,
    ∀ m' ∈ .pair r.old :: .pair r.new :: (books side).holdings.map Prod.snd,
    ∀ epoch ∈ TagBook.window (now side), ∀ epoch' ∈ TagBook.window (now side),
      Material.tag P relayHost m epoch = Material.tag P relayHost m' epoch' → m = m'

def generation (r : Rotation) (side : PairSide) (events : List RotationEvent) : RendezvousPeer :=
  if .rotate side ∈ events then r.new else r.old

structure Holding (P : Primitives) (r : Rotation) (side : PairSide) (start : TagBook)
    (current : RendezvousPeer) (book : TagBook) : Prop where
  exact : book.CacheExact P
  chosen : book.chosen (r.names side.other) = some (.pair current)
  within : ∀ k material, book.Holds k material →
    start.Holds k material ∨ k = r.names side.other ∧ material = .pair r.new

section Run
variable {P : Primitives} {r : Rotation} {side : PairSide} {start book : TagBook}
  {current : RendezvousPeer}

theorem Holding.pruneExpired (h : r.Holding P side start current book) (nowUnix : ℕ) :
    r.Holding P side start current (book.pruneExpired nowUnix) :=
  ⟨TagBook.cacheExact_pruneExpired h.exact nowUnix,
    TagBook.chosen_pair_pruneExpired nowUnix h.chosen, fun k material hholds => h.within k material
      (TagBook.holds_of_pruneExpired hholds)⟩

theorem Holding.tagForSend (h : r.Holding P side start current book) (peer : NodeId)
    (relayHost : String) (nowUnix : ℕ) :
    r.Holding P side start current (book.tagForSend P peer relayHost nowUnix).1 := by
  have hexact := TagBook.cacheExact_tagForSend h.exact peer relayHost nowUnix
  obtain ⟨cache, hcache⟩ := TagBook.tagForSend_fst (P := P) book peer relayHost nowUnix
  have hpruned := h.pruneExpired nowUnix
  refine ⟨hexact, ?_, ?_⟩
  · rw [hcache]
    exact hpruned.chosen
  · intro k material hholds
    rw [hcache] at hholds
    apply hpruned.within
    cases material with
    | pair pair => exact hholds
    | pairing secret => exact hholds
    | paired secret => exact hholds

theorem Holding.upsert (h : r.Holding P side start current book) :
    r.Holding P side start r.new (book.upsert (r.names side.other) r.new) := by
  obtain ⟨hroute, hpaired, -⟩ := TagBook.chosen_eq_pair.mp h.chosen
  refine ⟨TagBook.cacheExact_bump _, TagBook.chosen_eq_pair.mpr ⟨hroute, hpaired, ?_⟩, ?_⟩
  · simp [TagBook.upsert, TagBook.bump]
  · intro k material hholds
    cases material with
    | pairing secret => exact h.within k (.pairing secret) hholds
    | paired secret => exact h.within k (.paired secret) hholds
    | pair pair =>
      simp only [TagBook.Holds, TagBook.upsert, TagBook.bump, Table.lookup_insert_ite] at hholds
      split at hholds
      · rename_i hk
        exact Or.inr ⟨hk, by rw [Option.some.inj hholds]⟩
      · exact h.within k (.pair pair) hholds

theorem holding_step {books : PairSide → TagBook} (h : r.Holding P side start current (books side))
    (e : RotationEvent) :
    r.Holding P side start (if e = .rotate side then r.new else current)
      (r.step P books e side) := by
  cases e with
  | rotate place =>
    by_cases hside : side = place
    · subst hside
      simpa [step] using h.upsert
    · simpa [step, Function.update_of_ne hside, Ne.symm hside] using h
  | send place peer relayHost nowUnix =>
    by_cases hside : side = place
    · subst hside
      simpa [step] using h.tagForSend peer relayHost nowUnix
    · simpa [step, Function.update_of_ne hside] using h
  | read place nowUnix =>
    by_cases hside : side = place
    · subst hside
      simpa [step] using h.pruneExpired nowUnix
    · simpa [step, Function.update_of_ne hside] using h

theorem holding_run {books : PairSide → TagBook} {relayHost : String} {now : PairSide → ℕ}
    (h : r.Ready P books relayHost now) (events : List RotationEvent) (side : PairSide) :
    r.Holding P side (books side) (r.generation side events)
      (run (r.step P) books events side) := by
  induction events using List.reverseRecOn with
  | nil =>
    obtain ⟨peers, paired, es, hbook⟩ := h.reached side
    have hexact : (books side).CacheExact P := by
      rw [hbook]
      exact TagBook.cacheExact_run peers paired es
    exact ⟨hexact, h.held side, fun _ _ hholds => Or.inl hholds⟩
  | append_singleton events e ih =>
    have hstep := holding_step ih e
    rw [run_snoc]
    have hgeneration : r.generation side (events ++ [e]) =
        if e = .rotate side then r.new else r.generation side events := by
      simp only [generation, List.mem_append, List.mem_singleton, eq_comm (a := e)]
      split_ifs <;> simp_all
    rw [hgeneration]
    exact hstep

theorem attributed_iff {books : PairSide → TagBook} {relayHost : String} {now : PairSide → ℕ}
    (hready : r.Ready P books relayHost now) (h : r.Holding P side (books side) current book)
    {epoch : ℕ} (hepoch : epoch ∈ TagBook.window (now side)) {pair : RendezvousPeer}
    (hpair : pair = r.old ∨ pair = r.new) :
    (book.resolve P (Material.tag P relayHost (.pair pair) epoch) relayHost (now side)).2 =
      some (r.names side.other) ↔ pair = current := by
  have hpruned := h.pruneExpired (now side)
  -- What the pruned book holds is among the inputs that are known to be distinct.
  have hinput : ∀ held ∈ (book.pruneExpired (now side)).holdings,
      held.2 ∈ .pair r.old :: .pair r.new :: (books side).holdings.map Prod.snd := by
    rintro ⟨k, material⟩ hmem
    rcases hpruned.within k material (TagBook.mem_holdings.mp hmem) with hold | ⟨-, rfl⟩
    · have := List.mem_map_of_mem (f := Prod.snd) (TagBook.mem_holdings.mpr hold)
      exact List.mem_cons_of_mem _ (List.mem_cons_of_mem _ this)
    · exact List.mem_cons_of_mem _ List.mem_cons_self
  have honly : ∀ pair, pair = r.old ∨ pair = r.new →
      (book.pruneExpired (now side)).OnlyUnder (.pair pair) (r.names side.other) := by
    rintro pair hpair ⟨k, material⟩ hmem heq
    rcases hpruned.within k material (TagBook.mem_holdings.mp hmem) with hold | ⟨hk, -⟩
    · apply hready.only side (k, material) (TagBook.mem_holdings.mpr hold)
      rcases hpair with rfl | rfl
      · exact Or.inl heq
      · exact Or.inr heq
    · exact hk
  have hmem : Material.pair pair ∈
      .pair r.old :: .pair r.new :: (books side).holdings.map Prod.snd := by
    rcases hpair with rfl | rfl
    · exact List.mem_cons_self
    · exact List.mem_cons_of_mem _ List.mem_cons_self
  constructor
  · intro hresolve
    rw [TagBook.resolve_eq, Option.map_eq_some_iff] at hresolve
    obtain ⟨⟨k, material⟩, hfind, hk⟩ := hresolve
    have hheld := List.mem_of_find?_eq_some hfind
    obtain ⟨epoch', hepoch', htag⟩ := TagBook.matchesIn_iff.mp (List.find?_some hfind)
    have hsame : material = .pair pair :=
      hready.distinct side _ (hinput _ hheld) _ hmem _ hepoch' _ hepoch htag
    have hlookup : (book.pruneExpired (now side)).Holds k (.pair pair) :=
      TagBook.mem_holdings.mp (hsame ▸ hheld)
    have hcurrent := (TagBook.chosen_eq_pair.mp hpruned.chosen).2.2
    rw [← hk] at hcurrent
    exact Option.some.inj (hlookup.symm.trans hcurrent)
  · rintro rfl
    refine (TagBook.registered_of_chosen P relayHost hepoch hpruned.chosen).2 ?_ (honly pair hpair)
    intro held hheld held' hheld' e he e' he' htag
    exact hready.distinct side _ (hinput _ hheld) _ (hinput _ hheld') e he e' he' htag

theorem generation_mem (r : Rotation) (side : PairSide) (events : List RotationEvent) :
    r.generation side events = r.old ∨ r.generation side events = r.new := by
  unfold generation
  split
  · exact Or.inr rfl
  · exact Or.inl rfl

theorem other_other (side : PairSide) : side.other.other = side := by cases side <;> rfl

theorem generation_eq_iff (r : Rotation) (side : PairSide) (events : List RotationEvent) :
    r.generation side events = r.generation side.other events ↔
      (.rotate side ∈ events ↔ .rotate side.other ∈ events) ∨ r.old = r.new := by
  unfold generation
  split_ifs with h₁ h₂ h₂
  · simp [h₁, h₂]
  · simp [h₁, h₂, eq_comm]
  · simp [h₁, h₂]
  · simp [h₁, h₂]

end Run

/-- Whatever the order of the rotations and the traffic between them, with clocks
in one epoch a pair meets exactly if both ends have rotated or neither has, or
the rotation changes nothing. -/
theorem rotating_pair_meets_iff (P : Primitives) (r : Rotation) (books : PairSide → TagBook)
    (relayHost : String) (now : PairSide → ℕ) (h : r.Ready P books relayHost now)
    (hclocks : epochIndex (now .left) = epochIndex (now .right)) (events : List RotationEvent)
    (sender : PairSide) :
    r.Meets P (run (r.step P) books events) relayHost now sender ↔
      (.rotate sender ∈ events ↔ .rotate sender.other ∈ events) ∨ r.old = r.new := by
  have hsender := holding_run h events sender
  have hreceiver := holding_run h events sender.other
  have hepoch : epochIndex (now sender) ∈ TagBook.window (now sender.other) := by
    rw [TagBook.mem_window]
    cases sender with
    | left => simp only [PairSide.other, hclocks]; omega
    | right => simp only [PairSide.other, hclocks]; omega
  have hsend : ((run (r.step P) books events sender).tagForSend P (r.names sender.other) relayHost
      (now sender)).2 =
        some (Material.tag P relayHost (.pair (r.generation sender events))
          (epochIndex (now sender))) := by
    rw [TagBook.tagForSend_eq hsender.exact, TagBook.derive_eq,
      (hsender.pruneExpired (now sender)).chosen]
    rfl
  have hresolve := attributed_iff h hreceiver hepoch (generation_mem r sender events)
  rw [other_other] at hresolve
  rw [← generation_eq_iff, ← hresolve, Meets, hsend]
  simp

section Example

def pairOf (n : ℕ) : RendezvousPeer := ⟨.both, readBlock 32 [UInt8.ofNat n] 0, readBlock 32 [] 0⟩

def exampleNames : PairSide → NodeId
  | .left => TagBook.nodeOf 1
  | .right => TagBook.nodeOf 2

def exampleRotation : Rotation := ⟨exampleNames, pairOf 5, pairOf 6⟩

def exampleBooks (side : PairSide) : TagBook :=
  run (TagBook.step .standIn) (TagBook.withPaired ∅ ∅)
    [.change (.upsert (exampleNames side.other) (pairOf 5)),
      .change (.upsert (TagBook.nodeOf 9) (pairOf 7))]

theorem exampleReady : exampleRotation.Ready .standIn exampleBooks "" fun _ => 7200 where
  reached := fun _ => ⟨_, _, _, rfl⟩
  held := fun side => by cases side <;> decide +kernel
  only := fun side => by cases side <;> decide +kernel
  distinct := fun side => by cases side <;> decide +kernel

theorem pair_meets_after_both :
    exampleRotation.Meets .standIn
      (run (exampleRotation.step .standIn) exampleBooks
        [.send .left (TagBook.nodeOf 2) "" 7200, .rotate .left, .rotate .right]) "" (fun _ => 7200)
      .left := by
  refine (rotating_pair_meets_iff .standIn exampleRotation exampleBooks "" (fun _ => 7200)
    exampleReady rfl _ .left).mpr (Or.inl ?_)
  decide

/-- One end has rotated: its tag is attributed to nobody at the other. -/
theorem half_rotated_pair_is_stranded :
    exampleRotation.Ready .standIn exampleBooks "" (fun _ => 7200) ∧
    ((run (exampleRotation.step .standIn) exampleBooks [.rotate .left] .left).tagForSend .standIn
      (TagBook.nodeOf 2) "" 7200).2 = some (Material.tag .standIn "" (.pair (pairOf 6)) 2) ∧
    ((run (exampleRotation.step .standIn) exampleBooks [.rotate .left] .right).resolve .standIn
      (Material.tag .standIn "" (.pair (pairOf 6)) 2) "" 7200).2 = none := by
  refine ⟨exampleReady, ?_, ?_⟩
  · decide +kernel
  · decide +kernel

end Example

end Rotation

end ForgeswornLink
