import ForgeswornLink.RelayPump
import ForgeswornLink.PairingLifecycle

/-!
# No lost update of the book

Every change of material is followed by a notification, and the pump marks a
notification as seen before it takes the snapshot it registers. So the last
snapshot has the material the book has now, or a notification is unseen, or one
is still owed.
-/

namespace ForgeswornLink
open ByteString Runs Sections

namespace TagBook
variable {P : Primitives} {book book' : TagBook}

theorem mem_holdings_pair {k : NodeId} {peer : RendezvousPeer} :
    (k, .pair peer) ∈ book.holdings ↔ book.peers.lookup k = some peer := by
  rw [← Option.mem_def, AList.mem_lookup_iff]
  simp [holdings, eq_comm]

theorem mem_holdings_paired {k : NodeId} {secret : Block 32} :
    (k, .paired secret) ∈ book.holdings ↔ book.paired.lookup k = some secret := by
  rw [← Option.mem_def, AList.mem_lookup_iff]
  simp [holdings, eq_comm]

theorem SameMaterial.mem_holdings (h : book.SameMaterial book') (piece : NodeId × Material) :
    piece ∈ book'.holdings ↔ piece ∈ book.holdings := by
  obtain ⟨k, material⟩ := piece
  cases material with
  | pair peer => rw [mem_holdings_pair, mem_holdings_pair, h.peers]
  | pairing secret => rw [mem_holdings_pairing, mem_holdings_pairing, h.routes]
  | paired secret => rw [mem_holdings_paired, mem_holdings_paired, h.paired]

theorem SameMaterial.mem_registered (h : book.SameMaterial book') {relayHost : String} {nowUnix : ℕ}
    {tag : Tag} :
    tag ∈ book'.registered P relayHost nowUnix ↔ tag ∈ book.registered P relayHost nowUnix := by
  simp only [registered, List.mem_flatMap, h.mem_holdings]

end TagBook

namespace TagClient
open SharedBook TagBook
variable {P : Primitives} {c : TagClient} {source : TagBook}

/-- The book still has the material of `source`, or the pump has a notification to come. -/
def Current (c : TagClient) (source : TagBook) : Prop :=
  (source.SameMaterial c.pool.shared.book ∨ c.pump.seen < c.changes) ∨ Owes (· = .notify) c.pool

theorem changes_le_exec {t : ℕ} {s : SharedBook} {i : BookSection} {o : SharedBook.Outcome}
    (h : exec P t s i = some o) : s.changes ≤ o.shared.changes := by
  cases ran_exec h with
  | changes next answer hcache hsame => exact le_refl _
  | reads more answer => exact le_refl _
  | counts => exact le_refl _
  | notifies => exact Nat.le_succ _
  | clears hfilling => exact le_refl _
  | locks hfilling peer relayHost nowUnix =>
    unfold lockCache
    dsimp only
    split <;> exact le_refl _
  | fills f hfilling ht =>
    rcases fill_cases (P := P) s f with ⟨stage, hfill, -⟩ | hfill
    · rw [hfill]
    · rw [hfill]

theorem changes_le_step (pool : BookPool) (m : Move BookCall) :
    pool.shared.changes ≤ (SharedBook.step P pool m).shared.changes := by
  refine shared_step body (exec P) (Q := fun s => pool.shared.changes ≤ s.changes) (le_refl _) ?_
  intro t i o _ hexec
  exact changes_le_exec hexec

theorem current_work (hseen : c.pump.seen ≤ c.changes) (h : c.Current source) (m : Move BookCall) :
    Current { c with pool := SharedBook.step P c.pool m } source := by
  apply settled_or_owed_step body (exec P)
    (G := fun s => source.SameMaterial s.book ∨ c.pump.seen < s.changes) _ _ h m
  · rintro t i o hexec rfl
    cases hexec
    exact Or.inr (Nat.lt_succ_of_le hseen)
  · rintro t i o hexec (hsame | hunseen)
    · rcases same_exec hexec with hkept | hmore
      · exact Or.inl (Or.inl (hsame.trans hkept))
      · exact Or.inr ⟨.notify, by simp [hmore, bumpSections], rfl⟩
    · exact Or.inl (Or.inr (lt_of_lt_of_le hunseen (changes_le_exec hexec)))

inductive Computing (P : Primitives) (c : TagClient) (nowUnix : ℕ) : Prop
  | pruning (htodo : c.thread.todo = [.dropExpired nowUnix, .snapshot c.pump.relayHost nowUnix])
  | bumping (rest : List BookSection) (hrest : rest <:+ bumpSections)
      (htodo : c.thread.todo = rest ++ [.snapshot c.pump.relayHost nowUnix])
  | computed (source : TagBook) (hthread : c.thread =
      ⟨[], some (.tags source (source.registered P c.pump.relayHost nowUnix))⟩)
        (h : c.Current source)

theorem thread_work {m : Move BookCall} (h : m.thread ≠ 0) :
    thread { c with pool := SharedBook.step P c.pool m } = c.thread :=
  threads_step_of_ne body (exec P) c.pool h

theorem computing_other {m : Move BookCall} {nowUnix : ℕ} (hseen : c.pump.seen ≤ c.changes)
    (h : Computing P c nowUnix) (hm : m.thread ≠ 0) :
    Computing P { c with pool := SharedBook.step P c.pool m } nowUnix := by
  cases h with
  | pruning htodo => exact .pruning (by rw [thread_work hm]; exact htodo)
  | bumping rest hrest htodo => exact .bumping rest hrest (by rw [thread_work hm]; exact htodo)
  | computed source hthread hcurrent =>
    exact .computed source (by rw [thread_work hm]; exact hthread) (current_work hseen hcurrent m)

theorem thread_go {i : BookSection} {rest : List BookSection} {o : SharedBook.Outcome}
    (htodo : c.thread.todo = i :: rest) (hexec : exec P 0 c.pool.shared i = some o) :
    thread { c with pool := SharedBook.step P c.pool (.go 0) } =
      ⟨o.more ++ rest, o.answer.or c.thread.answer⟩ := by
  rw [thread, SharedBook.step, step_go body (exec P) htodo hexec, put_threads_self]
  rfl

theorem computing_own {nowUnix : ℕ} (h : Computing P c nowUnix) :
    Computing P { c with pool := SharedBook.step P c.pool (.go 0) } nowUnix := by
  cases h with
  | pruning htodo =>
    refine .bumping (bumpWhen (c.pool.shared.book.dropExpired nowUnix).2) ?_ ?_
    · cases (c.pool.shared.book.dropExpired nowUnix).2 <;> simp [bumpWhen]
    · rw [thread_go htodo rfl]
      rfl
  | bumping rest hrest htodo =>
    rcases suffix_bumpSections hrest with rfl | rfl | rfl | rfl
    · refine .bumping [.notify, .clearCache] (by simp [bumpSections]) ?_
      rw [thread_go htodo rfl]
      rfl
    · refine .bumping [.clearCache] (by simp [bumpSections, List.suffix_cons_iff]) ?_
      rw [thread_go htodo rfl]
      rfl
    · -- the cache may be locked by a send, and the pump then waits
      cases hexec : exec P 0 c.pool.shared .clearCache with
      | none =>
        rw [SharedBook.step, step_blocked body (exec P) htodo hexec]
        exact .bumping [.clearCache] hrest htodo
      | some o =>
        have hmore : o.more = [] := by
          simp only [exec] at hexec
          split at hexec <;> cases hexec
          rfl
        refine .bumping [] List.nil_suffix ?_
        rw [thread_go htodo hexec, hmore]
        rfl
    · refine .computed c.pool.shared.book ?_ ?_
      · rw [thread_go htodo rfl]
        rfl
      · refine Or.inl (Or.inl ?_)
        rw [SharedBook.step, step_go body (exec P) htodo rfl, put_shared]
        exact .refl _
  | computed source hthread hcurrent =>
    have htodo : (c.pool.threads 0).todo = [] := congrArg Thread.todo hthread
    rw [SharedBook.step, step_idle body (exec P) htodo]
    exact .computed source hthread hcurrent

/-! ### The invariant of the pump -/

structure Follows (P : Primitives) (c : TagClient) : Prop where
  seen_le : c.pump.seen ≤ c.changes
  idle : c.pump.stage.waits = true → c.thread.todo = []
  computing : ∀ cause nowUnix, c.pump.stage = .computing cause nowUnix → Computing P c nowUnix
  sent : c.pump.stage.registered = true → ∃ r, c.pump.sent = some r ∧
    r.tags = r.source.registered P c.pump.relayHost r.computedAt ∧ c.Current r.source

theorem Follows.idle_at (h : Follows P c) {stage : PumpStage} (hstage : c.pump.stage = stage)
    (hwaits : stage.waits = true) : c.thread.todo = [] := h.idle (hstage ▸ hwaits)

theorem Follows.sent_at (h : Follows P c) {stage : PumpStage} (hstage : c.pump.stage = stage)
    (hregistered : stage.registered = true) : ∃ r, c.pump.sent = some r ∧
      r.tags = r.source.registered P c.pump.relayHost r.computedAt ∧ c.Current r.source :=
  h.sent (hstage ▸ hregistered)

theorem Follows.of_pool {c' : TagClient} (h : Follows P c) (hpool : c'.pool = c.pool)
    (hseen : c'.pump.seen = c.pump.seen) (hidle : c'.pump.stage.waits = true → c.thread.todo = [])
    (hcomputing : ∀ cause nowUnix, c'.pump.stage ≠ .computing cause nowUnix)
    (hsent : c'.pump.stage.registered = true → ∃ r, c'.pump.sent = some r ∧
      r.tags = r.source.registered P c'.pump.relayHost r.computedAt ∧ c.Current r.source) :
    Follows P c' := by
  refine ⟨?_, ?_, ?_, ?_⟩
  · rw [changes, hpool, hseen]
    exact h.seen_le
  · rw [thread, hpool]
    exact hidle
  · intro cause nowUnix hstage
    exact absurd hstage (hcomputing cause nowUnix)
  · intro hregistered
    obtain ⟨r, hr, htags, hcurrent⟩ := hsent hregistered
    refine ⟨r, hr, htags, ?_⟩
    rw [Current, changes, hpool, hseen]
    exact hcurrent

theorem follows_work (h : Follows P c) {m : Move BookCall} (hm : ∀ b, m ≠ .call 0 b) :
    Follows P { c with pool := SharedBook.step P c.pool m } := by
  refine ⟨h.seen_le.trans (changes_le_step c.pool m), ?_, ?_, ?_⟩
  · intro hwaits
    have hidle := h.idle hwaits
    by_cases ht : m.thread = 0
    · cases m with
      | call t b => exact absurd (by rw [← ht]; rfl) (hm b)
      | go t =>
        cases ht
        rw [thread, SharedBook.step, step_idle body (exec P) hidle]
        exact hidle
    · rw [thread_work ht]
      exact hidle
  · intro cause nowUnix hstage
    have hcomputing := h.computing cause nowUnix hstage
    by_cases ht : m.thread = 0
    · cases m with
      | call t b => exact absurd (by rw [← ht]; rfl) (hm b)
      | go t =>
        cases ht
        exact computing_own hcomputing
    · exact computing_other h.seen_le hcomputing ht
  · intro hregistered
    obtain ⟨r, hr, htags, hcurrent⟩ := h.sent hregistered
    exact ⟨r, hr, htags, current_work h.seen_le hcurrent m⟩

theorem follows_call (h : Follows P c) (hidle : c.thread.todo = [])
    {stage : PumpStage} {nowUnix : ℕ} {b : BookCall} (hwaits : stage.waits = false)
    (hcomputing : ∀ cause nowUnix', stage = .computing cause nowUnix' →
      body b = [.dropExpired nowUnix', .snapshot c.pump.relayHost nowUnix'])
    (hsent : stage.registered = true → c.pump.stage.registered = true) :
    Follows P (c.call P stage nowUnix b) := by
  have hcall := step_call body (exec P) hidle b
  refine ⟨?_, ?_, ?_, ?_⟩
  · rw [changes, call, SharedBook.step, hcall]
    exact h.seen_le
  · intro hwaits'
    simp only [call, hwaits] at hwaits'
    cases hwaits'
  · intro cause nowUnix' hstage
    refine .pruning ?_
    rw [thread, call, SharedBook.step, hcall, put_threads_self]
    exact hcomputing cause nowUnix' hstage
  · intro hregistered
    obtain ⟨r, hr, htags, hcurrent⟩ := h.sent (hsent hregistered)
    exact ⟨r, hr, htags, current_work h.seen_le hcurrent (.call 0 b)⟩

theorem follows_step (h : Follows P c) (e : PumpEvent) : Follows P (c.step P e) := by
  generalize hnext : c.step P e = next
  have hmoved : Moved P c e next := hnext ▸ moved_step P c e
  cases hmoved with
  | stays => exact h
  | works m hm => exact follows_work h hm
  | attempts relayHost hstage =>
    refine ⟨le_refl _, fun _ => h.idle_at hstage rfl, ?_, ?_⟩ <;>
      simp [PumpStage.registered]
  | computes cause nowUnix hasks =>
    have hidle : c.thread.todo = [] := by
      rcases hasks with ⟨hstage, -⟩ | ⟨tick, hstage, -⟩ | ⟨hstage, -⟩ <;> exact h.idle_at hstage rfl
    refine follows_call h hidle rfl ?_ (by simp [PumpStage.registered])
    intro cause' nowUnix' hstage
    cases hstage
    rfl
  | registers cause nowUnix source tags hstage hthread =>
    have hidle : c.thread.todo = [] := by rw [hthread]
    refine h.of_pool rfl rfl (fun _ => hidle) (by split <;> simp) fun _ => ⟨_, rfl, ?_⟩
    cases h.computing cause nowUnix hstage with
    | pruning htodo => simp [hidle] at htodo
    | bumping rest hrest htodo => simp [hidle] at htodo
    | computed source' hthread' hcurrent =>
      rw [hthread] at hthread'
      cases hthread'
      exact ⟨rfl, hcurrent⟩
  | ends _ hends =>
    exact h.of_pool rfl rfl (fun _ => hends.elim h.idle id) (by simp [closed])
      (by simp [closed, PumpStage.registered])
  | welcomes hstage =>
    exact h.of_pool rfl rfl (fun _ => h.idle_at hstage rfl) (by simp)
      fun _ => h.sent_at hstage rfl
  | starts nowUnix hstage =>
    exact h.of_pool rfl rfl (fun _ => h.idle_at hstage rfl) (by simp [remember])
      fun _ => h.sent_at hstage rfl
  | refreshes nowUnix hstage =>
    exact h.of_pool rfl rfl (fun _ => h.idle_at hstage rfl) (by simp [remember])
      (by simp [remember, PumpStage.registered])
  | ticks nowUnix hstage hepoch =>
    exact h.of_pool rfl rfl h.idle (by simp [hstage]) h.sent
  | notices hstage =>
    refine ⟨le_refl _, fun _ => h.idle_at hstage rfl, ?_, ?_⟩ <;>
      simp [PumpStage.registered]
  | notes nowUnix hstage =>
    exact h.of_pool rfl rfl (fun _ => h.idle_at hstage rfl) (by simp [remember])
      (by simp [remember, PumpStage.registered])
  | receives tag nowUnix hstage =>
    exact follows_call h (h.idle_at hstage rfl) rfl (by simp)
      fun _ => by simp [hstage, PumpStage.registered]
  | resolves hstage hidle =>
    exact h.of_pool rfl rfl (fun _ => hidle) (by simp)
      fun _ => h.sent_at hstage rfl

theorem follows_run (P : Primitives) (peers : Table NodeId RendezvousPeer)
    (paired : Table NodeId (Block 32)) (es : List PumpEvent) :
    Follows P (run (step P) (opened peers paired) es) := by
  apply invariant (step P) (I := Follows P)
  · refine ⟨le_refl _, fun _ => rfl, ?_, ?_⟩ <;> simp [opened, PumpStage.registered]
  · exact fun c e h => follows_step h e

/-- Back at its `select` with every notification seen and none owed, the pump has registered the
material the book has. -/
theorem no_lost_book_update (P : Primitives) (peers : Table NodeId RendezvousPeer)
    (paired : Table NodeId (Block 32)) (es : List PumpEvent)
    (hselect : (run (step P) (opened peers paired) es).pump.stage = .selecting)
    (hseen : (run (step P) (opened peers paired) es).pump.seen =
      (run (step P) (opened peers paired) es).pool.shared.changes)
    (hnotified : ∀ t, .notify ∉ ((run (step P) (opened peers paired) es).pool.threads t).todo) :
    let c := run (step P) (opened peers paired) es
    ∃ r, c.pump.sent = some r ∧ r.tags = r.source.registered P c.pump.relayHost r.computedAt ∧
      r.source.SameMaterial c.pool.shared.book ∧
      ∀ tag, tag ∈ r.tags ↔ tag ∈ c.pool.shared.book.registered P c.pump.relayHost
        r.computedAt := by
  intro c
  obtain ⟨r, hr, htags, hcurrent⟩ :=
    (follows_run P peers paired es).sent_at hselect rfl
  have hsame : r.source.SameMaterial c.pool.shared.book := by
    rcases hcurrent with (hsame | hunseen) | ⟨t, i, hi, rfl⟩
    · exact hsame
    · exact absurd hseen (Nat.ne_of_lt hunseen)
    · exact absurd hi (hnotified t)
  refine ⟨r, hr, htags, hsame, fun tag => ?_⟩
  rw [htags, hsame.mem_registered]

section Example

theorem threads_step_of_other {t : ℕ} (ht : t ≠ 0) {e : PumpEvent}
    (he : ∀ m, e = .work m → m.thread ≠ t) : (c.step P e).pool.threads t = c.pool.threads t := by
  generalize hnext : c.step P e = next
  have hmoved : Moved P c e next := hnext ▸ moved_step P c e
  cases hmoved with
  | works m hm => exact threads_step_of_ne body (exec P) c.pool (he m rfl)
  | computes cause nowUnix hasks => exact threads_step_of_ne body (exec P) c.pool (Ne.symm ht)
  | receives tag nowUnix hstage => exact threads_step_of_ne body (exec P) c.pool (Ne.symm ht)
  | _ => rfl

theorem threads_run_of_other {t : ℕ} (ht : t ≠ 0) {es : List PumpEvent}
    (hes : ∀ e ∈ es, ∀ m, e = .work m → m.thread ≠ t) :
    (run (step P) c es).pool.threads t = c.pool.threads t := by
  induction es generalizing c with
  | nil => rfl
  | cons e es ih =>
    rw [run_cons, ih fun e' he' => hes e' (List.mem_cons_of_mem e he'),
      threads_step_of_other ht (hes e List.mem_cons_self)]

def addsPair (b : UInt8) : List PumpEvent :=
  .work (.call 1 (.change (.upsert ⟨readBlock 32 [b] 0⟩ (pairOf b)))) :: List.replicate 4
    (.work (.go 1))

def pairAddedDuringHandshake : List PumpEvent :=
  addsPair 1 ++ [.attempt "relay", .compute 7000] ++ List.replicate 2 (.work (.go 0)) ++
    [.register true] ++
    addsPair 2 ++ [.welcome, .start 7001, .changed, .note 7001, .compute 7001] ++
    List.replicate 2 (.work (.go 0)) ++ [.register true]

theorem added_pair_is_registered :
    let c := run (step .standIn) (opened ∅ ∅) pairAddedDuringHandshake
    ∃ r, c.pump.sent = some r ∧ r.source.SameMaterial c.pool.shared.book ∧
      c.pool.shared.book.holdings.length = 2 := by
  intro c
  have hidle (t : ℕ) : (c.pool.threads t).todo = [] := by
    by_cases h₀ : t = 0
    · subst h₀
      exact List.isEmpty_iff.mp (by decide +kernel)
    by_cases h₁ : t = 1
    · subst h₁
      exact List.isEmpty_iff.mp (by decide +kernel)
    have hother : ∀ e ∈ pairAddedDuringHandshake, ∀ m, e = .work m → m.thread ≠ t := by
      simp [pairAddedDuringHandshake, addsPair, Move.thread, Ne.symm h₀, Ne.symm h₁]
    rw [threads_run_of_other h₀ hother]
    rfl
  obtain ⟨r, hr, -, hsame, -⟩ := no_lost_book_update .standIn ∅ ∅ pairAddedDuringHandshake
    (by decide +kernel) (by decide +kernel) (fun t => by simp [c, hidle t])
  exact ⟨r, hr, hsame, by decide +kernel⟩

end Example

end TagClient
end ForgeswornLink
