import ForgeswornLink.RelayRegistry

/-!
# The two maps of the relay

Whatever the order in which sessions register, replace their lists, evict each
other and end, both maps name only sessions that asked for it, and a row of the
tag map has one or two sessions. A session that misses a tag of its own list was
evicted from it by two newer ones.
-/

namespace ForgeswornLink
open ByteString Runs

namespace Registry
variable {P : Primitives} {config : RelayConfig}

structure Sound (g : Registry) : Prop where
  fresh : ∀ id, g.nextSessionId ≤ id → g.stages id = none
  rows : Seats.Sound tagEnds g.tags
  listed : ∀ tag id, id ∈ g.holders tag → tag ∈ (g.tagsOf id).getD []
  named : ∀ nodeId id, g.sessions.lookup nodeId = some id → g.modeOf id = some (.identity nodeId)

theorem sound_start : Relay.start.registry.Sound where
  fresh _ _ := rfl
  rows _ _ h := by simp [Relay.registry, Relay.start] at h
  listed _ _ h := by simp [holders, Relay.registry, Relay.start, Seats.holders] at h
  named _ _ h := by simp [Relay.registry, Relay.start] at h

section Update
variable {g : Registry} {id : ℕ} {stage : Option RelayStage}

theorem Sound.known (h : g.Sound) {st : RelayStage} (hid : g.stages id = some st) :
    id < g.nextSessionId := by
  by_contra hlt
  rw [h.fresh id (not_lt.mp hlt)] at hid
  cases hid

theorem Sound.register (h : g.Sound) {old : RelayStage} (hold : g.stages id = some old)
    {current next : List Tag} (hcurrent : (g.tagsOf id).getD [] = current)
    (hmode : ∀ nodeId, g.modeOf id ≠ some (.identity nodeId))
    (hnext : (stage.bind RelayStage.tags?).getD [] = next) :
    Sound { g with
      tags := (Seats.register tagEnds id current next g.tags).1
      stages := Function.update g.stages id stage } := by
  have hcap : 0 < tagEnds := by decide
  have hx : ∀ k, id ∈ Seats.holders g.tags k → k ∈ current := by
    intro k hk
    rw [← hcurrent]
    exact h.listed k id hk
  constructor
  · intro j hj
    have hne : j ≠ id := by
      rintro rfl
      exact absurd (h.known hold) (not_lt.mpr hj)
    simp only [Function.update_of_ne hne]
    exact h.fresh j hj
  · exact Seats.sound_register hcap h.rows id current next
  · intro tag j hj
    rcases Seats.mem_register hcap h.rows hx hj with ⟨hne, hin⟩ | ⟨rfl, hin⟩
    · simp only [tagsOf, Function.update_of_ne hne]
      exact h.listed tag j hin
    · simp only [tagsOf, Function.update_self, hnext]
      exact hin
  · intro nodeId j hj
    have hne : j ≠ id := by
      rintro rfl
      exact hmode nodeId (h.named nodeId j hj)
    simp only [modeOf, Function.update_of_ne hne]
    exact h.named nodeId j hj

theorem Sound.setStage (h : g.Sound) {old : RelayStage} (hold : g.stages id = some old)
    (htags : stage.bind RelayStage.tags? = g.tagsOf id)
    (hmode : ∀ nodeId, g.sessions.lookup nodeId = some id →
      stage.bind RelayStage.mode? = some (.identity nodeId)) :
    Sound { g with stages := Function.update g.stages id stage } := by
  constructor
  · intro j hj
    have hne : j ≠ id := by
      rintro rfl
      exact absurd (h.known hold) (not_lt.mpr hj)
    simp only [Function.update_of_ne hne]
    exact h.fresh j hj
  · exact h.rows
  · intro tag j hj
    have hin := h.listed tag j hj
    by_cases hne : j = id
    · subst hne
      simpa only [tagsOf, Function.update_self, htags] using hin
    · simpa only [tagsOf, Function.update_of_ne hne] using hin
  · intro nodeId j hj
    have hin := h.named nodeId j hj
    by_cases hne : j = id
    · subst hne
      simpa only [modeOf, Function.update_self] using hmode nodeId hj
    · simpa only [modeOf, Function.update_of_ne hne] using hin

theorem Sound.unnamed (h : g.Sound) (hmode : ∀ nodeId, g.modeOf id ≠ some (.identity nodeId))
    (nodeId : NodeId) : g.sessions.lookup nodeId ≠ some id :=
  fun hin => hmode nodeId (h.named nodeId id hin)

end Update

theorem Sound.arrive {g : Registry} (h : g.Sound) (stage : RelayStage) :
    Sound { g with
      nextSessionId := g.nextSessionId + 1
      stages := Function.update g.stages g.nextSessionId (some stage) } := by
  have hnone := h.fresh _ (le_refl g.nextSessionId)
  constructor
  · intro j hj
    have hj' : g.nextSessionId + 1 ≤ j := hj
    simp only [Function.update_of_ne (show j ≠ g.nextSessionId by omega)]
    exact h.fresh j (by omega)
  · exact h.rows
  · intro tag j hj
    have hin := h.listed tag j hj
    have hne : j ≠ g.nextSessionId := by
      rintro rfl
      simp [tagsOf, hnone] at hin
    simpa only [tagsOf, Function.update_of_ne hne] using hin
  · intro nodeId j hj
    have hin := h.named nodeId j hj
    have hne : j ≠ g.nextSessionId := by
      rintro rfl
      simp [modeOf, hnone] at hin
    simpa only [modeOf, Function.update_of_ne hne] using hin

theorem Sound.authenticate {g : Registry} (h : g.Sound) {id : ℕ} {challenge : Block 32}
    {first : Message} (hstage : g.stages id = some (.opening challenge first)) (nodeId : NodeId) :
    Sound { g with
      sessions := g.sessions.insert nodeId id
      stages := Function.update g.stages id (some (.routing (.identity nodeId))) } := by
  have hmode : ∀ node, g.modeOf id ≠ some (.identity node) := by
    simp [modeOf, hstage, RelayStage.mode?]
  have hset : Sound { g with
      stages := Function.update g.stages id (some (.routing (.identity nodeId))) } :=
    h.setStage hstage (by simp [tagsOf, hstage, RelayStage.tags?])
      (fun node hin => absurd hin (h.unnamed hmode node))
  refine ⟨hset.fresh, hset.rows, hset.listed, ?_⟩
  intro node j hj
  simp only [Table.lookup_insert_ite] at hj
  split at hj
  · rename_i heq
    cases hj
    simp [modeOf, RelayStage.mode?, heq]
  · exact hset.named node j hj

theorem Sound.forget {g : Registry} (h : g.Sound) {id : ℕ} {nodeId : NodeId}
    (hstage : g.stages id = some (.leaving (.identity nodeId))) :
    Sound { g with
      sessions := if g.sessions.lookup nodeId = some id then g.sessions.erase nodeId else g.sessions
      stages := Function.update g.stages id none } := by
  have hmode : g.modeOf id = some (.identity nodeId) := by simp [modeOf, hstage, RelayStage.mode?]
  have hsub : ∀ node j,
      (if g.sessions.lookup nodeId = some id then g.sessions.erase nodeId
        else g.sessions).lookup node = some j → g.sessions.lookup node = some j ∧ j ≠ id := by
    intro node j hj
    by_cases hown : g.sessions.lookup nodeId = some id
    · simp only [hown, if_true, Table.lookup_erase_ite] at hj
      split at hj
      · cases hj
      · rename_i hne
        refine ⟨hj, ?_⟩
        rintro rfl
        have hnode := h.named node j hj
        rw [hmode] at hnode
        exact hne (by cases hnode; rfl)
    · simp only [hown, if_false] at hj
      refine ⟨hj, ?_⟩
      rintro rfl
      have hnode := h.named node j hj
      rw [hmode] at hnode
      cases hnode
      exact hown hj
  have hrest : Sound { g with
      sessions := if g.sessions.lookup nodeId = some id then g.sessions.erase nodeId
        else g.sessions } :=
    ⟨h.fresh, h.rows, h.listed, fun node j hj => h.named node j (hsub node j hj).1⟩
  apply hrest.setStage hstage
  · simp [tagsOf, hstage, RelayStage.tags?]
  · intro node hin
    exact absurd rfl (hsub node id hin).2

theorem Sound.move {r : Relay} {e : RelayEvent} {g : Registry} (h : r.registry.Sound)
    (hm : r.Move P config e g) : g.Sound := by
  cases hm with
  | still _ => exact h
  | arrive => exact h.arrive _
  | @refuse id _ _ hstage _ =>
    have hmode : ∀ nodeId, r.registry.modeOf id ≠ some (.identity nodeId) := by
      simp [modeOf, Relay.registry, hstage, RelayStage.mode?]
    apply h.setStage hstage
    · simp [tagsOf, Relay.registry, hstage, RelayStage.tags?]
    · exact fun nodeId hin => absurd hin (h.unnamed hmode nodeId)
  | authenticate hstage _ _ => exact h.authenticate hstage _
  | register hstage _ =>
    exact h.register hstage (by simp [tagsOf, Relay.registry, hstage, RelayStage.tags?])
      (by simp [modeOf, Relay.registry, hstage, RelayStage.mode?]) rfl
  | replace hstage _ =>
    exact h.register hstage (by simp [tagsOf, Relay.registry, hstage, RelayStage.tags?])
      (by simp [modeOf, Relay.registry, hstage, RelayStage.mode?]) rfl
  | @leave _ id mode hstage _ =>
    apply h.setStage hstage
    · cases mode <;> simp [tagsOf, Relay.registry, hstage, RelayStage.tags?]
    · intro nodeId hin
      have hmode := h.named nodeId _ hin
      simpa [modeOf, Relay.registry, hstage, RelayStage.mode?] using hmode
  | forget hstage => exact h.forget hstage
  | retire hstage =>
    exact h.register hstage (by simp [tagsOf, Relay.registry, hstage, RelayStage.tags?])
      (by simp [modeOf, Relay.registry, hstage, RelayStage.mode?]) rfl

end Registry

namespace Relay
variable {P : Primitives} {config : RelayConfig}

variable (P config) in
theorem sound_run (es : List RelayEvent) : (run (step P config) start es).registry.Sound :=
  invariant (step P config) (I := fun r => r.registry.Sound) Registry.sound_start
    (fun r e h => h.move (move_step P config r e)) es

/-- A registration that leaves `tag` to two sessions newer than `id`, which held it or asked
for it. -/
def Evicts (P : Primitives) (config : RelayConfig) (r : Relay) (e : RelayEvent)
    (id : ℕ) (tag : Tag) : Prop :=
  ∃ actor next, r.registration e = some (actor, next) ∧ tag ∈ next ∧
    (id ∈ r.registry.holders tag ∨ id = actor) ∧
    ((r.step P config e).registry.holders tag).length = tagEnds ∧
    ∀ newer ∈ (r.step P config e).registry.holders tag, id < newer

/-- Some step of the run evicted `id` from `tag`, and `id` has not registered again since. -/
def Evicted (P : Primitives) (config : RelayConfig) (es : List RelayEvent) (id : ℕ) (tag : Tag) :
    Prop :=
  Since (fun pre e => Evicts P config (run (step P config) start pre) e id tag)
    (fun pre e => ∀ next, (run (step P config) start pre).registration e ≠ some (id, next)) es

inductive RowMove (r : Relay) (e : RelayEvent) (g : Registry) : Prop
  | register {actor : ℕ} {next : List Tag} (hreg : r.registration e = some (actor, next))
      (htags : g.tags =
        (Seats.register tagEnds actor ((r.registry.tagsOf actor).getD []) next r.tags).1)
      (hlists : ∀ j, g.tagsOf j = if j = actor then some next else r.registry.tagsOf j)
  | retire {actor : ℕ} (hreg : r.registration e = none)
      (htags : g.tags =
        (Seats.register tagEnds actor ((r.registry.tagsOf actor).getD []) [] r.tags).1)
      (hlists : ∀ j, g.tagsOf j = if j = actor then none else r.registry.tagsOf j)
  | still (hreg : r.registration e = none) (htags : g.tags = r.tags)
      (hlists : ∀ j current, g.tagsOf j = some current → r.registry.tagsOf j = some current)

theorem tagsOf_update (g : Registry) (id j : ℕ) (stage : Option RelayStage) :
    Registry.tagsOf { g with stages := Function.update g.stages id stage } j =
      if j = id then stage.bind RelayStage.tags? else g.tagsOf j := by
  by_cases hj : j = id
  · subst hj
    simp [Registry.tagsOf]
  · simp [Registry.tagsOf, hj]

theorem rowMove_of_stage {r : Relay} {e : RelayEvent} {g : Registry} {id : ℕ}
    {stage : Option RelayStage} (hreg : r.registration e = none) (htags : g.tags = r.tags)
    (hstages : g.stages = Function.update r.stageOf id stage)
    (hlist : ∀ current, stage.bind RelayStage.tags? = some current →
      r.registry.tagsOf id = some current) : RowMove r e g := by
  apply RowMove.still hreg htags
  intro j current hj
  have hup := tagsOf_update r.registry id j stage
  simp only [Registry.tagsOf, hstages] at hj hup
  rw [show r.registry.stages = r.stageOf from rfl] at hup
  rw [hup] at hj
  split at hj
  · rename_i heq
    subst heq
    exact hlist current hj
  · exact hj

theorem Move.rows {r : Relay} {e : RelayEvent} {g : Registry} (hm : Move P config r e g) :
    RowMove r e g := by
  cases hm with
  | still hreg => exact .still hreg rfl fun _ _ h => h
  | arrive => exact rowMove_of_stage rfl rfl rfl (by simp [RelayStage.tags?])
  | refuse _ hreg => exact rowMove_of_stage hreg rfl rfl (by simp)
  | authenticate hstage hfirst _ =>
    exact rowMove_of_stage (by simp [registration, hstage, hfirst]) rfl rfl
      (by simp [RelayStage.tags?])
  | register hstage hreg =>
    apply RowMove.register hreg
    · simp [Registry.tagsOf, registry, hstage, RelayStage.tags?]
    · exact fun j => tagsOf_update r.registry _ j _
  | replace hstage hreg =>
    apply RowMove.register hreg
    · simp [Registry.tagsOf, registry, hstage, RelayStage.tags?]
    · exact fun j => tagsOf_update r.registry _ j _
  | @leave _ _ mode hstage hreg =>
    apply rowMove_of_stage hreg rfl rfl
    cases mode <;> simp [Registry.tagsOf, registry, hstage, RelayStage.tags?]
  | forget _ => exact rowMove_of_stage rfl rfl rfl (by simp)
  | @retire id _ hstage =>
    refine @RowMove.retire _ _ _ id rfl ?_ ?_
    · simp [Registry.tagsOf, registry, hstage, RelayStage.tags?]
    · exact fun j => tagsOf_update r.registry _ j _

section Rows
variable {r : Relay} {e : RelayEvent} {actor : ℕ} {next : List Tag}

theorem listed_current (h : r.registry.Sound) (actor : ℕ) :
    ∀ k, actor ∈ Seats.holders r.tags k → k ∈ (r.registry.tagsOf actor).getD [] :=
  fun k hk => h.listed k actor hk

theorem evicts_of_lost (h : r.registry.Sound) (hreg : r.registration e = some (actor, next))
    (htags : (r.step P config e).tags =
      (Seats.register tagEnds actor ((r.registry.tagsOf actor).getD []) next r.tags).1)
    {id : ℕ} {tag : Tag}
    (hwas : (id ≠ actor ∧ id ∈ r.registry.holders tag) ∨ (id = actor ∧ tag ∈ next))
    (hlost : id ∉ (r.step P config e).registry.holders tag) : Evicts P config r e id tag := by
  have hrow : (r.step P config e).registry.holders tag = Seats.holders (Seats.register tagEnds actor
      ((r.registry.tagsOf actor).getD []) next r.tags).1 tag := by rw [← htags]; rfl
  rw [hrow] at hlost
  obtain ⟨hk, -, hlen, hlt⟩ :=
    Seats.lost_seat (by decide) h.rows (listed_current h actor) hwas hlost
  refine ⟨actor, next, hreg, hk, hwas.imp And.right And.left, ?_, ?_⟩
  · rw [hrow]
    exact hlen
  · rw [hrow]
    exact hlt

end Rows

/-- A tag session that misses a tag of its list was evicted from it and has not registered since. -/
theorem evicted_run (es : List RelayEvent) {id : ℕ} {current : List Tag} {tag : Tag}
    (hlist : (run (step P config) start es).registry.tagsOf id = some current)
    (htag : tag ∈ current) (hmiss : id ∉ (run (step P config) start es).registry.holders tag) :
    Evicted P config es id tag := by
  induction es using List.reverseRecOn generalizing current with
  | nil => simp [start, registry, Registry.tagsOf, stageOf] at hlist
  | append_singleton es e ih =>
    have hsound := sound_run P config es
    rw [run_snoc] at hlist hmiss
    generalize hr : run (step P config) start es = r at *
    have hkept (hreg : ∀ next, r.registration e ≠ some (id, next))
        (h : r.registry.tagsOf id = some current) (hbefore : id ∉ r.registry.holders tag) :
        Evicted P config (es ++ [e]) id tag :=
      (ih h htag hbefore).snoc (by simpa only [hr] using hreg)
    have hnow (h : Evicts P config r e id tag) : Evicted P config (es ++ [e]) id tag :=
      since_now (by simpa only [hr] using h)
    rcases (move_step P config r e).rows with ⟨hreg, htags, hlists⟩ | ⟨hreg, htags, hlists⟩ |
      ⟨hreg, htags, hlists⟩
    · rename_i actor next
      rw [hlists] at hlist
      by_cases hid : id = actor
      · rw [if_pos hid] at hlist
        cases hlist
        exact hnow (evicts_of_lost hsound hreg htags (Or.inr ⟨hid, htag⟩) hmiss)
      · rw [if_neg hid] at hlist
        by_cases hbefore : id ∈ r.registry.holders tag
        · exact hnow (evicts_of_lost hsound hreg htags (Or.inl ⟨hid, hbefore⟩) hmiss)
        · refine hkept (fun next' h => ?_) hlist hbefore
          rw [hreg] at h
          cases h
          exact hid rfl
    · rename_i actor
      rw [hlists] at hlist
      split at hlist
      · cases hlist
      · rename_i hid
        refine hkept (by simp [hreg]) hlist fun hbefore => ?_
        have hlost : id ∉ Seats.holders (Seats.register tagEnds actor
            ((r.registry.tagsOf actor).getD []) [] r.tags).1 tag := by
          rw [← htags]
          exact hmiss
        have hnone := Seats.lost_seat (by decide) hsound.rows (listed_current hsound actor)
          (Or.inl ⟨hid, hbefore⟩) hlost
        exact absurd hnone.1 List.not_mem_nil
    · refine hkept (by simp [hreg]) (hlists id current hlist) fun hbefore => hmiss ?_
      rw [Registry.holders, show (r.step P config e).registry.tags = r.tags from htags]
      exact hbefore

theorem tagsOf_eq_some {r : Relay} {id : ℕ} {current : List Tag} :
    r.registry.tagsOf id = some current ↔
      ∃ s, r.serving.lookup id = some s ∧ s.stage.mode? = some (.tags current) := by
  have hmode (stage : RelayStage) :
      stage.tags? = some current ↔ stage.mode? = some (.tags current) := by
    rcases stage with _ | ⟨_ | _⟩ | ⟨_ | _⟩ <;> simp [RelayStage.tags?, RelayStage.mode?]
  simp [Registry.tagsOf, registry, stageOf, Option.bind_eq_some_iff, hmode]

theorem holder_served {r : Relay} (h : r.registry.Sound) {id : ℕ} {tag : Tag}
    (hid : id ∈ r.registry.holders tag) :
    ∃ s current, r.serving.lookup id = some s ∧ s.stage.mode? = some (.tags current) ∧
      tag ∈ current := by
  have hin := h.listed tag id hid
  cases hlist : r.registry.tagsOf id with
  | none => simp [hlist] at hin
  | some current =>
    obtain ⟨s, hs, hmode⟩ := tagsOf_eq_some.mp hlist
    exact ⟨s, current, hs, hmode, by simpa [hlist] using hin⟩

/-- The tag registry in every run: rows of one or two sessions, each of which lists the tag; who
lists a tag and has no place in its row was evicted by two newer sessions; and a session that is
over is in no row. -/
theorem tag_registry_invariant (P : Primitives) (config : RelayConfig) (es : List RelayEvent) :
    let r := run (step P config) start es
    (∀ tag row, r.tags.lookup tag = some row →
      row ≠ [] ∧ row.length ≤ 2 ∧ row.Nodup ∧
      ∀ id ∈ row, ∃ s current, r.serving.lookup id = some s ∧
        s.stage.mode? = some (.tags current) ∧ tag ∈ current) ∧
    (∀ id s current tag, r.serving.lookup id = some s → s.stage.mode? = some (.tags current) →
      tag ∈ current → (∀ row, r.tags.lookup tag = some row → id ∉ row) →
      Evicted P config es id tag) ∧
    (∀ id, r.serving.lookup id = none → ∀ tag row, r.tags.lookup tag = some row → id ∉ row) := by
  intro r
  have hsound : r.registry.Sound := sound_run P config es
  have hrowof : ∀ tag row, r.tags.lookup tag = some row → r.registry.holders tag = row := by
    intro tag row hrow
    simp [Registry.holders, registry, Seats.holders, hrow]
  have hlisted : ∀ tag row, r.tags.lookup tag = some row → ∀ id ∈ row, ∃ s current,
      r.serving.lookup id = some s ∧ s.stage.mode? = some (.tags current) ∧ tag ∈ current := by
    intro tag row hrow id hid
    rw [← hrowof tag row hrow] at hid
    exact holder_served hsound hid
  refine ⟨fun tag row hrow => ?_, fun id s current tag hs hmode htag hmiss => ?_,
    fun id hover tag row hrow hid => ?_⟩
  · obtain ⟨hne, hseated⟩ := hsound.rows tag row hrow
    exact ⟨hne, hseated.length_le, hseated.nodup, hlisted tag row hrow⟩
  · apply evicted_run es (tagsOf_eq_some.mpr ⟨s, hs, hmode⟩) htag
    intro hin
    cases hrow : r.tags.lookup tag with
    | none => simp [Registry.holders, registry, Seats.holders, r, hrow] at hin
    | some row => exact hmiss row hrow (hrowof tag row hrow ▸ hin)
  · obtain ⟨s, current, hs, -⟩ := hlisted tag row hrow id hid
    rw [hover] at hs
    cases hs

end Relay
end ForgeswornLink
