import ForgeswornLink.RelayRows

/-!
# Modes of relay sessions

The first frame of a session chooses its mode for good: a session is of the same
kind as long as it is served, and a session ID is never given out again. An
identity session carries the node ID whose signature opened it.
-/

namespace ForgeswornLink
open ByteString Runs

namespace Relay
variable {P : Primitives} {config : RelayConfig}

def Settled (g : Registry) (id : ℕ) (node : Option NodeId) : Prop :=
  id < g.nextSessionId ∧
    (g.stages id = none ∨ ∃ mode, g.modeOf id = some mode ∧ mode.nodeId? = node)

theorem settled_update {g : Registry} {actor id : ℕ} {old : RelayStage} {stage : Option RelayStage}
    {node : Option NodeId} (h : Settled g id node) (hold : g.stages actor = some old)
    (hstage : ∀ mode, old.mode? = some mode → stage = none ∨
      ∃ mode', stage.bind RelayStage.mode? = some mode' ∧ mode'.nodeId? = mode.nodeId?)
    {tags : Seats.Chart Tag ℕ} {sessions : Table NodeId ℕ} :
    Settled ⟨sessions, tags, g.nextSessionId, Function.update g.stages actor stage⟩ id node := by
  refine ⟨h.1, ?_⟩
  by_cases hid : id = actor
  · subst hid
    simp only [Registry.modeOf, Function.update_self]
    rcases h.2 with hnone | ⟨mode, hmode, hnode⟩
    · rw [hold] at hnone
      cases hnone
    · simp only [Registry.modeOf, hold, Option.bind_some] at hmode
      rcases hstage mode hmode with hover | ⟨mode', hmode', hsame⟩
      · exact Or.inl hover
      · exact Or.inr ⟨mode', hmode', hsame.trans hnode⟩
  · simpa only [Registry.modeOf, Function.update_of_ne hid] using h.2

theorem Settled.move {r : Relay} {e : RelayEvent} {g : Registry} {id : ℕ} {node : Option NodeId}
    (h : Settled r.registry id node) (hm : r.Move P config e g) : Settled g id node := by
  cases hm with
  | still _ => exact h
  | arrive =>
    have hlt : id < r.nextSessionId := h.1
    have hne : id ≠ r.nextSessionId := by omega
    refine ⟨Nat.lt_succ_of_lt hlt, ?_⟩
    simp only [Registry.modeOf, Function.update_of_ne hne]
    exact h.2
  | refuse hstage _ => exact settled_update h hstage (by simp)
  | authenticate hstage _ _ => exact settled_update h hstage (by simp [RelayStage.mode?])
  | register hstage _ => exact settled_update h hstage (by simp [RelayStage.mode?])
  | replace hstage _ =>
    exact settled_update h hstage (by simp [RelayStage.mode?, Mode.nodeId?])
  | leave hstage _ => exact settled_update h hstage (by simp [RelayStage.mode?])
  | forget hstage => exact settled_update h hstage (by simp)
  | retire hstage => exact settled_update h hstage (by simp)

variable (P config) in
theorem settled_run {r : Relay} {id : ℕ} {node : Option NodeId} (h : Settled r.registry id node)
    (es : List RelayEvent) : Settled (run (step P config) r es).registry id node :=
  invariant (step P config) (I := fun r => Settled r.registry id node) h
    (fun r e hr => hr.move (move_step P config r e)) es

theorem settled_of_mode {r : Relay} (hsound : r.registry.Sound) {id : ℕ} {mode : Mode}
    (h : r.registry.modeOf id = some mode) : Settled r.registry id mode.nodeId? := by
  obtain ⟨stage, hstage, -⟩ := Option.bind_eq_some_iff.mp h
  exact ⟨hsound.known hstage, Or.inr ⟨mode, h, rfl⟩⟩

theorem Settled.eq {g : Registry} {id : ℕ} {node : Option NodeId} (h : Settled g id node)
    {mode : Mode} (hmode : g.modeOf id = some mode) : mode.nodeId? = node := by
  rcases h.2 with hnone | ⟨mode', hmode', hnode⟩
  · simp [Registry.modeOf, hnone] at hmode
  · rw [hmode] at hmode'
    cases hmode'
    exact hnode

theorem mode_later {pre fs : List RelayEvent} {q : ℕ} {s : RelaySession} {mode : Mode}
    (h : (run (step P config) start pre).registry.modeOf q = some mode)
    (hs : (run (step P config) start (pre ++ fs)).serving.lookup q = some s) :
    ∃ mode', s.stage.mode? = some mode' ∧ mode'.nodeId? = mode.nodeId? := by
  rw [run_append] at hs
  have hstage := stageOf_of_lookup hs
  rcases (settled_run P config (settled_of_mode (sound_run P config pre) h) fs).2 with hnone |
    ⟨mode', hm, hn⟩
  · rw [show (run (step P config) _ fs).registry.stages q = _ from hstage] at hnone
    cases hnone
  · refine ⟨mode', ?_, hn⟩
    simpa only [Registry.modeOf, registry, hstage, Option.bind_some] using hm

/-- Session `id` opened with a signature of `nodeId` over its challenge and one of the hosts. -/
def Authenticated (P : Primitives) (config : RelayConfig) (es : List RelayEvent) (id : ℕ)
    (nodeId : NodeId) : Prop :=
  ∃ pre post challenge first signature, es = pre ++ .enter id :: post ∧
    (run (step P config) start pre).stageOf id = some (.opening challenge first) ∧
    decodeBinary first = some (.auth nodeId signature) ∧
    ∃ host ∈ config.hosts, verifyRelayAuth P nodeId host challenge signature = true

theorem Authenticated.append {es : List RelayEvent} {id : ℕ} {nodeId : NodeId}
    (h : Authenticated P config es id nodeId) (fs : List RelayEvent) :
    Authenticated P config (es ++ fs) id nodeId := by
  obtain ⟨pre, post, challenge, first, signature, rfl, hrest⟩ := h
  exact ⟨pre, post ++ fs, challenge, first, signature, by simp, hrest⟩

theorem identity_move {r : Relay} {e : RelayEvent} {g : Registry}
    (hm : r.Move P config e g) {id : ℕ} {nodeId : NodeId}
    (h : g.modeOf id = some (.identity nodeId)) :
    r.registry.modeOf id = some (.identity nodeId) ∨
      e = .enter id ∧ ∃ challenge first signature,
        r.stageOf id = some (.opening challenge first) ∧
        decodeBinary first = some (.auth nodeId signature) ∧
        ∃ host ∈ config.hosts, verifyRelayAuth P nodeId host challenge signature = true := by
  have hupdate {actor : ℕ} {stage : Option RelayStage}
      (hg : g.stages = Function.update r.stageOf actor stage)
      (hother : stage.bind RelayStage.mode? = some (.identity nodeId) →
        r.registry.modeOf actor = some (.identity nodeId)) :
      r.registry.modeOf id = some (.identity nodeId) := by
    by_cases hid : id = actor
    · subst hid
      apply hother
      simpa only [Registry.modeOf, hg, Function.update_self] using h
    · simp only [Registry.modeOf, hg, Function.update_of_ne hid] at h
      exact h
  cases hm with
  | still _ => exact Or.inl h
  | @authenticate actor challenge first node signature hstage hfirst hok =>
    by_cases hid : id = actor
    · subst hid
      simp only [Registry.modeOf, Function.update_self, Option.bind_some, RelayStage.mode?,
        Option.some.injEq, Mode.identity.injEq] at h
      subst h
      exact Or.inr ⟨rfl, challenge, first, signature, hstage, hfirst, hok⟩
    · simp only [Registry.modeOf, Function.update_of_ne hid] at h
      exact Or.inl h
  | arrive => exact Or.inl (hupdate rfl (by simp [RelayStage.mode?]))
  | refuse _ _ => exact Or.inl (hupdate rfl (by simp))
  | register _ _ => exact Or.inl (hupdate rfl (by simp [RelayStage.mode?]))
  | replace _ _ => exact Or.inl (hupdate rfl (by simp [RelayStage.mode?]))
  | leave hstage _ =>
    exact Or.inl (hupdate rfl (by simp [Registry.modeOf, registry, hstage, RelayStage.mode?]))
  | forget _ => exact Or.inl (hupdate rfl (by simp))
  | retire _ => exact Or.inl (hupdate rfl (by simp))

theorem authenticated_run (es : List RelayEvent) {id : ℕ} {nodeId : NodeId}
    (h : (run (step P config) start es).registry.modeOf id = some (.identity nodeId)) :
    Authenticated P config es id nodeId := by
  induction es using List.reverseRecOn with
  | nil => simp [start, registry, Registry.modeOf, stageOf] at h
  | append_singleton es e ih =>
    rw [run_snoc] at h
    rcases identity_move (move_step P config _ e) h with hold | ⟨rfl, hopened⟩
    · exact (ih hold).append [e]
    · obtain ⟨challenge, first, signature, hrest⟩ := hopened
      exact ⟨es, [], challenge, first, signature, rfl, hrest⟩

end Relay
end ForgeswornLink
