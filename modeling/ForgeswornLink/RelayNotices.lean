import ForgeswornLink.RelayRows

/-!
# Notices of the relay

A session that a newer registration displaces, from its node ID or from a tag, is
sent a close with reason 2 through its own outbound queue. The queue is bounded
and `try_send` does not wait: the notice is there after the step exactly if there
was room for it, or if an earlier one is still queued.
-/

namespace ForgeswornLink
open ByteString Runs

def supersededNotice : Frame := .close closeReasonSuperseded

namespace RelaySession

def told (s : RelaySession) : ℕ → RelaySession
  | 0 => s
  | n + 1 => (s.enqueue supersededNotice).told n

theorem notice_mem_told (s : RelaySession) (n : ℕ) :
    supersededNotice ∈ (s.told n).queue ↔
      (0 < n ∧ s.queue.length < maxQueuedFrames) ∨ supersededNotice ∈ s.queue := by
  induction n generalizing s with
  | zero => simp [told]
  | succ n ih =>
    rw [told, ih]
    by_cases hroom : s.queue.length < maxQueuedFrames
    · simp [enqueue, hroom]
    · simp [enqueue, hroom]

end RelaySession

namespace Relay
variable {P : Primitives} {config : RelayConfig} {r : Relay}

theorem lookup_supersede (r : Relay) (ids : List ℕ) (j : ℕ) :
    (r.supersede ids).serving.lookup j =
      (r.serving.lookup j).map fun s => s.told (ids.count j) := by
  induction ids generalizing r with
  | nil => simp [supersede, RelaySession.told]
  | cons i ids ih =>
    have hcons : r.supersede (i :: ids) = (r.trySend i supersededNotice).supersede ids := rfl
    rw [hcons, ih, trySend, lookup_alter]
    by_cases hj : j = i
    · subst hj
      simp [Function.comp_def, RelaySession.told]
    · have hi : ¬i = j := fun h => hj h.symm
      simp [hj, hi]

theorem queue_setStage_supersede {r' : Relay} {d actor : ℕ} {ids : List ℕ} {stage : RelayStage}
    {s s' : RelaySession} (hbefore : r.serving.lookup d = some s)
    (hafter : ((r'.supersede ids).setStage actor stage).serving.lookup d = some s')
    (hserving : r'.serving = r.serving) :
    s'.queue = (s.told (ids.count d)).queue := by
  rw [setStage, lookup_alter, lookup_supersede, hserving, hbefore] at hafter
  by_cases hd : d = actor
  · simp only [hd, if_true, Option.map_some, Option.some.injEq] at hafter
    rw [← hafter, hd]
  · simp only [hd, if_false, Option.map_some, Option.some.injEq] at hafter
    rw [← hafter]

theorem step_of_registration {e : RelayEvent} {actor : ℕ} {next : List Tag}
    (h : r.registration e = some (actor, next)) :
    r.step P config e =
      (r.registerTags actor ((r.registry.tagsOf actor).getD []) next).setStage actor
      (.routing (.tags next)) := by
  cases e with
  | enter id =>
    simp only [registration] at h
    split at h
    · rename_i challenge first hstage
      obtain ⟨s, hs, hopen⟩ := Option.map_eq_some_iff.mp hstage
      split at h
      · rename_i tags hfirst
        split at h
        · cases h
        · rename_i hnil
          cases h
          simp [step, enter, hs, hopen, hfirst, hnil, Registry.tagsOf, registry, hstage,
            RelayStage.tags?]
      · cases h
    · cases h
  | receive id message allowed =>
    cases hs : r.serving.lookup id with
    | none => simp [registration, hs] at h
    | some s =>
      simp only [registration, hs] at h
      split at h
      · rename_i current next' hmode hidle hframe
        cases h
        cases message with
        | binary bytes =>
          simp [step, receive, hs, hmode, hidle, hframe, route, Registry.tagsOf, registry, stageOf,
            RelayStage.tags?]
        | _ => simp [decodeBinary] at hframe
      · cases h
  | _ => simp [registration] at h

/-- A registration takes a node ID or a place in a tag's row away from `d`. -/
def Displaces (P : Primitives) (config : RelayConfig) (r : Relay) (e : RelayEvent) (d : ℕ) : Prop :=
  (∃ nodeId id, id ≠ d ∧ r.sessions.lookup nodeId = some d ∧
    (r.step P config e).sessions.lookup nodeId = some id) ∨
  ∃ tag actor next, r.registration e = some (actor, next) ∧
    ((d ≠ actor ∧ d ∈ r.registry.holders tag) ∨ (d = actor ∧ tag ∈ next)) ∧
    d ∉ (r.step P config e).registry.holders tag

theorem step_of_authentication {id : ℕ} {challenge : Block 32} {first : Message} {nodeId : NodeId}
    {signature : Block 64} (hstage : r.stageOf id = some (.opening challenge first))
    (hfirst : decodeBinary first = some (.auth nodeId signature))
    (hok : ∃ host ∈ config.hosts, verifyRelayAuth P nodeId host challenge signature = true) :
    r.step P config (.enter id) = r.authenticate id nodeId := by
  obtain ⟨s, hs, hopen⟩ := Option.map_eq_some_iff.mp hstage
  have hany :
      config.hosts.any (fun host => verifyRelayAuth P nodeId host challenge signature) = true :=
    List.any_eq_true.mpr hok
  simp only [step, enter, hs, hopen, hfirst, hany, if_true]

theorem renamed_step {e : RelayEvent} {nodeId : NodeId} {d id : ℕ} (hne : id ≠ d)
    (hbefore : r.sessions.lookup nodeId = some d)
    (hafter : (r.step P config e).sessions.lookup nodeId = some id) :
    ∃ actor, r.step P config e = r.authenticate actor nodeId := by
  have hm := move_step P config r e
  have hg : (r.step P config e).registry.sessions = (r.step P config e).sessions := rfl
  rw [← hg] at hafter
  generalize (r.step P config e).registry = g at hm hafter
  have hsame (hs : g.sessions.lookup nodeId = r.sessions.lookup nodeId) : False := by
    rw [hs, hbefore] at hafter
    cases hafter
    exact hne rfl
  cases hm with
  | @authenticate actor _ _ node _ hstage hfirst hok =>
    by_cases hnode : nodeId = node
    · subst hnode
      exact ⟨actor, step_of_authentication hstage hfirst hok⟩
    · exact (hsame (AList.lookup_insert_ne hnode)).elim
  | @forget actor node hstage =>
    simp only at hafter
    split at hafter
    · rw [Table.lookup_erase_ite] at hafter
      split at hafter
      · cases hafter
      · rw [hbefore] at hafter
        cases hafter
        exact (hne rfl).elim
    · rw [hbefore] at hafter
      cases hafter
      exact (hne rfl).elim
  | _ => exact (hsame rfl).elim

theorem displaced_queue (hsound : r.registry.Sound) {e : RelayEvent} {d : ℕ} {s s' : RelaySession}
    (hd : Displaces P config r e d) (hbefore : r.serving.lookup d = some s)
    (hafter : (r.step P config e).serving.lookup d = some s') :
    ∃ n, 0 < n ∧ s'.queue = (s.told n).queue := by
  rcases hd with ⟨nodeId, id, hne, hold, hnew⟩ | ⟨tag, actor, next, hreg, hwas, hlost⟩
  · obtain ⟨actor, hstep⟩ := renamed_step hne hold hnew
    rw [hstep, authenticate] at hafter
    refine ⟨_, ?_, queue_setStage_supersede hbefore hafter rfl⟩
    simp [hold]
  · rw [step_of_registration hreg] at hafter hlost
    refine ⟨_, ?_, queue_setStage_supersede hbefore hafter rfl⟩
    rw [List.count_pos_iff]
    have hrow : ((r.registerTags actor ((r.registry.tagsOf actor).getD []) next).setStage actor
        (.routing (.tags next))).tags =
        (Seats.register tagEnds actor ((r.registry.tagsOf actor).getD []) next r.tags).1 := by
      rw [setStage, alter_eq, registerTags, supersede_eq]
    have hout : d ∉ Seats.holders (Seats.register tagEnds actor
        ((r.registry.tagsOf actor).getD []) next r.tags).1 tag := by
      rw [← hrow]
      exact hlost
    exact (Seats.lost_seat (by decide) hsound.rows (listed_current hsound actor) hwas hout).2.1

/-- A displaced session has its notice queued exactly if its queue had room or holds one already. -/
theorem displaced_told_iff (P : Primitives) (config : RelayConfig) (es : List RelayEvent)
    (e : RelayEvent) (d : ℕ) (s s' : RelaySession)
    (hd : Displaces P config (run (step P config) start es) e d)
    (hbefore : (run (step P config) start es).serving.lookup d = some s)
    (hafter : (run (step P config) start (es ++ [e])).serving.lookup d = some s') :
    Frame.close closeReasonSuperseded ∈ s'.queue ↔
      s.queue.length < maxQueuedFrames ∨ Frame.close closeReasonSuperseded ∈ s.queue := by
  rw [run_snoc] at hafter
  obtain ⟨n, hn, hqueue⟩ := displaced_queue (sound_run P config es) hd hbefore hafter
  have htold := s.notice_mem_told n
  simpa only [hqueue, supersededNotice, hn, true_and] using htold

theorem displaces_of_row {e : RelayEvent} {d actor : ℕ} {tag : Tag} {next : List Tag}
    (hreg : r.registration e = some (actor, next)) (hne : d ≠ actor)
    (hbefore : d ∈ Seats.holders r.tags tag)
    (hafter : d ∉ Seats.holders (r.step P config e).tags tag) : Displaces P config r e d :=
  Or.inr ⟨tag, actor, next, hreg, Or.inl ⟨hne, hbefore⟩, hafter⟩

section Crowd

def zeroTag : Tag := ⟨readBlock 16 [] 0⟩

def crowdedRun (n : ℕ) : List RelayEvent :=
  let source := .v4 (readBlock 4 [127, 0, 0, 1] 0)
  let first := .binary (Frame.encode (.register [zeroTag]))
  let datagram := .binary (Frame.encode (.sendTag zeroTag [0]))
  List.replicate 3 (.accept source) ++
    List.replicate 3 (.arrive source (readBlock 32 [] 0) first) ++ [.enter 1, .enter 2] ++
    (List.replicate n [.receive 2 datagram true, .deliver 2]).flatten

theorem displaced_told_iff_crowded :
    ∃ s', (run (step .standIn .default) start (crowdedRun 2 ++ [.enter 3])).serving.lookup 1 =
      some s' ∧ Frame.close closeReasonSuperseded ∈ s'.queue := by
  have hrun :
      let r := run (step .standIn .default) start (crowdedRun 2)
      let r' := r.step .standIn .default (.enter 3)
      r.registration (.enter 3) = some (3, [zeroTag]) ∧
        1 ∈ Seats.holders r.tags zeroTag ∧ 1 ∉ Seats.holders r'.tags zeroTag ∧
        (r.serving.lookup 1).any (fun s => s.queue.length < maxQueuedFrames) = true ∧
        (r'.serving.lookup 1).isSome = true := by
    decide +kernel
  obtain ⟨hreg, hbefore, hafter, hroom, hsome⟩ := hrun
  obtain ⟨s, hs, hlt⟩ := (Option.any_eq_true _ _).mp hroom
  obtain ⟨s', hs'⟩ := Option.isSome_iff_exists.mp hsome
  have hlast := run_snoc (step .standIn .default) start (crowdedRun 2) (.enter 3)
  rw [← hlast] at hs'
  refine ⟨s', hs', ?_⟩
  exact (displaced_told_iff .standIn .default (crowdedRun 2) (.enter 3) 1 s s'
    (displaces_of_row hreg (by decide) hbefore hafter) hs hs').mpr (Or.inl (of_decide_eq_true hlt))

/-- The third connection registers the tag too: the first loses it and hears nothing. -/
theorem full_queue_drops_notice :
    let es := crowdedRun maxQueuedFrames
    Displaces .standIn .default (run (step .standIn .default) start es) (.enter 3) 1 ∧
    ∃ s', (run (step .standIn .default) start (es ++ [.enter 3])).serving.lookup 1 = some s' ∧
      s'.stage = .routing (.tags [zeroTag]) ∧ Frame.close closeReasonSuperseded ∉ s'.queue := by
  have hrun :
      let r := run (step .standIn .default) start (crowdedRun maxQueuedFrames)
      let r' := r.step .standIn .default (.enter 3)
      r.registration (.enter 3) = some (3, [zeroTag]) ∧
        1 ∈ Seats.holders r.tags zeroTag ∧ 1 ∉ Seats.holders r'.tags zeroTag ∧
        (r'.serving.lookup 1).any (fun s' => s'.stage = .routing (.tags [zeroTag]) ∧
          Frame.close closeReasonSuperseded ∉ s'.queue) = true := by
    decide +kernel
  obtain ⟨hreg, hbefore, hafter, hqueue⟩ := hrun
  obtain ⟨s', hs, hs'⟩ := (Option.any_eq_true _ _).mp hqueue
  intro es
  rw [run_snoc]
  exact ⟨displaces_of_row hreg (by decide) hbefore hafter, s', hs, of_decide_eq_true hs'⟩

end Crowd

end Relay
end ForgeswornLink
