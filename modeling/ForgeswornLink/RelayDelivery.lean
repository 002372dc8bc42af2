import ForgeswornLink.RelayModes
import ForgeswornLink.RelayQueues

/-!
# Deliveries of the relay

A frame in an outbound queue is a notice or was handed over by the session that
read it from its client: `Caused` names the frame read, with the registry of
that moment, and says that the session has read nothing since. Node IDs are
traced further, to the authentication that opened the session.
-/

namespace ForgeswornLink
open ByteString Runs

namespace Relay
variable {P : Primitives} {config : RelayConfig}

section Causes

/-- Session `id` read the frame that makes it deliver `frame` to `target`, and has read nothing
since. -/
def Caused (P : Primitives) (config : RelayConfig) (es : List RelayEvent) (id target : ℕ)
    (frame : Frame) : Prop :=
  Since (fun pre e => (run (step P config) start pre).LooksUp id target e frame)
    (fun pre e => (run (step P config) start pre).reads e ≠ some id) es

def Placed (P : Primitives) (config : RelayConfig) (es : List RelayEvent) (target : ℕ)
    (frame : Frame) : Prop :=
  ∃ pre e post id, es = pre ++ e :: post ∧ (run (step P config) start pre).Hands id target e frame ∧
    Caused P config pre id target frame

theorem reads_ne_of_mem {r : Relay} {id : ℕ} {p : ℕ × Frame} (h : p ∈ r.deliveriesOf id)
    (e : RelayEvent) : r.reads e ≠ some id := by
  intro hreads
  obtain ⟨message, allowed, s, mode, -, hs, -, hidle⟩ := reads_eq_some hreads
  rw [deliveriesOf_of_lookup hs, hidle] at h
  cases h

theorem caused_run (es : List RelayEvent) {id : ℕ} {p : ℕ × Frame}
    (h : p ∈ (run (step P config) start es).deliveriesOf id) : Caused P config es id p.1 p.2 := by
  induction es using List.reverseRecOn with
  | nil => simp [start, deliveriesOf] at h
  | append_singleton es e ih =>
    have hkept (hold : p ∈ (run (step P config) start es).deliveriesOf id) :
        Caused P config (es ++ [e]) id p.1 p.2 := (ih hold).snoc (reads_ne_of_mem hold e)
    rw [run_snoc] at h
    cases deliveryMove_step P config id (sound_run P config es) e with
    | still _ hsame => exact hkept (hsame ▸ h)
    | gone _ hnone =>
      rw [hnone] at h
      cases h
    | handed _ htail =>
      rw [htail] at h
      exact hkept (List.mem_of_mem_tail h)
    | found _ _ hlooked => exact since_now (hlooked p h)

theorem queued_run (es : List RelayEvent) {q : ℕ} {frame : Frame}
    (h : (run (step P config) start es).Queued q frame) :
    frame = supersededNotice ∨ Placed P config es q frame := by
  induction es using List.reverseRecOn with
  | nil =>
    obtain ⟨s, hs, -⟩ := h
    simp [start] at hs
  | append_singleton es e ih =>
    rw [run_snoc] at h
    rcases queues_step P config _ e q frame h with hold | hnotice | ⟨id, hhands⟩
    · rcases ih hold with hnotice | ⟨pre, e', post, id, rfl, hhands, hcaused⟩
      · exact Or.inl hnotice
      · exact Or.inr ⟨pre, e', post ++ [e], id, by simp, hhands, hcaused⟩
    · exact Or.inl hnotice
    · obtain ⟨rest, hrest⟩ := hhands.2
      exact Or.inr
        ⟨es, e, [], id, rfl, hhands, caused_run es (by rw [hrest]; exact List.mem_cons_self)⟩

end Causes

/-! ### Counting -/

section Counting
variable {r : Relay} {id : ℕ}

def handed (id : ℕ) (r : Relay) : RelayEvent → ℕ
  | .deliver j => if j = id ∧ r.deliveriesOf id ≠ [] then 1 else 0
  | _ => 0

theorem handed_of_ne {e : RelayEvent} (h : e ≠ .deliver id) : handed id r e = 0 := by
  cases e with
  | deliver j =>
    have hj : ¬j = id := fun hj => h (by rw [hj])
    simp [handed, hj]
  | _ => rfl

variable (P config) in
theorem handed_add_le (hsound : r.registry.Sound) {e : RelayEvent} (h : r.reads e ≠ some id) :
    handed id r e + ((r.step P config e).deliveriesOf id).length ≤ (r.deliveriesOf id).length := by
  cases deliveryMove_step P config id hsound e with
  | still hother hsame => rw [handed_of_ne hother, hsame, Nat.zero_add]
  | gone hother hnone => simp [handed_of_ne hother, hnone]
  | handed hown htail =>
    rw [hown] at htail ⊢
    rw [htail]
    cases hd : r.deliveriesOf id with
    | nil => simp [handed, hd]
    | cons d rest =>
      simp [handed, hd]
      omega
  | found hreads _ _ => exact absurd hreads h

theorem total_handed_le (hsound : r.registry.Sound) {es : List RelayEvent}
    (h : Always (step P config) (fun r e => r.reads e ≠ some id) r es) :
    total (step P config) (handed id) r es ≤ (r.deliveriesOf id).length := by
  induction es generalizing r with
  | nil => simp [total]
  | cons e es ih =>
    have hfirst : r.reads e ≠ some id := h [] e es rfl
    have hrest : Always (step P config) (fun r e => r.reads e ≠ some id)
        (r.step P config e) es := by
      rw [← List.singleton_append, always_append] at h
      exact h.2
    have hle := handed_add_le P config hsound hfirst
    have hsum := ih (hsound.move (move_step P config r e)) hrest
    simp only [total]
    omega

end Counting

/-- The frames a session is sent, in every run. -/
theorem relay_delivery_sound (P : Primitives) (config : RelayConfig) (es : List RelayEvent) :
    let after := run (step P config) start
    -- a `Recv` comes from a `Send` of the node it names to the node this session authenticated
    (∀ q s source datagram, (after es).serving.lookup q = some s → .recv source datagram ∈ s.queue →
      ∃ destination, s.stage.mode? = some (.identity destination) ∧
        Authenticated P config es q destination ∧
      ∃ pre post id, es = pre ++ .deliver id :: post ∧
        (after pre).Hands id q (.deliver id) (.recv source datagram) ∧
        Authenticated P config pre id source ∧
        Since (fun pre' e => (after pre').stageOf id = some (.routing (.identity source)) ∧
            ∃ message, e = .receive id message true ∧
              decodeBinary message = some (.send destination datagram))
          (fun pre' e => (after pre').reads e ≠ some id) pre) ∧
    -- a `RecvTag` comes from a `SendTag` of another tag session, looked up while this one held it
    (∀ q s tag datagram, (after es).serving.lookup q = some s → .recvTag tag datagram ∈ s.queue →
      (∃ current, s.stage.mode? = some (.tags current)) ∧
      ∃ pre post id, es = pre ++ .deliver id :: post ∧ id ≠ q ∧
        (after pre).Hands id q (.deliver id) (.recvTag tag datagram) ∧
        Since (fun pre' e =>
          (∃ current, (after pre').stageOf id = some (.routing (.tags current))) ∧
            q ∈ (after pre').registry.holders tag ∧
            ∃ message, e = .receive id message true ∧
              decodeBinary message = some (.sendTag tag datagram))
          (fun pre' e => (after pre').reads e ≠ some id) pre) ∧
    -- the mode of a session is chosen once
    (∀ post id mode mode', (after es).registry.modeOf id = some mode →
      (after (es ++ post)).registry.modeOf id = some mode' → mode.nodeId? = mode'.nodeId?) ∧
    -- and until it reads again it hands over at most two frames
    (∀ e post id, (after es).reads e = some id →
      Always (step P config) (fun r e => r.reads e ≠ some id) (after (es ++ [e])) post →
      total (step P config) (handed id) (after (es ++ [e])) post ≤ 2) := by
  intro after
  refine ⟨fun q s source datagram hs hin => ?_, fun q s tag datagram hs hin => ?_,
    fun post id mode mode' hmode hmode' => ?_, fun e post id hreads hquiet => ?_⟩
  · rcases queued_run es ⟨s, hs, hin⟩ with hnotice | ⟨pre, e, post, id, rfl, hhands, hcaused⟩
    · cases hnotice
    obtain rfl := hhands.1
    obtain ⟨pre', e', post', rfl, hlook, hquiet⟩ := hcaused
    cases hlook with
    | @send sender _ destination _ message hsender hmode hframe htarget =>
      have hq := (sound_run P config pre').named destination q htarget
      have hid : (run (step P config) start pre').registry.modeOf id = some (.identity source) := by
        simp [Registry.modeOf, registry, stageOf_of_lookup hsender, hmode, RelayStage.mode?]
      rw [List.append_assoc] at hs ⊢
      obtain ⟨mode, hsmode, hnode⟩ := mode_later hq hs
      rw [Mode.eq_identity hnode] at hsmode
      refine ⟨destination, hsmode, (authenticated_run pre' hq).append _, ?_⟩
      refine ⟨_, post, id, (List.append_assoc _ _ _).symm, hhands,
        (authenticated_run pre' hid).append _, ?_⟩
      refine ⟨pre', _, post', rfl, ⟨?_, message, rfl, hframe⟩, hquiet⟩
      rw [stageOf_of_lookup hsender, hmode]
  · rcases queued_run es ⟨s, hs, hin⟩ with hnotice | ⟨pre, e, post, id, rfl, hhands, hcaused⟩
    · cases hnotice
    obtain rfl := hhands.1
    obtain ⟨pre', e', post', rfl, hlook, hquiet⟩ := hcaused
    cases hlook with
    | @sendTag sender current _ _ message hsender hmode hframe htarget hother =>
      obtain ⟨held, list, hheld, hlist, -⟩ := holder_served (sound_run P config pre') htarget
      have hq : (run (step P config) start pre').registry.modeOf q = some (.tags list) := by
        simp [Registry.modeOf, registry, stageOf_of_lookup hheld, hlist]
      rw [List.append_assoc] at hs ⊢
      obtain ⟨mode, hsmode, hnode⟩ := mode_later hq hs
      obtain ⟨kept, rfl⟩ := Mode.eq_tags hnode
      refine ⟨⟨kept, hsmode⟩, _, post, id, (List.append_assoc _ _ _).symm, hother.symm, hhands, ?_⟩
      refine ⟨pre', _, post', rfl, ⟨⟨current, ?_⟩, htarget, message, rfl, hframe⟩, hquiet⟩
      rw [stageOf_of_lookup hsender, hmode]
  · have hlater := settled_run P config (settled_of_mode (sound_run P config es) hmode) post
    rw [← run_append] at hlater
    exact (hlater.eq hmode').symm
  · have hsum := total_handed_le (sound_run P config (es ++ [e])) hquiet
    apply hsum.trans
    rw [run_snoc]
    cases deliveryMove_step P config id (sound_run P config es) e with
    | found _ htwo _ => exact htwo
    | gone _ hnone => simp [hnone]
    | still _ hsame =>
      obtain ⟨-, -, s, -, -, hs, -, hidle⟩ := reads_eq_some hreads
      rw [hsame, deliveriesOf_of_lookup hs, hidle]
      simp
    | handed hown _ =>
      rw [hown] at hreads
      cases hreads

end Relay
end ForgeswornLink
