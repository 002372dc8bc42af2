import ForgeswornLink.ProbeEffects

/-!
# Which learnt addresses are probed

An address the peer did not list becomes a probe target with a ping from it, for
ten seconds. An accepted pong from it takes it out of the learnt ones, so from
then on it is a target only if the peer pings from it again. The proof itself
lasts fifteen seconds and does not make the address a target.
-/

namespace ForgeswornLink
open Runs Stamps

theorem Inner.mem_probeTargets (i : Inner) (p : NodeId) (now : ℕ) (a : SocketAddr) :
    a ∈ i.probeTargets p now ↔ a ∈ (i.entry p).candidates ∨
      ∃ seen, (i.entry p).learned.lookup a = some seen ∧ now - seen < learnedTtl := by
  have hfold : ∀ (entries : List (Sigma fun _ : SocketAddr => ℕ)) (out : List SocketAddr),
      a ∈ entries.foldl (fun out seen =>
          if now - seen.2 < learnedTtl ∧ seen.1 ∉ out then out ++ [seen.1] else out) out ↔
        a ∈ out ∨ ∃ seen, ⟨a, seen⟩ ∈ entries ∧ now - seen < learnedTtl := by
    intro entries
    induction entries with
    | nil => simp
    | cons entry entries ih =>
      intro out
      obtain ⟨b, seen⟩ := entry
      rw [List.foldl_cons, ih]
      dsimp only
      constructor
      · rintro (hout | ⟨t, hmem, hlive⟩)
        · split_ifs at hout with hnew
          · rcases List.mem_append.mp hout with hout | hb
            · exact Or.inl hout
            · obtain rfl := List.mem_singleton.mp hb
              exact Or.inr ⟨seen, List.mem_cons_self, hnew.1⟩
          · exact Or.inl hout
        · exact Or.inr ⟨t, List.mem_cons_of_mem _ hmem, hlive⟩
      · rintro (hout | ⟨t, hmem, hlive⟩)
        · refine Or.inl ?_
          split_ifs
          · exact List.mem_append_left _ hout
          · exact hout
        · rcases List.mem_cons.mp hmem with heq | hmem
          · cases heq
            refine Or.inl ?_
            by_cases hold : a ∈ out
            · rw [if_neg fun h => h.2 hold]
              exact hold
            · rw [if_pos ⟨hlive, hold⟩]
              exact List.mem_append_right _ (List.mem_singleton_self a)
          · exact Or.inr ⟨t, hmem, hlive⟩
  refine (hfold _ _).trans (or_congr_right (exists_congr fun seen => and_congr_left' ?_))
  exact AList.mem_lookup_iff.symm

namespace PathSocket

def Teaches (P : Primitives) (s : PathSocket) (e : Event) (p : NodeId) (a : SocketAddr) : Prop :=
  (∃ keyId key n, s.ProbeArrives P e probePing p a keyId key n) ∧ a ∉ (s.inner.entry p).candidates

def Unlearns (P : Primitives) (s : PathSocket) (e : Event) (p : NodeId) (a : SocketAddr) : Prop :=
  e = .beginSession p ∨ ∃ n, s.AcceptsPong P e p a n

section Moves
variable {P : Primitives} {s : PathSocket} {e : Event} {p : NodeId} {a : SocketAddr} {entry : Peer}

theorem ProbeMove.learned_of_teaches (h : ProbeMove P s e p entry) (hteaches : s.Teaches P e p a) :
    entry.learned.lookup a = some s.now := by
  obtain ⟨⟨keyId, key, n, harrives⟩, hunlisted⟩ := hteaches
  cases h with
  | keeps _ haside => exact absurd harrives (haside.pings _ _ _ _)
  | lists he => exact absurd harrives (not_probeArrives (by rw [he]; rfl))
  | begins he => exact absurd harrives (not_probeArrives (by rw [he]; rfl))
  | probes he => exact absurd harrives (not_probeArrives (by rw [he]; rfl))
  | hears _ hheard =>
    obtain ⟨-, -, rfl, -⟩ := hheard.unique harrives
    rw [Inner.learned_handlePing, if_neg hunlisted]
    exact AList.lookup_insert _
  | proves haccepts => exact absurd harrives haccepts.not_ping

theorem ProbeMove.learned_of_unlearns (h : ProbeMove P s e p entry)
    (hunlearns : s.Unlearns P e p a) :
    entry.learned.lookup a = none := by
  rcases hunlearns with rfl | ⟨n, haccepts⟩
  · rw [h.of_begins]
    rfl
  · rw [h.of_accepts haccepts]
    exact AList.lookup_erase _ _

theorem ProbeMove.learned_otherwise (h : ProbeMove P s e p entry) (hteaches : ¬ s.Teaches P e p a)
    (hunlearns : ¬ s.Unlearns P e p a) :
    ((∃ draws, e = .sendProbes p draws) → entry.learned.lookup a =
      ((s.inner.entry p).learned.lookup a).filter fun seen => s.now - seen < learnedTtl) ∧
    ((¬ ∃ draws, e = .sendProbes p draws) →
      entry.learned.lookup a = (s.inner.entry p).learned.lookup a) := by
  cases h with
  | keeps hsame haside =>
    rw [hsame.learned]
    exact ⟨fun ⟨draws, he⟩ => absurd he (haside.probes draws), fun _ => rfl⟩
  | lists he => exact ⟨fun ⟨draws, he'⟩ => (by cases he.symm.trans he'), fun _ => rfl⟩
  | begins he => exact absurd (Or.inl he) hunlearns
  | probes he =>
    exact ⟨fun _ => Inner.learned_sendProbes _ _ _ _ _ _, fun hnot => absurd ⟨_, he⟩ hnot⟩
  | @hears source _ _ _ _ _ _ he hheard =>
    refine ⟨fun ⟨draws, he'⟩ => (by cases he.symm.trans he'), fun _ => ?_⟩
    rw [Inner.learned_handlePing]
    split_ifs with hlisted
    · rfl
    · have hne : a ≠ source := by
        rintro rfl
        exact hteaches ⟨⟨_, _, _, hheard⟩, hlisted⟩
      exact AList.lookup_insert_ne hne
  | @proves source _ haccepts =>
    have hne : a ≠ source := by
      rintro rfl
      exact hunlearns (Or.inr ⟨_, haccepts⟩)
    obtain ⟨⟨_, _, -, -, _, _, he, -⟩, -⟩ := haccepts
    exact ⟨fun ⟨draws, he'⟩ => (by cases he.symm.trans he'), fun _ => AList.lookup_erase_ne hne⟩

end Moves

theorem learned_stamping (P : Primitives) (hostOf : String → Option String) (p : NodeId)
    (a : SocketAddr) :
    Stamping (step P hostOf) now (fun s => (s.inner.entry p).learned.lookup a) learnedTtl
      (fun s e => s.Teaches P e p a) (fun s e => s.Unlearns P e p a)
      (fun _ e => ∃ draws, e = .sendProbes p draws) where
  forward s e := (clock_step P hostOf s e).2
  set s e := (probeMove_step P hostOf s e p).learned_of_teaches
  clear s e _ := (probeMove_step P hostOf s e p).learned_of_unlearns
  sweep s e hteaches hunlearns :=
    ((probeMove_step P hostOf s e p).learned_otherwise hteaches hunlearns).1
  keep s e hteaches hunlearns :=
    ((probeMove_step P hostOf s e p).learned_otherwise hteaches hunlearns).2

def Steady (p : NodeId) (e : Event) : Prop :=
  e ≠ .beginSession p ∧ (∀ session, e ≠ .endSession p session) ∧
    ∀ candidates, e ≠ .setPeerCandidates p candidates

variable {P : Primitives} {hostOf : String → Option String}

theorem candidates_step {s : PathSocket} {e : Event} {p : NodeId} (h : Steady p e) :
    ((s.step P hostOf e).inner.entry p).candidates = (s.inner.entry p).candidates := by
  have hmove := probeMove_step P hostOf s e p
  generalize (s.step P hostOf e).inner.entry p = entry at hmove ⊢
  cases hmove with
  | keeps hsame => exact hsame.candidates
  | lists he => exact absurd he (h.2.2 _)
  | begins he => exact absurd he h.1
  | probes => exact Inner.proj_sendProbes Peer.candidates (fun _ _ _ _ => rfl) _ _ _ _ _ _
  | hears =>
    exact Inner.proj_handlePing Peer.candidates (fun _ _ _ => rfl) (fun _ _ _ => rfl)
      _ _ _ _ _ _ _ _
  | proves => rfl

section Run
variable (P hostOf) (start : PathSocket) (p : NodeId) (a : SocketAddr) (es : List Event)

def Learnt : Prop :=
  Since (fun pre e => (after P hostOf start pre).Teaches P e p a) (fun _ e => Steady p e) es

/-- A ping of the peer arrived from the address less than ten seconds ago, and no pong from it was
accepted since. -/
def PingedSince : Prop :=
  Since (fun pre e => (∃ keyId key n,
        (after P hostOf start pre).ProbeArrives P e probePing p a keyId key n) ∧
      (after P hostOf start es).now < (after P hostOf start pre).now + learnedTtl)
    (fun pre e => ∀ n, ¬ (after P hostOf start pre).AcceptsPong P e p a n) es

end Run

/-- The path in use: a proof for the address is on record and fresh. -/
def InUse (s : PathSocket) (p : NodeId) (a : SocketAddr) : Prop :=
  ∃ t, (s.inner.entry p).direct = some ⟨a, t⟩ ∧ s.now - t < directFresh

section Targets
variable {start : PathSocket} {p : NodeId} {a : SocketAddr} {es : List Event}

theorem target_iff (hstart : start.inner = {}) (es : List Event) :
    a ∈ (after P hostOf start es).inner.probeTargets p (after P hostOf start es).now ↔
      a ∈ ((after P hostOf start es).inner.entry p).candidates ∨
      Since (fun pre e => (after P hostOf start pre).Teaches P e p a ∧
          (after P hostOf start es).now < (after P hostOf start pre).now + learnedTtl)
        (fun pre e => ¬ (after P hostOf start pre).Unlearns P e p a) es := by
  rw [Inner.mem_probeTargets]
  refine or_congr_right ((learned_stamping P hostOf p a).live_iff_since ?_ es)
  rw [hstart]
  rfl

theorem steady_of_teaches {s : PathSocket} {e : Event} (h : s.Teaches P e p a) : Steady p e := by
  obtain ⟨⟨keyId, key, n, -, -, sender, draw, rfl, -⟩, -⟩ := h
  exact ⟨by simp, by simp, by simp⟩

theorem unlisted_of_learnt (h : Learnt P hostOf start p a es) :
    a ∉ ((after P hostOf start es).inner.entry p).candidates := by
  induction es using List.reverseRecOn with
  | nil => exact absurd h since_nil
  | append_singleton es e ih =>
    rw [after, run_snoc]
    rcases since_snoc.mp h with hteaches | ⟨hlearnt, hsteady⟩
    · rw [candidates_step (steady_of_teaches hteaches)]
      exact hteaches.2
    · rw [candidates_step hsteady]
      exact ih hlearnt

theorem teaches_of_pinged (hlearnt : Learnt P hostOf start p a es) {last : ℕ}
    (hpinged : Since (fun pre e => (∃ keyId key n,
          (after P hostOf start pre).ProbeArrives P e probePing p a keyId key n) ∧
        last < (after P hostOf start pre).now + learnedTtl)
      (fun pre e => ∀ n, ¬ (after P hostOf start pre).AcceptsPong P e p a n) es) :
    Since (fun pre e => (after P hostOf start pre).Teaches P e p a ∧
        last < (after P hostOf start pre).now + learnedTtl)
      (fun pre e => ¬ (after P hostOf start pre).Unlearns P e p a) es := by
  induction es using List.reverseRecOn with
  | nil => exact absurd hlearnt since_nil
  | append_singleton es e ih =>
    rw [since_snoc] at hpinged ⊢
    rcases since_snoc.mp hlearnt with hteaches | ⟨hlearnt, hsteady⟩
    · -- the ping that taught the address is at least as recent as the one before
      refine Or.inl ⟨hteaches, ?_⟩
      rcases hpinged with ⟨-, hrecent⟩ | ⟨⟨pre, e', post, rfl, ⟨-, hrecent⟩, -⟩, -⟩
      · exact hrecent
      · have hforward := (learned_stamping P hostOf p a).clock_run
          (after P hostOf start pre) (e' :: post)
        rw [← run_append] at hforward
        exact lt_of_lt_of_le hrecent (Nat.add_le_add_right hforward _)
    · rcases hpinged with ⟨hping, hrecent⟩ | ⟨hpinged, haccepts⟩
      · exact Or.inl ⟨⟨hping, unlisted_of_learnt hlearnt⟩, hrecent⟩
      · refine Or.inr ⟨ih hlearnt hpinged, ?_⟩
        rintro (rfl | ⟨n, haccept⟩)
        · exact hsteady.1 rfl
        · exact haccepts n haccept

end Targets

end PathSocket

theorem Inner.mem_sendPings {i : Inner} {p : NodeId} {keyId : ProbeKeyId} {key : ProbeKey}
    (hkey : (i.entry p).probeKey = some (keyId, key)) (now : ℕ) (draws : ℕ → Nonce × Bool)
    (targets : List SocketAddr) (a : SocketAddr) :
    (∃ n, UdpSend.ping p a ⟨probePing, keyId, n⟩ key ∈
      (sendPings true p now i draws targets).2.1) ↔ a ∈ targets := by
  induction targets generalizing i draws with
  | nil => simp [sendPings]
  | cons addr rest ih =>
    have hheld : ((i.sendPing true p addr now (draws 0)).1.entry p).probeKey = some (keyId, key) :=
      (proj_sendPing Peer.probeKey (fun _ _ _ => rfl) i true p p addr now (draws 0)).trans hkey
    have hrest := ih hheld (fun k => draws (k + 1))
    rw [sendPings_cons_out]
    simp only [List.mem_append, exists_or, hrest, List.mem_cons]
    refine or_congr_left ?_
    rw [sendPing_of_key hkey]
    constructor
    · rintro ⟨n, hmem⟩
      cases List.mem_singleton.mp hmem
      rfl
    · rintro rfl
      exact ⟨_, List.mem_singleton.mpr rfl⟩

theorem Inner.mem_sendProbes {i : Inner} {p : NodeId} {keyId : ProbeKeyId} {key : ProbeKey}
    (hkey : (i.entry p).probeKey = some (keyId, key)) (now : ℕ) (draws : ℕ → Nonce × Bool)
    (a : SocketAddr) :
    (∃ n, UdpSend.ping p a ⟨probePing, keyId, n⟩ key ∈ (i.sendProbes true p now draws).2.1) ↔
      a ∈ i.probeTargets p now := by
  have hentry : ((i.prunePending p now).pruneLearned p now).entry p =
      { i.entry p with
        pending := (i.entry p).pending.retain fun _ ping => now - ping.2 < probeTimeout
        learned := (i.entry p).learned.retain fun _ seen => now - seen < learnedTtl } := by
    rw [pruneLearned, entry_modifyExisting _ _ _ rfl, if_pos rfl, prunePending, entry_modify,
      if_pos rfl]
  have hpruned := mem_sendPings (i := (i.prunePending p now).pruneLearned p now)
    (by rw [hentry]; exact hkey)
    now draws (((i.prunePending p now).pruneLearned p now).probeTargets p now) a
  rw [sendProbes, hpruned, mem_probeTargets, mem_probeTargets, hentry]
  dsimp only
  refine or_congr_right (exists_congr fun seen => ?_)
  rw [Table.mem_lookup_retain, decide_eq_true_iff, and_assoc, and_self_iff]

namespace PathSocket

/-- In every run of a path socket: an address that was learnt from a ping, with the slot and the
list of the peer unchanged since, and that carries a fresh proof is a probe target exactly if a
ping of the peer arrived from it after the last pong accepted from it and less than ten seconds
ago; a round of the session pings it exactly then. -/
theorem proved_address_probed_iff (P : Primitives) (hostOf : String → Option String)
    (nodeId : NodeId) (udpLocal : SocketAddr) (relays : List String) (book : Option TagBook)
    (reflector : Option SocketAddr) (now unixNow : ℕ) (es : List Event) (p : NodeId)
    (a : SocketAddr) :
    let start := assemble nodeId true udpLocal relays book reflector now unixNow
    let s := after P hostOf start es
    Learnt P hostOf start p a es → s.InUse p a →
      (a ∈ s.inner.probeTargets p s.now ↔ PingedSince P hostOf start p a es) ∧
      ∀ keyId key draws, (s.inner.entry p).probeKey = some (keyId, key) →
        ((∃ n, UdpSend.ping p a ⟨probePing, keyId, n⟩ key ∈ s.sends P hostOf
          (.sendProbes p draws)) ↔ PingedSince P hostOf start p a es) := by
  intro start s hlearnt _
  have htarget : a ∈ s.inner.probeTargets p s.now ↔ PingedSince P hostOf start p a es := by
    rw [target_iff rfl es, or_iff_right (unlisted_of_learnt hlearnt)]
    constructor
    · intro hsince
      refine hsince.mono (fun pre e h => ⟨h.1.1, h.2⟩) fun pre e hkept n haccepts => ?_
      exact hkept (Or.inr ⟨n, haccepts⟩)
    · exact teaches_of_pinged hlearnt
  refine ⟨htarget, fun keyId key draws hkey => ?_⟩
  have hround := Inner.mem_sendProbes hkey s.now draws a
  have hudp : s.udp = true := udp_after P hostOf start es
  rw [← htarget, ← hround, sends, exec, hudp]

section Stray

def strayPeer : NodeId := ⟨List.Vector.replicate 32 1⟩
def strayAddr : SocketAddr := .v4 (List.Vector.replicate 4 1) 4000

def strayProbe (kind : UInt8) (n : UInt8) : Event :=
  .recvDirect strayAddr (Probe.sealProbe Primitives.standIn
    ⟨kind, List.Vector.replicate 8 3, List.Vector.replicate 16 n⟩ (List.Vector.replicate 32 4))
    (List.Vector.replicate 16 6, true)

def strayStart : PathSocket :=
  assemble ⟨List.Vector.replicate 32 0⟩ true (.v4 (List.Vector.replicate 4 0) 0) [] none none 0 0

def strayProved : List Event :=
  [.registerPeer strayPeer, .beginSession strayPeer,
    .registerProbeKey 0 strayPeer (List.Vector.replicate 8 3) (List.Vector.replicate 32 4),
    strayProbe probePing 5, strayProbe probePong 6]

theorem learnt_strayProved (more : List Event) (hmore : ∀ e ∈ more, Steady strayPeer e) :
    Learnt Primitives.standIn (fun _ => none) strayStart strayPeer strayAddr
      (strayProved ++ more) := by
  refine ⟨strayProved.take 3, strayProbe probePing 5, strayProbe probePong 6 :: more, rfl,
    ⟨⟨_, _, _, by decide +kernel, by decide +kernel, strayAddr, _, rfl, rfl⟩, by decide +kernel⟩,
    ?_⟩
  intro mid e rest hpost
  have hmem : e ∈ strayProbe probePong 6 :: more := by
    rw [hpost]
    exact List.mem_append_right _ List.mem_cons_self
  rcases List.mem_cons.mp hmem with rfl | hmem
  · exact ⟨by simp [strayProbe], by simp [strayProbe], by simp [strayProbe]⟩
  · exact hmore e hmem

theorem pinged_again_is_target :
    let es := strayProved ++ [.tick second, strayProbe probePing 7]
    let s := after Primitives.standIn (fun _ => none) strayStart es
    Learnt Primitives.standIn (fun _ => none) strayStart strayPeer strayAddr es ∧
      s.InUse strayPeer strayAddr ∧
      PingedSince Primitives.standIn (fun _ => none) strayStart strayPeer strayAddr es := by
  intro es s
  have hlearnt : Learnt Primitives.standIn (fun _ => none) strayStart strayPeer strayAddr es :=
    learnt_strayProved _ (by simp [Steady, strayProbe])
  have hinUse : s.InUse strayPeer strayAddr := ⟨0, by decide +kernel, by decide +kernel⟩
  exact ⟨hlearnt, hinUse,
    ((proved_address_probed_iff Primitives.standIn (fun _ => none) _ _ _ _ _ _ _
    es strayPeer strayAddr hlearnt hinUse).1).mp (by decide +kernel)⟩

/-- Right after its proof the address is no target. -/
theorem proved_address_not_probed :
    let s := after Primitives.standIn (fun _ => none) strayStart strayProved
    Learnt Primitives.standIn (fun _ => none) strayStart strayPeer strayAddr strayProved ∧
      s.InUse strayPeer strayAddr ∧ s.inner.probeTargets strayPeer s.now = [] := by
  intro s
  have hlearnt := learnt_strayProved [] (by simp)
  rw [List.append_nil] at hlearnt
  exact ⟨hlearnt, ⟨0, by decide +kernel, by decide +kernel⟩, by decide +kernel⟩

end Stray

end PathSocket

end ForgeswornLink
