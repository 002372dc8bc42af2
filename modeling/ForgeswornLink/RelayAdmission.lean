import ForgeswornLink.RelayRows
import ForgeswornLink.Lib.Tally
import Mathlib.Tactic.Abel

/-!
# Admission to the relay

Two counters decide who is let in: the connections in flight and, for each source address,
its own. They go up in the accept loop and down in the task of each connection, long after
its session is over. A connection is in flight from its admission to the end of its task,
whether its first message is still out, its session runs, or only the counters are left to
settle. The counters are exact for this multiset in every order of events, so the caps hold
and nothing is ever taken off an empty counter.
-/

namespace ForgeswornLink
open ByteString Runs Tally

structure Counters where
  live : ℕ
  bySource : Table IpAddr ℕ
  connections : Multiset IpAddr

namespace Relay

def connections (r : Relay) : Multiset IpAddr :=
  (r.arriving : Multiset IpAddr) + (values r.serving).map RelaySession.source +
    (r.departing : Multiset IpAddr)

def counters (r : Relay) : Counters := ⟨r.live, r.bySource, r.connections⟩

section Views
variable {r : Relay} {id : ℕ} {s : RelaySession}

theorem counters_put (hlookup : r.serving.lookup id = some s) (s' : RelaySession)
    (hsource : s'.source = s.source) : (r.put id s').counters = r.counters := by
  have hvalues : (values (r.put id s').serving).map RelaySession.source =
      (values r.serving).map RelaySession.source := by
    rw [put, values_insert, values_of_lookup hlookup]
    simp only [Multiset.map_cons, hsource]
  simp only [counters, connections, hvalues]
  rfl

theorem counters_alter (f : RelaySession → RelaySession) (hf : ∀ s, (f s).source = s.source) :
    (r.alter id f).counters = r.counters := by
  unfold alter
  cases hlookup : r.serving.lookup id with
  | none => rfl
  | some s => exact counters_put hlookup (f s) (hf s)

theorem source_enqueue (s : RelaySession) (frame : Frame) :
    (s.enqueue frame).source = s.source := by
  unfold RelaySession.enqueue
  split_ifs <;> rfl

theorem counters_trySend (frame : Frame) : (r.trySend id frame).counters = r.counters :=
  counters_alter _ fun s => source_enqueue s frame

theorem counters_supersede (ids : List ℕ) : (r.supersede ids).counters = r.counters := by
  induction ids generalizing r with
  | nil => rfl
  | cons i ids ih => exact ih.trans (counters_trySend _)

theorem source_supersede (hlookup : r.serving.lookup id = some s) (ids : List ℕ) :
    ∃ s', (r.supersede ids).serving.lookup id = some s' ∧ s'.source = s.source := by
  induction ids generalizing r s with
  | nil => exact ⟨s, hlookup, rfl⟩
  | cons i ids ih =>
    have hsent := lookup_alter r i id fun s => s.enqueue (.close closeReasonSuperseded)
    rw [hlookup] at hsent
    by_cases hi : id = i
    · rw [if_pos hi] at hsent
      obtain ⟨s', hs', hsource⟩ := ih hsent
      exact ⟨s', hs', hsource.trans (source_enqueue s _)⟩
    · rw [if_neg hi] at hsent
      exact ih hsent

theorem source_registerTags (hlookup : r.serving.lookup id = some s) (current next : List Tag) :
    ∃ s', (r.registerTags id current next).serving.lookup id = some s' ∧ s'.source = s.source := by
  have hserving : ({ r with tags := (Seats.register tagEnds id current next r.tags).1 } :
      Relay).serving.lookup id = some s := hlookup
  exact source_supersede hserving _

theorem counters_setStage (stage : RelayStage) : (r.setStage id stage).counters = r.counters :=
  counters_alter _ fun _ => rfl

theorem counters_registerTags (current next : List Tag) :
    (r.registerTags id current next).counters = r.counters := counters_supersede _

theorem counters_finish (hlookup : r.serving.lookup id = some s) {s' : RelaySession}
    (hsource : s'.source = s.source) : (r.finish id s').counters = r.counters := by
  have hconnections : (r.finish id s').connections = r.connections := by
    unfold connections finish
    rw [values_of_lookup hlookup, ← Multiset.coe_add, hsource]
    simp only [Multiset.map_cons, Multiset.coe_singleton]
    rw [← Multiset.singleton_add]
    abel
  simp only [counters, hconnections]
  rfl

end Views

section Steps
variable (P : Primitives) (config : RelayConfig) (r : Relay)

theorem counters_hangUp (source : IpAddr) : (r.hangUp source).counters = r.counters := by
  unfold hangUp
  split_ifs with hmem
  · have hconnections : connections { r with
        arriving := r.arriving.erase source
        departing := r.departing ++ [source] } = r.connections := by
      unfold connections
      rw [← Multiset.coe_erase, ← Multiset.coe_add, Multiset.coe_singleton]
      conv_rhs => rw [← Multiset.cons_erase (Multiset.mem_coe.mpr hmem), ← Multiset.singleton_add]
      abel
    simp only [counters, hconnections]
  · rfl

theorem counters_arrive (hfresh : r.serving.lookup r.nextSessionId = none) (source : IpAddr)
    (challenge : Block 32) (first : Message) :
    (r.arrive source challenge first).counters = r.counters := by
  unfold arrive
  split_ifs with hmem
  · have hconnections : connections (({ r with
        arriving := r.arriving.erase source
        nextSessionId := r.nextSessionId + 1 } : Relay).put r.nextSessionId
          ⟨source, .opening challenge first, [], []⟩) = r.connections := by
      unfold connections put
      rw [values_insert, values_erase_of_none hfresh, ← Multiset.coe_erase, Multiset.map_cons]
      conv_rhs => rw [← Multiset.cons_erase (Multiset.mem_coe.mpr hmem)]
      rw [← Multiset.singleton_add, ← Multiset.singleton_add]
      abel
    simp only [counters, hconnections]
    rfl
  · rfl

theorem counters_enter (id : ℕ) : (r.enter P config id).counters = r.counters := by
  unfold enter
  split
  · rename_i s hlookup
    split
    · rename_i challenge first hstage
      split
      · rename_i nodeId signature hfirst
        by_cases hok : config.hosts.any fun host => verifyRelayAuth P nodeId host
          challenge signature
        · rw [if_pos hok, authenticate, counters_setStage, counters_supersede]
          rfl
        · rw [if_neg hok, counters_finish hlookup rfl]
      · rename_i tags hfirst
        by_cases hnil : tags = []
        · rw [if_pos hnil, counters_finish hlookup rfl]
        · rw [if_neg hnil, counters_setStage, counters_registerTags]
      · exact counters_finish hlookup rfl
    · rfl
  · rfl

theorem counters_route (id : ℕ) (mode : Mode) (frame : Frame) (allowed : Bool) :
    (r.route id mode frame allowed).counters = r.counters := by
  unfold route
  split
  · split_ifs
    · exact counters_alter _ fun _ => rfl
    · rfl
  · split_ifs
    · exact counters_alter _ fun _ => rfl
    · rfl
  · rw [counters_setStage, counters_registerTags]
  · rfl
  · rfl
  · exact counters_setStage _

theorem counters_receive (id : ℕ) (message : Message) (allowed : Bool) :
    (r.receive id message allowed).counters = r.counters := by
  unfold receive
  split
  · split
    · split
      · rfl
      · rfl
      · exact counters_setStage _
      · split
        · exact counters_setStage _
        · exact counters_route r id _ _ allowed
    · rfl
  · rfl

theorem counters_deliver (id : ℕ) : (r.deliver id).counters = r.counters := by
  unfold deliver
  split
  · rename_i s hlookup
    split
    · rfl
    · rw [counters_trySend]
      exact counters_put hlookup _ rfl
  · rfl

theorem counters_drain (id : ℕ) (written : Bool) : (r.drain id written).counters = r.counters := by
  unfold drain
  split
  · rename_i s hlookup
    split
    · exact counters_put hlookup _ rfl
    · rfl
  · rfl

theorem counters_leave (id : ℕ) : (r.leave id).counters = r.counters := by
  unfold leave
  split
  · split
    · exact counters_setStage _
    · rfl
  · rfl

theorem counters_cleanUp (id : ℕ) : (r.cleanUp id).counters = r.counters := by
  unfold cleanUp
  split
  · rename_i s hlookup
    split
    · exact counters_finish (r := { r with sessions := _ }) hlookup rfl
    · obtain ⟨s', hlookup', hsource⟩ := source_registerTags hlookup _ []
      rw [counters_finish hlookup' hsource.symm, counters_registerTags]
    · rfl
  · rfl

end Steps

section Counting
variable {P : Primitives} {config : RelayConfig} {r : Relay}

/-- The counters are exact for the connections in flight, and both caps hold. -/
structure Counted (config : RelayConfig) (c : Counters) : Prop where
  live : c.live = c.connections.card
  tallies : Tallies c.bySource c.connections
  total : c.connections.card ≤ config.maxSessions
  perSource : 0 < config.maxSessionsPerSource →
    ∀ source, c.connections.count source ≤ config.maxSessionsPerSource

theorem Counted.admit {c : Counters} (h : Counted config c) {source : IpAddr}
    (htotal : c.live < config.maxSessions)
    (hsource : 0 < config.maxSessionsPerSource →
      (c.bySource.lookup source).getD 0 < config.maxSessionsPerSource) :
    Counted config ⟨c.live + 1, up c.bySource source, source ::ₘ c.connections⟩ := by
  refine ⟨?_, h.tallies.up source, ?_, fun hpos other => ?_⟩
  · rw [Multiset.card_cons, h.live]
  · rw [Multiset.card_cons, ← h.live]
    exact htotal
  · by_cases hother : other = source
    · subst hother
      rw [Multiset.count_cons_self, ← h.tallies.getD]
      exact hsource hpos
    · rw [Multiset.count_cons_of_ne hother]
      exact h.perSource hpos other

theorem Counted.depart {live : ℕ} {bySource : Table IpAddr ℕ} {source : IpAddr}
    {rest : Multiset IpAddr} (h : Counted config ⟨live, bySource, source ::ₘ rest⟩) :
    Counted config ⟨live - 1, down bySource source, rest⟩ := by
  have hlive : live = Multiset.card (source ::ₘ rest) := h.live
  have htotal : Multiset.card (source ::ₘ rest) ≤ config.maxSessions := h.total
  rw [Multiset.card_cons] at hlive htotal
  refine ⟨?_, h.tallies.down, ?_, fun hpos other => ?_⟩
  · change live - 1 = rest.card
    omega
  · change rest.card ≤ _
    omega
  · exact (Multiset.count_le_count_cons other source rest).trans (h.perSource hpos other)

theorem counters_admitted (source : IpAddr) :
    counters { r with
      bySource := r.bySource.insert source ((r.bySource.lookup source).getD 0 + 1)
      live := r.live + 1
      arriving := r.arriving ++ [source] } =
    ⟨r.live + 1, up r.bySource source, source ::ₘ r.connections⟩ := by
  simp only [counters, connections, up, Counters.mk.injEq, true_and]
  rw [← Multiset.coe_add, Multiset.coe_singleton, ← Multiset.singleton_add]
  abel

theorem Counted.accept (h : Counted config r.counters) (source : IpAddr) :
    Counted config (r.accept config source).counters := by
  unfold Relay.accept
  by_cases hfull : r.live ≥ config.maxSessions
  · rw [if_pos hfull]
    exact h
  by_cases hcap : config.maxSessionsPerSource > 0 ∧
      (r.bySource.lookup source).getD 0 ≥ config.maxSessionsPerSource
  · rw [if_neg hfull, if_pos hcap]
    exact h
  rw [if_neg hfull, if_neg hcap, counters_admitted]
  exact h.admit (not_le.mp hfull) fun hpos => not_le.mp fun hge => hcap ⟨hpos, hge⟩

theorem connections_departing {source : IpAddr} (hmem : source ∈ r.departing) :
    r.connections = source ::ₘ connections { r with departing := r.departing.erase source } := by
  unfold connections
  rw [← Multiset.coe_erase, ← Multiset.singleton_add]
  conv_lhs => rw [← Multiset.cons_erase (Multiset.mem_coe.mpr hmem), ← Multiset.singleton_add]
  abel

theorem Counted.settle (h : Counted config r.counters) (source : IpAddr) :
    Counted config (r.settle source).counters := by
  unfold Relay.settle
  by_cases hmem : source ∈ r.departing
  · rw [if_pos hmem]
    rw [counters, connections_departing hmem] at h
    exact h.depart
  · rw [if_neg hmem]
    exact h

theorem Counted.step (h : Counted config r.counters) (hsound : r.registry.Sound) (e : RelayEvent) :
    Counted config (r.step P config e).counters := by
  cases e with
  | accept source => exact h.accept source
  | settle source => exact h.settle source
  | arrive source challenge first =>
    have hfresh : r.serving.lookup r.nextSessionId = none :=
      Option.map_eq_none_iff.mp (hsound.fresh r.nextSessionId le_rfl)
    rw [Relay.step, counters_arrive r hfresh]
    exact h
  | hangUp source => rwa [Relay.step, counters_hangUp]
  | enter id => rwa [Relay.step, counters_enter]
  | receive id message allowed => rwa [Relay.step, counters_receive]
  | deliver id => rwa [Relay.step, counters_deliver]
  | drain id written => rwa [Relay.step, counters_drain]
  | leave id => rwa [Relay.step, counters_leave]
  | cleanUp id => rwa [Relay.step, counters_cleanUp]

theorem counted_run (es : List RelayEvent) :
    Counted config (run (step P config) start es).counters := by
  induction es using List.reverseRecOn with
  | nil => exact ⟨rfl, tallies_zero, Nat.zero_le _, fun _ _ => Nat.zero_le _⟩
  | append_singleton es e ih =>
    rw [run_snoc]
    exact ih.step (sound_run P config es) e

end Counting

/-- In every order of accepts and ends the counters are exact for the connections in flight,
the caps hold, and a task that settles finds both counters above zero. -/
theorem admission_counters_exact (P : Primitives) (config : RelayConfig) (es : List RelayEvent) :
    let r := run (step P config) start es
    r.live = r.connections.card ∧ (values r.bySource).sum = r.live ∧
    (∀ source, r.bySource.lookup source =
      if r.connections.count source = 0 then none else some (r.connections.count source)) ∧
    r.live ≤ config.maxSessions ∧
    (0 < config.maxSessionsPerSource → ∀ source count, r.bySource.lookup source = some count →
      count ≤ config.maxSessionsPerSource) ∧
    ∀ source ∈ r.departing, 0 < r.live ∧ ∃ count, r.bySource.lookup source = some (count + 1) := by
  intro r
  have h : Counted config r.counters := counted_run es
  have hlive : r.live = r.connections.card := h.live
  refine ⟨hlive, h.tallies.sum.trans hlive.symm, h.tallies, hlive.trans_le h.total, ?_, ?_⟩
  · intro hpos source count hcount
    have hexact : (r.bySource.lookup source).getD 0 = r.connections.count source :=
      h.tallies.getD source
    rw [hcount] at hexact
    exact hexact.trans_le (h.perSource hpos source)
  · intro source hmem
    have hconnections := connections_departing hmem
    have htallies : Tallies r.bySource r.connections := h.tallies
    rw [hconnections] at htallies
    refine ⟨?_, _, htallies.lookup_cons⟩
    rw [hlive, hconnections, Multiset.card_cons]
    exact Nat.succ_pos _

end Relay
end ForgeswornLink
