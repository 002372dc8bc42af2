import ForgeswornLink.TagAttribution

/-!
# A datagram between paired ends arrives

Two drivers of different endpoints have their sessions at the relay, and the relay
has the registration of one of them. Where nothing else is queued between them and
neither session is lost, a datagram of the other end is handed up there, as one of
the end that sent it. The clocks of the two ends may be an hour apart.
-/

namespace ForgeswornLink
open ByteString Runs

def RelaySession.takesTags (s : RelaySession) : Bool :=
  match s.stage, s.deliveries with
  | .routing (.tags _), [] => true
  | _, _ => false

def RelaySession.isQuiet (s : RelaySession) : Bool :=
  match s.stage, s.deliveries, s.queue with
  | .routing _, [], [] => true
  | _, _, _ => false

theorem RelaySession.takesTags_iff {s : RelaySession} :
    s.takesTags = true ↔ (∃ current, s.stage = .routing (.tags current)) ∧ s.deliveries = [] := by
  unfold takesTags
  split <;> simp_all

theorem RelaySession.isQuiet_iff {s : RelaySession} :
    s.isQuiet = true ↔ (∃ mode, s.stage = .routing mode) ∧ s.deliveries = [] ∧ s.queue = [] := by
  unfold isQuiet
  split <;> simp_all

namespace Relay
variable {r : Relay} {id j : ℕ} {s t : RelaySession} {tag : Tag} {datagram : List UInt8}

theorem lookup_receive_sendTag {current : List Tag} (hs : r.serving.lookup id = some s)
    (hstage : s.stage = .routing (.tags current)) (hfree : s.deliveries = [])
    (hframe : (Frame.sendTag tag datagram).InBounds) (j : ℕ) :
    (r.receive id (.binary (Frame.sendTag tag datagram).encode) true).serving.lookup j =
      if j = id then
        some { s with
          deliveries :=
            ((Seats.holders r.tags tag).filter (· ≠ id)).map fun t => (t, .recvTag tag datagram) }
      else r.serving.lookup j := by
  have hdecode : decodeBinary (.binary (Frame.sendTag tag datagram).encode) =
      some (.sendTag tag datagram) := Frame.decode_complete hframe
  simp only [receive, hs, hstage, hfree, hdecode, route, if_true, lookup_alter]
  split_ifs with hj
  · subst hj
    rw [hs, Option.map_some, hstage]
  · rfl

theorem lookup_deliver {target : ℕ} {frame : Frame} {rest : List (ℕ × Frame)}
    (hs : r.serving.lookup id = some s) (hnext : s.deliveries = (target, frame) :: rest)
    (hother : target ≠ id) (j : ℕ) :
    (r.deliver id).serving.lookup j =
      if j = id then some { s with deliveries := rest }
      else if j = target then (r.serving.lookup j).map (·.enqueue frame)
        else r.serving.lookup j := by
  simp only [deliver, hs, hnext, trySend, lookup_alter, lookup_put]
  split_ifs with htarget hid hid
  · exact absurd (htarget.symm.trans hid) hother
  · rfl
  · rfl
  · rfl

theorem deliver_of_none (hs : r.serving.lookup id = some s) (hnone : s.deliveries = []) :
    r.deliver id = r := by
  simp only [deliver, hs, hnone]

theorem nextFrame_deliver_twice {targets : List ℕ} {mode : Mode} {frame : Frame}
    (hs : r.serving.lookup id = some s) (hnext : s.deliveries = targets.map fun t => (t, frame))
    (hothers : ∀ t ∈ targets, t ≠ id) (hnodup : targets.Nodup) (htwo : targets.length ≤ 2)
    (hj : j ∈ targets) (ht : r.serving.lookup j = some t) (hstage : t.stage = .routing mode)
    (hfree : t.deliveries = []) (hqueue : t.queue = []) :
    ((r.deliver id).deliver id).nextFrame j = some frame := by
  have hjid : j ≠ id := hothers j hj
  have henqueue : t.enqueue frame = { t with queue := [frame] } := by
    simp [RelaySession.enqueue, hqueue, maxQueuedFrames]
  suffices hlookup : ((r.deliver id).deliver id).serving.lookup j =
      some { t with queue := [frame] } by
    simp only [nextFrame, hlookup, hstage, hfree]
  rcases targets with _ | ⟨x, _ | ⟨y, rest⟩⟩
  · cases hj
  · obtain rfl := List.mem_singleton.mp hj
    have hfirst := lookup_deliver hs hnext hjid
    have hempty := (hfirst id).trans (if_pos rfl)
    rw [deliver_of_none hempty rfl, hfirst, if_neg hjid, if_pos rfl, ht, Option.map_some, henqueue]
  · obtain rfl : rest = [] := List.eq_nil_of_length_eq_zero (by simpa using htwo)
    have hxid : x ≠ id := hothers x List.mem_cons_self
    have hyid : y ≠ id := hothers y (List.mem_cons_of_mem _ List.mem_cons_self)
    have hxy : x ≠ y := by simpa using hnodup
    have hfirst := lookup_deliver hs hnext hxid
    have hsecond := lookup_deliver ((hfirst id).trans (if_pos rfl)) rfl hyid
    rw [hsecond, if_neg hjid, hfirst, if_neg hjid]
    rcases List.mem_cons.mp hj with rfl | hj
    · rw [if_neg hxy, if_pos rfl, ht, Option.map_some, henqueue]
    · obtain rfl := List.mem_singleton.mp hj
      rw [if_pos rfl, if_neg (Ne.symm hxy), ht, Option.map_some, henqueue]

end Relay

theorem RelayDriver.trySend_queued {P : Primitives} {hostOf : String → Option String}
    {d : RelayDriver} {book : TagBook} {destination : NodeId} (datagram : List UInt8) {nowUnix : ℕ}
    {host : String} {tag : Tag} (hstop : d.stop = false) (hphase : d.phase = .pumping)
    (hhost : d.currentHost hostOf = some host) (hcapacity : d.hasCapacity = true)
    (htag : (book.tagForSend P destination host nowUnix).2 = some tag) :
    d.trySend P hostOf (some book) destination datagram nowUnix =
      ({ d with outbound := d.outbound ++ [.sendTag tag datagram] },
        some (book.tagForSend P destination host nowUnix).1, .queued) := by
  have hrunning : d.phase ≠ .over := by simp [hphase]
  rw [trySend, if_neg (by simp [hstop])]
  simp only [tagFor_eq, hhost]
  rcases hsend : book.tagForSend P destination host nowUnix with ⟨next, chosen⟩
  rw [hsend] at htag
  cases htag
  simp only [enqueue, if_neg hrunning, hcapacity, if_true]

namespace TagNetwork
variable {ι κ : Type} [DecidableEq ι] [DecidableEq κ]
variable {P : Primitives} {config : RelayConfig} {hostOf : String → Option String} {owner : ι → κ}
variable {n : TagNetwork ι κ} {i j : ι} {id : ℕ} {host : String}

/-- A driver with a session that has nothing of its own to write, and nothing on its way up. -/
structure Ready (hostOf : String → Option String) (n : TagNetwork ι κ) (i : ι) (id : ℕ)
    (host : String) : Prop where
  session : n.session i = some id
  phase : (n.drivers i).phase = .pumping
  running : (n.drivers i).stop = false
  host : (n.drivers i).currentHost hostOf = some host
  idle : (n.drivers i).outbound = []
  wire : (n.wires.lookup id).map Wire.up = some []
  relay : (n.relay.serving.lookup id).any RelaySession.takesTags = true

structure Listening (hostOf : String → Option String) (n : TagNetwork ι κ) (j : ι) (id : ℕ)
    (host : String) : Prop where
  session : n.session j = some id
  phase : (n.drivers j).phase = .pumping
  host : n.host hostOf j = host
  wire : (n.wires.lookup id).map Wire.down = some []
  relay : (n.relay.serving.lookup id).any RelaySession.isQuiet = true

theorem write_trySend {destination : NodeId} (datagram : List UInt8) {nowUnix : ℕ}
    (now : ℕ) {tag : Tag} (h : n.Ready hostOf i id host) {down : List (List UInt8)}
    (hwire : n.wires.lookup id = some ⟨[], down⟩)
    (htag : ((n.books (owner i)).tagForSend P destination host nowUnix).2 = some tag) :
    ∃ book d, (n.trySend P hostOf owner i destination datagram nowUnix).write owner i now =
      { n with
        books := Function.update n.books (owner i) book
        drivers := Function.update n.drivers i d
        wires := n.wires.insert id ⟨[(Frame.sendTag tag datagram).encode], down⟩ } := by
  have hroom : (n.drivers i).hasCapacity = true := by
    simp [RelayDriver.hasCapacity, h.idle, maxQueuedFrames]
  have hsend := RelayDriver.trySend_queued datagram h.running h.phase h.host hroom htag
  rw [h.idle, List.nil_append] at hsend
  refine ⟨((n.books (owner i)).tagForSend P destination host nowUnix).1,
    { n.drivers i with outbound := [] }, ?_⟩
  simp only [trySend, hsend, Option.getD_some, setBook, write, h.session, h.phase, task,
    RelayDriver.step, sendUp, Function.update_self, Function.update_idem, hwire, if_true,
    List.tail_cons, List.nil_append]

/-- The steps that take a datagram from one driver to the other. -/
def exchange (i : ι) (idA idB : ℕ) (destination : NodeId) (datagram : List UInt8) (sentAt now : ℕ) :
    List (NetworkEvent ι κ) :=
  [.trySend i destination datagram sentAt, .write i now, .carry idA true, .relay (.deliver idA),
    .relay (.deliver idA), .drain idB true]

omit [DecidableEq ι] [DecidableEq κ] in
variable (n) in
theorem carry_of_reads {bytes : List UInt8} {rest down : List (List UInt8)}
    (hwire : n.wires.lookup id = some ⟨bytes :: rest, down⟩)
    (hreads : n.relay.reads (.receive id (.binary bytes) true) = some id) :
    n.carry id true =
      { n with
        relay := n.relay.receive id (.binary bytes) true
        wires := n.wires.insert id ⟨rest, down⟩ } := by
  simp only [carry, hwire, hreads, if_true]

omit [DecidableEq ι] [DecidableEq κ] in
variable (n) in
theorem drain_of_nextFrame {frame : Frame} {w : Wire} (hwire : n.wires.lookup id = some w)
    (hnext : n.relay.nextFrame id = some frame) :
    n.drain id true =
      { n with
        relay := n.relay.drain id true
        wires := n.wires.insert id { w with down := w.down ++ [frame.encode] } } := by
  simp only [drain, hwire, hnext, if_true]

variable (config) in
theorem nextDown_exchange {idA idB : ℕ} {destination : NodeId} {datagram : List UInt8} {sentAt : ℕ}
    (now : ℕ) {tag : Tag} (hregular : n.Regular P) (hi : n.Ready hostOf i idA host)
    (hj : n.Listening hostOf j idB host) (hij : j ≠ i) (hids : idB ≠ idA)
    (howner : owner j ≠ owner i) (hdatagram : (Frame.sendTag tag datagram).InBounds)
    (htag : ((n.books (owner i)).tagForSend P destination host sentAt).2 = some tag)
    (hseat : idB ∈ Seats.holders n.relay.tags tag) :
    let n' := run (step P config hostOf owner) n
      (exchange i idA idB destination datagram sentAt now)
    (∃ w, n'.nextDown j = some (idB, w, (Frame.recvTag tag datagram).encode)) ∧
      n'.books (owner j) = n.books (owner j) ∧ n'.host hostOf j = host := by
  obtain ⟨⟨_, down⟩, hwireA, rfl⟩ := Option.map_eq_some_iff.mp hi.wire
  obtain ⟨⟨up, _⟩, hwireB, rfl⟩ := Option.map_eq_some_iff.mp hj.wire
  obtain ⟨s, hs, hloopA⟩ := (Option.any_eq_true _ _).mp hi.relay
  obtain ⟨t, ht, hloopB⟩ := (Option.any_eq_true _ _).mp hj.relay
  obtain ⟨⟨current, hstageA⟩, hfreeA⟩ := RelaySession.takesTags_iff.mp hloopA
  obtain ⟨⟨mode, hstageB⟩, hfreeB, hqueueB⟩ := RelaySession.isQuiet_iff.mp hloopB
  -- the sender writes, and the relay looks up who holds the tag
  obtain ⟨book, d, hwritten⟩ := write_trySend datagram now hi hwireA htag
  generalize hbytes : (Frame.sendTag tag datagram).encode = bytes at hwritten
  have hreads : n.relay.reads (.receive idA (.binary bytes) true) = some idA := by
    simp only [Relay.reads, hs, hstageA, hfreeA]
  have hlooked := Relay.lookup_receive_sendTag hs hstageA hfreeA hdatagram
  rw [hbytes] at hlooked
  -- the holders of the tag but the sender are handed the datagram
  have hseated := hregular.registry.rows.seated tag
  have hframe :
      (((n.relay.receive idA (.binary bytes) true).deliver idA).deliver idA).nextFrame idB =
      some (.recvTag tag datagram) := by
    refine Relay.nextFrame_deliver_twice ((hlooked idA).trans (if_pos rfl)) rfl ?_
      (hseated.nodup.filter _) ((List.length_filter_le _ _).trans hseated.length_le) ?_
      ((hlooked idB).trans (if_neg hids) |>.trans ht) hstageB hfreeB hqueueB
    · intro x hx
      simpa using (List.mem_filter.mp hx).2
    · exact List.mem_filter.mpr ⟨hseat, by simpa using hids⟩
  intro n'
  have hn' : n' =
      { n with
        books := Function.update n.books (owner i) book
        drivers := Function.update n.drivers i d
        relay :=
          (((n.relay.receive idA (.binary bytes) true).deliver idA).deliver idA).drain idB true
        wires := ((n.wires.insert idA ⟨[bytes], down⟩).insert idA ⟨[], down⟩).insert idB
          ⟨up, [(Frame.recvTag tag datagram).encode]⟩ } := by
    have hsecond : ((n.wires.insert idA ⟨[bytes], down⟩).insert idA ⟨[], down⟩).lookup idB =
        some ⟨up, []⟩ := by
      rw [AList.lookup_insert_ne hids, AList.lookup_insert_ne hids, hwireB]
    have hcarried := carry_of_reads
      { n with
        books := Function.update n.books (owner i) book
        drivers := Function.update n.drivers i d
        wires := n.wires.insert idA ⟨[bytes], down⟩ } (AList.lookup_insert _) hreads
    simp only [n', exchange, run_cons, run_nil, step, hwritten, hcarried, stranger,
      if_true, Relay.step]
    exact drain_of_nextFrame
      { n with
        books := Function.update n.books (owner i) book
        drivers := Function.update n.drivers i d
        relay := ((n.relay.receive idA (.binary bytes) true).deliver idA).deliver idA
        wires := (n.wires.insert idA ⟨[bytes], down⟩).insert idA ⟨[], down⟩ } hsecond hframe
  rw [hn']
  have hdriver : Function.update n.drivers i d j = n.drivers j := Function.update_of_ne hij _ _
  refine ⟨⟨⟨up, []⟩, ?_⟩, Function.update_of_ne howner _ _, ?_⟩
  · simp only [nextDown, hj.session, hdriver, hj.phase, AList.lookup_insert]
  · simp only [TagNetwork.host, hdriver]
    exact hj.host

/-- From every state of the network: a datagram for a paired end whose registration is at the relay
arrives there, and is handed up as one of the end that sent it. -/
theorem paired_datagram_arrives (P : Primitives) (config : RelayConfig)
    (hostOf : String → Option String) (owner : ι → κ) (peers : κ → Table NodeId RendezvousPeer)
    (paired : κ → Table NodeId (Block 32)) (urls : ι → List String) (es : List (NetworkEvent ι κ))
    (n : TagNetwork ι κ) (hn : n = run (step P config hostOf owner) (start peers paired urls) es)
    (i j : ι) (idA idB : ℕ) (host : String) (a b : NodeId) (material : Material)
    (datagram : List UInt8) (registeredAt sentAt readAt now : ℕ)
    (hi : n.Ready hostOf i idA host) (hj : n.Listening hostOf j idB host) (hids : idB ≠ idA)
    (howner : owner j ≠ owner i) (hdatagram : 1 ≤ datagram.length ∧ datagram.length ≤ maxDatagram)
    (hshares : TagBook.Shares (n.books (owner i)) (n.books (owner j)) b a)
    (hmaterial : (n.books (owner i)).chosen b = some material)
    (hregistered : ∀ tag ∈ ((n.books (owner j)).registration P host registeredAt).2,
      idB ∈ Seats.holders n.relay.tags tag)
    (hskew : sentAt ≤ registeredAt + 3600 ∧ registeredAt ≤ sentAt + 3600)
    (hskew' : sentAt ≤ readAt + 3600 ∧ readAt ≤ sentAt + 3600)
    (hfreshA : (n.books (owner i)).FreshAt b sentAt)
    (hfreshB : (n.books (owner j)).FreshAt a registeredAt ∧ (n.books (owner j)).FreshAt a readAt)
    (hdistinct : TagBook.DistinctTags P ((n.books (owner j)).pruneExpired readAt) host
      (TagBook.window readAt))
    (honly : ((n.books (owner j)).pruneExpired readAt).OnlyUnder material a) :
    (run (step P config hostOf owner) n (exchange i idA idB b datagram sentAt now)).handsUp
      P hostOf owner (.read j readAt now) = some (a, datagram) := by
  have hregular : n.Regular P := by
    rw [hn]
    exact regular_run P config hostOf owner peers paired urls es
  have hchosen : (n.books (owner j)).chosen a = some material := hshares.chosen.trans hmaterial
  -- both ends derive the same tag, in an epoch that the other end has registered and looks for
  have htag : ((n.books (owner i)).tagForSend P b host sentAt).2 =
      some (material.tag P host (epochIndex sentAt)) := by
    rw [TagBook.tagForSend_eq (hregular.cacheExact _), TagBook.derive_eq,
      TagBook.chosen_of_fresh hfreshA, hmaterial]
    rfl
  have hregister := (TagBook.registered_of_chosen P host
    (TagBook.epochIndex_mem_window hskew.1 hskew.2)
    ((TagBook.chosen_of_fresh hfreshB.1).trans hchosen)).1
  have hresolve := (TagBook.registered_of_chosen P host
    (TagBook.epochIndex_mem_window hskew'.1 hskew'.2)
    ((TagBook.chosen_of_fresh hfreshB.2).trans hchosen)).2 hdistinct honly
  have hij : j ≠ i := fun h => howner (congrArg owner h)
  obtain ⟨⟨w, hnext⟩, hbook, hhost⟩ := nextDown_exchange config now hregular hi hj hij hids howner
    hdatagram htag (hregistered _ hregister)
  have hdecode :
      Frame.decode (Frame.recvTag (material.tag P host (epochIndex sentAt)) datagram).encode =
      some (.recvTag (material.tag P host (epochIndex sentAt)) datagram) :=
    Frame.decode_complete hdatagram
  simp only [handsUp, hnext, hdecode, hbook, hhost, hresolve, Option.map_some]

section Example

def exampleName (k : Bool) : NodeId := TagBook.nodeOf (if k then 1 else 2)

def exampleSecret : Block 32 := readBlock 32 [8] 0

def exampleJoined : List (NetworkEvent Bool Bool) :=
  exampleDialled fun _ => [0, 1, 2].map (derivePairedRouteTag .standIn exampleSecret "")

theorem example_datagram_arrives :
    let paired := fun k : Bool => (∅ : Table NodeId (Block 32)).insert
      (exampleName !k) exampleSecret
    let joined := run (step .standIn .default (fun _ => some "") fun k => k)
      (start (fun _ => ∅) paired fun _ => ["wss://relay"]) exampleJoined
    (run (step .standIn .default (fun _ => some "") fun k => k) joined
      (exchange true 1 2 (exampleName false) [5] 4000 1)).handsUp .standIn (fun _ => some "")
        (fun k => k) (.read false 7000 1) = some (exampleName true, [5]) := by
  intro paired joined
  refine paired_datagram_arrives .standIn .default (fun _ => some "") (fun k => k)
    (fun _ => ∅) paired (fun _ => ["wss://relay"]) exampleJoined _ rfl true false 1 2 ""
    (exampleName true) (exampleName false) (.paired exampleSecret) [5] 4000 4000 7000 1 ?_ ?_
    (by decide) (by decide) (by decide) ?_ (by decide +kernel) (by decide +kernel) (by decide)
    (by decide) (by decide +kernel) (by decide +kernel) (by decide +kernel) (by decide +kernel)
  · exact ⟨by decide +kernel, by decide +kernel, by decide +kernel, by decide +kernel,
      by decide +kernel, by decide +kernel, by decide +kernel⟩
  · exact ⟨by decide +kernel, by decide +kernel, by decide +kernel, by decide +kernel,
      by decide +kernel⟩
  · exact ⟨by decide +kernel, by decide +kernel, by decide +kernel, by decide +kernel⟩

end Example

end TagNetwork
end ForgeswornLink
