import ForgeswornLink.CardBytes
import ForgeswornLink.Lib.Runs

/-!
# Cards an endpoint issues

`Endpoint::card` puts the caller's hints behind as many of the endpoint's own as
sixteen leave room for, and signs with the next serial. It counts hints, while
rule 1 counts bytes, so a card verifies exactly if its hints fit. The serial is
a ratchet over the counter and the clock that saturates at the top of `u64`;
what one process hands out is the seed of the next, so the serials of a key are
one sequence over all restarts. A card is issued by one atomic update with a
clock reading taken some time before it, and readings are arbitrary, so the order
of the events is the order of the updates of any number of concurrent calls.
-/

namespace ForgeswornLink
open ByteString Runs

namespace Hint

def relay (url : String) : Hint := ⟨hintRelay, url.toUTF8.data.toList⟩

def udp (addr : SocketAddr) : Hint := ⟨hintUdp, addr.toIpv6.toList ++ toBe 2 addr.port.toNat⟩

theorem relay_length (url : String) : (relay url).value.length = url.utf8ByteSize := by
  simp [relay]

theorem relay_wellFormed (P : Primitives) {url : String} (hmin : 1 ≤ url.utf8ByteSize)
    (hmax : url.utf8ByteSize ≤ 255) : (relay url).WellFormed P := by
  have hlength := relay_length url
  refine ⟨fun _ => ⟨by omega, by rw [maxRelayHintBytes]; omega⟩, ?_, ?_, ?_, by omega⟩
  all_goals
    intro hkind
    exact absurd hkind (by simp [relay, hintRelay, hintUdp, hintOnion, hintEphemeral])

theorem udp_length (addr : SocketAddr) : (udp addr).value.length = 18 := by
  simp [udp, toBe_length]

theorem udp_wellFormed (P : Primitives) (addr : SocketAddr) : (udp addr).WellFormed P := by
  have hlength := udp_length addr
  refine ⟨?_, fun _ => hlength, ?_, ?_, by omega⟩
  all_goals
    intro hkind
    exact absurd hkind (by simp [udp, hintRelay, hintUdp, hintOnion, hintEphemeral])

end Hint

def u64Max : UInt64 := UInt64.ofNat (2 ^ 64 - 1)

theorem toNat_max (a b : UInt64) : (max a b).toNat = max a.toNat b.toNat := by
  change (if a ≤ b then b else a).toNat = _
  split_ifs with h
  all_goals
    rw [UInt64.le_iff_toNat_le] at h
    omega

theorem toNat_min (a b : UInt64) : (min a b).toNat = min a.toNat b.toNat := by
  change (if a ≤ b then a else b).toNat = _
  split_ifs with h
  all_goals
    rw [UInt64.le_iff_toNat_le] at h
    omega

structure Issuer where
  key : TransportKey
  relays : List String
  allowDirect : Bool
  serial : UInt64

/-- The next serial: above the last one while there is one above it, and not behind the clock. -/
def ratchet (last now : UInt64) : UInt64 := max (saturatingAdd last 1) now

theorem ratchet_toNat (last now : UInt64) :
    (ratchet last now).toNat = max (min (last.toNat + 1) (2 ^ 64 - 1)) now.toNat := by
  rw [ratchet, toNat_max, saturatingAdd_toNat]
  rfl

namespace Issuer

/-- `Endpoint::open`: a seed with nothing above it is refused. -/
def openWith (key : TransportKey) (relays : List String) (allowDirect : Bool)
    (serialSeed : Option UInt64) (wallClock : UInt64) : Option Issuer :=
  if serialSeed = some u64Max then none
  else some ⟨key, relays, allowDirect, max (serialSeed.getD 0) wallClock⟩

/-- The endpoint's own hints are cut to the space the caller's leave. -/
def hints (i : Issuer) (candidates : List SocketAddr) (extra : List Hint) : List Hint :=
  let own := i.relays.map Hint.relay ++ if i.allowDirect then candidates.map Hint.udp else []
  let extra := extra.take maxHints
  own.take (maxHints - extra.length) ++ extra

def clampTtl (ttl : UInt64) : UInt64 := min (max ttl 1) maxLifetimeSeconds

def card (P : Primitives) (i : Issuer) (candidates : List SocketAddr) (now ttl : UInt64)
    (extra : List Hint) : Issuer × Card :=
  let last := i.serial
  ({ i with serial := ratchet last now },
    Card.sign P i.key now (now + clampTtl ttl) (ratchet last now) (i.hints candidates extra))

theorem hints_length (i : Issuer) (candidates : List SocketAddr) (extra : List Hint) :
    (i.hints candidates extra).length ≤ maxHints := by
  simp only [hints, List.length_append, List.length_take]
  omega

/-- What the endpoint's own hints take in a card: a kind, a length and the value. -/
def ownSizes (i : Issuer) (candidates : List SocketAddr) : List ℕ :=
  i.relays.map (fun url => 3 + url.utf8ByteSize) ++
    if i.allowDirect then candidates.map (fun _ => 3 + 18) else []

theorem encodedLen_hints (i : Issuer) (candidates : List SocketAddr) {extra : List Hint}
    (h : extra.length ≤ maxHints) :
    ((i.hints candidates extra).map Hint.encodedLen).sum =
      ((i.ownSizes candidates).take (maxHints - extra.length)).sum +
        (extra.map Hint.encodedLen).sum := by
  have hrelay : Hint.encodedLen ∘ Hint.relay = fun url => 3 + url.utf8ByteSize := by
    funext url
    rw [Function.comp_apply, Hint.encodedLen, Hint.relay_length]
  have hudp : Hint.encodedLen ∘ Hint.udp = fun _ => 3 + 18 := by
    funext addr
    rw [Function.comp_apply, Hint.encodedLen, Hint.udp_length]
  rw [hints, List.take_of_length_le h, List.map_append, List.sum_append, List.map_take,
    List.map_append, List.map_map, hrelay, apply_ite (List.map Hint.encodedLen), List.map_map, hudp]
  rfl

theorem mem_hints {i : Issuer} {candidates : List SocketAddr} {extra : List Hint} {hint : Hint}
    (h : hint ∈ i.hints candidates extra) :
    (∃ url ∈ i.relays, hint = .relay url) ∨ (∃ addr, hint = .udp addr) ∨ hint ∈ extra := by
  simp only [hints, List.mem_append] at h
  rcases h with hown | hextra
  · rcases List.mem_append.mp (List.mem_of_mem_take hown) with hrelay | hudp
    · obtain ⟨url, hurl, rfl⟩ := List.mem_map.mp hrelay
      exact Or.inl ⟨url, hurl, rfl⟩
    · split_ifs at hudp
      · obtain ⟨addr, -, rfl⟩ := List.mem_map.mp hudp
        exact Or.inr (Or.inl ⟨addr, rfl⟩)
      · cases hudp
  · exact Or.inr (Or.inr (List.mem_of_mem_take hextra))

theorem extra_subset_hints (i : Issuer) (candidates : List SocketAddr) {extra : List Hint}
    (h : extra.length ≤ maxHints) : ∀ hint ∈ extra, hint ∈ i.hints candidates extra := by
  intro hint hmem
  rw [hints, List.take_of_length_le h]
  exact List.mem_append_right _ hmem

theorem ephemeral_hints (i : Issuer) (candidates : List SocketAddr) (extra : List Hint) :
    (i.hints candidates extra).countP (fun hint => hint.kind == hintEphemeral) ≤
      extra.countP fun hint => hint.kind == hintEphemeral := by
  simp only [hints, List.countP_append]
  have hown : ((i.relays.map Hint.relay ++
      if i.allowDirect then candidates.map Hint.udp else []).take
        (maxHints - (extra.take maxHints).length)).countP
          (fun hint => hint.kind == hintEphemeral) = 0 := by
    rw [List.countP_eq_zero]
    intro hint hmem
    rcases List.mem_append.mp (List.mem_of_mem_take hmem) with hrelay | hudp
    · obtain ⟨url, -, rfl⟩ := List.mem_map.mp hrelay
      simp [Hint.relay, hintRelay, hintEphemeral]
    · split_ifs at hudp
      · obtain ⟨addr, -, rfl⟩ := List.mem_map.mp hudp
        simp [Hint.udp, hintUdp, hintEphemeral]
      · cases hudp
  rw [hown, Nat.zero_add]
  exact (List.take_sublist _ _).countP_le

theorem clampTtl_bounds (ttl : UInt64) :
    1 ≤ (clampTtl ttl).toNat ∧ (clampTtl ttl).toNat ≤ 604800 := by
  have hmax : maxLifetimeSeconds.toNat = 604800 := rfl
  have hone : (1 : UInt64).toNat = 1 := rfl
  rw [clampTtl, toNat_min, toNat_max, hmax, hone]
  omega

theorem signable_iff {P : Primitives} {i : Issuer} {candidates : List SocketAddr} {now ttl : UInt64}
    {extra : List Hint} {highest : UInt64} {expected : Option NodeId}
    (hrelays : ∀ url ∈ i.relays, 1 ≤ url.utf8ByteSize ∧ url.utf8ByteSize ≤ 255)
    (hnow : now.toNat < 2 ^ 63) (hextra : ∀ hint ∈ extra, hint.WellFormed P)
    (hone : extra.countP (fun hint => hint.kind == hintEphemeral) ≤ 1)
    (hhighest : highest < ratchet i.serial now) :
    Card.Signable P ⟨now, highest, expected⟩ now (now + clampTtl ttl) (ratchet i.serial now)
        (i.hints candidates extra) ↔
      126 + ((i.hints candidates extra).map Hint.encodedLen).sum ≤ 4096 := by
  refine ⟨fun h => h.size, fun hsize => ?_⟩
  obtain ⟨hmin, hmax⟩ := clampTtl_bounds ttl
  have hexpires : (now + clampTtl ttl).toNat = now.toNat + (clampTtl ttl).toNat := by
    rw [UInt64.toNat_add, Nat.mod_eq_of_lt (by omega)]
  have hwell : ∀ hint ∈ i.hints candidates extra, hint.WellFormed P := by
    intro hint hmem
    rcases mem_hints hmem with ⟨url, hurl, rfl⟩ | ⟨addr, rfl⟩ | hmem
    · exact Hint.relay_wellFormed P (hrelays url hurl).1 (hrelays url hurl).2
    · exact Hint.udp_wellFormed P addr
    · exact hextra hint hmem
  exact
    { size := hsize
      atMost := hints_length i candidates extra
      wellFormed := hwell
      oneEphemeral := (ephemeral_hints i candidates extra).trans hone
      issued := Nat.le_add_right _ _
      live := by simp only [hexpires]; omega
      after := by rw [hexpires]; omega
      lifetime := by rw [hexpires]; omega
      fresh := UInt64.lt_iff_toNat_lt.mp hhighest }

/-- The card passes its own verifier at the time of issue, under the endpoint's
node id and with any older serial seen, and has all the caller's hints, exactly
if as many of the endpoint's own hints as these leave room for, and these, fit a
card of 4096 bytes. -/
theorem issued_card_verifies_iff (P : Primitives) (hP : Card.SignaturesVerify P) (i : Issuer)
    (candidates : List SocketAddr) (now ttl : UInt64) (extra : List Hint) (highest : UInt64)
    (hrelays : ∀ url ∈ i.relays, 1 ≤ url.utf8ByteSize ∧ url.utf8ByteSize ≤ 255)
    (hnow : now.toNat < 2 ^ 63) (hcount : extra.length ≤ maxHints)
    (hextra : ∀ hint ∈ extra, hint.WellFormed P)
    (hone : extra.countP (fun hint => hint.kind == hintEphemeral) ≤ 1)
    (hhighest : highest < (i.card P candidates now ttl extra).2.serial) :
    (Card.verify P (i.card P candidates now ttl extra).2.asBytes
        ⟨now, highest, some (i.key.nodeId P)⟩ = .ok (i.card P candidates now ttl extra).2 ∧
      ∀ hint ∈ extra, hint ∈ (i.card P candidates now ttl extra).2.hints) ↔
    126 + (((i.ownSizes candidates).take (maxHints - extra.length)).sum +
      (extra.map Hint.encodedLen).sum) ≤ 4096 := by
  rw [← encodedLen_hints i candidates hcount]
  have hlayout := Card.sign_layout P i.key now (now + clampTtl ttl) (ratchet i.serial now)
    (i.hints candidates extra)
  constructor
  · rintro ⟨hok, -⟩
    have hrules := (Card.verify_reports_least_violation P _ _).1.mp ⟨_, hok⟩
    exact (hlayout.signable_iff.mpr fun rule _ => hrules rule).size
  · intro hsize
    have hsignable : Card.Signable P ⟨now, highest, some (i.key.nodeId P)⟩ now
        (now + clampTtl ttl) (ratchet i.serial now) (i.hints candidates extra) :=
      (signable_iff hrelays hnow hextra hone hhighest).mpr hsize
    exact ⟨hlayout.verify_eq hsignable (hP i.key.seed _) rfl,
      extra_subset_hints i candidates hcount⟩

theorem issued_card_verifies_small :
    Card.verify Primitives.standIn
        (card Primitives.standIn ⟨⟨List.Vector.replicate 32 7⟩, ["wss://relay"], true, 5⟩
          [.v4 (List.Vector.replicate 4 10) 443] 1000 0
            [⟨hintEphemeral, List.replicate 33 2⟩]).2.asBytes
        ⟨1000, 999, some ⟨List.Vector.replicate 32 7⟩⟩ =
      .ok (card Primitives.standIn ⟨⟨List.Vector.replicate 32 7⟩, ["wss://relay"], true, 5⟩
        [.v4 (List.Vector.replicate 4 10) 443] 1000 0
          [⟨hintEphemeral, List.replicate 33 2⟩]).2 := by
  have hP : Card.SignaturesVerify Primitives.standIn := fun _ _ => beq_self_eq_true _
  refine ((issued_card_verifies_iff Primitives.standIn hP
    ⟨⟨List.Vector.replicate 32 7⟩, ["wss://relay"], true, 5⟩ _ 1000 0 _ 999
    ?_ (by decide) (by decide) ?_ (by decide) (by decide)).mpr (by decide +kernel)).1
  · intro url hurl
    rw [List.mem_singleton.mp hurl]
    decide
  · intro hint hmem
    rw [List.mem_singleton.mp hmem]
    exact ⟨by decide, by decide, by decide, by decide, by decide⟩

def longUrl : String := "wss://" ++ String.ofList (List.replicate 249 'r')

theorem longUrl_size : longUrl.utf8ByteSize = 255 := by decide +kernel

def longIssuer : Issuer := ⟨⟨List.Vector.replicate 32 7⟩, List.replicate 16 longUrl, false, 5⟩

theorem hints_longIssuer :
    ((longIssuer.hints [] []).map Hint.encodedLen).sum = 16 * (3 + 255) := by
  have hhints : longIssuer.hints [] [] = List.replicate 16 (Hint.relay longUrl) := by
    simp [hints, longIssuer, maxHints]
  have hlen : (Hint.relay longUrl).encodedLen = 3 + 255 := by
    rw [Hint.encodedLen, Hint.relay_length, longUrl_size]
  rw [hhints, List.map_replicate, hlen]
  rfl

theorem verify_too_long (P : Primitives) {bytes : List UInt8} (ctx : VerifyContext)
    (h : maxCardBytes < bytes.length) :
    Card.verify P bytes ctx = .error (fail 1 "card longer than the 4096 byte maximum") := by
  have hmin : ¬ bytes.length < minCardBytes := by
    rw [maxCardBytes] at h
    rw [minCardBytes]
    omega
  simp only [Card.verify, OrderedChecks.deny, if_neg hmin, if_pos h]
  rfl

/-- Sixteen relays with URLs of 255 bytes are within every bound on the
configuration, and the card is longer than a card may be. -/
theorem long_relays_fail_rule_one :
    (∀ url ∈ longIssuer.relays, 1 ≤ url.utf8ByteSize ∧ url.utf8ByteSize ≤ 255) ∧
    (longIssuer.card Primitives.standIn [] 1000 3600 []).2.asBytes.length = 4254 ∧
    Card.verify Primitives.standIn (longIssuer.card Primitives.standIn [] 1000 3600 []).2.asBytes
        ⟨1000, 999, some (longIssuer.key.nodeId Primitives.standIn)⟩ =
      .error (fail 1 "card longer than the 4096 byte maximum") := by
  have hurls : ∀ url ∈ longIssuer.relays, url.utf8ByteSize = 255 := by
    intro url hurl
    have heq : url = longUrl := List.eq_of_mem_replicate (n := 16) hurl
    rw [heq]
    exact longUrl_size
  have hlength : (longIssuer.card Primitives.standIn [] 1000 3600 []).2.asBytes.length = 4254 := by
    have hsize := (Card.sign_layout Primitives.standIn longIssuer.key 1000 (1000 + clampTtl 3600)
      (ratchet longIssuer.serial 1000) (longIssuer.hints [] [])).size
    rw [hints_longIssuer] at hsize
    exact hsize
  refine ⟨fun url hurl => by rw [hurls url hurl]; decide, hlength, verify_too_long _ _ ?_⟩
  rw [hlength, maxCardBytes]
  omega

end Issuer

structure Issued where
  seed : UInt64
  serial : UInt64

/-- The life of a key: the running endpoint, unless the last open was refused, its
seed, and what was issued, oldest first. -/
structure KeyLife where
  running : Option Issuer
  seed : UInt64
  issued : List Issued

inductive LifeEvent where
  | card (candidates : List SocketAddr) (now ttl : UInt64) (extra : List Hint)
  | restart (wallClock : UInt64)

namespace KeyLife

def start (key : TransportKey) (relays : List String) (allowDirect : Bool)
    (serialSeed : Option UInt64) (wallClock : UInt64) : KeyLife :=
  ⟨Issuer.openWith key relays allowDirect serialSeed wallClock, serialSeed.getD 0, []⟩

def highest (life : KeyLife) : UInt64 :=
  life.issued.foldl (fun m entry => max m entry.serial) life.seed

def step (P : Primitives) (life : KeyLife) : LifeEvent → KeyLife
  | .card candidates now ttl extra =>
    match life.running with
    | none => life
    | some i =>
      let (i, card) := i.card P candidates now ttl extra
      { life with running := some i, issued := life.issued ++ [⟨life.seed, card.serial⟩] }
  | .restart wallClock =>
    match life.running with
    | none => life
    | some i =>
      { life with
        running := Issuer.openWith i.key i.relays i.allowDirect (some life.highest) wallClock
        seed := life.highest }

def Increasing (life : KeyLife) : Prop :=
  (∀ entry ∈ life.issued, entry.seed < entry.serial) ∧
    life.issued.Pairwise fun first second => first.serial < second.serial

def SerialLeft (life : KeyLife) : LifeEvent → Prop
  | .card _ _ _ _ => life.running.isSome → ∀ entry ∈ life.issued, entry.serial ≠ u64Max
  | .restart _ => True

def Covered (life : KeyLife) : Prop :=
  ∀ i, life.running = some i → life.seed.toNat < 2 ^ 64 - 1 ∧ life.seed.toNat ≤ i.serial.toNat ∧
    ∀ entry ∈ life.issued, entry.serial.toNat ≤ i.serial.toNat

theorem le_highest (life : KeyLife) :
    life.seed.toNat ≤ life.highest.toNat ∧
      ∀ entry ∈ life.issued, entry.serial.toNat ≤ life.highest.toNat := by
  obtain ⟨running, seed, issued⟩ := life
  simp only [highest]
  induction issued generalizing seed with
  | nil => simp
  | cons entry issued ih =>
    obtain ⟨hseed, hrest⟩ := ih (max seed entry.serial)
    rw [toNat_max] at hseed
    simp only [List.foldl_cons, List.forall_mem_cons]
    exact ⟨by omega, by omega, hrest⟩

theorem serial_openWith {key : TransportKey} {relays : List String} {allowDirect : Bool}
    {seed wallClock : UInt64} {i : Issuer}
    (h : Issuer.openWith key relays allowDirect (some seed) wallClock = some i) :
    seed.toNat < 2 ^ 64 - 1 ∧ seed.toNat ≤ i.serial.toNat := by
  rw [Issuer.openWith] at h
  split_ifs at h with hseed
  have hmax : seed.toNat ≠ u64Max.toNat := fun heq =>
    hseed (congrArg some (UInt64.toNat_inj.mp heq))
  have hvalue : u64Max.toNat = 2 ^ 64 - 1 := by decide
  have hlt := seed.toNat_lt
  rw [← Option.some.inj h]
  simp only [Option.getD_some, toNat_max]
  omega

theorem covered_start (key : TransportKey) (relays : List String) (allowDirect : Bool)
    (serialSeed : Option UInt64) (wallClock : UInt64) :
    (start key relays allowDirect serialSeed wallClock).Covered := by
  intro i hi
  have hopen : Issuer.openWith key relays allowDirect (some (serialSeed.getD 0))
      wallClock = some i := by
    cases serialSeed with
    | none => exact hi
    | some seed => exact hi
  obtain ⟨hlt, hle⟩ := serial_openWith hopen
  refine ⟨hlt, hle, ?_⟩
  simp [start]

theorem covered_step {P : Primitives} {life : KeyLife} (h : life.Covered) (e : LifeEvent) :
    (life.step P e).Covered := by
  cases hrunning : life.running with
  | none => cases e <;> simpa only [step, hrunning] using h
  | some i =>
    obtain ⟨hlt, hle, hissued⟩ := h i hrunning
    cases e with
    | card candidates now ttl extra =>
      have hnext := ratchet_toNat i.serial now
      have hbound := i.serial.toNat_lt
      intro i' hi'
      simp only [step, hrunning, Issuer.card, Option.some.injEq] at hi' ⊢
      subst hi'
      refine ⟨hlt, by simp only; omega, ?_⟩
      intro entry hentry
      rcases List.mem_append.mp hentry with hold | hnew
      · have := hissued entry hold
        simp only
        omega
      · rw [List.mem_singleton.mp hnew]
        rfl
    | restart wallClock =>
      intro i' hi'
      simp only [step, hrunning] at hi' ⊢
      obtain ⟨hmax, hcover⟩ := serial_openWith hi'
      exact ⟨hmax, hcover, fun entry hentry => (life.le_highest.2 entry hentry).trans hcover⟩

theorem increasing_append {life : KeyLife} {running : Option Issuer} {entry : Issued} :
    Increasing { life with running := running, issued := life.issued ++ [entry] } ↔
      life.Increasing ∧ entry.seed < entry.serial ∧ ∀ e ∈ life.issued, e.serial < entry.serial := by
  simp only [Increasing, List.pairwise_append, List.mem_append, or_imp, forall_and,
    List.mem_singleton, forall_eq, List.pairwise_singleton, true_and]
  tauto

theorem increasing_step {P : Primitives} {life : KeyLife} (h : life.Covered) (e : LifeEvent) :
    (life.step P e).Increasing ↔ life.Increasing ∧ life.SerialLeft e := by
  cases hrunning : life.running with
  | none => cases e <;> simp [step, hrunning, SerialLeft]
  | some i =>
    obtain ⟨hlt, hle, hissued⟩ := h i hrunning
    cases e with
    | card candidates now ttl extra =>
      have hnext := ratchet_toNat i.serial now
      have hnow := now.toNat_lt
      have hvalue : u64Max.toNat = 2 ^ 64 - 1 := by decide
      simp only [step, hrunning, Issuer.card]
      rw [increasing_append]
      refine and_congr_right fun _ => ?_
      simp only [SerialLeft, hrunning, Option.isSome_some, true_imp_iff, Card.sign]
      constructor
      · rintro ⟨-, habove⟩ entry hentry heq
        have := UInt64.lt_iff_toNat_lt.mp (habove entry hentry)
        rw [heq] at this
        omega
      · intro hleft
        refine ⟨UInt64.lt_iff_toNat_lt.mpr (by omega), fun entry hentry =>
          UInt64.lt_iff_toNat_lt.mpr ?_⟩
        have hcovered := hissued entry hentry
        have hbound := entry.serial.toNat_lt
        have hne : entry.serial.toNat ≠ u64Max.toNat := fun heq =>
          hleft entry hentry (UInt64.toNat_inj.mp heq)
        omega
    | restart wallClock => simp [step, hrunning, SerialLeft, Increasing]

/-- Over all restarts of a key, every serial is above the seed of its process and
above all serials issued before it, exactly if no card is asked for once the last
serial has been issued. -/
theorem serials_increase_iff (P : Primitives) (key : TransportKey) (relays : List String)
    (allowDirect : Bool) (serialSeed : Option UInt64) (wallClock : UInt64)
    (events : List LifeEvent) :
    (run (step P) (start key relays allowDirect serialSeed wallClock) events).Increasing ↔
      Always (step P) SerialLeft (start key relays allowDirect serialSeed wallClock) events := by
  induction events using List.reverseRecOn with
  | nil =>
    refine iff_of_true ⟨?_, ?_⟩ (always_nil _ _ _)
    · simp [start]
    · simp [start]
  | append_singleton events e ih =>
    have hcovered :
        (run (step P) (start key relays allowDirect serialSeed wallClock) events).Covered :=
      invariant (step P) (covered_start _ _ _ _ _) (fun _ e h => covered_step h e) events
    rw [run_snoc, always_snoc, increasing_step hcovered, ih]

/-- Two cards from the last seed that is accepted carry the same serial. -/
theorem last_seed_repeats :
    (run (step Primitives.standIn)
        (start ⟨List.Vector.replicate 32 7⟩ ["wss://relay"] false (some (u64Max - 1)) 1000)
        [.card [] 1000 3600 [], .card [] 1001 3600 []]).issued.map Issued.serial =
          [u64Max, u64Max] ∧
    ¬ (run (step Primitives.standIn)
        (start ⟨List.Vector.replicate 32 7⟩ ["wss://relay"] false (some (u64Max - 1)) 1000)
        [.card [] 1000 3600 [], .card [] 1001 3600 []]).Increasing := by
  have hserials : (run (step Primitives.standIn)
      (start ⟨List.Vector.replicate 32 7⟩ ["wss://relay"] false (some (u64Max - 1)) 1000)
      [.card [] 1000 3600 [], .card [] 1001 3600 []]).issued.map Issued.serial =
      [u64Max, u64Max] := by
    decide +kernel
  refine ⟨hserials, fun h => ?_⟩
  have hpairwise := List.pairwise_map.mpr h.2
  rw [hserials] at hpairwise
  exact absurd hpairwise (by decide)

end KeyLife

end ForgeswornLink
