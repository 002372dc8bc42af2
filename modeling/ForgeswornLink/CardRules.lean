import ForgeswornLink.Card

/-!
# The card rules, read declaratively

Spec 2.3 as nine statements about the bytes of a card. The hint region is a
grammar: it is the concatenation of the encodings of a list of well-formed
hints, as many as the count byte says. The offset parser finds such a list
exactly when there is one, and the verifier then reports the least violated
rule.
-/

namespace ForgeswornLink
open ByteString OrderedChecks

namespace Hint

structure WellFormed (P : Primitives) (hint : Hint) : Prop where
  relay : hint.kind = hintRelay → 1 ≤ hint.value.length ∧ hint.value.length ≤ maxRelayHintBytes
  udp : hint.kind = hintUdp → hint.value.length = 18
  onion : hint.kind = hintOnion → hint.value.length = 58
  ephemeral : hint.kind = hintEphemeral →
    hint.value.length = 33 ∧ validCompressedPoint P hint.value = true
  fits : hint.value.length < 2 ^ 16

theorem encode_of_fits {hint : Hint} (h : hint.value.length < 2 ^ 16) :
    hint.encode = hint.kind :: (toBe 2 hint.value.length ++ hint.value) := by
  rw [encode, Nat.mod_eq_of_lt h]

end Hint

namespace Card

theorem checkHint_eq_ok {P : Primitives} {hint : Hint} (hfits : hint.value.length < 2 ^ 16) :
    checkHint P hint.kind hint.value.length hint.value = .ok () ↔ hint.WellFormed P := by
  unfold checkHint
  constructor
  · intro h
    split_ifs at h with h₁ h₂ h₃ h₄ h₅ h₆
    · refine ⟨?_, ?_, ?_, fun _ => ⟨by omega, by simpa using h₆⟩, hfits⟩
      all_goals
        intro hk
        rw [hk] at h₄
        exact absurd h₄ (by decide)
    · refine ⟨?_, ?_, ?_, fun hk => absurd hk h₄, hfits⟩
      · intro hk
        simp only [hk, true_and, not_or] at h₁
        omega
      · intro hk
        simpa [hk] using h₂
      · intro hk
        simpa [hk] using h₃
  · intro hw
    rw [if_neg, if_neg, if_neg]
    · split_ifs with h₄ h₅ h₆
      · exact absurd (hw.ephemeral h₄).1 h₅
      · rw [(hw.ephemeral h₄).2] at h₆
        cases h₆
      · rfl
      · rfl
    · exact fun h => h.2 (hw.onion h.1)
    · exact fun h => h.2 (hw.udp h.1)
    · rintro ⟨hk, hlen⟩
      have := hw.relay hk
      omega

theorem checkHint_rule {P : Primitives} {kind : UInt8} {length : ℕ} {value : List UInt8}
    {v : RuleViolation} (h : checkHint P kind length value = .error v) : v.rule = 3 := by
  unfold checkHint at h
  split_ifs at h <;> cases h <;> rfl

theorem parseHint_rule {P : Primitives} {bytes : List UInt8} {hintsEnd offset : ℕ}
    {v : RuleViolation} (h : parseHint P bytes hintsEnd offset = .error v) : v.rule = 3 := by
  unfold parseHint at h
  dsimp only at h
  split_ifs at h with h₁
  · cases h
    rfl
  · split at h
    · cases h
      rfl
    · split_ifs at h with h₂
      · cases h
        rfl
      · split at h
        · rename_i hc
          cases h
          exact checkHint_rule hc
        · cases h

theorem checkedAdd_length {bytes : List UInt8} {offset hintsEnd : ℕ}
    (hmax : hintsEnd ≤ maxCardBytes) (hheader : offset + 3 ≤ hintsEnd)
    (hend : hintsEnd ≤ bytes.length) :
    ofBe (slice bytes (offset + 1) (offset + 3)) < 2 ^ 16 ∧
      checkedAdd (offset + 3) (ofBe (slice bytes (offset + 1) (offset + 3))) =
        some (offset + 3 + ofBe (slice bytes (offset + 1) (offset + 3))) := by
  have hlt := ofBe_lt (slice bytes (offset + 1) (offset + 3))
  rw [slice_length (by omega)] at hlt
  have hwidth : 256 ^ (offset + 3 - (offset + 1)) = 2 ^ 16 := by
    rw [show offset + 3 - (offset + 1) = 2 by omega]
    norm_num
  rw [hwidth] at hlt
  refine ⟨hlt, ?_⟩
  rw [checkedAdd, if_pos]
  unfold maxCardBytes at hmax
  omega

theorem parseHint_sound {P : Primitives} {bytes : List UInt8} {hintsEnd offset valueEnd : ℕ}
    {hint : Hint} (hend : hintsEnd ≤ bytes.length) (hmax : hintsEnd ≤ maxCardBytes)
    (h : parseHint P bytes hintsEnd offset = .ok (valueEnd, hint)) :
    valueEnd = offset + hint.encodedLen ∧ valueEnd ≤ hintsEnd ∧
      slice bytes offset valueEnd = hint.encode ∧ hint.WellFormed P := by
  unfold parseHint at h
  dsimp only at h
  split_ifs at h with hheader
  obtain ⟨hfits, hadd⟩ := checkedAdd_length hmax (Nat.le_of_not_lt hheader) hend
  rw [hadd] at h
  dsimp only at h
  split_ifs at h with hvalue
  split at h
  · cases h
  · rename_i hcheck
    obtain ⟨rfl, rfl⟩ := Prod.mk.inj (Except.ok.inj h)
    set length := ofBe (slice bytes (offset + 1) (offset + 3)) with hlength
    have hlen : (slice bytes (offset + 3) (offset + 3 + length)).length = length := by
      rw [slice_length (by omega)]
      omega
    refine ⟨?_, by omega, ?_, ?_⟩
    · rw [Hint.encodedLen, hlen]
      omega
    · rw [Hint.encode_of_fits (by rw [hlen]; exact hfits), hlen, hlength,
        toBe_ofBe_of_length (by rw [slice_length (by omega)]; omega), ← hlength,
        slice_append_slice (by omega) (by omega)]
      exact slice_eq_cons (by omega) (by omega)
    · apply (checkHint_eq_ok (by rw [hlen]; exact hfits)).mp
      rw [hlen]
      exact hcheck

theorem parseHint_complete {P : Primitives} {bytes : List UInt8} {hintsEnd offset : ℕ} {hint : Hint}
    (hend : hintsEnd ≤ bytes.length) (hmax : hintsEnd ≤ maxCardBytes)
    (hle : offset + hint.encodedLen ≤ hintsEnd)
    (htext : slice bytes offset (offset + hint.encodedLen) = hint.encode)
    (hw : hint.WellFormed P) :
    parseHint P bytes hintsEnd offset = .ok (offset + hint.encodedLen, hint) := by
  have hlen : hint.encodedLen = 3 + hint.value.length := rfl
  have hend' : offset + hint.encodedLen = offset + 3 + hint.value.length := by omega
  rw [Hint.encode_of_fits hw.fits, slice_eq_cons (by omega) (by omega), List.cons.injEq] at htext
  obtain ⟨hkind, hrest⟩ := htext
  obtain ⟨-, hlength, hvalue⟩ := slice_split (by omega) (by omega) hrest
  rw [toBe_length] at hlength hvalue
  have hvalueLen : ofBe (slice bytes (offset + 1) (offset + 3)) = hint.value.length := by
    rw [hlength, ofBe_toBe_of_lt (by simpa using hw.fits)]
  obtain ⟨-, hadd⟩ := checkedAdd_length hmax (by omega : offset + 3 ≤ hintsEnd) hend
  rw [hvalueLen] at hadd
  rw [hend'] at hvalue hle ⊢
  unfold parseHint
  rw [if_neg (by omega)]
  simp only [hkind, hvalueLen, hadd]
  rw [if_neg (by omega), hvalue, (checkHint_eq_ok hw.fits).mpr hw]

theorem parseHints_rule {P : Primitives} {bytes : List UInt8} {hintsEnd n offset : ℕ}
    {hints : List Hint} {v : RuleViolation}
    (h : parseHints P bytes hintsEnd n offset hints = .error v) : v.rule = 3 := by
  induction n generalizing offset hints with
  | zero => cases h
  | succ n ih =>
    rw [parseHints] at h
    split at h
    · rename_i hp
      cases h
      exact parseHint_rule hp
    · exact ih h

theorem parseHints_sound {P : Primitives} {bytes : List UInt8} {hintsEnd n offset offset' : ℕ}
    {acc hints : List Hint} (hend : hintsEnd ≤ bytes.length) (hmax : hintsEnd ≤ maxCardBytes)
    (h : parseHints P bytes hintsEnd n offset acc = .ok (offset', hints)) :
    ∃ new, hints = acc ++ new ∧ new.length = n ∧ offset ≤ offset' ∧
      slice bytes offset offset' = new.flatMap Hint.encode ∧ ∀ hint ∈ new, hint.WellFormed P := by
  induction n generalizing offset acc with
  | zero =>
    obtain ⟨rfl, rfl⟩ := Prod.mk.inj (Except.ok.inj h)
    refine ⟨[], by simp, rfl, le_rfl, ?_, by simp⟩
    rw [slice, Nat.sub_self]
    rfl
  | succ n ih =>
    rw [parseHints] at h
    split at h
    · cases h
    · rename_i valueEnd hint hp
      obtain ⟨rfl, -, htext, hw⟩ := parseHint_sound hend hmax hp
      obtain ⟨new, rfl, hn, hle, hrest, hall⟩ := ih h
      refine ⟨hint :: new, by simp, by simp [hn], by omega, ?_, ?_⟩
      · rw [List.flatMap_cons, ← htext, ← hrest, slice_append_slice (by omega) hle]
      · simpa using ⟨hw, hall⟩

theorem parseHints_complete {P : Primitives} {bytes : List UInt8} {hintsEnd offset : ℕ}
    {acc new : List Hint} (hend : hintsEnd ≤ bytes.length) (hmax : hintsEnd ≤ maxCardBytes)
    (hle : offset ≤ hintsEnd) (htext : slice bytes offset hintsEnd = new.flatMap Hint.encode)
    (hall : ∀ hint ∈ new, hint.WellFormed P) :
    parseHints P bytes hintsEnd new.length offset acc = .ok (hintsEnd, acc ++ new) := by
  induction new generalizing offset acc with
  | nil =>
    have hlen := congrArg List.length htext
    rw [slice_length hend, List.flatMap_nil, List.length_nil] at hlen
    have hoff : offset = hintsEnd := by omega
    rw [List.length_nil, parseHints, hoff, List.append_nil]
  | cons hint new ih =>
    rw [List.flatMap_cons] at htext
    obtain ⟨hmid, hhead, hrest⟩ := slice_split hle hend htext
    rw [Hint.encode_length] at hmid hhead hrest
    rw [List.forall_mem_cons] at hall
    rw [List.length_cons, parseHints, parseHint_complete hend hmax hmid hhead hall.1]
    dsimp only
    rw [ih hmid hrest hall.2, List.append_assoc, List.singleton_append]

def bodyEnd (bytes : List UInt8) : ℕ := bytes.length - signatureBytes

/-- The grammar of the hint region, with the list it spells out. -/
structure HintRegion (P : Primitives) (bytes : List UInt8) (hints : List Hint) : Prop where
  count : (bytes.getD 61 0).toNat = hints.length
  atMost : hints.length ≤ maxHints
  text : slice bytes headerBytes (bodyEnd bytes) = hints.flatMap Hint.encode
  wellFormed : ∀ hint ∈ hints, hint.WellFormed P
  oneEphemeral : hints.countP (fun hint => hint.kind == hintEphemeral) ≤ 1

def numberAt (bytes : List UInt8) (offset : ℕ) : ℕ := ofBe (slice bytes offset (offset + 8))

/-- The nine rules of spec 2.3, each by what violates it. -/
def Violates (P : Primitives) (bytes : List UInt8) (ctx : VerifyContext) : ℕ → Prop
  | 1 => bytes.length < 126 ∨ bytes.length > 4096
  | 2 => slice bytes 0 4 ≠ cardMagic ∨ bytes.getD 4 0 ≠ cardVersion
  | 3 => ¬ ∃ hints, HintRegion P bytes hints
  | 4 => P.ed25519VerifyStrict (readBlock 32 bytes 5) (cardDomain ++ bytes.take (bodyEnd bytes))
      (readBlock 64 bytes (bodyEnd bytes)) = false
  | 5 => numberAt bytes 37 > ctx.now.toNat + 300
  | 6 => numberAt bytes 45 ≤ ctx.now.toNat
  | 7 => numberAt bytes 45 ≤ numberAt bytes 37 ∨ numberAt bytes 45 - numberAt bytes 37 > 604800
  | 8 => numberAt bytes 53 ≤ ctx.highestSeenSerial.toNat
  | 9 => ∃ expected, ctx.expectedNodeId = some expected ∧ expected.bytes ≠ readBlock 32 bytes 5
  | _ => False

theorem be64_toNat {bytes : List UInt8} {offset : ℕ} (h : offset + 8 ≤ bytes.length) :
    (be64 (slice bytes offset (offset + 8))).toNat = numberAt bytes offset := by
  have hlt := ofBe_lt (slice bytes offset (offset + 8))
  rw [slice_length h, Nat.add_sub_cancel_left] at hlt
  rw [be64, numberAt, UInt64.toNat_ofNat', Nat.mod_eq_of_lt (by omega)]

theorem parseHints_region {P : Primitives} {bytes : List UInt8} {hints : List Hint}
    (hmin : 126 ≤ bytes.length) (hmax : bytes.length ≤ 4096) (h : HintRegion P bytes hints) :
    parseHints P bytes (bodyEnd bytes) (bytes.getD 61 0).toNat headerBytes [] =
      .ok (bodyEnd bytes, hints) := by
  have hend : bodyEnd bytes = bytes.length - 64 := rfl
  rw [h.count]
  refine parseHints_complete ?_ ?_ ?_ h.text h.wellFormed
  · omega
  · rw [maxCardBytes]
    omega
  · rw [headerBytes]
    omega

theorem region_of_parseHints {P : Primitives} {bytes : List UInt8} {hints : List Hint}
    (hmin : 126 ≤ bytes.length) (hmax : bytes.length ≤ 4096)
    (hcount : (bytes.getD 61 0).toNat ≤ maxHints)
    (hparse : parseHints P bytes (bodyEnd bytes) (bytes.getD 61 0).toNat headerBytes [] =
      .ok (bodyEnd bytes, hints))
    (hone : hints.countP (fun hint => hint.kind == hintEphemeral) ≤ 1) :
    HintRegion P bytes hints := by
  have hend : bodyEnd bytes = bytes.length - 64 := rfl
  obtain ⟨new, rfl, hn, -, htext, hall⟩ := parseHints_sound (by omega)
    (by rw [maxCardBytes]; omega) hparse
  exact ⟨hn.symm, by omega, htext, hall, hone⟩

theorem beyond_skew_iff (issuedAt now : UInt64) :
    issuedAt > saturatingAdd now clockSkewSeconds ↔ issuedAt.toNat > now.toNat + 300 := by
  have hskew : clockSkewSeconds.toNat = 300 := rfl
  have hlt := issuedAt.toNat_lt
  rw [gt_iff_lt, UInt64.lt_iff_toNat_lt, saturatingAdd_toNat, hskew]
  omega

theorem lifetime_iff {issuedAt expiresAt : UInt64} (h : ¬ expiresAt ≤ issuedAt) :
    expiresAt - issuedAt > maxLifetimeSeconds ↔ expiresAt.toNat - issuedAt.toNat > 604800 := by
  have hmax : maxLifetimeSeconds.toNat = 604800 := rfl
  rw [UInt64.le_iff_toNat_le] at h
  rw [gt_iff_lt, UInt64.lt_iff_toNat_lt, hmax,
    UInt64.toNat_sub_of_le _ _ (UInt64.le_iff_toNat_le.mpr (by omega))]

theorem unexpected_iff {expected : Option NodeId} {nodeId : NodeId} :
    expected.any (fun e => e ≠ nodeId) = true ↔ ∃ e, expected = some e ∧
      e.bytes ≠ nodeId.bytes := by
  cases expected with
  | none => simp
  | some e =>
    simp only [Option.any_some, decide_eq_true_eq, Option.some.injEq, exists_eq_left']
    exact not_congr NodeId.ext_iff

theorem verify_settles (P : Primitives) (bytes : List UInt8) (ctx : VerifyContext) :
    SettlesFrom RuleViolation.rule (Violates P bytes ctx) 1 (verify P bytes ctx) := by
  unfold verify
  -- Rules 1 and 2.
  refine settlesFrom_deny (fun h => ⟨rfl, Or.inl h⟩) fun hmin => ?_
  refine settlesFrom_deny (fun h => ⟨rfl, Or.inr h⟩) fun hmax => ?_
  refine SettlesFrom.next (fun h => h.elim hmin hmax) ?_
  rw [minCardBytes, not_lt] at hmin
  rw [maxCardBytes, gt_iff_lt, not_lt] at hmax
  refine settlesFrom_deny (fun h => ⟨rfl, Or.inl h⟩) fun hmagic => ?_
  refine settlesFrom_deny (fun h => ⟨rfl, Or.inr h⟩) fun hversion => ?_
  refine SettlesFrom.next (fun h => h.elim hmagic hversion) ?_
  dsimp only
  -- Rule 3: where the region is a list of hints, the loop finds it, so each failure excludes one.
  refine settlesFrom_deny (fun h => ⟨rfl, ?_⟩) fun hcount => ?_
  · rintro ⟨hints, hregion⟩
    rw [hregion.count] at h
    exact absurd hregion.atMost (not_le.mpr h)
  refine settlesFrom_bind (fun v hparse => ⟨parseHints_rule hparse, ?_⟩) ?_
  · rintro ⟨hints, hregion⟩
    exact nomatch hparse.symm.trans (parseHints_region hmin hmax hregion)
  rintro ⟨offset, hints⟩ hparse
  dsimp only
  refine settlesFrom_deny (fun h => ⟨rfl, ?_⟩) fun hoffset => ?_
  · rintro ⟨hints', hregion⟩
    have heq := Except.ok.inj (hparse.symm.trans (parseHints_region hmin hmax hregion))
    exact h (congrArg Prod.fst heq)
  refine settlesFrom_deny (fun h => ⟨rfl, ?_⟩) fun hone => ?_
  · rintro ⟨hints', hregion⟩
    have heq := Except.ok.inj (hparse.symm.trans (parseHints_region hmin hmax hregion))
    rw [show hints = hints' from congrArg Prod.snd heq] at h
    exact absurd hregion.oneEphemeral (not_le.mpr h)
  rw [not_ne_iff.mp hoffset] at hparse
  have hregion := region_of_parseHints hmin hmax (not_lt.mp hcount) hparse (not_lt.mp hone)
  refine SettlesFrom.next (fun h => h ⟨hints, hregion⟩) ?_
  -- Rule 4, and the rules over the fields.
  refine settlesFrom_deny (fun h => ⟨rfl, h⟩) fun hsig => ?_
  refine SettlesFrom.next hsig ?_
  have hissuedAt := be64_toNat (show 37 + 8 ≤ bytes.length by omega)
  have hexpiresAt := be64_toNat (show 45 + 8 ≤ bytes.length by omega)
  have hserial := be64_toNat (show 53 + 8 ≤ bytes.length by omega)
  refine settlesFrom_deny (fun h => ⟨rfl, ?_⟩) fun hskew => SettlesFrom.next ?_ ?_
  · rw [beyond_skew_iff, hissuedAt] at h
    exact h
  · rw [beyond_skew_iff, hissuedAt] at hskew
    exact hskew
  refine settlesFrom_deny (fun h => ⟨rfl, ?_⟩) fun hlive => SettlesFrom.next ?_ ?_
  · rw [UInt64.le_iff_toNat_le, hexpiresAt] at h
    exact h
  · rw [UInt64.le_iff_toNat_le, hexpiresAt] at hlive
    exact hlive
  refine settlesFrom_deny (fun h => ⟨rfl, Or.inl ?_⟩) fun hafter => ?_
  · rw [UInt64.le_iff_toNat_le, hexpiresAt, hissuedAt] at h
    exact h
  refine settlesFrom_deny (fun h => ⟨rfl, Or.inr ?_⟩) fun hlifetime => SettlesFrom.next ?_ ?_
  · rw [lifetime_iff hafter, hexpiresAt, hissuedAt] at h
    exact h
  · rw [lifetime_iff hafter, hexpiresAt, hissuedAt] at hlifetime
    rw [UInt64.le_iff_toNat_le, hexpiresAt, hissuedAt] at hafter
    exact fun h => h.elim hafter hlifetime
  refine settlesFrom_deny (fun h => ⟨rfl, ?_⟩) fun hfresh => SettlesFrom.next ?_ ?_
  · rw [UInt64.le_iff_toNat_le, hserial] at h
    exact h
  · rw [UInt64.le_iff_toNat_le, hserial] at hfresh
    exact hfresh
  refine settlesFrom_deny (fun h => ⟨rfl, unexpected_iff.mp h⟩) fun hexpected =>
    SettlesFrom.next ?_ ?_
  · exact fun h => hexpected (unexpected_iff.mpr h)
  refine settlesFrom_ok ?_
  intro k hk
  match k, hk with
  | k + 10, _ => exact id

theorem one_le_of_violates {P : Primitives} {bytes : List UInt8} {ctx : VerifyContext} {rule : ℕ}
    (h : Violates P bytes ctx rule) : 1 ≤ rule := by
  cases rule with
  | zero => exact h.elim
  | succ rule => omega

/-- The verifier is the ordered rule list: it accepts when no rule is violated,
and otherwise reports the least rule that is. -/
theorem verify_reports_least_violation (P : Primitives) (bytes : List UInt8) (ctx : VerifyContext) :
    ((∃ card, verify P bytes ctx = .ok card) ↔ ∀ rule, ¬ Violates P bytes ctx rule) ∧
    ((∃ rule, Violates P bytes ctx rule) →
      ∃ v, verify P bytes ctx = .error v ∧ IsLeast {rule | Violates P bytes ctx rule} v.rule) := by
  have hset := verify_settles P bytes ctx
  have hok : (∃ card, verify P bytes ctx = .ok card) ↔ ∀ rule, ¬ Violates P bytes ctx rule := by
    rw [hset.ok_iff]
    exact ⟨fun h rule hv => h rule (one_le_of_violates hv) hv, fun h rule _ => h rule⟩
  refine ⟨hok, ?_⟩
  rintro ⟨rule, hv⟩
  cases hr : verify P bytes ctx with
  | ok card => exact absurd hv (hok.mp ⟨card, hr⟩ rule)
  | error v =>
    obtain ⟨⟨-, hviolated⟩, hleast⟩ := hset.error v hr
    exact ⟨v, rfl, hviolated, fun k hk => hleast ⟨one_le_of_violates hk, hk⟩⟩

end Card

end ForgeswornLink
