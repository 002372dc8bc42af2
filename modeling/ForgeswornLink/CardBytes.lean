import Mathlib.Algebra.Order.BigOperators.Group.List
import ForgeswornLink.CardRules

/-!
# Card bytes name card contents

What the verifier returns are the fields at their offsets, so an accepted card
re-encodes to its own bytes. In the other direction the bytes of a signed card
have the same layout, and the verifier reads back what was signed.
-/

namespace ForgeswornLink
open ByteString OrderedChecks

namespace Card

def contents (bytes : List UInt8) (hints : List Hint) : Card where
  nodeId := ⟨readBlock 32 bytes 5⟩
  issuedAt := be64 (slice bytes 37 45)
  expiresAt := be64 (slice bytes 45 53)
  serial := be64 (slice bytes 53 61)
  hints := hints
  raw := bytes

theorem verify_returns {P : Primitives} {bytes : List UInt8} {ctx : VerifyContext} {card : Card}
    (h : verify P bytes ctx = .ok card) :
    ∃ hints, HintRegion P bytes hints ∧ card = contents bytes hints := by
  have hrules := (verify_settles P bytes ctx).ok card h
  have hsize := hrules 1 le_rfl
  simp only [Violates, not_or, not_lt, gt_iff_lt] at hsize
  obtain ⟨hints, hregion⟩ := not_not.mp (hrules 3 (by norm_num))
  refine ⟨hints, hregion, ?_⟩
  simp only [verify, bind_eq_ok, deny_eq_ok, exists_const, Prod.exists] at h
  obtain ⟨-, -, -, -, -, offset, hints', hparse, -, -, -, -, -, -, -, -, -, hcard⟩ := h
  have hparse' := hparse.symm.trans (parseHints_region hsize.1 hsize.2 hregion)
  rw [show hints' = hints from congrArg Prod.snd (Except.ok.inj hparse')] at hcard
  exact (Except.ok.inj hcard).symm

theorem fields_append {bytes : List UInt8} (h : 126 ≤ bytes.length) :
    slice bytes 0 4 ++ slice bytes 4 5 ++ slice bytes 5 37 ++ slice bytes 37 45 ++
      slice bytes 45 53 ++ slice bytes 53 61 ++ slice bytes 61 62 ++
      slice bytes headerBytes (bodyEnd bytes) ++ bytes.drop (bodyEnd bytes) = bytes := by
  have hend : 62 ≤ bodyEnd bytes := by
    rw [bodyEnd, signatureBytes]
    omega
  rw [slice_append_slice (by omega) (by omega), slice_append_slice (by omega) (by omega),
    slice_append_slice (by omega) (by omega), slice_append_slice (by omega) (by omega),
    slice_append_slice (by omega) (by omega), slice_append_slice (by omega) (by omega),
    headerBytes, slice_append_slice (by omega) hend, slice_zero, List.take_append_drop]

theorem toBe_be64 {bytes : List UInt8} {offset : ℕ} (h : offset + 8 ≤ bytes.length) :
    toBe 8 (be64 (slice bytes offset (offset + 8))).toNat = slice bytes offset (offset + 8) := by
  rw [be64_toNat h, numberAt, toBe_ofBe_of_length]
  rw [slice_length h, Nat.add_sub_cancel_left]

theorem slice_one {bytes : List UInt8} {offset : ℕ} (h : offset < bytes.length) :
    slice bytes offset (offset + 1) = [bytes.getD offset 0] := by
  rw [slice_eq_cons (Nat.lt_succ_self _) h, slice, Nat.sub_self]
  rfl

theorem encodeBody_contents {P : Primitives} {bytes : List UInt8} {hints : List Hint}
    (hsize : 126 ≤ bytes.length) (hmagic : slice bytes 0 4 = cardMagic)
    (hversion : bytes.getD 4 0 = cardVersion) (hregion : HintRegion P bytes hints) :
    encodeBody (contents bytes hints).nodeId (contents bytes hints).issuedAt
        (contents bytes hints).expiresAt (contents bytes hints).serial hints ++
      bytes.drop (bodyEnd bytes) = bytes := by
  have hcount : UInt8.ofNat hints.length = bytes.getD 61 0 := by
    rw [← hregion.count, UInt8.ofNat_toNat]
  have hid : NodeId.asBytes ⟨readBlock 32 bytes 5⟩ = slice bytes 5 37 :=
    readBlock_toList (by omega)
  conv_rhs => rw [← fields_append hsize]
  simp only [encodeBody, contents]
  rw [hcount, hid, toBe_be64 (by omega : 37 + 8 ≤ _), toBe_be64 (by omega : 45 + 8 ≤ _),
    toBe_be64 (by omega : 53 + 8 ≤ _), ← hmagic, ← hversion, ← slice_one (by omega),
    ← slice_one (by omega), ← hregion.text]

theorem verify_reencodes {P : Primitives} {bytes : List UInt8} {ctx : VerifyContext} {card : Card}
    (h : verify P bytes ctx = .ok card) :
    encodeBody card.nodeId card.issuedAt card.expiresAt card.serial card.hints ++
      bytes.drop (bytes.length - 64) = bytes := by
  have hrules := (verify_settles P bytes ctx).ok card h
  have hsize := hrules 1 le_rfl
  have hmagic := hrules 2 (by norm_num)
  simp only [Violates, not_or, not_lt, gt_iff_lt, not_ne_iff] at hsize hmagic
  obtain ⟨hints, hregion, rfl⟩ := verify_returns h
  exact encodeBody_contents hsize.1 hmagic.1 hmagic.2 hregion

/-- Bytes laid out as spec 2.1 from the given fields. -/
structure Layout (bytes : List UInt8) (nodeId : NodeId) (issuedAt expiresAt serial : UInt64)
    (hints : List Hint) (signature : Block 64) : Prop where
  size : bytes.length = 126 + (hints.map Hint.encodedLen).sum
  body : bytes.take (bodyEnd bytes) = encodeBody nodeId issuedAt expiresAt serial hints
  magic : slice bytes 0 4 = cardMagic
  version : slice bytes 4 5 = [cardVersion]
  nodeId : slice bytes 5 37 = nodeId.asBytes
  issuedAt : slice bytes 37 45 = toBe 8 issuedAt.toNat
  expiresAt : slice bytes 45 53 = toBe 8 expiresAt.toNat
  serial : slice bytes 53 61 = toBe 8 serial.toNat
  count : slice bytes 61 62 = [UInt8.ofNat hints.length]
  hints : slice bytes headerBytes (bodyEnd bytes) = hints.flatMap Hint.encode
  signature : slice bytes (bodyEnd bytes) bytes.length = signature.toList

theorem flatMap_encode_length (hints : List Hint) :
    (hints.flatMap Hint.encode).length = (hints.map Hint.encodedLen).sum := by
  rw [List.length_flatMap]
  simp only [Hint.encode_length]

theorem encodeBody_length (nodeId : NodeId) (issuedAt expiresAt serial : UInt64)
    (hints : List Hint) :
    (encodeBody nodeId issuedAt expiresAt serial hints).length =
      62 + (hints.map Hint.encodedLen).sum := by
  simp only [encodeBody, List.length_append, toBe_length, NodeId.asBytes_length,
    flatMap_encode_length]
  rfl

theorem layout_of_encodeBody (nodeId : NodeId) (issuedAt expiresAt serial : UInt64)
    (hints : List Hint) (signature : Block 64) :
    Layout (encodeBody nodeId issuedAt expiresAt serial hints ++ signature.toList)
      nodeId issuedAt expiresAt serial hints signature := by
  set bytes := encodeBody nodeId issuedAt expiresAt serial hints ++ signature.toList with hbytes
  have hbody := encodeBody_length nodeId issuedAt expiresAt serial hints
  have hsig : signature.toList.length = 64 := signature.toList_length
  have hsize : bytes.length = 126 + (hints.map Hint.encodedLen).sum := by
    rw [hbytes, List.length_append, hbody, hsig]
    omega
  have hend : bodyEnd bytes = 62 + (hints.map Hint.encodedLen).sum := by
    rw [bodyEnd, signatureBytes, hsize]
    omega
  have hwhole : slice bytes 0 bytes.length =
      encodeBody nodeId issuedAt expiresAt serial hints ++ signature.toList := by
    rw [slice_zero, List.take_length]
  have hlen : 126 ≤ bytes.length := by omega
  -- Each part is split off at the right end of what is left.
  obtain ⟨hbodyText, hsignature⟩ :=
    slice_split_at (m := bodyEnd bytes) (by omega) (Nat.zero_le _) le_rfl hwhole
  have h := hbodyText
  obtain ⟨h, hhints⟩ := slice_split_at (m := 62)
    (by simp only [List.length_append, toBe_length, NodeId.asBytes_length]; rfl)
    (Nat.zero_le _) (by omega) h
  obtain ⟨h, hcount⟩ := slice_split_at (m := 61)
    (by simp only [List.length_append, toBe_length, NodeId.asBytes_length]; rfl)
    (Nat.zero_le _) (by omega) h
  obtain ⟨h, hserial⟩ := slice_split_at (m := 53)
    (by simp only [List.length_append, toBe_length, NodeId.asBytes_length]; rfl)
    (Nat.zero_le _) (by omega) h
  obtain ⟨h, hexpiresAt⟩ := slice_split_at (m := 45)
    (by simp only [List.length_append, toBe_length, NodeId.asBytes_length]; rfl)
    (Nat.zero_le _) (by omega) h
  obtain ⟨h, hissuedAt⟩ := slice_split_at (m := 37)
    (by simp only [List.length_append, NodeId.asBytes_length]; rfl) (Nat.zero_le _) (by omega) h
  obtain ⟨h, hid⟩ := slice_split_at (m := 5) rfl (Nat.zero_le _) (by omega) h
  obtain ⟨hmagic, hversion⟩ := slice_split_at (m := 4) rfl (Nat.zero_le _) (by omega) h
  exact ⟨hsize, hbodyText, hmagic, hversion, hid, hissuedAt, hexpiresAt, hserial, hcount, hhints,
    hsignature⟩

theorem numberAt_of_slice {bytes : List UInt8} {offset : ℕ} {v : UInt64}
    (h : slice bytes offset (offset + 8) = toBe 8 v.toNat) : numberAt bytes offset = v.toNat := by
  rw [numberAt, h, ofBe_toBe_of_lt]
  have := v.toNat_lt
  omega

theorem readBlock_of_slice {n offset : ℕ} {bytes : List UInt8} {b : Block n}
    (hlen : offset + n ≤ bytes.length) (h : slice bytes offset (offset + n) = b.toList) :
    readBlock n bytes offset = b := by
  apply List.Vector.eq
  rw [readBlock_toList hlen, h]

theorem getD_of_slice {bytes : List UInt8} {offset : ℕ} {b : UInt8} (hlen : offset < bytes.length)
    (h : slice bytes offset (offset + 1) = [b]) : bytes.getD offset 0 = b := by
  rw [slice_one hlen] at h
  exact List.singleton_inj.mp h

theorem flatMap_encode_injective {hints hints' : List Hint}
    (hfits : ∀ hint ∈ hints, hint.value.length < 2 ^ 16)
    (hfits' : ∀ hint ∈ hints', hint.value.length < 2 ^ 16)
    (h : hints.flatMap Hint.encode = hints'.flatMap Hint.encode) : hints = hints' := by
  induction hints generalizing hints' with
  | nil =>
    cases hints' with
    | nil => rfl
    | cons hint' hints' => simp [Hint.encode] at h
  | cons hint hints ih =>
    cases hints' with
    | nil => simp [Hint.encode] at h
    | cons hint' hints' =>
      rw [List.forall_mem_cons] at hfits hfits'
      rw [List.flatMap_cons, List.flatMap_cons, Hint.encode_of_fits hfits.1,
        Hint.encode_of_fits hfits'.1, List.cons_append, List.cons_append, List.append_assoc,
        List.append_assoc, List.cons.injEq] at h
      obtain ⟨hkind, h⟩ := h
      obtain ⟨hlength, h⟩ := List.append_inj h (by rw [toBe_length, toBe_length])
      have hlen := congrArg ofBe hlength
      rw [ofBe_toBe_of_lt (by simpa using hfits.1),
        ofBe_toBe_of_lt (by simpa using hfits'.1)] at hlen
      obtain ⟨hvalue, h⟩ := List.append_inj h hlen
      rw [ih hfits.2 hfits'.2 h]
      cases hint
      cases hint'
      simp_all

structure Signable (P : Primitives) (ctx : VerifyContext) (issuedAt expiresAt serial : UInt64)
    (hints : List Hint) : Prop where
  size : 126 + (hints.map Hint.encodedLen).sum ≤ 4096
  atMost : hints.length ≤ maxHints
  wellFormed : ∀ hint ∈ hints, hint.WellFormed P
  oneEphemeral : hints.countP (fun hint => hint.kind == hintEphemeral) ≤ 1
  issued : issuedAt.toNat ≤ ctx.now.toNat + 300
  live : ctx.now.toNat < expiresAt.toNat
  after : issuedAt.toNat < expiresAt.toNat
  lifetime : expiresAt.toNat - issuedAt.toNat ≤ 604800
  fresh : ctx.highestSeenSerial.toNat < serial.toNat

section Signed

variable {P : Primitives} {ctx : VerifyContext} {bytes : List UInt8} {nodeId : NodeId}
  {issuedAt expiresAt serial : UInt64} {hints : List Hint} {signature : Block 64}

theorem Layout.count_eq (h : Layout bytes nodeId issuedAt expiresAt serial hints signature) :
    bytes.getD 61 0 = UInt8.ofNat hints.length :=
  getD_of_slice (by have := h.size; omega) h.count

theorem Layout.fits (h : Layout bytes nodeId issuedAt expiresAt serial hints signature)
    (hmax : bytes.length ≤ 4096) : ∀ hint ∈ hints, hint.value.length < 2 ^ 16 := by
  intro hint hmem
  have hle := List.le_sum_of_mem (List.mem_map_of_mem (f := Hint.encodedLen) hmem)
  have hsize := h.size
  have hlen : hint.encodedLen = 3 + hint.value.length := rfl
  omega

theorem Layout.region_iff (h : Layout bytes nodeId issuedAt expiresAt serial hints signature)
    (hmax : bytes.length ≤ 4096) :
    (∃ read, HintRegion P bytes read) ↔ hints.length ≤ maxHints ∧
      (∀ hint ∈ hints, hint.WellFormed P) ∧
      hints.countP (fun hint => hint.kind == hintEphemeral) ≤ 1 := by
  constructor
  · rintro ⟨read, hregion⟩
    have hsame : read = hints := flatMap_encode_injective
      (fun hint hmem => (hregion.wellFormed hint hmem).fits) (h.fits hmax)
      (hregion.text.symm.trans h.hints)
    subst hsame
    exact ⟨hregion.atMost, hregion.wellFormed, hregion.oneEphemeral⟩
  · rintro ⟨hmost, hall, hone⟩
    refine ⟨hints, ?_, hmost, h.hints, hall, hone⟩
    rw [h.count_eq, UInt8.toNat_ofNat', Nat.mod_eq_of_lt]
    unfold maxHints at hmost
    omega

theorem Layout.signable_iff (h : Layout bytes nodeId issuedAt expiresAt serial hints signature) :
    Signable P ctx issuedAt expiresAt serial hints ↔
      ∀ rule ∈ [1, 3, 5, 6, 7, 8], ¬ Violates P bytes ctx rule := by
  have hsize := h.size
  have h₅ := numberAt_of_slice h.issuedAt
  have h₆ := numberAt_of_slice h.expiresAt
  have h₈ := numberAt_of_slice h.serial
  simp only [List.forall_mem_cons, Violates, h₅, h₆, h₈, not_or, not_lt, gt_iff_lt, not_le, not_not,
    List.not_mem_nil, false_imp_iff, implies_true, and_true]
  constructor
  · intro hs
    have hmax : bytes.length ≤ 4096 := by have := hs.size; omega
    exact ⟨⟨by omega, hmax⟩, (h.region_iff hmax).mpr ⟨hs.atMost, hs.wellFormed, hs.oneEphemeral⟩,
      hs.issued, hs.live, ⟨hs.after, hs.lifetime⟩, hs.fresh⟩
  · rintro ⟨⟨-, hmax⟩, hregion, hissued, hlive, ⟨hafter, hlifetime⟩, hfresh⟩
    obtain ⟨hmost, hall, hone⟩ := (h.region_iff hmax).mp hregion
    exact ⟨by omega, hmost, hall, hone, hissued, hlive, hafter, hlifetime, hfresh⟩

theorem Layout.contents_eq (h : Layout bytes nodeId issuedAt expiresAt serial hints signature) :
    contents bytes hints = ⟨nodeId, issuedAt, expiresAt, serial, hints, bytes⟩ := by
  have hsize := h.size
  have hid : readBlock 32 bytes 5 = nodeId.bytes := readBlock_of_slice (by omega) h.nodeId
  have hissued : be64 (slice bytes 37 45) = issuedAt := by
    apply UInt64.toNat_inj.mp
    rw [be64_toNat (by omega : 37 + 8 ≤ _), numberAt_of_slice h.issuedAt]
  have hexpires : be64 (slice bytes 45 53) = expiresAt := by
    apply UInt64.toNat_inj.mp
    rw [be64_toNat (by omega : 45 + 8 ≤ _), numberAt_of_slice h.expiresAt]
  have hserial : be64 (slice bytes 53 61) = serial := by
    apply UInt64.toNat_inj.mp
    rw [be64_toNat (by omega : 53 + 8 ≤ _), numberAt_of_slice h.serial]
  rw [contents, hid, hissued, hexpires, hserial]

theorem Layout.verify_eq (h : Layout bytes nodeId issuedAt expiresAt serial hints signature)
    (hs : Signable P ctx issuedAt expiresAt serial hints)
    (hsig : nodeId.verify P (cardDomain ++ encodeBody nodeId issuedAt expiresAt serial hints)
      signature = true)
    (hctx : ctx.expectedNodeId = some nodeId) :
    verify P bytes ctx = .ok ⟨nodeId, issuedAt, expiresAt, serial, hints, bytes⟩ := by
  have hsize := h.size
  have hid : readBlock 32 bytes 5 = nodeId.bytes := readBlock_of_slice (by omega) h.nodeId
  have hrules := h.signable_iff.mp hs
  simp only [List.forall_mem_cons, List.not_mem_nil, false_imp_iff, implies_true,
    and_true] at hrules
  obtain ⟨h₁, h₃, h₅, h₆, h₇, h₈⟩ := hrules
  have h₂ : ¬ Violates P bytes ctx 2 := by
    have hversion := getD_of_slice (by omega) h.version
    exact fun hv => hv.elim (fun hne => hne h.magic) (fun hne => hne hversion)
  have h₄ : ¬ Violates P bytes ctx 4 := by
    have hend : bytes.length = bodyEnd bytes + 64 := by
      rw [bodyEnd, signatureBytes]
      omega
    have hsignature : readBlock 64 bytes (bodyEnd bytes) = signature :=
      readBlock_of_slice (by omega) (hend ▸ h.signature)
    simp only [Violates, hid, h.body, hsignature]
    rw [NodeId.verify] at hsig
    rw [hsig]
    exact Bool.noConfusion
  have h₉ : ¬ Violates P bytes ctx 9 := by
    rintro ⟨expected, hexpected, hne⟩
    rw [hctx] at hexpected
    rw [← Option.some.inj hexpected, hid] at hne
    exact hne rfl
  have hall : ∀ rule, 1 ≤ rule → ¬ Violates P bytes ctx rule
    | 1, _ => h₁
    | 2, _ => h₂
    | 3, _ => h₃
    | 4, _ => h₄
    | 5, _ => h₅
    | 6, _ => h₆
    | 7, _ => h₇
    | 8, _ => h₈
    | 9, _ => h₉
    | rule + 10, _ => id
  obtain ⟨card, hcard⟩ := (verify_settles P bytes ctx).ok_iff.mpr hall
  obtain ⟨read, hregion, rfl⟩ := verify_returns hcard
  have hsame : read = hints := flatMap_encode_injective
    (fun hint hmem => (hregion.wellFormed hint hmem).fits)
    (fun hint hmem => (hs.wellFormed hint hmem).fits) (hregion.text.symm.trans h.hints)
  rw [hcard, hsame, h.contents_eq]

end Signed

def SignaturesVerify (P : Primitives) : Prop :=
  ∀ seed message,
    P.ed25519VerifyStrict (P.ed25519Public seed) message (P.ed25519Sign seed message) = true

theorem sign_layout (P : Primitives) (key : TransportKey) (issuedAt expiresAt serial : UInt64)
    (hints : List Hint) :
    Layout (sign P key issuedAt expiresAt serial hints).asBytes (key.nodeId P) issuedAt expiresAt
      serial hints (key.sign P
        (cardDomain ++ encodeBody (key.nodeId P) issuedAt expiresAt serial hints)) :=
  layout_of_encodeBody _ _ _ _ _ _

/-- Card bytes are a canonical name for what a card says. Accepted bytes are the
encoding of the returned fields and their last 64 bytes, so fields and signature
determine them; and a card signed within the rules is read back as it was signed. -/
theorem card_bytes_canonical (P : Primitives) (hP : SignaturesVerify P) :
    (∀ bytes ctx card, verify P bytes ctx = .ok card →
      encodeBody card.nodeId card.issuedAt card.expiresAt card.serial card.hints ++
        bytes.drop (bytes.length - 64) = bytes) ∧
    (∀ bytes bytes' ctx ctx' card card',
      verify P bytes ctx = .ok card → verify P bytes' ctx' = .ok card' →
      card.nodeId = card'.nodeId → card.issuedAt = card'.issuedAt →
      card.expiresAt = card'.expiresAt → card.serial = card'.serial → card.hints = card'.hints →
      bytes.drop (bytes.length - 64) = bytes'.drop (bytes'.length - 64) → bytes = bytes') ∧
    (∀ (key : TransportKey) issuedAt expiresAt serial hints (ctx : VerifyContext),
      ctx.expectedNodeId = some (key.nodeId P) →
      (∀ rule ∈ [1, 3, 5, 6, 7, 8],
        ¬ Violates P (sign P key issuedAt expiresAt serial hints).asBytes ctx rule) →
      verify P (sign P key issuedAt expiresAt serial hints).asBytes ctx =
        .ok (sign P key issuedAt expiresAt serial hints)) := by
  refine ⟨fun bytes ctx card h => verify_reencodes h, ?_, ?_⟩
  · intro bytes bytes' ctx ctx' card card' h h' hid hissued hexpires hserial hhints htail
    rw [← verify_reencodes h, ← verify_reencodes h', hid, hissued, hexpires, hserial, hhints, htail]
  · intro key issuedAt expiresAt serial hints ctx hctx hrules
    have hlayout := sign_layout P key issuedAt expiresAt serial hints
    exact hlayout.verify_eq (hlayout.signable_iff.mpr hrules) (hP key.seed _) hctx

theorem card_bytes_canonical_standIn :
    SignaturesVerify Primitives.standIn ∧
    verify Primitives.standIn
        (sign Primitives.standIn ⟨List.Vector.replicate 32 7⟩ 1000 2000 5
          [⟨hintRelay, [0x61]⟩]).asBytes
        ⟨1500, 4, some ⟨List.Vector.replicate 32 7⟩⟩ =
      .ok (sign Primitives.standIn ⟨List.Vector.replicate 32 7⟩ 1000 2000 5
        [⟨hintRelay, [0x61]⟩]) := by
  have hP : SignaturesVerify Primitives.standIn := fun _ _ => beq_self_eq_true _
  refine ⟨hP, (card_bytes_canonical Primitives.standIn hP).2.2 _ _ _ _ _ _ rfl ?_⟩
  refine (sign_layout _ _ _ _ _ _).signable_iff.mp ?_
  refine ⟨by decide, by decide,
    ?_, by decide, by decide, by decide, by decide, by decide, by decide⟩
  intro hint hmem
  rw [List.mem_singleton.mp hmem]
  exact ⟨by decide, by decide, by decide, by decide, by decide⟩

end Card

end ForgeswornLink
