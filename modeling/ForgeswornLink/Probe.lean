import ForgeswornLink.Identity

/-!
# Session-keyed probes and the reflector

A probe is 30 bytes and a MAC over them under the probe key of one session,
spec 4.2. The receiver finds the session by the key id before it verifies
anything; `openProbe` accepts exactly what `sealProbe` produces under the same key.
The reflector exchange of spec 3.2 shares the socket with the probes.
-/

namespace ForgeswornLink
open ByteString

abbrev ProbeKeyId := Block 8
abbrev ProbeKey := Block 32
abbrev Nonce := Block 16

def probeMagic : List UInt8 := [0x46, 0x53, 0x4c, 0x50]
def probeVersion : UInt8 := 0x02
def probePing : UInt8 := 0x01
def probePong : UInt8 := 0x02

def probeDomainV2 : List UInt8 :=
  [0x66, 0x6f, 0x72, 0x67, 0x65, 0x73, 0x77, 0x6f, 0x72, 0x6e, 0x2d, 0x6c, 0x69, 0x6e, 0x6b,
    0x2f, 0x70, 0x72, 0x6f, 0x62, 0x65, 0x2f, 0x76, 0x32, 0x00]

def probeBodyBytes : ℕ := 30
def probeWireBytes : ℕ := 62

structure Probe where
  kind : UInt8
  keyId : ProbeKeyId
  nonce : Nonce
deriving DecidableEq

namespace Probe

def body (p : Probe) : List UInt8 :=
  probeMagic ++ [probeVersion] ++ [p.kind] ++ p.keyId.toList ++ p.nonce.toList

theorem body_length (p : Probe) : p.body.length = 30 := by
  have hid : p.keyId.toList.length = 8 := p.keyId.toList_length
  have hnonce : p.nonce.toList.length = 16 := p.nonce.toList_length
  simp only [body, List.length_append, hid, hnonce]
  rfl

def mac (P : Primitives) (key : ProbeKey) (message : List UInt8) : Block 32 :=
  P.hmacSha256 key.toList (probeDomainV2 ++ message)

def sealProbe (P : Primitives) (p : Probe) (key : ProbeKey) : List UInt8 :=
  p.body ++ (mac P key p.body).toList

def peekKeyId (bytes : List UInt8) : Option ProbeKeyId :=
  if bytes.length ≠ probeWireBytes ∨ bytes.take 4 ≠ probeMagic ∨ bytes.getD 4 0 ≠ probeVersion then
    none
  else some (readBlock 8 bytes 6)

def openProbe (P : Primitives) (bytes : List UInt8) (key : ProbeKey) : Option Probe :=
  match peekKeyId bytes with
  | none => none
  | some keyId =>
    let kind := bytes.getD 5 0
    if kind ≠ probePing ∧ kind ≠ probePong then none
    else if (mac P key (bytes.take probeBodyBytes)).toList ≠ bytes.drop probeBodyBytes then none
    else some ⟨kind, keyId, readBlock 16 bytes 14⟩

theorem sealProbe_length (P : Primitives) (p : Probe) (key : ProbeKey) :
    (p.sealProbe P key).length = 62 := by
  have hmac : (mac P key p.body).toList.length = 32 := (mac P key p.body).toList_length
  rw [sealProbe, List.length_append, body_length, hmac]

theorem body_fields (p : Probe) (tail : List UInt8) :
    (p.body ++ tail).take 4 = probeMagic ∧ (p.body ++ tail).getD 4 0 = probeVersion ∧
      (p.body ++ tail).getD 5 0 = p.kind ∧ readBlock 8 (p.body ++ tail) 6 = p.keyId ∧
      readBlock 16 (p.body ++ tail) 14 = p.nonce := by
  have hid : p.keyId.toList.length = 8 := p.keyId.toList_length
  refine ⟨rfl, rfl, rfl, ?_, ?_⟩
  · have h := @readBlock_append 8 6 (probeMagic ++ [probeVersion] ++ [p.kind]) rfl p.keyId
      (p.nonce.toList ++ tail)
    simpa only [body, List.append_assoc] using h
  · have hlen : (probeMagic ++ [probeVersion] ++ [p.kind] ++ p.keyId.toList).length = 14 := by
      rw [List.length_append, hid]
      rfl
    have h := @readBlock_append 16 14 _ hlen p.nonce tail
    simpa only [body, List.append_assoc] using h

theorem peekKeyId_sealProbe (P : Primitives) (p : Probe) (key : ProbeKey) :
    peekKeyId (p.sealProbe P key) = some p.keyId := by
  obtain ⟨hmagic, hversion, -, hid, -⟩ := p.body_fields (mac P key p.body).toList
  rw [peekKeyId, if_neg, sealProbe, hid]
  rw [sealProbe_length, sealProbe, hmagic, hversion]
  decide

theorem eq_of_sealProbe_eq {P : Primitives} {p q : Probe} {key key' : ProbeKey}
    (h : p.sealProbe P key = q.sealProbe P key') : p = q := by
  obtain ⟨-, -, hkind, hid, hnonce⟩ := p.body_fields (mac P key p.body).toList
  obtain ⟨-, -, hkind', hid', hnonce'⟩ := q.body_fields (mac P key' q.body).toList
  unfold sealProbe at h
  rw [h] at hkind hid hnonce
  obtain ⟨kind, id, nonce⟩ := p
  obtain ⟨kind', id', nonce'⟩ := q
  rw [Probe.mk.injEq]
  exact ⟨hkind.symm.trans hkind', hid.symm.trans hid', hnonce.symm.trans hnonce'⟩

theorem body_of_shape {bytes : List UInt8} (hlen : bytes.length = 62)
    (hmagic : bytes.take 4 = probeMagic) (hversion : bytes.getD 4 0 = probeVersion) :
    bytes.take 30 = body ⟨bytes.getD 5 0, readBlock 8 bytes 6, readBlock 16 bytes 14⟩ := by
  have hv : slice bytes 4 5 = [probeVersion] := by
    rw [slice_eq_cons (by omega) (by omega), hversion, slice, Nat.sub_self]
    rfl
  have hk : slice bytes 5 6 = [bytes.getD 5 0] := by
    rw [slice_eq_cons (by omega) (by omega), slice, Nat.sub_self]
    rfl
  have hid : (readBlock 8 bytes 6).toList = slice bytes 6 14 := readBlock_toList (by omega)
  have hnonce : (readBlock 16 bytes 14).toList = slice bytes 14 30 := readBlock_toList (by omega)
  rw [body, hid, hnonce, ← hk, ← hv, ← hmagic, ← slice_zero, ← slice_zero,
    slice_append_slice (by omega) (by omega), slice_append_slice (by omega) (by omega),
    slice_append_slice (by omega) (by omega), slice_append_slice (by omega) (by omega)]

theorem openProbe_eq_some {P : Primitives} {bytes : List UInt8} {key : ProbeKey} {p : Probe} :
    openProbe P bytes key = some p ↔
      (p.kind = probePing ∨ p.kind = probePong) ∧ bytes = p.sealProbe P key := by
  constructor
  · intro h
    unfold openProbe peekKeyId at h
    by_cases hshape : bytes.length ≠ probeWireBytes ∨ bytes.take 4 ≠ probeMagic ∨
        bytes.getD 4 0 ≠ probeVersion
    · rw [if_pos hshape] at h
      cases h
    · rw [if_neg hshape] at h
      simp only [not_or, not_not] at hshape
      obtain ⟨hlen, hmagic, hversion⟩ := hshape
      dsimp only at h
      split_ifs at h with hkind hmac
      obtain rfl := Option.some.inj h
      refine ⟨by_contra fun hn => hkind (not_or.mp hn), ?_⟩
      have hbody := body_of_shape hlen hmagic hversion
      rw [probeBodyBytes, not_ne_iff] at hmac
      rw [sealProbe, ← hbody, hmac]
      exact (List.take_append_drop 30 bytes).symm
  · rintro ⟨hkind, rfl⟩
    obtain ⟨-, -, hk, -, hn⟩ := p.body_fields (mac P key p.body).toList
    rw [openProbe, peekKeyId_sealProbe]
    dsimp only
    rw [sealProbe, hk, hn, if_neg (fun h => hkind.elim h.1 h.2), if_neg]
    rw [probeBodyBytes, List.take_left' p.body_length, List.drop_left' p.body_length]
    exact not_ne_iff.mpr rfl

theorem peekKeyId_of_openProbe {P : Primitives} {bytes : List UInt8} {key : ProbeKey} {p : Probe}
    (h : openProbe P bytes key = some p) : peekKeyId bytes = some p.keyId := by
  rw [(openProbe_eq_some.mp h).2, peekKeyId_sealProbe]

/-- Whatever function the MAC is: under a key, exactly the sealed pings and pongs open, each as
the probe that was sealed, and the key id peeked is its own. Two probes never have the same bytes,
and no bytes open as two probes, be it under two keys. -/
theorem probe_sealing_exact (P : Primitives) (key : ProbeKey) :
    (∀ bytes p, openProbe P bytes key = some p ↔
      (p.kind = probePing ∨ p.kind = probePong) ∧ bytes = p.sealProbe P key) ∧
    (∀ bytes p, openProbe P bytes key = some p → peekKeyId bytes = some p.keyId) ∧
    Function.Injective (fun p : Probe => p.sealProbe P key) ∧
    ∀ bytes key' p q, openProbe P bytes key = some p → openProbe P bytes key' = some q → p = q := by
  refine ⟨fun bytes p => openProbe_eq_some, fun bytes p => peekKeyId_of_openProbe, ?_, ?_⟩
  · intro p q h
    exact eq_of_sealProbe_eq h
  · intro bytes key' p q hp hq
    have hsealed := (openProbe_eq_some.mp hp).2
    rw [(openProbe_eq_some.mp hq).2] at hsealed
    exact (eq_of_sealProbe_eq hsealed).symm

end Probe

def reflectMagic : List UInt8 := [0x46, 0x53, 0x4c, 0x52]
def reflectRequestKind : UInt8 := 0x01
def reflectReplyKind : UInt8 := 0x02
def reflectReplyBytes : ℕ := 39

def reflectRequest (nonce : Nonce) : List UInt8 :=
  reflectMagic ++ [reflectRequestKind] ++ nonce.toList

def parseReflectReply (bytes : List UInt8) : Option (Nonce × SocketAddr) :=
  if bytes.length ≠ reflectReplyBytes ∨ bytes.take 4 ≠ reflectMagic ∨
      bytes.getD 4 0 ≠ reflectReplyKind then none
  else
    some (readBlock 16 bytes 5,
      .v6 (readBlock 16 bytes 21) (UInt16.ofNat (ofBe (slice bytes 37 39))) 0 0)

end ForgeswornLink
