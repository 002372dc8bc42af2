import ForgeswornLink.Lib.ByteString
import ForgeswornLink.Lib.OrderedChecks

/-!
# The blob request and the response header

One request and one response travel over a stream: the request is 37 bytes, the
response a header and, when the blob was found, exactly as many bytes of body as
the header declares. A media type of more than 255 bytes is left out of the
header whole. The bytes of an accepted header are characterised once; the
streaming reader and the round trip are read off that.
-/

namespace ForgeswornLink.Blossom
open ByteString OrderedChecks

def requestMagic : List UInt8 := "FSLB".toUTF8.data.toList
def protocolVersion : UInt8 := 0x01
def requestLen : ℕ := 37
def maxContentType : ℕ := 255
def statusOk : UInt8 := 0x00
def statusNotFound : UInt8 := 0x01
def statusError : UInt8 := 0x02
def statusUnsupportedVersion : UInt8 := 0x03
def chunkBytes : ℕ := 64 * 1024

inductive WireError where
  | short (needed had : ℕ)
  | badMagic
  | badVersion (version : UInt8)
  | badStatus (status : UInt8)
  | contentTypeTooLong (length : UInt16)
  | badContentType
deriving DecidableEq

def hexByte (b : UInt8) : String :=
  (if b < 16 then "0" else "") ++ String.ofList (Nat.toDigits 16 b.toNat)

def hexEncode (bytes : List UInt8) : String := String.join (bytes.map hexByte)

def WireError.text : WireError → String
  | short needed had => s!"buffer too short: needed {needed} bytes, had {had}"
  | badMagic => "request magic is not FSLB"
  | badVersion version => "unsupported protocol version 0x" ++ hexByte version
  | badStatus status => "unknown response status byte 0x" ++ hexByte status
  | contentTypeTooLong length => s!"content-type length {length} exceeds 255 bytes"
  | badContentType => "content-type is not valid utf-8"

structure Request where
  sha256 : Block 32
deriving DecidableEq

def Request.encode (r : Request) : List UInt8 :=
  requestMagic ++ (protocolVersion :: r.sha256.toList)

def Request.decode (bytes : List UInt8) : Except WireError Request := do
  deny (bytes.length < requestLen) (.short requestLen bytes.length)
  deny (slice bytes 0 4 ≠ requestMagic) .badMagic
  deny (bytes.getD 4 0 ≠ protocolVersion) (.badVersion (bytes.getD 4 0))
  .ok ⟨readBlock 32 bytes 5⟩

theorem Request.length_encode (r : Request) : r.encode.length = requestLen := by
  have hdigest : r.sha256.toList.length = 32 := r.sha256.toList_length
  have hmagic : requestMagic.length = 4 := by decide
  rw [encode, List.length_append, List.length_cons, hdigest, hmagic, requestLen]

theorem Request.decode_encode (r : Request) : decode r.encode = .ok r := by
  have hmagic : slice r.encode 0 4 = requestMagic := by
    rw [encode, slice_zero]
    exact List.take_left' (by decide)
  have hversion : r.encode.getD 4 0 = protocolVersion := rfl
  have hdigest : readBlock 32 r.encode 5 = r.sha256 := by
    have hpre : (requestMagic ++ [protocolVersion]).length = 5 := by decide
    have hread := readBlock_append hpre r.sha256 []
    rwa [List.append_nil, List.append_assoc, List.singleton_append] at hread
  rw [decode, r.length_encode, hmagic, hversion, hdigest]
  rfl

inductive ResponseHeader where
  | ok (size : UInt64) (contentType : Option String)
  | notFound
  | error
  | unsupportedVersion
deriving DecidableEq

namespace ResponseHeader

/-- The content type as it is written: one over the bound is dropped whole. -/
def contentTypeBytes (contentType : Option String) : List UInt8 :=
  ((contentType.filter fun text => text.utf8ByteSize ≤ maxContentType).getD "").toUTF8.data.toList

def carried (contentType : Option String) : Option String :=
  (contentType.filter fun text => text.utf8ByteSize ≤ maxContentType).filter fun text => text ≠ ""

def okBytes (size : UInt64) (raw : List UInt8) : List UInt8 :=
  statusOk :: (toBe 8 size.toNat ++ (toBe 2 (raw.length % 2 ^ 16) ++ raw))

def encode : ResponseHeader → List UInt8
  | ok size contentType => okBytes size (contentTypeBytes contentType)
  | notFound => [statusNotFound]
  | error => [statusError]
  | unsupportedVersion => [statusUnsupportedVersion]

def readContentType (raw : List UInt8) : Except WireError (Option String) :=
  if raw.length = 0 then .ok none
  else
    match String.fromUTF8? ⟨raw.toArray⟩ with
    | none => .error .badContentType
    | some text => .ok (some text)

def decodeOk (bytes : List UInt8) : Except WireError (ResponseHeader × ℕ) := do
  deny (bytes.length < 11) (.short 11 bytes.length)
  let size := UInt64.ofNat (ofBe (slice bytes 1 9))
  let contentLen := ofBe (slice bytes 9 11)
  deny (contentLen > maxContentType) (.contentTypeTooLong (UInt16.ofNat contentLen))
  let stop := 11 + contentLen
  deny (bytes.length < stop) (.short stop bytes.length)
  let contentType ← readContentType (slice bytes 11 stop)
  .ok (.ok size contentType, stop)

def decode (bytes : List UInt8) : Except WireError (ResponseHeader × ℕ) :=
  match bytes with
  | [] => .error (.short 1 0)
  | status :: _ =>
    if status = statusOk then decodeOk bytes
    else if status = statusNotFound then .ok (.notFound, 1)
    else if status = statusError then .ok (.error, 1)
    else if status = statusUnsupportedVersion then .ok (.unsupportedVersion, 1)
    else .error (.badStatus status)

section Ok
variable {size : UInt64} {raw rest bytes : List UInt8}

theorem length_okBytes (size : UInt64) (raw : List UInt8) :
    (okBytes size raw).length = 11 + raw.length := by
  simp only [okBytes, List.length_cons, List.length_append, toBe_length]
  omega

theorem length_contentTypeBytes (contentType : Option String) :
    (contentTypeBytes contentType).length ≤ maxContentType := by
  have hlength : ∀ text : String, text.toUTF8.data.toList.length = text.utf8ByteSize := by
    intro text
    rfl
  rw [contentTypeBytes, hlength]
  cases hkept : contentType.filter fun text => text.utf8ByteSize ≤ maxContentType with
  | none => decide
  | some text => exact of_decide_eq_true (Option.filter_eq_some_iff.mp hkept).2

theorem slices_okBytes (size : UInt64) (h : raw.length ≤ maxContentType) (rest : List UInt8) :
    slice (okBytes size raw ++ rest) 1 9 = toBe 8 size.toNat ∧
      ofBe (slice (okBytes size raw ++ rest) 9 11) = raw.length ∧
      slice (okBytes size raw ++ rest) 11 (11 + raw.length) = raw := by
  have hsmall : raw.length % 2 ^ 16 = raw.length := by
    unfold maxContentType at h
    omega
  have hlen8 := toBe_length 8 size.toNat
  have hlen2 := toBe_length 2 raw.length
  have hbytes : okBytes size raw ++ rest =
      [statusOk] ++ (toBe 8 size.toNat ++ (toBe 2 raw.length ++ (raw ++ rest))) := by
    simp only [okBytes, hsmall, List.cons_append, List.nil_append, List.append_assoc]
  rw [hbytes]
  refine ⟨slice_middle rfl (by rw [hlen8]), ?_, ?_⟩
  · rw [← List.append_assoc [statusOk], slice_middle (by simp [hlen8]) (by rw [hlen2]), ofBe_toBe]
    exact hsmall
  · rw [← List.append_assoc [statusOk], ← List.append_assoc (_ ++ _)]
    exact slice_middle (by simp [hlen8, hlen2]) rfl

theorem decode_okBytes (size : UInt64) (h : raw.length ≤ maxContentType) (rest : List UInt8) :
    decode (okBytes size raw ++ rest) = (readContentType raw).map fun contentType =>
      (.ok size contentType, (okBytes size raw).length) := by
  obtain ⟨hsize, hcount, hraw⟩ := slices_okBytes size h rest
  have hlength : (okBytes size raw ++ rest).length = 11 + raw.length + rest.length := by
    rw [List.length_append, length_okBytes]
  have hvalue : UInt64.ofNat (ofBe (toBe 8 size.toNat)) = size := by
    rw [ofBe_toBe_of_lt size.toNat_lt, UInt64.ofNat_toNat]
  have hdecode : decode (okBytes size raw ++ rest) = decodeOk (okBytes size raw ++ rest) := rfl
  rw [hdecode, decodeOk, length_okBytes]
  simp only [hcount, hsize, hvalue, hraw, hlength, deny]
  rw [if_neg (by omega), if_neg (by omega), if_neg (by omega)]
  cases readContentType raw <;> rfl

theorem complete_of_decodeOk {r : ResponseHeader × ℕ}
    (h : decodeOk bytes = .ok r) :
    ofBe (slice bytes 9 11) ≤ maxContentType ∧ 11 + ofBe (slice bytes 9 11) ≤ bytes.length := by
  obtain ⟨-, -, h⟩ := bind_eq_ok.mp h
  obtain ⟨_, hlimit, h⟩ := bind_eq_ok.mp h
  obtain ⟨_, hlength, -⟩ := bind_eq_ok.mp h
  rw [deny_eq_ok, not_lt] at hlimit hlength
  exact ⟨hlimit, hlength⟩

theorem exists_okBytes (hhead : bytes.head? = some statusOk)
    (hlimit : ofBe (slice bytes 9 11) ≤ maxContentType)
    (hstop : 11 + ofBe (slice bytes 9 11) ≤ bytes.length) :
    ∃ size raw, raw.length = ofBe (slice bytes 9 11) ∧
      bytes = okBytes size raw ++ bytes.drop (11 + ofBe (slice bytes 9 11)) := by
  have hsize : (slice bytes 1 9).length = 8 := slice_length (by omega)
  have hcount : (slice bytes 9 11).length = 2 := slice_length (by omega)
  have hraw : (slice bytes 11 (11 + ofBe (slice bytes 9 11))).length = ofBe (slice bytes 9 11) := by
    rw [slice_length hstop]
    omega
  have hvalue : (UInt64.ofNat (ofBe (slice bytes 1 9))).toNat = ofBe (slice bytes 1 9) := by
    have hlt := ofBe_lt (slice bytes 1 9)
    rw [hsize] at hlt
    exact UInt64.toNat_ofNat_of_lt' hlt
  refine ⟨UInt64.ofNat (ofBe (slice bytes 1 9)),
    slice bytes 11 (11 + ofBe (slice bytes 9 11)), hraw, ?_⟩
  have hstatus : slice bytes 0 1 = [statusOk] := by
    cases bytes with
    | nil => cases hhead
    | cons b bs =>
      cases hhead
      rfl
  have hsmall : ofBe (slice bytes 9 11) % 2 ^ 16 = ofBe (slice bytes 9 11) := by
    unfold maxContentType at hlimit
    omega
  have hwhole : slice bytes 0 (11 + ofBe (slice bytes 9 11)) =
      [statusOk] ++ (slice bytes 1 9 ++ (slice bytes 9 11 ++
        slice bytes 11 (11 + ofBe (slice bytes 9 11)))) := by
    rw [slice_append_slice (by omega) (by omega), slice_append_slice (by omega) (by omega),
      ← hstatus, slice_append_slice (by omega) (by omega)]
  rw [okBytes, hvalue, hraw, hsmall, toBe_ofBe_of_length hsize, toBe_ofBe_of_length hcount,
    ← List.singleton_append, ← hwhole, slice_zero, List.take_append_drop]

theorem readContentType_contentTypeBytes (contentType : Option String) :
    readContentType (contentTypeBytes contentType) = .ok (carried contentType) := by
  rw [contentTypeBytes, carried]
  generalize contentType.filter _ = kept
  cases kept with
  | none => rfl
  | some text =>
    rw [Option.getD_some, readContentType]
    by_cases hempty : text = ""
    · subst hempty
      rfl
    · have hlength : text.toUTF8.data.toList.length = text.utf8ByteSize := rfl
      have hpos : text.toUTF8.data.toList.length ≠ 0 := by
        rw [hlength]
        simpa using hempty
      have hread : String.fromUTF8? ⟨text.toUTF8.data.toList.toArray⟩ = some text := by
        rw [Array.toArray_toList]
        simp only [String.fromUTF8?]
        exact dif_pos text.isValidUTF8
      rw [if_neg hpos, hread]
      simp [Option.filter, hempty]

theorem decode_cut {contentType : Option String} {cut : ℕ}
    (h : cut < (ok size contentType).encode.length) (r : ResponseHeader × ℕ) :
    decode ((ok size contentType).encode.take cut) ≠ .ok r := by
  intro hdecode
  cases cut with
  | zero => cases hdecode
  | succ cut =>
    have hwhole := slices_okBytes size (length_contentTypeBytes contentType) []
    rw [encode] at h hdecode
    rw [List.append_nil] at hwhole
    obtain ⟨-, hstop⟩ := complete_of_decodeOk hdecode
    rw [length_okBytes] at h
    rw [List.length_take, length_okBytes] at hstop
    rw [slice_take (by omega), hwhole.2.1] at hstop
    omega

end Ok

def received : ResponseHeader → ResponseHeader
  | ok size contentType => ok size (carried contentType)
  | header => header

theorem decode_encode_append (header : ResponseHeader) (rest : List UInt8) :
    decode (header.encode ++ rest) = .ok (header.received, header.encode.length) := by
  cases header with
  | ok size contentType =>
    rw [encode, decode_okBytes size (length_contentTypeBytes contentType),
      readContentType_contentTypeBytes]
    rfl
  | _ => rfl

end ResponseHeader

end ForgeswornLink.Blossom
