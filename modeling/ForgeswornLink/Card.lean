import ForgeswornLink.Identity
import ForgeswornLink.Lib.OrderedChecks

/-!
# Address cards

`FSL-CARD-1`, spec section 2: signing over the exact bytes, and the verifier
with its offset parser over the hint region.
-/

namespace ForgeswornLink
open ByteString OrderedChecks

def cardDomain : List UInt8 :=
  [0x66, 0x6f, 0x72, 0x67, 0x65, 0x73, 0x77, 0x6f, 0x72, 0x6e, 0x2d, 0x6c, 0x69, 0x6e, 0x6b,
    0x2f, 0x63, 0x61, 0x72, 0x64, 0x2f, 0x76, 0x31, 0x00]

def cardMagic : List UInt8 := [0x46, 0x53, 0x4c, 0x31]
def cardVersion : UInt8 := 0x01
def minCardBytes : ℕ := 126
def maxCardBytes : ℕ := 4096
def maxHints : ℕ := 16
def clockSkewSeconds : UInt64 := 300
def maxLifetimeSeconds : UInt64 := 604800

def hintRelay : UInt8 := 0x01
def maxRelayHintBytes : ℕ := 255
def hintUdp : UInt8 := 0x02
def hintOnion : UInt8 := 0x03
def hintEphemeral : UInt8 := 0x04

def headerBytes : ℕ := 62
def signatureBytes : ℕ := 64

/-- One hint in wire form; an unknown kind is kept as it came. -/
structure Hint where
  kind : UInt8
  value : List UInt8
deriving DecidableEq

structure Card where
  nodeId : NodeId
  issuedAt : UInt64
  expiresAt : UInt64
  serial : UInt64
  hints : List Hint
  raw : List UInt8
deriving DecidableEq

structure RuleViolation where
  rule : ℕ
  detail : String
deriving DecidableEq

def fail (rule : ℕ) (detail : String) : RuleViolation := ⟨rule, detail⟩

structure VerifyContext where
  now : UInt64
  highestSeenSerial : UInt64
  expectedNodeId : Option NodeId

def saturatingAdd (a b : UInt64) : UInt64 :=
  if a.toNat + b.toNat < 2 ^ 64 then a + b else UInt64.ofNat (2 ^ 64 - 1)

theorem saturatingAdd_toNat (a b : UInt64) :
    (saturatingAdd a b).toNat = min (a.toNat + b.toNat) (2 ^ 64 - 1) := by
  unfold saturatingAdd
  split_ifs with h
  · rw [UInt64.toNat_add, Nat.mod_eq_of_lt h]
    omega
  · have hmax : (UInt64.ofNat (2 ^ 64 - 1)).toNat = 2 ^ 64 - 1 := by decide
    rw [hmax]
    omega

def checkedAdd (a b : ℕ) : Option ℕ := if a + b < 2 ^ 64 then some (a + b) else none

def be64 (bytes : List UInt8) : UInt64 := UInt64.ofNat (ofBe bytes)

def validCompressedPoint (P : Primitives) (bytes : List UInt8) : Bool :=
  bytes.length == 33 && (bytes.getD 0 0 == 0x02 || bytes.getD 0 0 == 0x03) && P.sec1PublicKey bytes

namespace Hint

/-- The length is cast to `u16`. -/
def encode (hint : Hint) : List UInt8 :=
  hint.kind :: (toBe 2 (hint.value.length % 2 ^ 16) ++ hint.value)

def encodedLen (hint : Hint) : ℕ := 3 + hint.value.length

theorem encode_length (hint : Hint) : hint.encode.length = hint.encodedLen := by
  simp only [encode, encodedLen, List.length_cons, List.length_append, toBe_length]
  omega

end Hint

namespace Card

def encodeBody (nodeId : NodeId) (issuedAt expiresAt serial : UInt64) (hints : List Hint) :
    List UInt8 :=
  cardMagic ++ [cardVersion] ++ nodeId.asBytes ++ toBe 8 issuedAt.toNat ++
    toBe 8 expiresAt.toNat ++ toBe 8 serial.toNat ++ [UInt8.ofNat hints.length] ++
    hints.flatMap Hint.encode

def sign (P : Primitives) (key : TransportKey) (issuedAt expiresAt serial : UInt64)
    (hints : List Hint) : Card :=
  let body := encodeBody (key.nodeId P) issuedAt expiresAt serial hints
  let signature := key.sign P (cardDomain ++ body)
  { nodeId := key.nodeId P
    issuedAt := issuedAt
    expiresAt := expiresAt
    serial := serial
    hints := hints
    raw := body ++ signature.toList }

def asBytes (card : Card) : List UInt8 := card.raw

def checkHint (P : Primitives) (kind : UInt8) (length : ℕ) (value : List UInt8) :
    Except RuleViolation Unit :=
  if kind = hintRelay ∧ (length = 0 ∨ length > maxRelayHintBytes) then
    .error (fail 3 "relay hint is not 1 to 255 bytes")
  else if kind = hintUdp ∧ length ≠ 18 then
    .error (fail 3 "udp hint is not 18 bytes")
  else if kind = hintOnion ∧ length ≠ 58 then
    .error (fail 3 "onion hint is not 58 bytes")
  else if kind = hintEphemeral then
    if length ≠ 33 then
      .error (fail 3 "ephemeral hint is not 33 bytes")
    else if validCompressedPoint P value = false then
      .error (fail 3 "ephemeral hint does not decompress to a curve point")
    else .ok ()
  else .ok ()

def parseHint (P : Primitives) (bytes : List UInt8) (hintsEnd offset : ℕ) :
    Except RuleViolation (ℕ × Hint) :=
  if offset + 3 > hintsEnd then .error (fail 3 "hint header runs past the signature")
  else
    let kind := bytes.getD offset 0
    let length := ofBe (slice bytes (offset + 1) (offset + 3))
    let valueStart := offset + 3
    match checkedAdd valueStart length with
    | none => .error (fail 3 "hint length overflows")
    | some valueEnd =>
      if valueEnd > hintsEnd then .error (fail 3 "hint value runs past the signature")
      else
        match checkHint P kind length (slice bytes valueStart valueEnd) with
        | .error v => .error v
        | .ok () => .ok (valueEnd, ⟨kind, slice bytes valueStart valueEnd⟩)

def parseHints (P : Primitives) (bytes : List UInt8) (hintsEnd : ℕ) :
    ℕ → ℕ → List Hint → Except RuleViolation (ℕ × List Hint)
  | 0, offset, hints => .ok (offset, hints)
  | remaining + 1, offset, hints =>
    match parseHint P bytes hintsEnd offset with
    | .error v => .error v
    | .ok (valueEnd, hint) => parseHints P bytes hintsEnd remaining valueEnd (hints ++ [hint])

/-- The ordered rules of spec 2.3, reporting the first failure. -/
def verify (P : Primitives) (bytes : List UInt8) (ctx : VerifyContext) :
    Except RuleViolation Card := do
  deny (bytes.length < minCardBytes) (fail 1 "card shorter than the 126 byte minimum")
  deny (bytes.length > maxCardBytes) (fail 1 "card longer than the 4096 byte maximum")
  deny (bytes.take 4 ≠ cardMagic) (fail 2 "magic is not FSL1")
  deny (bytes.getD 4 0 ≠ cardVersion) (fail 2 "version is not 0x01")
  let nodeId : NodeId := ⟨readBlock 32 bytes 5⟩
  let issuedAt := be64 (slice bytes 37 45)
  let expiresAt := be64 (slice bytes 45 53)
  let serial := be64 (slice bytes 53 61)
  let hintCount := (bytes.getD 61 0).toNat
  let hintsEnd := bytes.length - signatureBytes
  deny (hintCount > maxHints) (fail 3 "hint_count above 16")
  let (offset, hints) ← parseHints P bytes hintsEnd hintCount headerBytes []
  deny (offset ≠ hintsEnd) (fail 3 "hints do not end exactly at the signature")
  deny (hints.countP (fun hint => hint.kind == hintEphemeral) > 1)
    (fail 3 "more than one ephemeral hint")
  let signingInput := cardDomain ++ bytes.take hintsEnd
  let signature := readBlock 64 bytes hintsEnd
  deny (nodeId.verify P signingInput signature = false)
    (fail 4 "signature does not verify under node_id")
  deny (issuedAt > saturatingAdd ctx.now clockSkewSeconds)
    (fail 5 "issued_at is beyond the allowed clock skew")
  deny (expiresAt ≤ ctx.now) (fail 6 "card has expired")
  deny (expiresAt ≤ issuedAt) (fail 7 "expires_at is not after issued_at")
  deny (expiresAt - issuedAt > maxLifetimeSeconds) (fail 7 "lifetime longer than seven days")
  deny (serial ≤ ctx.highestSeenSerial)
    (fail 8 "serial is not above the highest previously accepted")
  deny (ctx.expectedNodeId.any (fun expected => expected ≠ nodeId))
    (fail 9 "node_id is not the expected peer")
  return { nodeId, issuedAt, expiresAt, serial, hints, raw := bytes }

end Card

end ForgeswornLink
