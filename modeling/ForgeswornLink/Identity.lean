import ForgeswornLink.Lib.ByteString

/-!
# Node identity, transport keys and socket addresses

The hash, MAC, signature and curve functions come from other crates. They are
one record of parameters, `Primitives`; nothing is assumed of them here, and a
result that relies on a documented law of one of them says so.
-/

namespace ForgeswornLink
open ByteString

structure Primitives where
  sha256 : List UInt8 → Block 32
  hmacSha256 : List UInt8 → List UInt8 → Block 32
  -- Input key material, salt and info, expanded to the 16 bytes of a tag.
  hkdfSha256 : List UInt8 → List UInt8 → List UInt8 → Block 16
  ed25519Public : Block 32 → Block 32
  ed25519Sign : Block 32 → List UInt8 → Block 64
  -- Whether the bytes are a verifying key and the signature is strictly valid under it.
  ed25519VerifyStrict : Block 32 → List UInt8 → Block 64 → Bool
  -- Whether `PublicKey::from_sec1_bytes` accepts the bytes.
  sec1PublicKey : List UInt8 → Bool

/-- Stand-ins that can be evaluated: a MAC is its key, a signature the seed twice. -/
def Primitives.standIn : Primitives where
  sha256 := fun message => readBlock 32 message 0
  hmacSha256 := fun key _ => readBlock 32 key 0
  hkdfSha256 := fun ikm _ info => readBlock 16 (info ++ ikm) 0
  ed25519Public := fun seed => seed
  ed25519Sign := fun seed _ => readBlock 64 (seed.toList ++ seed.toList) 0
  ed25519VerifyStrict := fun key _ signature =>
    signature == readBlock 64 (key.toList ++ key.toList) 0
  sec1PublicKey := fun bytes => bytes.length == 33

@[ext] structure NodeId where
  bytes : Block 32
deriving DecidableEq

namespace NodeId

def asBytes (id : NodeId) : List UInt8 := id.bytes.toList

theorem asBytes_length (id : NodeId) : id.asBytes.length = 32 := id.bytes.toList_length

def fromSlice (bs : List UInt8) : Option NodeId := (block? 32 bs).map NodeId.mk

theorem fromSlice_eq_some {bs : List UInt8} {id : NodeId} :
    fromSlice bs = some id ↔ bs = id.asBytes := by
  unfold fromSlice
  rw [Option.map_eq_some_iff]
  constructor
  · rintro ⟨b, hb, rfl⟩
    exact block?_eq_some.mp hb
  · intro h
    exact ⟨id.bytes, block?_eq_some.mpr h, rfl⟩

def verify (P : Primitives) (id : NodeId) (message : List UInt8) (signature : Block 64) : Bool :=
  P.ed25519VerifyStrict id.bytes message signature

end NodeId

/-- The signing seed; the node ID is derived from it, so the two always agree. -/
structure TransportKey where
  seed : Block 32

namespace TransportKey

def nodeId (P : Primitives) (key : TransportKey) : NodeId := ⟨P.ed25519Public key.seed⟩

def sign (P : Primitives) (key : TransportKey) (message : List UInt8) : Block 64 :=
  P.ed25519Sign key.seed message

end TransportKey

inductive IpAddr where
  | v4 (octets : Block 4)
  | v6 (octets : Block 16)
deriving DecidableEq

namespace IpAddr

def isIpv4 : IpAddr → Bool
  | v4 _ => true
  | v6 _ => false

def octets : IpAddr → List UInt8
  | v4 octets => octets.toList
  | v6 octets => octets.toList

def isUnspecified (ip : IpAddr) : Bool := ip.octets.all (· == 0)

def localhost : Bool → IpAddr
  | true => v4 ⟨[127, 0, 0, 1], rfl⟩
  | false => v6 ⟨[0, 0, 0, 0, 0, 0, 0, 0, 0, 0, 0, 0, 0, 0, 0, 1], rfl⟩

def isLoopback (ip : IpAddr) : Bool :=
  match ip with
  | v4 octets => octets.toList.head? == some 127
  | v6 _ => ip == localhost false

def isLinkLocal : IpAddr → Bool
  | v4 octets => octets.toList.take 2 == [169, 254]
  | v6 octets => octets.toList.head? == some 0xfe && (octets.toList.getD 1 0 &&& 0xc0) == 0x80

end IpAddr

inductive SocketAddr where
  | v4 (ip : Block 4) (port : UInt16)
  | v6 (ip : Block 16) (port : UInt16) (flowinfo scopeId : UInt32)
deriving DecidableEq

namespace SocketAddr

def isIpv4 : SocketAddr → Bool
  | v4 _ _ => true
  | v6 _ _ _ _ => false

def port : SocketAddr → UInt16
  | v4 _ port => port
  | v6 _ port _ _ => port

def ip : SocketAddr → IpAddr
  | v4 ip _ => .v4 ip
  | v6 ip _ _ _ => .v6 ip

def ofIp : IpAddr → UInt16 → SocketAddr
  | .v4 ip, port => v4 ip port
  | .v6 ip, port => v6 ip port 0 0

def ipv4MappedPrefix : List UInt8 := [0, 0, 0, 0, 0, 0, 0, 0, 0, 0, 0xff, 0xff]

def toIpv6 : SocketAddr → Block 16
  | v4 ip _ => ⟨ipv4MappedPrefix ++ ip.toList, by
      rw [List.length_append, ip.toList_length]
      rfl⟩
  | v6 ip _ _ _ => ip

/-- Undo `toIpv6` for socket use. -/
def unmapIpv6 : SocketAddr → SocketAddr
  | v4 ip port => v4 ip port
  | v6 ip port flowinfo scopeId =>
    if ip.toList.take 12 = ipv4MappedPrefix then v4 (readBlock 4 ip.toList 12) port
    else v6 ip port flowinfo scopeId

end SocketAddr

def addrDomain : List UInt8 := "forgesworn-link/addr/v1".toUTF8.toList ++ [0]

def syntheticPort : UInt16 := 7

def NodeId.syntheticAddr (P : Primitives) (id : NodeId) : SocketAddr :=
  .v6 ⟨0xfd :: 0x00 :: ((P.sha256 (addrDomain ++ id.asBytes)).toList.take 14), by
    simp [List.length_take]⟩ syntheticPort 0 0

end ForgeswornLink
