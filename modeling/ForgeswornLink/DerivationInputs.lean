import ForgeswornLink.BookMaterial
import ForgeswornLink.CardBytes
import ForgeswornLink.Relay

/-!
# What is derived from and what is signed

Key material and info of a tag are concatenations, and so are the two inputs that
a transport key signs. Nothing in them is delimited: the last fields have fixed
widths and the total length gives the width of the rest, so the two-byte length of
a relay host, which a long host truncates, is never needed to take an input apart.
The two signing inputs differ in their domain, before either of them ends.
-/

namespace ForgeswornLink
open ByteString OrderedChecks

/-! ### Tags -/

def TagCase.fromByte (byte : UInt8) : Option TagCase :=
  if byte = 0x00 then some .none else if byte = 0x01 then some .one
  else if byte = 0x02 then some .both else Option.none

theorem TagCase.fromByte_byte (case : TagCase) : fromByte case.byte = some case := by
  cases case <;> rfl

def Material.ikm : Material → List UInt8
  | .pair peer => [peer.case.byte] ++ peer.staticX.toList ++ peer.ephX.toList
  | .pairing secret => [pairingCase] ++ secret.toList
  | .paired secret => [pairedRouteCase] ++ secret.toList

def tagInfo (relayHost : String) (epoch : ℕ) : List UInt8 :=
  relayHost.toUTF8.data.toList ++ [0] ++ toBe 8 epoch

structure Derivation where
  material : Material
  relayHost : String
  epoch : UInt64
deriving DecidableEq

namespace Derivation

def tag (P : Primitives) (d : Derivation) : Tag := d.material.tag P d.relayHost d.epoch.toNat

def inputs (d : Derivation) : List UInt8 × List UInt8 :=
  (d.material.ikm, tagInfo d.relayHost d.epoch.toNat)

theorem tag_eq (P : Primitives) (d : Derivation) :
    d.tag P = ⟨P.hkdfSha256 d.inputs.1 rendezvousSalt d.inputs.2⟩ := by
  obtain ⟨material, relayHost, epoch⟩ := d
  cases material <;> rfl

end Derivation

theorem length_ikm (material : Material) : material.ikm.length =
    match material with
    | .pair _ => 65
    | .pairing _ => 17
    | .paired _ => 33 := by
  cases material with
  | pair peer =>
    have hstatic := peer.staticX.toList_length
    have heph := peer.ephX.toList_length
    rw [Material.ikm, List.length_append, List.length_append, hstatic, heph]
    rfl
  | pairing secret =>
    rw [Material.ikm, List.length_append, secret.toList_length]
    rfl
  | paired secret =>
    rw [Material.ikm, List.length_append, secret.toList_length]
    rfl

theorem ikm_pair_injective {peer peer' : RendezvousPeer}
    (h : (Material.pair peer).ikm = (Material.pair peer').ikm) : peer = peer' := by
  obtain ⟨case, staticX, ephX⟩ := peer
  obtain ⟨case', staticX', ephX'⟩ := peer'
  have hlength : ephX.toList.length = ephX'.toList.length := by
    rw [ephX.toList_length, ephX'.toList_length]
  obtain ⟨h, heph⟩ := List.append_inj' h hlength
  obtain ⟨hcase, hstatic⟩ := List.cons.inj h
  have hcase : case = case' := by
    have hread := congrArg TagCase.fromByte hcase
    rw [TagCase.fromByte_byte, TagCase.fromByte_byte] at hread
    exact Option.some.inj hread
  have hstatic : staticX = staticX' := List.Vector.toList_injective hstatic
  have heph : ephX = ephX' := List.Vector.toList_injective heph
  rw [hcase, hstatic, heph]

theorem ikm_injective {material material' : Material} (h : material.ikm = material'.ikm) :
    material = material' := by
  have hlength := congrArg List.length h
  rw [length_ikm, length_ikm] at hlength
  cases material with
  | pair peer =>
    cases material' with
    | pair peer' => rw [ikm_pair_injective h]
    | pairing secret' => cases hlength
    | paired secret' => cases hlength
  | pairing secret =>
    cases material' with
    | pair peer' => cases hlength
    | pairing secret' => rw [List.Vector.toList_injective (List.cons.inj h).2]
    | paired secret' => cases hlength
  | paired secret =>
    cases material' with
    | pair peer' => cases hlength
    | pairing secret' => cases hlength
    | paired secret' => rw [List.Vector.toList_injective (List.cons.inj h).2]

theorem tagInfo_injective {host host' : String} {epoch epoch' : UInt64}
    (h : tagInfo host epoch.toNat = tagInfo host' epoch'.toNat) :
    host = host' ∧ epoch = epoch' := by
  have hlength : (toBe 8 epoch.toNat).length = (toBe 8 epoch'.toNat).length := by
    rw [toBe_length, toBe_length]
  obtain ⟨h, hepoch⟩ := List.append_inj' h hlength
  obtain ⟨hhost, -⟩ := List.append_inj' h rfl
  exact ⟨utf8_injective hhost,
    UInt64.toNat_inj.mp (toBe_injective epoch.toNat_lt epoch'.toNat_lt hepoch)⟩

theorem inputs_injective : Function.Injective Derivation.inputs := by
  rintro ⟨material, host, epoch⟩ ⟨material', host', epoch'⟩ h
  obtain ⟨hikm, hinfo⟩ := Prod.mk.inj h
  have hmaterial : material = material' := ikm_injective hikm
  obtain ⟨hhost, hepoch⟩ : host = host' ∧ epoch = epoch' := tagInfo_injective hinfo
  rw [hmaterial, hhost, hepoch]

/-! ### Signatures -/

theorem length_relayAuthSigningInput (host : String) (challenge : Block 32) :
    (relayAuthSigningInput host challenge).length = 64 + host.toUTF8.data.toList.length := by
  have hdomain : relayAuthDomain.length = 30 := by decide
  have hchallenge := challenge.toList_length
  simp only [relayAuthSigningInput, List.length_append, toBe_length, hdomain, hchallenge]
  omega

theorem relayAuthSigningInput_injective {host host' : String} {challenge challenge' : Block 32}
    (h : relayAuthSigningInput host challenge = relayAuthSigningInput host' challenge') :
    host = host' ∧ challenge = challenge' := by
  -- the length of the whole, not the truncated prefix, gives the length of the host
  have hlength := congrArg List.length h
  rw [length_relayAuthSigningInput, length_relayAuthSigningInput] at hlength
  have hhosts : host.toUTF8.data.toList.length = host'.toUTF8.data.toList.length := by omega
  have hchallenges : challenge.toList.length = challenge'.toList.length := by
    rw [challenge.toList_length, challenge'.toList_length]
  obtain ⟨h, hchallenge⟩ := List.append_inj' h hchallenges
  obtain ⟨-, hhost⟩ := List.append_inj' h hhosts
  exact ⟨utf8_injective hhost, List.Vector.toList_injective hchallenge⟩

namespace Card

/-- The body the signature covers, with its domain. No card is shorter than its signature. -/
def signingInput (card : Card) : List UInt8 :=
  cardDomain ++ card.raw.take (card.raw.length - signatureBytes)

def signature (card : Card) : Block 64 := readBlock 64 card.raw (card.raw.length - signatureBytes)

theorem signingInput_sign (P : Primitives) (key : TransportKey) (issuedAt expiresAt serial : UInt64)
    (hints : List Hint) : (sign P key issuedAt expiresAt serial hints).signingInput =
      cardDomain ++ encodeBody (key.nodeId P) issuedAt expiresAt serial hints := by
  have hlength : ∀ body : List UInt8, ∀ signature : Block 64,
      (body ++ signature.toList).length - signatureBytes = body.length := by
    intro body signature
    rw [List.length_append, signature.toList_length, signatureBytes, Nat.add_sub_cancel]
  rw [signingInput, sign]
  dsimp only
  rw [hlength, List.take_left]

theorem verify_signingInput {P : Primitives} {bytes : List UInt8}
    {ctx : VerifyContext} {card : Card} (h : verify P bytes ctx = .ok card) :
    card.nodeId.verify P card.signingInput card.signature = true := by
  have hsigned := (verify_settles P bytes ctx).ok card h 4 (by norm_num)
  obtain ⟨hints, -, rfl⟩ := verify_returns h
  rw [Violates, Bool.not_eq_false] at hsigned
  exact hsigned

end Card

theorem not_cardDomain_append (host : String) (challenge : Block 32) (body : List UInt8) :
    relayAuthSigningInput host challenge ≠ cardDomain ++ body := by
  intro h
  have hhead := congrArg (List.take 24) h
  rw [List.take_left' (by rfl), relayAuthSigningInput, List.append_assoc, List.append_assoc,
    List.take_append_of_le_length (by decide)] at hhead
  exact absurd hhead (by decide)

/-- Which derivation it is, its secret, the host and the epoch are read off the key material and
the info; the host and the challenge are read off what authenticates to a relay; and that is
never what a card signs. -/
theorem inputs_unambiguous :
    (∀ P d, Derivation.tag P d = ⟨P.hkdfSha256 d.inputs.1 rendezvousSalt d.inputs.2⟩) ∧
    Function.Injective Derivation.inputs ∧
    Function.Injective (fun x : String × Block 32 => relayAuthSigningInput x.1 x.2) ∧
    ∀ host challenge,
      (∀ card : Card, relayAuthSigningInput host challenge ≠ card.signingInput) ∧
      ∀ nodeId issuedAt expiresAt serial hints, relayAuthSigningInput host challenge ≠
        cardDomain ++ Card.encodeBody nodeId issuedAt expiresAt serial hints := by
  refine ⟨Derivation.tag_eq, inputs_injective, ?_, fun host challenge => ⟨?_, ?_⟩⟩
  · rintro ⟨host, challenge⟩ ⟨host', challenge'⟩ h
    obtain ⟨rfl, rfl⟩ := relayAuthSigningInput_injective h
    rfl
  · intro card
    exact not_cardDomain_append host challenge _
  · intro nodeId issuedAt expiresAt serial hints
    exact not_cardDomain_append host challenge _

end ForgeswornLink
