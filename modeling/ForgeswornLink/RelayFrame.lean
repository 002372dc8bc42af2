import ForgeswornLink.Identity

/-!
# Relay frames

The frames of a relay session, spec 3.1, and their byte form. A frame is its
kind byte and one of four bodies: a fixed block, a node ID and a datagram, a
tag and a datagram, or a counted list of tags. The decoder of each body is
characterised once, as an equivalence with the bytes it accepts; the whole
codec is assembled from these.
-/

namespace ForgeswornLink
open ByteString

@[ext] structure Tag where
  bytes : Block 16
deriving DecidableEq

def tagBytes : ℕ := 16
def maxDatagram : ℕ := 1350
def maxTagsPerRegister : ℕ := 256

inductive Frame where
  | challenge (bytes : Block 32)
  | auth (nodeId : NodeId) (signature : Block 64)
  | welcome (token : Block 16)
  | send (destination : NodeId) (datagram : List UInt8)
  | recv (source : NodeId) (datagram : List UInt8)
  | register (tags : List Tag)
  | sendTag (tag : Tag) (datagram : List UInt8)
  | recvTag (tag : Tag) (datagram : List UInt8)
  | ping (echo : Block 8)
  | pong (echo : Block 8)
  | close (reason : UInt16)
deriving DecidableEq

namespace Frame

def frameChallenge : UInt8 := 0x01
def frameAuth : UInt8 := 0x02
def frameWelcome : UInt8 := 0x03
def frameRegister : UInt8 := 0x04
def frameSend : UInt8 := 0x10
def frameRecv : UInt8 := 0x11
def frameSendTag : UInt8 := 0x12
def frameRecvTag : UInt8 := 0x13
def framePing : UInt8 := 0x20
def framePong : UInt8 := 0x21
def frameClose : UInt8 := 0x7f

def one (kind : UInt8) (body : List UInt8) : List UInt8 := kind :: body

def routed (kind : UInt8) (nodeId : NodeId) (datagram : List UInt8) : List UInt8 :=
  kind :: (nodeId.asBytes ++ datagram)

def routedTag (kind : UInt8) (tag : Tag) (datagram : List UInt8) : List UInt8 :=
  kind :: (tag.bytes.toList ++ datagram)

def registerBody (tags : List Tag) : List UInt8 :=
  toBe 2 (tags.length % 2 ^ 16) ++ tags.flatMap (fun tag => tag.bytes.toList)

def encode : Frame → List UInt8
  | challenge bytes => one frameChallenge bytes.toList
  | auth nodeId signature => frameAuth :: (nodeId.asBytes ++ signature.toList)
  | welcome token => one frameWelcome token.toList
  | send destination datagram => routed frameSend destination datagram
  | recv source datagram => routed frameRecv source datagram
  | register tags => frameRegister :: registerBody tags
  | sendTag tag datagram => routedTag frameSendTag tag datagram
  | recvTag tag datagram => routedTag frameRecvTag tag datagram
  | ping echo => one framePing echo.toList
  | pong echo => one framePong echo.toList
  | close reason => one frameClose (toBe 2 reason.toNat)

def splitAuth (body : List UInt8) : Option (NodeId × Block 64) :=
  if body.length ≠ 96 then none
  else do
    let nodeId ← NodeId.fromSlice (slice body 0 32)
    let signature ← block? 64 (body.drop 32)
    some (nodeId, signature)

def splitRouted (body : List UInt8) : Option (NodeId × List UInt8) :=
  if body.length < 33 then none
  else
    let datagram := body.drop 32
    if datagram = [] ∨ datagram.length > maxDatagram then none
    else (NodeId.fromSlice (slice body 0 32)).map (fun nodeId => (nodeId, datagram))

def splitRoutedTag (body : List UInt8) : Option (Tag × List UInt8) :=
  if body.length ≤ tagBytes then none
  else
    let datagram := body.drop tagBytes
    if datagram.length > maxDatagram then none
    else some (⟨readBlock 16 body 0⟩, datagram)

def splitRegister (body : List UInt8) : Option (List Tag) :=
  if body.length < 2 then none
  else
    let count := ofBe (slice body 0 2)
    let rest := body.drop 2
    if count > maxTagsPerRegister ∨ rest.length ≠ count * tagBytes then none
    else some ((asChunks 16 rest).map Tag.mk)

/-- `none` means malformed, which closes the session with reason 1. -/
def decode : List UInt8 → Option Frame
  | [] => none
  | kind :: body =>
    if kind = frameChallenge then (block? 32 body).map challenge
    else if kind = frameAuth then (splitAuth body).map (fun p => auth p.1 p.2)
    else if kind = frameWelcome then (block? 16 body).map welcome
    else if kind = frameSend then (splitRouted body).map (fun p => send p.1 p.2)
    else if kind = frameRecv then (splitRouted body).map (fun p => recv p.1 p.2)
    else if kind = frameRegister then (splitRegister body).map register
    else if kind = frameSendTag then (splitRoutedTag body).map (fun p => sendTag p.1 p.2)
    else if kind = frameRecvTag then (splitRoutedTag body).map (fun p => recvTag p.1 p.2)
    else if kind = framePing then (block? 8 body).map ping
    else if kind = framePong then (block? 8 body).map pong
    else if kind = frameClose then (block? 2 body).map
      (fun b => close (UInt16.ofNat (ofBe b.toList)))
    else none

/-- The bounds of spec 3.1 on what a frame carries. -/
def InBounds : Frame → Prop
  | send _ datagram | recv _ datagram | sendTag _ datagram | recvTag _ datagram =>
    1 ≤ datagram.length ∧ datagram.length ≤ maxDatagram
  | register tags => tags.length ≤ maxTagsPerRegister
  | _ => True

instance (f : Frame) : Decidable f.InBounds := by
  cases f <;> unfold InBounds <;> infer_instance

theorem splitAuth_eq_some {body : List UInt8} {nodeId : NodeId} {signature : Block 64} :
    splitAuth body = some (nodeId, signature) ↔ body = nodeId.asBytes ++ signature.toList := by
  have hid := nodeId.asBytes_length
  have hsig : signature.toList.length = 64 := signature.toList_length
  unfold splitAuth
  constructor
  · intro h
    split_ifs at h with hl
    simp only [Option.bind_eq_bind, Option.bind_eq_some_iff, NodeId.fromSlice_eq_some,
      block?_eq_some, Option.some.injEq, Prod.mk.injEq] at h
    obtain ⟨a, ha, b, hb, rfl, rfl⟩ := h
    rw [← ha, ← hb, slice_zero, List.take_append_drop]
  · intro h
    have hl : body.length = 96 := by rw [h, List.length_append]; omega
    have htake : slice body 0 32 = nodeId.asBytes := by rw [slice_zero, h, List.take_left' hid]
    have hdrop : body.drop 32 = signature.toList := by rw [h, List.drop_left' hid]
    rw [if_neg (by omega), htake, hdrop, block?_toList, NodeId.fromSlice_eq_some.mpr rfl]
    rfl

theorem splitRouted_eq_some {body datagram : List UInt8} {nodeId : NodeId} :
    splitRouted body = some (nodeId, datagram) ↔
      body = nodeId.asBytes ++ datagram ∧ 1 ≤ datagram.length ∧ datagram.length ≤ maxDatagram := by
  have hid := nodeId.asBytes_length
  unfold splitRouted
  constructor
  · intro h
    dsimp only at h
    split_ifs at h with hl hd
    rw [not_or, not_lt] at hd
    simp only [Option.map_eq_some_iff, NodeId.fromSlice_eq_some, Prod.mk.injEq] at h
    obtain ⟨a, ha, rfl, rfl⟩ := h
    refine ⟨?_, List.length_pos_of_ne_nil hd.1, hd.2⟩
    rw [← ha, slice_zero, List.take_append_drop]
  · rintro ⟨h, hpos, hmax⟩
    have hl : body.length = 32 + datagram.length := by rw [h, List.length_append, hid]
    have htake : slice body 0 32 = nodeId.asBytes := by rw [slice_zero, h, List.take_left' hid]
    have hdrop : body.drop 32 = datagram := by rw [h, List.drop_left' hid]
    have hne : datagram ≠ [] := List.ne_nil_of_length_pos hpos
    rw [if_neg (by omega)]
    simp only [htake, hdrop, NodeId.fromSlice_eq_some.mpr rfl]
    rw [if_neg (by rw [not_or, not_lt]; exact ⟨hne, hmax⟩)]
    rfl

theorem splitRoutedTag_eq_some {body datagram : List UInt8} {tag : Tag} :
    splitRoutedTag body = some (tag, datagram) ↔
      body = tag.bytes.toList ++ datagram ∧ 1 ≤ datagram.length ∧
        datagram.length ≤ maxDatagram := by
  have htag : tag.bytes.toList.length = 16 := tag.bytes.toList_length
  unfold splitRoutedTag tagBytes
  constructor
  · intro h
    dsimp only at h
    split_ifs at h with hl hd
    simp only [Option.some.injEq, Prod.mk.injEq] at h
    obtain ⟨rfl, rfl⟩ := h
    refine ⟨?_, by rw [List.length_drop]; omega, by omega⟩
    rw [readBlock_toList (by omega), Nat.zero_add, slice_zero, List.take_append_drop]
  · rintro ⟨h, hpos, hmax⟩
    have hl : body.length = 16 + datagram.length := by rw [h, List.length_append, htag]
    have hdrop : body.drop 16 = datagram := by rw [h, List.drop_left' htag]
    have hread : readBlock 16 body 0 = tag.bytes := by
      rw [h]
      exact @readBlock_append 16 0 [] rfl tag.bytes datagram
    rw [if_neg (by omega)]
    simp only [hdrop, hread]
    rw [if_neg (by omega)]

theorem flatMap_tag_bytes (tags : List Tag) :
    tags.flatMap (fun tag => tag.bytes.toList) =
      (tags.map Tag.bytes).flatMap List.Vector.toList := by
  rw [List.flatMap_map]

theorem map_mk_map_bytes (tags : List Tag) : (tags.map Tag.bytes).map Tag.mk = tags := by
  rw [List.map_map]
  exact List.map_id tags

theorem registerBody_length (tags : List Tag) :
    (registerBody tags).length = 2 + tags.length * 16 := by
  rw [registerBody, List.length_append, toBe_length, flatMap_tag_bytes, flatMap_toList_length,
    List.length_map]

theorem splitRegister_eq_some {body : List UInt8} {tags : List Tag} :
    splitRegister body = some tags ↔
      body = registerBody tags ∧ tags.length ≤ maxTagsPerRegister := by
  unfold splitRegister maxTagsPerRegister tagBytes
  constructor
  · intro h
    dsimp only at h
    split_ifs at h with hl hc
    rw [not_or, not_lt, not_not] at hc
    obtain ⟨hcount, hrest⟩ := hc
    have hchunks : (asChunks 16 (body.drop 2)).length = ofBe (slice body 0 2) := by
      rw [asChunks, readChunks_length, hrest, Nat.mul_div_cancel _ (by norm_num)]
    obtain rfl := Option.some.inj h
    have hhead : toBe 2 (ofBe (slice body 0 2)) = slice body 0 2 :=
      toBe_ofBe_of_length (slice_length (by omega))
    refine ⟨?_, by rw [List.length_map, hchunks]; exact hcount⟩
    rw [registerBody, List.length_map, hchunks, Nat.mod_eq_of_lt (by omega), hhead,
      flatMap_tag_bytes, List.map_map]
    have hid : (Tag.bytes ∘ Tag.mk) = id := rfl
    rw [hid, List.map_id, flatMap_asChunks (by norm_num) hrest, slice_zero, List.take_append_drop]
  · rintro ⟨rfl, hmax⟩
    have hlen := registerBody_length tags
    have hbe : (toBe 2 (tags.length % 2 ^ 16)).length = 2 := toBe_length _ _
    have hhead : slice (registerBody tags) 0 2 = toBe 2 (tags.length % 2 ^ 16) := by
      rw [slice_zero, registerBody, List.take_left' hbe]
    have htail : (registerBody tags).drop 2 = (tags.map Tag.bytes).flatMap List.Vector.toList := by
      rw [registerBody, List.drop_left' hbe, flatMap_tag_bytes]
    have hcount : ofBe (toBe 2 (tags.length % 2 ^ 16)) = tags.length := by
      rw [Nat.mod_eq_of_lt (by omega), ofBe_toBe_of_lt (by omega)]
    rw [if_neg (by omega)]
    simp only [hhead, htail, hcount, asChunks_flatMap (n := 16) (by norm_num), map_mk_map_bytes]
    rw [if_neg]
    rw [flatMap_toList_length, List.length_map]
    omega

theorem close_body_eq_some {body : List UInt8} {reason : UInt16} :
    (∃ b, block? 2 body = some b ∧ UInt16.ofNat (ofBe b.toList) = reason) ↔
      body = toBe 2 reason.toNat := by
  constructor
  · rintro ⟨b, hb, rfl⟩
    have hlt := ofBe_lt b.toList
    rw [b.toList_length] at hlt
    rw [block?_eq_some.mp hb, UInt16.toNat_ofNat_of_lt' (by simpa [UInt16.size] using hlt),
      toBe_ofBe_of_length b.toList_length]
  · intro h
    refine ⟨⟨body, by rw [h, toBe_length]⟩, block?_eq_some.mpr rfl, ?_⟩
    change UInt16.ofNat (ofBe body) = reason
    rw [h, ofBe_toBe_of_lt (by have := reason.toNat_lt; omega)]
    simp

theorem decode_challenge (body : List UInt8) :
    decode (frameChallenge :: body) = (block? 32 body).map challenge := rfl

theorem decode_auth (body : List UInt8) :
    decode (frameAuth :: body) = (splitAuth body).map (fun p => auth p.1 p.2) := rfl

theorem decode_welcome (body : List UInt8) :
    decode (frameWelcome :: body) = (block? 16 body).map welcome := rfl

theorem decode_send (body : List UInt8) :
    decode (frameSend :: body) = (splitRouted body).map (fun p => send p.1 p.2) := rfl

theorem decode_recv (body : List UInt8) :
    decode (frameRecv :: body) = (splitRouted body).map (fun p => recv p.1 p.2) := rfl

theorem decode_register (body : List UInt8) :
    decode (frameRegister :: body) = (splitRegister body).map register := rfl

theorem decode_sendTag (body : List UInt8) :
    decode (frameSendTag :: body) = (splitRoutedTag body).map (fun p => sendTag p.1 p.2) := rfl

theorem decode_recvTag (body : List UInt8) :
    decode (frameRecvTag :: body) = (splitRoutedTag body).map (fun p => recvTag p.1 p.2) := rfl

theorem decode_ping (body : List UInt8) :
    decode (framePing :: body) = (block? 8 body).map ping := rfl

theorem decode_pong (body : List UInt8) :
    decode (framePong :: body) = (block? 8 body).map pong := rfl

theorem decode_close (body : List UInt8) :
    decode (frameClose :: body) =
      (block? 2 body).map (fun b => close (UInt16.ofNat (ofBe b.toList))) := rfl

theorem kind_of_decode {kind : UInt8} {body : List UInt8} {f : Frame}
    (h : decode (kind :: body) = some f) :
    kind ∈ [frameChallenge, frameAuth, frameWelcome, frameSend, frameRecv, frameRegister,
      frameSendTag, frameRecvTag, framePing, framePong, frameClose] := by
  by_contra hk
  simp only [List.mem_cons, List.not_mem_nil, or_false, not_or] at hk
  obtain ⟨h₁, h₂, h₃, h₄, h₅, h₆, h₇, h₈, h₉, h₁₀, h₁₁⟩ := hk
  rw [decode, if_neg h₁, if_neg h₂, if_neg h₃, if_neg h₄, if_neg h₅, if_neg h₆, if_neg h₇,
    if_neg h₈, if_neg h₉, if_neg h₁₀, if_neg h₁₁] at h
  cases h

theorem decode_sound {kind : UInt8} {body : List UInt8} {f : Frame}
    (h : decode (kind :: body) = some f) : kind :: body = encode f ∧ f.InBounds := by
  have hk := kind_of_decode h
  simp only [List.mem_cons, List.not_mem_nil, or_false] at hk
  rcases hk with rfl | rfl | rfl | rfl | rfl | rfl | rfl | rfl | rfl | rfl | rfl
  · rw [decode_challenge, Option.map_eq_some_iff] at h
    obtain ⟨b, hb, rfl⟩ := h
    exact ⟨congrArg _ (block?_eq_some.mp hb), trivial⟩
  · rw [decode_auth, Option.map_eq_some_iff] at h
    obtain ⟨⟨nodeId, signature⟩, hb, rfl⟩ := h
    exact ⟨congrArg _ (splitAuth_eq_some.mp hb), trivial⟩
  · rw [decode_welcome, Option.map_eq_some_iff] at h
    obtain ⟨b, hb, rfl⟩ := h
    exact ⟨congrArg _ (block?_eq_some.mp hb), trivial⟩
  · rw [decode_send, Option.map_eq_some_iff] at h
    obtain ⟨⟨nodeId, datagram⟩, hb, rfl⟩ := h
    obtain ⟨hbody, hbound⟩ := splitRouted_eq_some.mp hb
    exact ⟨congrArg _ hbody, hbound⟩
  · rw [decode_recv, Option.map_eq_some_iff] at h
    obtain ⟨⟨nodeId, datagram⟩, hb, rfl⟩ := h
    obtain ⟨hbody, hbound⟩ := splitRouted_eq_some.mp hb
    exact ⟨congrArg _ hbody, hbound⟩
  · rw [decode_register, Option.map_eq_some_iff] at h
    obtain ⟨tags, hb, rfl⟩ := h
    obtain ⟨hbody, hbound⟩ := splitRegister_eq_some.mp hb
    exact ⟨congrArg _ hbody, hbound⟩
  · rw [decode_sendTag, Option.map_eq_some_iff] at h
    obtain ⟨⟨tag, datagram⟩, hb, rfl⟩ := h
    obtain ⟨hbody, hbound⟩ := splitRoutedTag_eq_some.mp hb
    exact ⟨congrArg _ hbody, hbound⟩
  · rw [decode_recvTag, Option.map_eq_some_iff] at h
    obtain ⟨⟨tag, datagram⟩, hb, rfl⟩ := h
    obtain ⟨hbody, hbound⟩ := splitRoutedTag_eq_some.mp hb
    exact ⟨congrArg _ hbody, hbound⟩
  · rw [decode_ping, Option.map_eq_some_iff] at h
    obtain ⟨b, hb, rfl⟩ := h
    exact ⟨congrArg _ (block?_eq_some.mp hb), trivial⟩
  · rw [decode_pong, Option.map_eq_some_iff] at h
    obtain ⟨b, hb, rfl⟩ := h
    exact ⟨congrArg _ (block?_eq_some.mp hb), trivial⟩
  · rw [decode_close, Option.map_eq_some_iff] at h
    obtain ⟨b, hb, rfl⟩ := h
    exact ⟨congrArg _ (close_body_eq_some.mp ⟨b, hb, rfl⟩), trivial⟩

theorem decode_complete {f : Frame} (h : f.InBounds) : decode (encode f) = some f := by
  cases f with
  | challenge bytes => rw [encode, one, decode_challenge, block?_toList, Option.map_some]
  | auth nodeId signature => rw [encode, decode_auth, splitAuth_eq_some.mpr rfl, Option.map_some]
  | welcome token => rw [encode, one, decode_welcome, block?_toList, Option.map_some]
  | send destination datagram =>
    rw [encode, routed, decode_send, splitRouted_eq_some.mpr ⟨rfl, h⟩, Option.map_some]
  | recv source datagram =>
    rw [encode, routed, decode_recv, splitRouted_eq_some.mpr ⟨rfl, h⟩, Option.map_some]
  | register tags =>
    rw [encode, decode_register, splitRegister_eq_some.mpr ⟨rfl, h⟩, Option.map_some]
  | sendTag tag datagram =>
    rw [encode, routedTag, decode_sendTag, splitRoutedTag_eq_some.mpr ⟨rfl, h⟩, Option.map_some]
  | recvTag tag datagram =>
    rw [encode, routedTag, decode_recvTag, splitRoutedTag_eq_some.mpr ⟨rfl, h⟩, Option.map_some]
  | ping echo => rw [encode, one, decode_ping, block?_toList, Option.map_some]
  | pong echo => rw [encode, one, decode_pong, block?_toList, Option.map_some]
  | close reason =>
    obtain ⟨b, hb, hr⟩ := close_body_eq_some.mpr (rfl : toBe 2 reason.toNat = _)
    rw [encode, one, decode_close, hb, Option.map_some, hr]

/-- A byte string decodes to a frame exactly when it is that frame's encoding and
the frame is in bounds. -/
theorem decode_eq_some {bytes : List UInt8} {f : Frame} :
    decode bytes = some f ↔ bytes = encode f ∧ f.InBounds := by
  constructor
  · intro h
    cases bytes with
    | nil => simp [decode] at h
    | cons kind body => exact decode_sound h
  · rintro ⟨rfl, h⟩
    exact decode_complete h

theorem registerBody_injective {tags tags' : List Tag}
    (h : registerBody tags = registerBody tags') :
    tags = tags' := by
  have htail := (List.append_inj h (by rw [toBe_length, toBe_length])).2
  rw [flatMap_tag_bytes, flatMap_tag_bytes] at htail
  have hchunks := congrArg (asChunks 16) htail
  rw [asChunks_flatMap (by norm_num), asChunks_flatMap (by norm_num)] at hchunks
  rw [← map_mk_map_bytes tags, hchunks, map_mk_map_bytes]

theorem toBe_two_injective {a b : UInt16} (h : toBe 2 a.toNat = toBe 2 b.toNat) : a = b := by
  have hv := congrArg ofBe h
  rw [ofBe_toBe_of_lt (by have := a.toNat_lt; omega),
    ofBe_toBe_of_lt (by have := b.toNat_lt; omega)] at hv
  exact UInt16.toNat_inj.mp hv

def kind : Frame → UInt8
  | challenge _ => frameChallenge
  | auth _ _ => frameAuth
  | welcome _ => frameWelcome
  | send _ _ => frameSend
  | recv _ _ => frameRecv
  | register _ => frameRegister
  | sendTag _ _ => frameSendTag
  | recvTag _ _ => frameRecvTag
  | ping _ => framePing
  | pong _ => framePong
  | close _ => frameClose

theorem encode_eq_kind_cons (f : Frame) : encode f = f.kind :: (encode f).tail := by
  cases f <;> rfl

theorem block_append_injective {n : ℕ} {a b : Block n} {xs ys : List UInt8}
    (h : a.toList ++ xs = b.toList ++ ys) : a = b ∧ xs = ys := by
  obtain ⟨hhead, htail⟩ := List.append_inj h (by rw [a.toList_length, b.toList_length])
  exact ⟨List.Vector.toList_injective hhead, htail⟩

theorem encode_injective {f g : Frame} (h : encode f = encode g) : f = g := by
  have hkind : f.kind = g.kind := by
    rw [encode_eq_kind_cons f, encode_eq_kind_cons g] at h
    exact (List.cons.inj h).1
  have hbody := congrArg List.tail h
  cases f with
  | challenge bytes =>
    cases g with
    | challenge bytes' => rw [List.Vector.toList_injective hbody]
    | _ => exact absurd hkind (by simp only [kind]; decide)
  | auth nodeId signature =>
    cases g with
    | auth nodeId' signature' =>
      obtain ⟨hid, hsig⟩ := block_append_injective hbody
      rw [NodeId.ext hid, List.Vector.toList_injective hsig]
    | _ => exact absurd hkind (by simp only [kind]; decide)
  | welcome token =>
    cases g with
    | welcome token' => rw [List.Vector.toList_injective hbody]
    | _ => exact absurd hkind (by simp only [kind]; decide)
  | send destination datagram =>
    cases g with
    | send destination' datagram' =>
      obtain ⟨hid, rfl⟩ := block_append_injective hbody
      rw [NodeId.ext hid]
    | _ => exact absurd hkind (by simp only [kind]; decide)
  | recv source datagram =>
    cases g with
    | recv source' datagram' =>
      obtain ⟨hid, rfl⟩ := block_append_injective hbody
      rw [NodeId.ext hid]
    | _ => exact absurd hkind (by simp only [kind]; decide)
  | register tags =>
    cases g with
    | register tags' => rw [registerBody_injective hbody]
    | _ => exact absurd hkind (by simp only [kind]; decide)
  | sendTag tag datagram =>
    cases g with
    | sendTag tag' datagram' =>
      obtain ⟨htag, rfl⟩ := block_append_injective hbody
      rw [Tag.ext htag]
    | _ => exact absurd hkind (by simp only [kind]; decide)
  | recvTag tag datagram =>
    cases g with
    | recvTag tag' datagram' =>
      obtain ⟨htag, rfl⟩ := block_append_injective hbody
      rw [Tag.ext htag]
    | _ => exact absurd hkind (by simp only [kind]; decide)
  | ping echo =>
    cases g with
    | ping echo' => rw [List.Vector.toList_injective hbody]
    | _ => exact absurd hkind (by simp only [kind]; decide)
  | pong echo =>
    cases g with
    | pong echo' => rw [List.Vector.toList_injective hbody]
    | _ => exact absurd hkind (by simp only [kind]; decide)
  | close reason =>
    cases g with
    | close reason' => rw [toBe_two_injective hbody]
    | _ => exact absurd hkind (by simp only [kind]; decide)

/-- The codec is exact in both directions. What decodes re-encodes to the same
bytes; what is encoded decodes to itself exactly inside the bounds, and to
nothing outside them. -/
theorem codec_exact :
    (∀ bytes f, decode bytes = some f → encode f = bytes) ∧
    (∀ f, decode (encode f) = some f ↔ f.InBounds) ∧
    (∀ f, ¬ f.InBounds → decode (encode f) = none) := by
  refine ⟨?_, ?_, ?_⟩
  · intro bytes f h
    exact (decode_eq_some.mp h).1.symm
  · intro f
    exact ⟨fun h => (decode_eq_some.mp h).2, decode_complete⟩
  · intro f hf
    cases hd : decode (encode f) with
    | none => rfl
    | some g =>
      obtain ⟨hbytes, hg⟩ := decode_eq_some.mp hd
      rw [encode_injective hbytes] at hf
      exact absurd hg hf

end Frame

end ForgeswornLink
