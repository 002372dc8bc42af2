import ForgeswornLink.Identity
import ForgeswornLink.Lib.BitGroups

/-!
# Node IDs as text

The base32 form of a node ID, spec 1, and the virtual URLs that carry it as their
host. Both directions of base32 are loops over an accumulator of 32 bits; the
reader accepts only what the writer would have written.
-/

namespace ForgeswornLink
open ByteString BitGroups

def base32Alphabet : List UInt8 := "abcdefghijklmnopqrstuvwxyz234567".toUTF8.data.toList

def base32Char (value : ℕ) : Char := Char.ofNat (base32Alphabet.getD (value &&& 31) 0).toNat

structure BitBuffer (α : Type) where
  bits : ℕ
  acc : ℕ
  out : List α

namespace NodeId

def pushGroups (acc : ℕ) : ℕ → ℕ → List Char
  | 0, _ => []
  | turns + 1, bits => base32Char (acc >>> (bits - 5)) :: pushGroups acc turns (bits - 5)

def encodeByte (s : BitBuffer Char) (byte : UInt8) : BitBuffer Char :=
  let acc := (s.acc <<< 8 ||| byte.toNat) % 2 ^ 32
  let bits := s.bits + 8
  ⟨bits % 5, acc, s.out ++ pushGroups acc (bits / 5) bits⟩

def toBase32 (id : NodeId) : String :=
  let s := id.asBytes.foldl encodeByte ⟨0, 0, []⟩
  String.ofList (if 0 < s.bits then s.out ++ [base32Char (s.acc <<< (5 - s.bits))] else s.out)

def decodeChar (s : BitBuffer UInt8) (ch : UInt8) : Option (BitBuffer UInt8) :=
  (base32Alphabet.idxOf? ch).map fun value =>
    let acc := (s.acc <<< 5 ||| value) % 2 ^ 32
    let bits := s.bits + 5
    if 8 ≤ bits then ⟨bits - 8, acc, s.out ++ [UInt8.ofNat (acc >>> (bits - 8))]⟩
    else ⟨bits, acc, s.out⟩

def fromBase32 (text : String) : Option NodeId :=
  if text.utf8ByteSize ≠ 52 then none
  else do
    let s ← text.toUTF8.data.toList.foldlM decodeChar ⟨0, 0, []⟩
    let id ← fromSlice s.out
    if id.toBase32 ≠ text then none else some id

theorem toBase32_of_fromBase32 {text : String} {id : NodeId} (h : fromBase32 text = some id) :
    id.toBase32 = text := by
  unfold fromBase32 at h
  split_ifs at h
  simp only [Option.bind_eq_bind, Option.bind_eq_some_iff] at h
  obtain ⟨s, -, id', -, h⟩ := h
  split_ifs at h with hsame
  rw [← Option.some.inj h]
  exact not_ne_iff.mp hsame

/-! ### Both loops regroup bits -/

theorem base32Char_mod (value : ℕ) : base32Char (value % 2 ^ 5) = base32Char value := by
  have hlow (n : ℕ) : n &&& 31 = n % 2 ^ 5 := Nat.and_two_pow_sub_one_eq_mod n 5
  rw [base32Char, base32Char, hlow, hlow, Nat.mod_mod]

theorem pushGroups_eq (acc turns bits : ℕ) :
    pushGroups acc turns bits = (takeGroups 5 acc turns bits).map base32Char := by
  induction turns generalizing bits with
  | zero => rfl
  | succ turns ih => rw [pushGroups, takeGroups, List.map_cons, base32Char_mod, ih]

theorem regrouped_encode (bytes : List UInt8) :
    (bytes.foldl encodeByte ⟨0, 0, []⟩).bits < 5 ∧
      ∃ groups, (bytes.foldl encodeByte ⟨0, 0, []⟩).out = groups.map base32Char ∧
        Regrouped 5 32 (8 * bytes.length) (value 8 (bytes.map UInt8.toNat))
          (bytes.foldl encodeByte ⟨0, 0, []⟩).bits
            (bytes.foldl encodeByte ⟨0, 0, []⟩).acc groups := by
  induction bytes using List.reverseRecOn with
  | nil => exact ⟨by decide, [], rfl, regrouped_start 5 32⟩
  | append_singleton bytes byte ih =>
    rw [List.foldl_append, List.foldl_cons, List.foldl_nil]
    generalize bytes.foldl encodeByte ⟨0, 0, []⟩ = s at ih ⊢
    obtain ⟨hbits, groups, hout, hgroups⟩ := ih
    have hround := hgroups.absorb (w := 8) byte.toNat_lt (by omega) ((s.bits + 8) / 5) (by omega)
    have hleft : (s.bits + 8) % 5 = s.bits + 8 - 5 * ((s.bits + 8) / 5) := by omega
    refine ⟨Nat.mod_lt _ (by decide),
      groups ++ takeGroups 5 ((s.acc <<< 8 ||| byte.toNat) % 2 ^ 32) ((s.bits + 8) / 5)
        (s.bits + 8), ?_, ?_⟩
    · rw [encodeByte, hout, pushGroups_eq, ← List.map_append]
    · rw [List.map_append, List.map_singleton, value_snoc, List.length_append,
        List.length_singleton, Nat.mul_add, encodeByte, hleft]
      exact hround

theorem toBase32_groups (id : NodeId) :
    ∃ groups, id.toBase32 = String.ofList (groups.map base32Char) ∧ Fits 5 groups ∧
      groups.length = 52 ∧ value 5 groups = value 8 (id.asBytes.map UInt8.toNat) * 2 ^ 4 := by
  obtain ⟨hbits, groups, hout, hgroups⟩ := regrouped_encode id.asBytes
  unfold toBase32
  generalize id.asBytes.foldl encodeByte ⟨0, 0, []⟩ = s at hbits hout hgroups ⊢
  have hlength := hgroups.length
  rw [id.asBytes_length] at hlength
  have hone : s.bits = 1 := by omega
  have hmany : groups.length = 51 := by omega
  set n := value 8 (id.asBytes.map UInt8.toNat) with hn
  have hlast : (s.acc <<< 4) % 2 ^ 5 = n % 2 * 2 ^ 4 := by
    rw [Nat.shiftLeft_eq, hgroups.acc]
    omega
  refine ⟨groups ++ [(s.acc <<< 4) % 2 ^ 5], ?_, ?_, ?_, ?_⟩
  · dsimp only
    rw [hone, if_pos (by decide), hout, List.map_append, List.map_singleton, base32Char_mod]
  · refine hgroups.fits.append fun g hg => ?_
    rw [List.mem_singleton.mp hg]
    exact Nat.mod_lt _ (by decide)
  · rw [List.length_append, hmany, List.length_singleton]
  · rw [value_snoc, hgroups.value, hone, hlast]
    omega

theorem utf8EncodeChar_base32Char : ∀ g < 32,
    String.utf8EncodeChar (base32Char g) = [base32Alphabet.getD g 0] := by decide +kernel

theorem idxOf_base32Alphabet : ∀ g < 32,
    base32Alphabet.idxOf? (base32Alphabet.getD g 0) = some g := by decide +kernel

theorem utf8_ofList (text : List Char) :
    (String.ofList text).toUTF8.data.toList = text.flatMap String.utf8EncodeChar := by
  simp [String.toUTF8, List.utf8Encode]

theorem utf8_groups {groups : List ℕ} (hfits : Fits 5 groups) :
    (String.ofList (groups.map base32Char)).toUTF8.data.toList =
      groups.map fun g => base32Alphabet.getD g 0 := by
  rw [utf8_ofList]
  induction groups with
  | nil => rfl
  | cons g groups ih =>
    have hrest : Fits 5 groups := fun g' hg' => hfits g' (List.mem_cons_of_mem _ hg')
    rw [List.map_cons, List.flatMap_cons, utf8EncodeChar_base32Char g (hfits g List.mem_cons_self),
      ih hrest]
    rfl

theorem regrouped_decode {groups : List ℕ} (hfits : Fits 5 groups) :
    ∃ s, (groups.map fun g => base32Alphabet.getD g 0).foldlM decodeChar ⟨0, 0, []⟩ = some s ∧
      s.bits < 8 ∧ Regrouped 8 32 (5 * groups.length) (value 5 groups) s.bits s.acc
        (s.out.map UInt8.toNat) := by
  induction groups using List.reverseRecOn with
  | nil => exact ⟨_, rfl, by decide, regrouped_start 8 32⟩
  | append_singleton groups g ih =>
    obtain ⟨s, hs, hbits, hgroups⟩ := ih fun g' hg' => hfits g' (List.mem_append_left _ hg')
    have hg : g < 2 ^ 5 := hfits g (by simp)
    have hround := hgroups.absorb (w := 5) hg (by omega) ((s.bits + 5) / 8) (by omega)
    rw [List.map_append, List.map_singleton, List.foldlM_append, hs, value_snoc, List.length_append,
      List.length_singleton, Nat.mul_add]
    set acc := (s.acc <<< 5 ||| g) % 2 ^ 32 with hacc
    by_cases hfull : 8 ≤ s.bits + 5
    · refine ⟨⟨s.bits + 5 - 8, acc, s.out ++ [UInt8.ofNat (acc >>> (s.bits + 5 - 8))]⟩, ?_, ?_, ?_⟩
      · simp only [Option.bind_eq_bind, Option.bind_some, List.foldlM_cons,
          List.foldlM_nil, decodeChar, idxOf_base32Alphabet g hg, Option.map_some, if_pos hfull]
        rfl
      · dsimp only
        omega
      · have hturn : (s.bits + 5) / 8 = 1 := by omega
        rw [hturn] at hround
        dsimp only
        rw [List.map_append, List.map_singleton, UInt8.toNat_ofNat']
        exact hround
    · refine ⟨⟨s.bits + 5, acc, s.out⟩, ?_, ?_, ?_⟩
      · simp only [Option.bind_eq_bind, Option.bind_some, List.foldlM_cons,
          List.foldlM_nil, decodeChar, idxOf_base32Alphabet g hg, Option.map_some, if_neg hfull]
        rfl
      · dsimp only
        omega
      · have hturn : (s.bits + 5) / 8 = 0 := by omega
        rw [hturn, takeGroups, List.append_nil] at hround
        exact hround

theorem fromBase32_toBase32 (id : NodeId) : fromBase32 id.toBase32 = some id := by
  obtain ⟨groups, htext, hfits, hlength, hvalue⟩ := id.toBase32_groups
  obtain ⟨s, hs, hbits, hgroups⟩ := regrouped_decode hfits
  have hutf8 := utf8_groups hfits
  rw [← htext] at hutf8
  have hsize : id.toBase32.utf8ByteSize = 52 := by
    have hbytes : id.toBase32.utf8ByteSize = id.toBase32.toUTF8.data.toList.length := rfl
    rw [hbytes, hutf8, List.length_map, hlength]
  have hout : s.out = id.asBytes := by
    have htotal := hgroups.length
    rw [hlength, List.length_map] at htotal
    have hfour : s.bits = 4 := by omega
    have hnumber := hgroups.value
    rw [hvalue, hfour, Nat.mul_div_cancel _ (by decide)] at hnumber
    have hsame := eq_of_value hgroups.fits (fun g hg => by
      obtain ⟨byte, -, rfl⟩ := List.mem_map.mp hg
      exact byte.toNat_lt) (by rw [List.length_map, List.length_map, id.asBytes_length]; omega)
        hnumber
    exact List.map_injective_iff.mpr (fun _ _ => UInt8.toNat_inj.mp) hsame
  unfold fromBase32
  rw [if_neg (by rw [hsize]; simp), hutf8, hs, Option.bind_eq_bind, Option.bind_some,
    fromSlice_eq_some.mpr hout, Option.bind_eq_bind, Option.bind_some, if_neg (not_ne_iff.mpr rfl)]

theorem base32Char_mem : ∀ g < 32, base32Char g ∈ "abcdefghijklmnopqrstuvwxyz234567".toList := by
  decide +kernel

theorem getLast_toBase32 (id : NodeId) :
    id.toBase32.toList.getLast? = some 'a' ∨ id.toBase32.toList.getLast? = some 'q' := by
  obtain ⟨groups, htext, hfits, hlength, hvalue⟩ := id.toBase32_groups
  rcases List.eq_nil_or_concat groups with rfl | ⟨front, g, rfl⟩
  · simp at hlength
  · rw [List.concat_eq_append] at htext hfits hvalue
    rw [value_snoc] at hvalue
    have hg : g < 2 ^ 5 := hfits g (by simp)
    have hlast : id.toBase32.toList.getLast? = some (base32Char g) := by
      rw [htext, String.toList_ofList, List.map_append, List.map_singleton, List.getLast?_concat]
    have hzeros : g = 0 ∨ g = 16 := by omega
    rw [hlast]
    rcases hzeros with rfl | rfl
    · exact Or.inl (by decide +kernel)
    · exact Or.inr (by decide +kernel)

/-- The text of a node ID reads back as the ID, a text that is read is the text of the ID it gives,
so exactly the texts of IDs are read; those have 52 characters of the lower-case alphabet, the last
of them with zeros for its four low bits. -/
theorem base32_canonical :
    (∀ id : NodeId, fromBase32 id.toBase32 = some id) ∧
    (∀ text id, fromBase32 text = some id → id.toBase32 = text) ∧
    (∀ text, (fromBase32 text).isSome ↔ ∃ id : NodeId, text = id.toBase32) ∧
    ∀ id : NodeId, id.toBase32.length = 52 ∧
      (∀ c ∈ id.toBase32.toList, c ∈ "abcdefghijklmnopqrstuvwxyz234567".toList) ∧
      (id.toBase32.toList.getLast? = some 'a' ∨ id.toBase32.toList.getLast? = some 'q') := by
  refine ⟨fromBase32_toBase32, fun text id => toBase32_of_fromBase32, fun text => ?_, fun id => ?_⟩
  · constructor
    · intro h
      obtain ⟨id, hid⟩ := Option.isSome_iff_exists.mp h
      exact ⟨id, (toBase32_of_fromBase32 hid).symm⟩
    · rintro ⟨id, rfl⟩
      rw [fromBase32_toBase32]
      rfl
  · obtain ⟨groups, htext, hfits, hlength, -⟩ := id.toBase32_groups
    refine ⟨?_, fun c hc => ?_, id.getLast_toBase32⟩
    · rw [htext, String.length_ofList, List.length_map, hlength]
    · rw [htext, String.toList_ofList] at hc
      obtain ⟨g, hg, rfl⟩ := List.mem_map.mp hc
      exact base32Char_mem g (hfits g hg)

end NodeId

structure VirtualUrl where
  scheme : String
  username : String
  password : Option String
  port : Option UInt16
  path : String
  query : Option String
  fragment : Option String
  host : Option String
deriving DecidableEq

inductive SocketError where
  | scheme
  | authority
  | path
  | host
  | peerMismatch
deriving DecidableEq

def SocketError.text : SocketError → String
  | .scheme => "Link WebSocket URLs must use ws"
  | .authority => "Link WebSocket URL must not contain credentials, a port, query, or fragment"
  | .path => "Link WebSocket URL path must be /events or /drops"
  | .host => "Link WebSocket URL host must be a canonical Link node id"
  | .peerMismatch => "Link WebSocket URL host does not match the connected peer"

def validateVirtualUrl (url : VirtualUrl) (peer : NodeId) : Except SocketError Unit :=
  if url.scheme ≠ "ws" then .error .scheme
  else if url.username ≠ "" ∨ url.password.isSome ∨ url.port.isSome ∨ url.query.isSome ∨
      url.fragment.isSome then .error .authority
  else if url.path ≠ "/events" ∧ url.path ≠ "/drops" then .error .path
  else
    match url.host.bind NodeId.fromBase32 with
    | none => .error .host
    | some node => if node ≠ peer then .error .peerMismatch else .ok ()

theorem host_of_validateVirtualUrl {url : VirtualUrl} {peer : NodeId}
    (h : validateVirtualUrl url peer = .ok ()) : url.host = some peer.toBase32 := by
  unfold validateVirtualUrl at h
  split_ifs at h
  cases hhost : url.host with
  | none =>
    rw [hhost] at h
    cases h
  | some host =>
    rw [hhost, Option.bind_some] at h
    cases hnode : NodeId.fromBase32 host with
    | none =>
      rw [hnode] at h
      cases h
    | some node =>
      rw [hnode] at h
      dsimp only at h
      split_ifs at h with hpeer
      rw [← not_ne_iff.mp hpeer, NodeId.toBase32_of_fromBase32 hnode]

end ForgeswornLink
