import ForgeswornLink.Lib.FramedStream
import ForgeswornLink.CardIssue
import ForgeswornLink.Session

/-!
# The control stream

Each side of a session tells the other where it might be reached, and when to
punch, on a stream of its own: a length in four bytes, a kind, a body. The writer
counts candidates in one byte, the reader takes frames of at most 4096 bytes, and
the list a path socket offers is far shorter than either allows.
-/

namespace ForgeswornLink
open ByteString FramedStream

/-! ### What is offered -/

def maxLocalCandidates : ℕ := 8

def offer (v4 : Bool) (out : List IpAddr) (ip : IpAddr) : List IpAddr :=
  if ip.isIpv4 = v4 ∧ ip ∉ out then out ++ [ip] else out

/-- Every address a peer might reach this host on: that of the default route, those of the
interfaces if they can be listed, loopback last. -/
def localAddresses (v4 : Bool) (routed : Option IpAddr) (interfaces : Option (List IpAddr)) :
    List IpAddr :=
  let out := routed.toList.foldl (offer v4) []
  let out := ((interfaces.getD []).filter fun ip =>
    !(ip.isLoopback || ip.isUnspecified || ip.isLinkLocal)).foldl (offer v4) out
  offer v4 (out.take (maxLocalCandidates - 1)) (IpAddr.localhost v4)

def PathSocket.localCandidates (s : PathSocket) (routed : Option IpAddr)
    (interfaces : Option (List IpAddr)) : List SocketAddr :=
  if s.udp = false then []
  else
    let out :=
      if s.udpLocal.ip.isUnspecified then
        (localAddresses s.udpLocal.isIpv4 routed interfaces).map fun ip => .ofIp ip s.udpLocal.port
      else [s.udpLocal]
    match s.reflexive with
    | some reflexive => if reflexive ∈ out then out else out ++ [reflexive]
    | none => out

theorem length_offer (v4 : Bool) (out : List IpAddr) (ip : IpAddr) :
    (offer v4 out ip).length ≤ out.length + 1 := by
  rw [offer]
  split_ifs
  · simp
  · omega

theorem length_localAddresses (v4 : Bool) (routed : Option IpAddr)
    (interfaces : Option (List IpAddr)) :
    (localAddresses v4 routed interfaces).length ≤ maxLocalCandidates := by
  refine (length_offer v4 _ _).trans ?_
  have htake := List.length_take_le (maxLocalCandidates - 1) (((interfaces.getD []).filter fun ip =>
    !(ip.isLoopback || ip.isUnspecified || ip.isLinkLocal)).foldl (offer v4)
      (routed.toList.foldl (offer v4) []))
  rw [maxLocalCandidates] at htake ⊢
  omega

theorem PathSocket.length_localCandidates (s : PathSocket) (routed : Option IpAddr)
    (interfaces : Option (List IpAddr)) :
    (s.localCandidates routed interfaces).length ≤ maxLocalCandidates + 1 := by
  have haddresses := length_localAddresses s.udpLocal.isIpv4 routed interfaces
  have hreflexive : ∀ (out : List SocketAddr), out.length ≤ maxLocalCandidates →
      (match s.reflexive with
      | some reflexive => if reflexive ∈ out then out else out ++ [reflexive]
      | none => out).length ≤ maxLocalCandidates + 1 := by
    intro out hout
    cases s.reflexive with
    | none => exact Nat.le_succ_of_le hout
    | some reflexive =>
      dsimp only
      split_ifs
      · exact Nat.le_succ_of_le hout
      · rw [List.length_append, List.length_singleton]
        exact Nat.succ_le_succ hout
  rw [localCandidates]
  split_ifs with hrelay hany
  · exact Nat.zero_le _
  · exact hreflexive _ ((List.length_map _).trans_le haddresses)
  · exact hreflexive _ (Nat.succ_le_succ (Nat.zero_le 7))

/-! ### Messages -/

def controlCandidates : UInt8 := 0x01
def controlPunchNow : UInt8 := 0x02
def controlMaxBytes : ℕ := 4096

def punchNowMessage : List UInt8 := [0, 0, 0, 1, controlPunchNow]

def candidatesBody (candidates : List SocketAddr) : List UInt8 :=
  controlCandidates :: UInt8.ofNat (min candidates.length 255) ::
    (candidates.take 255).flatMap fun addr => addr.toIpv6.toList ++ toBe 2 addr.port.toNat

def candidatesMessage (candidates : List SocketAddr) : List UInt8 :=
  toBe 4 (candidatesBody candidates).length ++ candidatesBody candidates

def Hint.asUdp (hint : Hint) : Option SocketAddr :=
  if hint.kind ≠ hintUdp ∨ hint.value.length ≠ 18 then none
  else some (.ofIp (.v6 (readBlock 16 hint.value 0)) (UInt16.ofNat (ofBe (slice hint.value 16 18))))

def parseCandidates : List UInt8 → Option (List SocketAddr)
  | [] => none
  | count :: rest =>
    if rest.length ≠ count.toNat * 18 then none
    else (asChunks 18 rest).mapM fun chunk => Hint.asUdp ⟨hintUdp, chunk.toList⟩

def parseControl : List UInt8 → Option Control
  | [] => none
  | kind :: rest =>
    if kind = controlCandidates then (parseCandidates rest).map .candidates
    else if kind = controlPunchNow then some .punchNow
    else some .unknown

/-- What the reader does with a stream: read a length, stop if it is nothing or too much, read the
body, stop if it does not parse. -/
def controlFraming : Framing UInt8 Control where
  headLen := 4
  headLen_pos := by decide
  bodyLen header :=
    let len := ofBe header
    if len = 0 ∨ len > controlMaxBytes then none else some len
  parse := parseControl

def controlAcceptor (pieces : List (List UInt8)) : List Control := controlFraming.readAll pieces

def ControlSend.message (candidates : List SocketAddr) : ControlSend → List UInt8
  | .candidates => candidatesMessage candidates
  | .punchNow => punchNowMessage

/-- An address as it crosses: its octets and port, IPv4 mapped into IPv6. -/
def SocketAddr.mapped (addr : SocketAddr) : SocketAddr := .v6 addr.toIpv6 addr.port 0 0

def SocketAddr.unscoped : SocketAddr → SocketAddr
  | v4 ip port => v4 ip port
  | v6 ip port _ _ => v6 ip port 0 0

def ControlSend.received (candidates : List SocketAddr) : ControlSend → Control
  | .candidates => .candidates (candidates.map SocketAddr.mapped)
  | .punchNow => .punchNow

/-! ### One address -/

theorem SocketAddr.unmap_mapped (addr : SocketAddr) :
    addr.mapped.unmapIpv6 = addr.unmapIpv6.unscoped := by
  cases addr with
  | v4 ip port =>
    have htake : (toIpv6 (v4 ip port)).toList.take 12 = ipv4MappedPrefix :=
      @List.take_left' _ ipv4MappedPrefix ip.toList 12 rfl
    have hread : readBlock 4 (toIpv6 (v4 ip port)).toList 12 = ip := by
      have hread : readBlock 4 (ipv4MappedPrefix ++ (ip.toList ++ [])) 12 = ip :=
        readBlock_append rfl ip []
      rwa [List.append_nil] at hread
    rw [unmapIpv6, mapped, unmapIpv6, if_pos htake, hread]
    rfl
  | v6 ip port flowinfo scopeId =>
    rw [mapped, unmapIpv6, unmapIpv6]
    change (if ip.toList.take 12 = ipv4MappedPrefix then _ else _) = _
    split_ifs <;> rfl

def SocketAddr.wire (addr : SocketAddr) : Block 18 := ⟨(Hint.udp addr).value, Hint.udp_length addr⟩

def SocketAddr.ofWire (chunk : Block 18) : SocketAddr :=
  .ofIp (.v6 (readBlock 16 chunk.toList 0)) (UInt16.ofNat (ofBe (slice chunk.toList 16 18)))

theorem Hint.asUdp_chunk (chunk : Block 18) :
    Hint.asUdp ⟨hintUdp, chunk.toList⟩ = some (.ofWire chunk) := by
  refine if_neg ?_
  rw [chunk.toList_length]
  simp

theorem SocketAddr.ofWire_wire (addr : SocketAddr) : ofWire addr.wire = addr.mapped := by
  have hoctets : readBlock 16 addr.wire.toList 0 = addr.toIpv6 :=
    @readBlock_append 16 0 [] rfl addr.toIpv6 _
  have hport : slice addr.wire.toList 16 18 = toBe 2 addr.port.toNat := by
    have hslice : slice (addr.toIpv6.toList ++ (toBe 2 addr.port.toNat ++ [])) 16 18 =
        toBe 2 addr.port.toNat := slice_middle addr.toIpv6.toList_length (by rw [toBe_length])
    rwa [List.append_nil] at hslice
  rw [ofWire, hoctets, hport,
    ofBe_toBe_of_lt (lt_of_lt_of_eq addr.port.toNat_lt (by norm_num)), UInt16.ofNat_toNat]
  rfl

theorem SocketAddr.wire_ofWire (chunk : Block 18) : (ofWire chunk).wire = chunk := by
  have hlength := chunk.toList_length
  have hslice : (slice chunk.toList 16 18).length = 2 := slice_length (by omega)
  have hport : (UInt16.ofNat (ofBe (slice chunk.toList 16 18))).toNat =
      ofBe (slice chunk.toList 16 18) := by
    rw [UInt16.toNat_ofNat']
    refine Nat.mod_eq_of_lt (lt_of_lt_of_eq (ofBe_lt _) ?_)
    rw [hslice]
    norm_num
  apply List.Vector.eq
  change (readBlock 16 chunk.toList 0).toList ++
    toBe 2 (UInt16.ofNat (ofBe (slice chunk.toList 16 18))).toNat = chunk.toList
  rw [hport, toBe_ofBe_of_length hslice, readBlock_toList (by omega),
    slice_append_slice (Nat.zero_le _) (by omega), slice_zero, List.take_of_length_le (by omega)]

/-! ### One message -/

theorem candidatesBody_eq {candidates : List SocketAddr} (h : candidates.length ≤ 255) :
    candidatesBody candidates = controlCandidates :: UInt8.ofNat candidates.length ::
      (candidates.map SocketAddr.wire).flatMap List.Vector.toList := by
  rw [candidatesBody, min_eq_left h, List.take_of_length_le h, List.flatMap_map]
  rfl

theorem candidatesBody_length {candidates : List SocketAddr} (h : candidates.length ≤ 255) :
    (candidatesBody candidates).length = 2 + candidates.length * 18 := by
  rw [candidatesBody_eq h, List.length_cons, List.length_cons, flatMap_toList_length,
    List.length_map]
  omega

theorem parseCandidates_cons {count : UInt8} {rest : List UInt8} {addrs : List SocketAddr} :
    parseCandidates (count :: rest) = some addrs ↔
      rest.length = count.toNat * 18 ∧ addrs = (asChunks 18 rest).map SocketAddr.ofWire := by
  have hchunks : ((asChunks 18 rest).mapM fun chunk => Hint.asUdp ⟨hintUdp, chunk.toList⟩) =
      some ((asChunks 18 rest).map SocketAddr.ofWire) := by
    simp only [Hint.asUdp_chunk]
    exact List.mapM_pure
  rw [parseCandidates]
  split_ifs with hlength
  · exact iff_of_false (by simp) fun h => hlength h.1
  · rw [hchunks, Option.some.injEq, eq_comm]
    exact (and_iff_right (not_not.mp hlength)).symm

theorem parseControl_candidatesBody {candidates : List SocketAddr} (h : candidates.length ≤ 255) :
    parseControl (candidatesBody candidates) =
      some (.candidates (candidates.map SocketAddr.mapped)) := by
  have hcount : (UInt8.ofNat candidates.length).toNat = candidates.length := by
    rw [UInt8.toNat_ofNat']
    exact Nat.mod_eq_of_lt (by omega)
  have hparse := @parseCandidates_cons (UInt8.ofNat candidates.length)
    ((candidates.map SocketAddr.wire).flatMap List.Vector.toList) (candidates.map SocketAddr.mapped)
  rw [flatMap_toList_length, asChunks_flatMap (by decide), List.map_map, hcount,
    List.length_map] at hparse
  rw [candidatesBody_eq h, parseControl, if_pos rfl, hparse.mpr ⟨rfl, ?_⟩]
  · rfl
  · exact List.map_congr_left fun addr _ => (SocketAddr.ofWire_wire addr).symm

theorem candidatesBody_of_parse {body : List UInt8} {addrs : List SocketAddr}
    (h : parseControl body = some (.candidates addrs)) :
    addrs.length ≤ 255 ∧ candidatesBody addrs = body := by
  cases body with
  | nil => cases h
  | cons kind rest =>
    rw [parseControl] at h
    by_cases hkind : kind = controlCandidates
    swap
    · rw [if_neg hkind] at h
      split_ifs at h <;> cases h
    rw [if_pos hkind] at h
    subst hkind
    obtain ⟨parsed, hparsed, heq⟩ := Option.map_eq_some_iff.mp h
    cases heq
    cases rest with
    | nil => cases hparsed
    | cons count entries =>
      obtain ⟨hlength, rfl⟩ := parseCandidates_cons.mp hparsed
      have hcount : (asChunks 18 entries).length = count.toNat := by
        rw [asChunks, readChunks_length, hlength, Nat.mul_div_cancel _ (by decide)]
      have hfits : ((asChunks 18 entries).map SocketAddr.ofWire).length ≤ 255 := by
        rw [List.length_map, hcount]
        exact Nat.le_of_lt_succ count.toNat_lt
      have hwire : ((asChunks 18 entries).map SocketAddr.ofWire).map SocketAddr.wire =
          asChunks 18 entries := by
        rw [List.map_map]
        exact (List.map_congr_left fun chunk _ => SocketAddr.wire_ofWire chunk).trans
          (List.map_id _)
      refine ⟨hfits, ?_⟩
      rw [candidatesBody_eq hfits, hwire, flatMap_asChunks (by decide) hlength,
        List.length_map, hcount, UInt8.ofNat_toNat]

theorem isFrame_message (send : ControlSend) {candidates : List SocketAddr}
    (h : candidates.length ≤ 227) :
    controlFraming.IsFrame (send.message candidates) (send.received candidates) := by
  cases send with
  | candidates =>
    have hfits : candidates.length ≤ 255 := by omega
    have hlength := candidatesBody_length hfits
    refine ⟨_, candidatesBody candidates, rfl, toBe_length _ _, ?_,
      parseControl_candidatesBody hfits⟩
    change (if _ then none else some (ofBe (toBe 4 (candidatesBody candidates).length))) = _
    rw [ofBe_toBe_of_lt (by omega), if_neg (by rw [controlMaxBytes]; omega)]
  | punchNow =>
    refine ⟨[0, 0, 0, 1], [controlPunchNow], rfl, rfl, ?_, rfl⟩
    decide

/-! ### The stream -/

/-- Whatever a session announces, however its bytes are delivered, the peer reads the same messages
in the same order. A list arrives as its addresses without flow label and scope, once IPv4 ones are
unmapped. What a path socket offers is short enough. A body that is read as a list is the one that
list is written as. -/
theorem control_stream_round_trip :
    (∀ (sends : List (ControlSend × List SocketAddr)) (pieces : List (List UInt8)),
      (∀ send ∈ sends, send.2.length ≤ 227) →
      pieces.flatten = sends.flatMap (fun send => send.1.message send.2) →
      controlAcceptor pieces = sends.map fun send => send.1.received send.2) ∧
    (∀ candidates : List SocketAddr,
      (candidates.map SocketAddr.mapped).map SocketAddr.unmapIpv6 =
        candidates.map fun addr => addr.unmapIpv6.unscoped) ∧
    (∀ (s : PathSocket) routed interfaces, (s.localCandidates routed interfaces).length ≤ 227) ∧
    ∀ body addrs, parseControl body = some (.candidates addrs) →
      candidatesMessage addrs = toBe 4 body.length ++ body := by
  refine ⟨fun sends pieces hshort hpieces => ?_, fun candidates => ?_,
    fun s routed interfaces => ?_, fun body addrs h => ?_⟩
  · have hframes : List.Forall₂ controlFraming.IsFrame (sends.map fun send => send.1.message send.2)
        (sends.map fun send => send.1.received send.2) := by
      rw [List.forall₂_map_left_iff, List.forall₂_map_right_iff, List.forall₂_same]
      exact fun send hsend => isFrame_message send.1 (hshort send hsend)
    exact Framing.readAll_frames hframes (hpieces.trans List.flatMap_def)
  · rw [List.map_map]
    exact List.map_congr_left fun addr _ => addr.unmap_mapped
  · exact (s.length_localCandidates routed interfaces).trans (by decide)
  · rw [candidatesMessage, (candidatesBody_of_parse h).2]

def announcement : List (ControlSend × List SocketAddr) :=
  [(.candidates,
    [.v4 (List.Vector.replicate 4 10) 4000, .v6 (List.Vector.replicate 16 1) 4000 0 3]),
    (.punchNow, [])]

theorem announcement_read_back :
    let pieces := (announcement.flatMap fun send => send.1.message send.2).map fun b => [b]
    controlAcceptor pieces = announcement.map (fun send => send.1.received send.2) := by
  intro pieces
  refine control_stream_round_trip.1 announcement pieces (by decide) ?_
  rw [← List.flatMap_def]
  exact List.flatMap_singleton' _

end ForgeswornLink
