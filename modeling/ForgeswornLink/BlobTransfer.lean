import ForgeswornLink.BlobWire
import ForgeswornLink.Lib.CountedStream

/-!
# A blob from its source to the client

The server writes the header and then the source's chunks, each cut at 64 KiB,
and stops before a part that would pass the declared size, at an error of the
source, or when it has written a body of another length than it declared. The
client takes the header off the stream and then reads exactly the declared size
in pieces of at most 64 KiB. The bytes that arrive are the front of those
written, up to where the stream is cut.
-/

namespace ForgeswornLink.Blossom
open ByteString CountedStream OrderedChecks

abbrev Stream := Incoming UInt8 String

structure BlobBytes where
  size : UInt64
  contentType : Option String
  body : List (Except String (List UInt8))

structure Sending where
  sent : UInt64
  written : List UInt8

/-- The parts of one chunk. The part that passes the size is counted and not written. -/
def sendParts (size : UInt64) : Sending → List (List UInt8) → Sending × Option String
  | s, [] => (s, none)
  | s, part :: parts =>
    let sent := s.sent + UInt64.ofNat part.length
    if sent > size then
      ({ s with sent }, some s!"blob source produced more than the declared {size} bytes")
    else sendParts size ⟨sent, s.written ++ part⟩ parts

def sendBody (size : UInt64) : Sending → List (Except String (List UInt8)) → Sending × Option String
  | s, [] =>
    let sent := s.sent
    if sent = size then (s, none)
    else (s, some s!"blob source produced {sent} of the declared {size} bytes")
  | s, .error e :: _ => (s, some e)
  | s, .ok chunk :: body =>
    match sendParts size s (chunk.toChunks chunkBytes) with
    | (s, some e) => (s, some e)
    | (s, none) => sendBody size s body

def BlobBytes.header (blob : BlobBytes) : List UInt8 :=
  (ResponseHeader.ok blob.size blob.contentType).encode

def sendBlob (blob : BlobBytes) : List UInt8 × Option String :=
  let body := sendBody blob.size ⟨0, []⟩ blob.body
  (blob.header ++ body.1.written, body.2)

/-- Answer one request. An error drops the stream without finishing it. -/
def serveStream (source : String → Option BlobBytes) (s : Stream) (preread : List UInt8) :
    List UInt8 × Option String :=
  if preread.length > requestLen then ([], some "preread longer than the fixed request")
  else
    match s.readExact (requestLen - preread.length) with
    | .error e => ([], some e)
    | .ok (bytes, _) =>
      match Request.decode (preread ++ bytes) with
      | .error (.badVersion _) => (ResponseHeader.unsupportedVersion.encode, none)
      | .error e => ([], some e.text)
      | .ok request =>
        match source (hexEncode request.sha256.toList) with
        | some blob => sendBlob blob
        | none => (ResponseHeader.notFound.encode, none)

inductive FetchError where
  | unsupportedSource
  | unreachable (text : String)
  | unusableStatus (status : ℕ)
  | stream (text : String)
deriving DecidableEq

def orUnreachable {α : Type} (why : String) : Except String α → Except FetchError α
  | .ok a => .ok a
  | .error e => .error (.unreachable (why ++ e))

@[simp] theorem orUnreachable_ok_bind {α β : Type} (why : String) (a : α)
    (f : α → Except FetchError β) : (orUnreachable why (.ok a) >>= f) = f a := rfl

theorem orUnreachable_eq_ok {α : Type} {why : String} {c : Except String α} {a : α} :
    orUnreachable why c = .ok a ↔ c = .ok a := by
  cases c <;> simp [orUnreachable]

def decodeHeader (header : List UInt8) : Except FetchError ResponseHeader :=
  match ResponseHeader.decode header with
  | .ok decoded => .ok decoded.1
  | .error e => .error (.unreachable ("bad link response header: " ++ e.text))

def readOk (s : Stream) : Except FetchError (ResponseHeader × Stream) := do
  let (fixed, s) ← orUnreachable "truncated link response header: " (s.readExact 10)
  let contentLen := ofBe (slice fixed 8 10)
  deny (contentLen > maxContentType)
    (.unreachable s!"content-type length {contentLen} exceeds {maxContentType}")
  -- the source leaves out a read of nothing, which succeeds
  let (contentType, s) ← orUnreachable "truncated content-type: " (s.readExact contentLen)
  let header ← decodeHeader ([statusOk] ++ fixed ++ contentType)
  .ok (header, s)

def readResponse (s : Stream) : Except FetchError (ResponseHeader × Stream) := do
  let (status, s) ← orUnreachable "no link response header: " (s.readExact 1)
  if status ≠ [statusOk] then
    let header ← decodeHeader status
    .ok (header, s)
  else readOk s

def openBlob (s : Stream) : Except FetchError (UInt64 × Option String × Stream) := do
  match ← readResponse s with
  | (.ok size contentType, s) => .ok (size, contentType, s)
  | (.notFound, _) => .error (.unusableStatus 404)
  | (.error, _) => .error (.unusableStatus 500)
  | (.unsupportedVersion, _) => .error (.unusableStatus 505)

inductive BodySession where
  | owned (slot : Option ℕ)
  | shared (session : ℕ)
deriving DecidableEq

def BodySession.finish : BodySession → BodySession × Option ℕ
  | owned slot => (owned none, slot)
  | shared session => (shared session, none)

structure Body where
  stream : Stream
  session : BodySession
  remaining : ℕ
  errored : Bool

def linkBody (stream : Stream) (session : BodySession) (size : UInt64) : Body :=
  ⟨stream, session, size.toNat, false⟩

structure Polled where
  item : Option (Except FetchError (List UInt8))
  body : Body
  closed : Option ℕ

def bodyError (e : String) : FetchError := .stream ("link body read failed: " ++ e)

def Body.poll (b : Body) : Polled :=
  if b.errored then ⟨none, b, none⟩
  else if b.remaining = 0 then ⟨none, { b with session := b.session.finish.1 }, b.session.finish.2⟩
  else
    let want := min b.remaining chunkBytes
    match b.stream.readExact want with
    | .ok (buffer, stream) =>
      ⟨some (.ok buffer), { b with stream, remaining := b.remaining - want }, none⟩
    | .error e =>
      ⟨some (.error (bodyError e)), { b with errored := true, session := b.session.finish.1 },
        b.session.finish.2⟩

namespace Body
variable {b : Body}

theorem poll_errored (h : b.errored = true) : b.poll = ⟨none, b, none⟩ := if_pos h

theorem poll_complete (h : b.errored = false) (hzero : b.remaining = 0) :
    b.poll = ⟨none, { b with session := b.session.finish.1 }, b.session.finish.2⟩ := by
  rw [poll, if_neg (by simp [h]), if_pos hzero]

theorem poll_piece (h : b.errored = false) (hpos : b.remaining ≠ 0)
    (hle : min b.remaining chunkBytes ≤ b.stream.arriving.length) :
    b.poll = ⟨some (.ok (b.stream.arriving.take (min b.remaining chunkBytes))),
      { b with
        stream := ⟨b.stream.arriving.drop (min b.remaining chunkBytes), b.stream.short⟩
        remaining := b.remaining - min b.remaining chunkBytes }, none⟩ := by
  rw [poll, if_neg (by simp [h]), if_neg hpos]
  dsimp only
  rw [Incoming.readExact_of_le hle]

theorem poll_short (h : b.errored = false) (hpos : b.remaining ≠ 0)
    (hlt : b.stream.arriving.length < min b.remaining chunkBytes) :
    b.poll = ⟨some (.error (bodyError (b.stream.short b.stream.arriving.length))),
      { b with errored := true, session := b.session.finish.1 }, b.session.finish.2⟩ := by
  rw [poll, if_neg (by simp [h]), if_neg hpos]
  dsimp only
  rw [Incoming.readExact_of_lt hlt]

theorem poll_spec (b : Body) :
    (b.poll.closed = none ∧ b.poll.item.isSome ∧ b.poll.body.session = b.session ∧
      b.poll.body.errored = b.errored) ∨
    (b.errored = true ∧ b.poll = ⟨none, b, none⟩) ∨
    (b.errored = false ∧ b.poll.closed = b.session.finish.2 ∧
      b.poll.body.session = b.session.finish.1) := by
  cases herrored : b.errored with
  | true => exact Or.inr (Or.inl ⟨rfl, poll_errored herrored⟩)
  | false =>
    by_cases hzero : b.remaining = 0
    · rw [poll_complete herrored hzero]
      exact Or.inr (Or.inr ⟨rfl, rfl, rfl⟩)
    by_cases hlt : b.stream.arriving.length < min b.remaining chunkBytes
    · rw [poll_short herrored hzero hlt]
      exact Or.inr (Or.inr ⟨rfl, rfl, rfl⟩)
    · rw [poll_piece herrored hzero (not_lt.mp hlt)]
      exact Or.inl ⟨rfl, rfl, rfl, herrored⟩

def left (b : Body) : ℕ := if b.errored then 0 else b.remaining + 1

theorem left_poll {item : Except FetchError (List UInt8)} (h : b.poll.item = some item) :
    b.poll.body.left < b.left := by
  cases herrored : b.errored with
  | true =>
    rw [poll_errored herrored] at h
    cases h
  | false =>
    have hleft : b.left = b.remaining + 1 := by simp [left, herrored]
    by_cases hzero : b.remaining = 0
    · rw [poll_complete herrored hzero] at h
      cases h
    by_cases hlt : b.stream.arriving.length < min b.remaining chunkBytes
    · rw [poll_short herrored hzero hlt, hleft]
      simp [left]
    · have hchunk : 0 < chunkBytes := by decide
      rw [poll_piece herrored hzero (not_lt.mp hlt), hleft]
      simp only [left, herrored, Bool.false_eq_true, if_false]
      omega

def drain (b : Body) : List (Except FetchError (List UInt8)) :=
  match _h : b.poll.item with
  | none => []
  | some item => item :: b.poll.body.drain
termination_by b.left
decreasing_by exact left_poll _h

theorem drain_of_none (h : b.poll.item = none) : b.drain = [] := by
  rw [drain]
  split
  · rfl
  · next hsome => cases h.symm.trans hsome

theorem drain_of_some {item : Except FetchError (List UInt8)} (h : b.poll.item = some item) :
    b.drain = item :: b.poll.body.drain := by
  rw [drain]
  split
  · next hnone => cases h.symm.trans hnone
  · next hsome => rw [Option.some.inj (hsome.symm.trans h)]

instance : NeZero chunkBytes := ⟨by decide⟩

theorem drain_eq (b : Body) (h : b.errored = false) :
    b.drain = (readCounted chunkBytes b.stream b.remaining).1.map .ok ++
      (readCounted chunkBytes b.stream b.remaining).2.toList.map
      (fun e => .error (bodyError e)) := by
  induction hremaining : b.remaining using Nat.strong_induction_on generalizing b with
  | _ n ih =>
    subst hremaining
    by_cases hzero : b.remaining = 0
    · rw [drain_of_none (by rw [poll_complete h hzero]), hzero, readCounted_zero]
      rfl
    by_cases hlt : b.stream.arriving.length < min b.remaining chunkBytes
    · have hpoll := poll_short h hzero hlt
      have hended : ({ b with errored := true, session := b.session.finish.1 } : Body).drain = [] :=
        drain_of_none (by rw [poll_errored rfl])
      rw [drain_of_some (by rw [hpoll]), readCounted_short hzero hlt, hpoll, hended]
      rfl
    · rw [not_lt] at hlt
      have hpoll := poll_piece h hzero hlt
      have hchunk : 0 < chunkBytes := by decide
      have hrest := ih (b.remaining - min b.remaining chunkBytes) (by omega) b.poll.body
        (by rw [hpoll]; exact h) (by rw [hpoll])
      rw [drain_of_some (by rw [hpoll]), readCounted_piece hzero hlt, hrest, hpoll]
      rfl

end Body

def produced : List (Except String (List UInt8)) → List UInt8
  | [] => []
  | .error _ :: _ => []
  | .ok chunk :: body => chunk ++ produced body

section Send
variable {size : UInt64} {s : Sending}

theorem sendParts_front (size : UInt64) (s : Sending) (parts : List (List UInt8)) :
    ∃ front, (sendParts size s parts).1.written = s.written ++ front ∧ front <+: parts.flatten ∧
      ((sendParts size s parts).2 = none → front = parts.flatten) := by
  induction parts generalizing s with
  | nil => exact ⟨[], by simp [sendParts], List.nil_prefix, fun _ => rfl⟩
  | cons part parts ih =>
    rw [sendParts]
    split_ifs
    · exact ⟨[], by simp, List.nil_prefix, fun h => by cases h⟩
    · obtain ⟨front, hwritten, hfront, hall⟩ :=
        ih ⟨s.sent + UInt64.ofNat part.length, s.written ++ part⟩
      refine ⟨part ++ front, by rw [hwritten, List.append_assoc], ?_, fun h => ?_⟩
      · exact (List.prefix_append_right_inj part).mpr hfront
      · rw [hall h, List.flatten_cons]

theorem sendParts_fits (size : UInt64) (s : Sending) (parts : List (List UInt8))
    (h : s.sent.toNat + parts.flatten.length ≤ size.toNat) :
    ∃ sent, sendParts size s parts = (⟨sent, s.written ++ parts.flatten⟩, none) ∧
      sent.toNat = s.sent.toNat + parts.flatten.length := by
  induction parts generalizing s with
  | nil => exact ⟨s.sent, by simp [sendParts], by simp⟩
  | cons part parts ih =>
    rw [List.flatten_cons, List.length_append] at h
    have hlt := size.toNat_lt
    have hpart : part.length < UInt64.size := lt_of_le_of_lt (by omega) hlt
    have hsum : (s.sent + UInt64.ofNat part.length).toNat = s.sent.toNat + part.length := by
      rw [UInt64.toNat_add, UInt64.toNat_ofNat_of_lt' hpart, Nat.mod_eq_of_lt (by omega)]
    have hfits : ¬ s.sent + UInt64.ofNat part.length > size := by
      rw [gt_iff_lt, UInt64.lt_iff_toNat_lt, hsum]
      omega
    obtain ⟨sent, hsend, hsent⟩ :=
      ih ⟨s.sent + UInt64.ofNat part.length, s.written ++ part⟩ (by rw [hsum]; omega)
    refine ⟨sent, ?_, ?_⟩
    · rw [sendParts, if_neg hfits, hsend, List.flatten_cons, List.append_assoc]
    · rw [hsent, hsum, List.flatten_cons, List.length_append]
      omega

theorem sendBody_front (size : UInt64) (s : Sending) (body : List (Except String (List UInt8))) :
    ∃ front, (sendBody size s body).1.written = s.written ++ front ∧ front <+: produced body := by
  induction body generalizing s with
  | nil =>
    refine ⟨[], ?_, List.nil_prefix⟩
    rw [sendBody]
    split_ifs <;> simp
  | cons chunk body ih =>
    cases chunk with
    | error e => exact ⟨[], by simp [sendBody], List.nil_prefix⟩
    | ok chunk =>
      rw [sendBody, produced]
      obtain ⟨front, hwritten, hfront, hall⟩ := sendParts_front size s (chunk.toChunks chunkBytes)
      rw [flatten_toChunks] at hfront hall
      generalize sendParts size s (chunk.toChunks chunkBytes) = r at hwritten hall ⊢
      obtain ⟨s', problem⟩ := r
      cases problem with
      | some e => exact ⟨front, hwritten, hfront.trans (List.prefix_append chunk _)⟩
      | none =>
        obtain ⟨more, hmore, hprefix⟩ := ih s'
        refine ⟨chunk ++ more, ?_, (List.prefix_append_right_inj chunk).mpr hprefix⟩
        rw [hmore, hwritten, hall rfl, List.append_assoc]

theorem sendBody_fits (size : UInt64) (s : Sending) (body : List (Except String (List UInt8)))
    (h : s.sent.toNat + (produced body).length ≤ size.toNat) :
    (sendBody size s body).1.written = s.written ++ produced body := by
  induction body generalizing s with
  | nil =>
    rw [sendBody]
    split_ifs <;> simp [produced]
  | cons chunk body ih =>
    cases chunk with
    | error e => simp [sendBody, produced]
    | ok chunk =>
      rw [produced, List.length_append] at h
      have hchunk : (chunk.toChunks chunkBytes).flatten = chunk := flatten_toChunks _ _
      obtain ⟨sent, hsend, hsent⟩ := sendParts_fits size s
        (chunk.toChunks chunkBytes) (by rw [hchunk]; omega)
      rw [hchunk] at hsend hsent
      rw [sendBody, hsend]
      dsimp only
      rw [ih ⟨sent, s.written ++ chunk⟩ (by rw [hsent]; omega), produced, List.append_assoc]

end Send

theorem serveStream_request (source : String → Option BlobBytes) (r : Request) {n : ℕ}
    (hn : n ≤ requestLen) (rest : List UInt8) (short : ℕ → String) :
    serveStream source ⟨r.encode.drop n ++ rest, short⟩ (r.encode.take n) =
      ((source (hexEncode r.sha256.toList)).map sendBlob).getD
        (ResponseHeader.notFound.encode, none) := by
  have hlength := r.length_encode
  have htaken : (r.encode.take n).length = n := List.length_take_of_le (by omega)
  have hdropped : (r.encode.drop n).length = requestLen - n := by rw [List.length_drop, hlength]
  rw [serveStream, htaken, if_neg (not_lt.mpr hn), Incoming.readExact_append short hdropped]
  dsimp only
  rw [List.take_append_drop, r.decode_encode]
  dsimp only
  cases source (hexEncode r.sha256.toList) <;> rfl

section Response
variable {size : UInt64} {raw rest bytes : List UInt8} {header : ResponseHeader} {s s' : Stream}

theorem readOk_append (h : raw.length ≤ maxContentType) (rest : List UInt8) (short : ℕ → String) :
    readOk ⟨toBe 8 size.toNat ++ toBe 2 raw.length ++ (raw ++ rest), short⟩ =
      (decodeHeader (ResponseHeader.okBytes size raw)).map fun header =>
      (header, ⟨rest, short⟩) := by
  have hsmall : raw.length % 2 ^ 16 = raw.length := by
    unfold maxContentType at h
    omega
  have hfixed : (toBe 8 size.toNat ++ toBe 2 raw.length).length = 10 := by
    simp [toBe_length]
  have hcount : ofBe (slice (toBe 8 size.toNat ++ toBe 2 raw.length) 8 10) = raw.length := by
    have hmiddle : slice (toBe 8 size.toNat ++ (toBe 2 raw.length ++ [])) 8 10 =
        toBe 2 raw.length :=
      slice_middle (toBe_length _ _) (by rw [toBe_length])
    rw [List.append_nil] at hmiddle
    rw [hmiddle, ofBe_toBe]
    exact hsmall
  have hbytes : ResponseHeader.okBytes size raw =
      [statusOk] ++ (toBe 8 size.toNat ++ toBe 2 raw.length) ++ raw := by
    rw [ResponseHeader.okBytes, hsmall, List.append_assoc, List.singleton_append, List.append_assoc]
  rw [readOk, Incoming.readExact_append short hfixed, orUnreachable_ok_bind]
  dsimp only
  rw [hcount, deny, if_neg (not_lt.mpr h), Incoming.readExact_append short rfl, hbytes]
  change (decodeHeader ([statusOk] ++ (toBe 8 size.toNat ++ toBe 2 raw.length) ++ raw) >>= _) = _
  cases decodeHeader ([statusOk] ++ (toBe 8 size.toNat ++ toBe 2 raw.length) ++ raw) <;> rfl

theorem complete_of_readOk {rest : List UInt8} {short : ℕ → String} {r : ResponseHeader × Stream}
    (h : readOk ⟨rest, short⟩ = .ok r) :
    ofBe (slice (statusOk :: rest) 9 11) ≤ maxContentType ∧
      11 + ofBe (slice (statusOk :: rest) 9 11) ≤ (statusOk :: rest).length := by
  obtain ⟨⟨fixed, s⟩, hfixed, h⟩ := bind_eq_ok.mp h
  obtain ⟨_, hlimit, h⟩ := bind_eq_ok.mp h
  obtain ⟨⟨contentType, s'⟩, hcontent, -⟩ := bind_eq_ok.mp h
  rw [orUnreachable_eq_ok] at hfixed hcontent
  rw [deny_eq_ok, not_lt] at hlimit
  obtain ⟨hten, rfl, rfl⟩ := Incoming.readExact_eq_ok.mp hfixed
  obtain ⟨hlen, -, -⟩ := Incoming.readExact_eq_ok.mp hcontent
  have hcount : slice (rest.take 10) 8 10 = slice (statusOk :: rest) 9 11 := by
    simp [slice, List.drop_take]
  dsimp only at hten hlimit hlen
  rw [hcount] at hlimit hlen
  rw [List.length_drop] at hlen
  exact ⟨hlimit, by rw [List.length_cons]; omega⟩

theorem readOk_eq_ok {rest : List UInt8} {short : ℕ → String} :
    readOk ⟨rest, short⟩ = .ok (header, s') ↔
      ∃ n, ResponseHeader.decode (statusOk :: rest) = .ok (header, n) ∧
        s' = ⟨(statusOk :: rest).drop n, short⟩ := by
  -- only a complete header is accepted by either, and of that both make the same
  have hcomplete : ofBe (slice (statusOk :: rest) 9 11) ≤ maxContentType →
      11 + ofBe (slice (statusOk :: rest) 9 11) ≤ (statusOk :: rest).length →
      (readOk ⟨rest, short⟩ = .ok (header, s') ↔
        ∃ n, ResponseHeader.decode (statusOk :: rest) = .ok (header, n) ∧
          s' = ⟨(statusOk :: rest).drop n, short⟩) := by
    intro hlimit hstop
    obtain ⟨size, raw, hraw, hbytes⟩ := ResponseHeader.exists_okBytes rfl hlimit hstop
    generalize (statusOk :: rest).drop (11 + ofBe (slice (statusOk :: rest) 9 11)) = tail at hbytes
    rw [← hraw] at hlimit
    have hsmall : raw.length % 2 ^ 16 = raw.length := by
      unfold maxContentType at hlimit
      omega
    have hrest : rest = toBe 8 size.toNat ++ toBe 2 raw.length ++ (raw ++ tail) := by
      have htail := (List.cons.inj hbytes).2
      rw [hsmall] at htail
      rw [htail]
      simp only [List.append_eq, List.append_assoc]
    have halone := ResponseHeader.decode_okBytes size hlimit []
    rw [List.append_nil] at halone
    rw [hbytes, hrest, readOk_append hlimit,
      ResponseHeader.decode_okBytes size hlimit, decodeHeader, halone]
    cases ResponseHeader.readContentType raw with
    | error e =>
      refine iff_of_false (fun h => by cases h) ?_
      rintro ⟨n, h, -⟩
      cases h
    | ok contentType =>
      simp only [Except.map, Except.ok.injEq, Prod.mk.injEq]
      constructor
      · rintro ⟨rfl, rfl⟩
        exact ⟨_, ⟨rfl, rfl⟩, by rw [List.drop_left]⟩
      · rintro ⟨n, ⟨rfl, rfl⟩, rfl⟩
        exact ⟨rfl, by rw [List.drop_left]⟩
  constructor
  · intro h
    obtain ⟨hlimit, hstop⟩ := complete_of_readOk h
    exact (hcomplete hlimit hstop).mp h
  · rintro ⟨n, h, hs⟩
    obtain ⟨hlimit, hstop⟩ := ResponseHeader.complete_of_decodeOk h
    exact (hcomplete hlimit hstop).mpr ⟨n, h, hs⟩

theorem decode_status {status : UInt8} (h : status ≠ statusOk) (rest : List UInt8) :
    ResponseHeader.decode (status :: rest) =
      (ResponseHeader.decode [status]).map fun decoded => (decoded.1, 1) := by
  simp only [ResponseHeader.decode, if_neg h]
  split_ifs <;> rfl

theorem readResponse_eq_ok : readResponse s = .ok (header, s') ↔
    ∃ n, ResponseHeader.decode s.arriving = .ok (header, n) ∧
      s' = { s with arriving := s.arriving.drop n } := by
  obtain ⟨bytes, short⟩ := s
  cases bytes with
  | nil =>
    rw [readResponse, Incoming.readExact_of_lt (by simp)]
    refine iff_of_false (fun h => by cases h) ?_
    rintro ⟨n, h, -⟩
    cases h
  | cons status rest =>
    have hread : Incoming.readExact ⟨status :: rest, short⟩ 1 =
        .ok ([status], (⟨rest, short⟩ : Stream)) := by
      rw [← List.singleton_append]
      exact Incoming.readExact_append short rfl
    rw [readResponse, hread, orUnreachable_ok_bind]
    dsimp only
    by_cases hstatus : status = statusOk
    · subst hstatus
      rw [if_neg (by simp)]
      exact readOk_eq_ok
    · rw [if_pos (by simpa using hstatus), decode_status hstatus, decodeHeader]
      cases ResponseHeader.decode [status] with
      | error e =>
        refine iff_of_false (fun h => by cases h) ?_
        rintro ⟨n, h, -⟩
        cases h
      | ok decoded =>
        constructor
        · intro h
          cases h
          exact ⟨1, rfl, rfl⟩
        · rintro ⟨n, h, rfl⟩
          cases h
          rfl

theorem decode_le {n : ℕ} (h : ResponseHeader.decode bytes = .ok (header, n)) :
    n ≤ bytes.length := by
  cases bytes with
  | nil => cases h
  | cons status rest =>
    by_cases hstatus : status = statusOk
    · subst hstatus
      obtain ⟨hlimit, hstop⟩ := ResponseHeader.complete_of_decodeOk h
      obtain ⟨size, raw, hraw, hbytes⟩ := ResponseHeader.exists_okBytes rfl hlimit hstop
      rw [← hraw] at hlimit hstop
      rw [hbytes, ResponseHeader.decode_okBytes size hlimit] at h
      cases hcontent : ResponseHeader.readContentType raw with
      | error e =>
        rw [hcontent] at h
        cases h
      | ok contentType =>
        rw [hcontent] at h
        obtain ⟨-, rfl⟩ := Prod.mk.inj (Except.ok.inj h)
        rw [ResponseHeader.length_okBytes]
        exact hstop
    · rw [decode_status hstatus] at h
      cases hdecoded : ResponseHeader.decode [status] with
      | error e =>
        rw [hdecoded] at h
        cases h
      | ok decoded =>
        rw [hdecoded] at h
        obtain ⟨-, rfl⟩ := Prod.mk.inj (Except.ok.inj h)
        rw [List.length_cons]
        omega

theorem received_eq (header : ResponseHeader) : header.received =
    match header with
    | .ok size (some text) =>
      if text = "" ∨ text.utf8ByteSize > maxContentType then .ok size none else header
    | _ => header := by
  cases header with
  | ok size contentType =>
    cases contentType with
    | none => rfl
    | some text =>
      dsimp only
      rw [ResponseHeader.received, ResponseHeader.carried]
      split_ifs with hdropped
      · rcases hdropped with rfl | hlong
        · rfl
        · have hkept : ¬ text.utf8ByteSize ≤ maxContentType := not_le.mpr hlong
          simp [Option.filter, hkept]
      · rw [not_or, not_lt] at hdropped
        simp [Option.filter, hdropped.1, hdropped.2]
  | _ => rfl

/-- The client and the codec agree on every stream: on the header, and on where the body starts.
A header that was written is read back whatever follows it, but for a content type that the
encoder leaves out. -/
theorem response_header_agrees :
    (∀ (s : Stream) header,
      ((∃ s', readResponse s = .ok (header, s')) ↔
        ∃ n, ResponseHeader.decode s.arriving = .ok (header, n)) ∧
      ∀ n s', ResponseHeader.decode s.arriving = .ok (header, n) →
        readResponse s = .ok (header, s') →
        ∃ taken, taken.length = n ∧ s.arriving = taken ++ s'.arriving ∧ s'.short = s.short) ∧
    ∀ (header : ResponseHeader) rest,
      ResponseHeader.decode (header.encode ++ rest) = .ok (header.received, header.encode.length) ∧
      header.received =
        match header with
        | .ok size (some text) =>
          if text = "" ∨ text.utf8ByteSize > maxContentType then .ok size none else header
        | _ => header := by
  refine ⟨fun s header => ⟨⟨?_, ?_⟩, ?_⟩, fun header rest => ⟨?_, received_eq header⟩⟩
  · rintro ⟨s', h⟩
    obtain ⟨n, hdecode, -⟩ := readResponse_eq_ok.mp h
    exact ⟨n, hdecode⟩
  · rintro ⟨n, hdecode⟩
    exact ⟨_, readResponse_eq_ok.mpr ⟨n, hdecode, rfl⟩⟩
  · intro n s' hdecode hread
    obtain ⟨n', hdecode', rfl⟩ := readResponse_eq_ok.mp hread
    obtain ⟨-, rfl⟩ := Prod.mk.inj (Except.ok.inj (hdecode.symm.trans hdecode'))
    refine ⟨s.arriving.take n, List.length_take_of_le (decode_le hdecode), ?_, rfl⟩
    exact (List.take_append_drop n s.arriving).symm
  · exact ResponseHeader.decode_encode_append header rest

end Response

/-- What arrives of what the server writes, up to where the stream is cut. -/
def arrives (blob : BlobBytes) (cut : ℕ) (short : ℕ → String) : Stream :=
  ⟨(sendBlob blob).1.take cut, short⟩

section Transfer
variable {blob : BlobBytes} {cut : ℕ} {short : ℕ → String}

theorem openBlob_of_whole (short : ℕ → String) (hcut : blob.header.length ≤ cut) :
    openBlob (arrives blob cut short) = .ok (blob.size, ResponseHeader.carried blob.contentType,
      ⟨(sendBody blob.size ⟨0, []⟩ blob.body).1.written.take (cut - blob.header.length),
        short⟩) := by
  have harrives : arrives blob cut short = ⟨blob.header ++
      (sendBody blob.size ⟨0, []⟩ blob.body).1.written.take (cut - blob.header.length), short⟩ := by
    rw [arrives, sendBlob, List.take_append, List.take_of_length_le hcut]
  have hread : readResponse (arrives blob cut short) = .ok
      (.ok blob.size (ResponseHeader.carried blob.contentType),
        ⟨(sendBody blob.size ⟨0, []⟩ blob.body).1.written.take (cut - blob.header.length),
          short⟩) := by
    refine readResponse_eq_ok.mpr ⟨blob.header.length, ?_, ?_⟩
    · rw [harrives]
      exact ResponseHeader.decode_encode_append (.ok blob.size blob.contentType) _
    · rw [harrives, List.drop_left]
  rw [openBlob, hread]
  rfl

theorem openBlob_of_cut (hcut : cut < blob.header.length) :
    ∃ e, openBlob (arrives blob cut short) = .error e := by
  cases hread : readResponse (arrives blob cut short) with
  | error e =>
    refine ⟨e, ?_⟩
    rw [openBlob, hread]
    rfl
  | ok r =>
    obtain ⟨n, hdecode, -⟩ := readResponse_eq_ok.mp hread
    rw [arrives, sendBlob, List.take_append_of_le_length hcut.le] at hdecode
    exact absurd hdecode (ResponseHeader.decode_cut hcut _)

/-- Every chunking, every total length, every error of the source and every cut: the client sees
an error before the body, or the front of what the source produced, of at most the declared size
and in bounded pieces, and no error exactly if that is all of the declared size. -/
theorem blob_transfer_exact (blob : BlobBytes) (cut : ℕ) (short : ℕ → String)
    (session : BodySession) :
    (cut < blob.header.length ∧ ∃ e, openBlob (arrives blob cut short) = .error e) ∨
    (blob.header.length ≤ cut ∧
      ∃ contentType stream, ∃ (chunks : List (List UInt8)) (failure : Option FetchError),
      openBlob (arrives blob cut short) = .ok (blob.size, contentType, stream) ∧
      (linkBody stream session blob.size).drain =
        chunks.map .ok ++ failure.toList.map .error ∧
      chunks.flatten <+: produced blob.body ∧
      chunks.flatten.length ≤ blob.size.toNat ∧
      (∀ chunk ∈ chunks, chunk.length ≤ chunkBytes) ∧
      (failure = none ↔ chunks.flatten.length = blob.size.toNat) ∧
      ((produced blob.body).length < blob.size.toNat → failure ≠ none) ∧
      ((produced blob.body).length = blob.size.toNat → (sendBlob blob).1.length ≤ cut →
        failure = none ∧ chunks.flatten = produced blob.body)) := by
  by_cases hcut : cut < blob.header.length
  · exact Or.inl ⟨hcut, openBlob_of_cut hcut⟩
  rw [not_lt] at hcut
  refine Or.inr ⟨hcut, ResponseHeader.carried blob.contentType, ?_⟩
  have hopen := openBlob_of_whole short hcut
  generalize hbody : (sendBody blob.size ⟨0, []⟩ blob.body).1.written.take
    (cut - blob.header.length) = body at hopen
  have hdrain := Body.drain_eq (linkBody ⟨body, short⟩ session blob.size) rfl
  have hexact := exact_readCounted chunkBytes (⟨body, short⟩ : Stream) blob.size.toNat
  have hfront : body <+: produced blob.body := by
    obtain ⟨front, hwritten, hfront⟩ := sendBody_front blob.size ⟨0, []⟩ blob.body
    rw [List.nil_append] at hwritten
    rw [← hbody, hwritten]
    exact (List.take_prefix _ front).trans hfront
  refine ⟨⟨body, short⟩, (readCounted chunkBytes ⟨body, short⟩ blob.size.toNat).1,
    (readCounted chunkBytes ⟨body, short⟩ blob.size.toNat).2.map bodyError, hopen, ?_,
    hexact.front.trans hfront, hexact.atMost, hexact.bounded, ?_, ?_, ?_⟩
  · rw [hdrain, Option.toList_map, List.map_map]
    rfl
  · rw [Option.map_eq_none_iff]
    exact hexact.complete
  · intro hfew hnone
    rw [Option.map_eq_none_iff, hexact.enough] at hnone
    exact absurd (hnone.trans hfront.length_le) (not_le.mpr hfew)
  · intro hall huncut
    have hwritten := sendBody_fits blob.size ⟨0, []⟩ blob.body (by simp [hall])
    rw [List.nil_append] at hwritten
    have hlength : (sendBlob blob).1.length = blob.header.length + (produced blob.body).length := by
      rw [sendBlob, List.length_append, hwritten]
    rw [hwritten, List.take_of_length_le (by omega)] at hbody
    have hnone : (readCounted chunkBytes (⟨body, short⟩ : Stream) blob.size.toNat).2 = none :=
      hexact.enough.mpr (by rw [← hbody, hall])
    refine ⟨by rw [hnone]; rfl, ?_⟩
    exact (hexact.front.trans hfront).eq_of_length ((hexact.complete.mp hnone).trans hall.symm)

end Transfer

end ForgeswornLink.Blossom
