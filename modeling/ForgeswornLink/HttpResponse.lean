import Mathlib.Data.List.DropRight
import ForgeswornLink.HttpRoutes

/-!
# Responses of a server that is not trusted

The engine takes a response apart as its frames arrive and keeps at most what the
route allows. What it hands on has the type of the route or is an empty refusal.
A file is handed on only if it is as long as its one length header says and has
the digest it was asked for by.
-/

namespace ForgeswornLink
open ByteString OrderedChecks

inductive BodyFrame where
  | data (bytes : List UInt8)
  | trailers
deriving DecidableEq

def BodyFrame.bytes : BodyFrame → List UInt8
  | .data bytes => bytes
  | .trailers => []

inductive HeaderName where
  | contentType
  | contentEncoding
  | contentLength
  | contentRange
  | transferEncoding
  | other (name : String)
deriving DecidableEq

abbrev Headers := List (HeaderName × List UInt8)

namespace Headers

def getAll (headers : Headers) (name : HeaderName) : List (List UInt8) :=
  (headers.filter fun header => header.1 = name).map Prod.snd

def containsKey (headers : Headers) (name : HeaderName) : Bool := !(headers.getAll name).isEmpty

end Headers

structure HttpResponse where
  status : ℕ
  headers : Headers
  -- What the body gives, frame by frame; a failed transport gives an error.
  frames : List (Except String BodyFrame)

def isRedirection (status : ℕ) : Bool := 300 ≤ status ∧ status < 400

def isSuccess (status : ℕ) : Bool := 200 ≤ status ∧ status < 300

/-! ### Headers -/

def headerText (value : List UInt8) : Option (List Char) :=
  if value.all (fun b => (32 ≤ b ∧ b < 127) ∨ b = 9) then
    some (value.map fun b => Char.ofNat b.toNat)
  else none

def asciiLowercase (text : List Char) : List Char := text.map Char.toLower

def trim (text : List Char) : List Char :=
  (text.dropWhile Char.isWhitespace).rdropWhile Char.isWhitespace

def mediaType (text : List Char) : List Char := asciiLowercase (trim (text.takeWhile (· ≠ ';')))

def contentType (headers : Headers) : Option (List Char) :=
  ((headers.getAll .contentType).head?.bind headerText).map mediaType

def oneHeader (headers : Headers) (name : HeaderName) : Except EngineError (Option (List Char)) :=
  match headers.getAll name with
  | [] => .ok none
  | [value] =>
    match headerText value with
    | some text => .ok (some text)
    | none => .error (.route "file response header is not text")
  | _ => .error (.route "file response header is ambiguous")

/-! ### Bodies -/

def collectFrom (limit : ℕ) (label : String) :
    List UInt8 → List (Except String BodyFrame) → Except EngineError (List UInt8)
  | bytes, [] => .ok bytes
  | _, .error detail :: _ => .error (.transport detail)
  | bytes, .ok .trailers :: frames => collectFrom limit label bytes frames
  | bytes, .ok (.data data) :: frames =>
    if bytes.length + data.length > limit then
      .error (.route ("server " ++ label ++ " response is too large"))
    else collectFrom limit label (bytes ++ data) frames

def collectBounded (frames : List (Except String BodyFrame)) (limit : ℕ) (label : String) :
    Except EngineError (List UInt8) :=
  collectFrom limit label [] frames

/-! ### Files -/

def legacyEncryptedMediaType : List Char := "application/vnd.forgesworn.encrypted".toList
def octetStreamType : List Char := "application/octet-stream".toList
def jsonType : List Char := "application/json".toList

def decimalText (n : ℕ) : List Char := Nat.toDigits 10 n

/-- The length a download announces; `usizeMax` is the largest the platform can count to. -/
def downloadLength (usizeMax : ℕ) (headers : Headers) : Except EngineError ℕ := do
  match ← oneHeader headers .contentLength with
  | none => .error (.route "file response has no length")
  | some text =>
    deny (text = [] ∨ text.all Char.isDigit = false) (.route "file response length is invalid")
    let length := Nat.ofDigitChars 10 text 0
    deny (length > usizeMax) (.route "file response length is invalid")
    deny (decimalText length ≠ text) (.route "file response length is not canonical")
    deny (length > maxBlobBytes) (.route "file response is too large")
    return length

def decodeDownload (P : Primitives) (usizeMax : ℕ) (response : HttpResponse) (media : List Char)
    (expectedHash : Block 32) : Except EngineError (ℕ × List UInt8) := do
  deny (media ≠ legacyEncryptedMediaType ∧ media ≠ octetStreamType)
    (.route "file response is not encrypted or opaque bytes")
  deny (response.headers.containsKey .transferEncoding = true)
    (.route "file response must use an exact length")
  let length ← downloadLength usizeMax response.headers
  let body ← collectBounded response.frames length "file response"
  deny (body.length ≠ length ∨ P.sha256 body ≠ expectedHash)
    (.route "file response length or digest does not match")
  return (response.status, body)

def decodeResult (response : HttpResponse) (media : List Char) :
    Except EngineError (ℕ × List UInt8) := do
  deny (media ≠ jsonType) (.route "file result is not JSON")
  let body ← collectBounded response.frames maxHttpBodyBytes "file result"
  return (response.status, body)

def BlobResponse.validStatus (kind : BlobResponse) (status : ℕ) : Bool :=
  match kind with
  | .upload => status = 200 ∨ status = 201
  | _ => status = 200

def decodeFile (P : Primitives) (usizeMax : ℕ) (response : HttpResponse) (kind : BlobResponse) :
    Except EngineError (ℕ × List UInt8) := do
  if isSuccess response.status = false then
    let _ ← collectBounded response.frames maxDiscardedRefusalBytes "file refusal"
    return (response.status, [])
  else
    deny (kind.validStatus response.status = false) (.route "unexpected file response status")
    deny (response.headers.containsKey .contentRange = true)
      (.route "file response must not contain a range")
    let encoding ← oneHeader response.headers .contentEncoding
    deny (encoding.any (fun text => asciiLowercase text ≠ "identity".toList) = true)
      (.route "file response must not be encoded")
    let typeText ← oneHeader response.headers .contentType
    let media := mediaType (typeText.getD [])
    match kind with
    | .download expectedHash => decodeDownload P usizeMax response media expectedHash
    | _ => decodeResult response media

/-! ### Any response -/

def ResponseBody.expected : ResponseBody → List Char
  | .json | .jsonOrEmptyRefusal => jsonType
  | .witnessReceipt => octetStreamType
  | .blob _ => []

def receiptStatus (status : ℕ) : Bool := status = 200 ∨ status = 409 ∨ status = 410

def HttpRoute.typed (route : HttpRoute) (response : HttpResponse) : Bool :=
  contentType response.headers == some route.response.expected &&
    (route.response != .witnessReceipt || receiptStatus response.status)

def decodeTyped (response : HttpResponse) (route : HttpRoute) :
    Except EngineError (ℕ × List UInt8) := do
  if route.typed response = false then
    deny (route.response = .json ∨ isSuccess response.status = true)
      (.route ("response is not " ++ String.ofList route.response.expected))
    let _ ← collectBounded response.frames maxDiscardedRefusalBytes "refusal"
    return (response.status, [])
  else
    let body ← collectBounded response.frames route.maxResponseBytes "response"
    deny (route.response = .witnessReceipt ∧ body.length ≠ witnessReceiptBytes)
      (.route "witness receipt is not 170 bytes")
    return (response.status, body)

def decodeHttpResponse (P : Primitives) (usizeMax : ℕ) (response : HttpResponse)
    (route : HttpRoute) : Except EngineError (ℕ × List UInt8) := do
  deny (isRedirection response.status = true) (.route "response must not redirect")
  match route.response with
  | .blob kind => decodeFile P usizeMax response kind
  | _ => decodeTyped response route

/-! ### What is collected -/

theorem collectFrom_length {limit : ℕ} {label : String} {bytes body : List UInt8}
    {frames : List (Except String BodyFrame)} (hbytes : bytes.length ≤ limit)
    (h : collectFrom limit label bytes frames = .ok body) : body.length ≤ limit := by
  induction frames generalizing bytes with
  | nil =>
    cases h
    exact hbytes
  | cons frame frames ih =>
    cases frame with
    | error detail => cases h
    | ok frame =>
      cases frame with
      | trailers => exact ih hbytes h
      | data data =>
        rw [collectFrom] at h
        split_ifs at h with hlarge
        refine ih ?_ h
        rw [List.length_append]
        omega

theorem collectBounded_length {limit : ℕ} {label : String} {body : List UInt8}
    {frames : List (Except String BodyFrame)} (h : collectBounded frames limit label = .ok body) :
    body.length ≤ limit :=
  collectFrom_length (Nat.zero_le _) h

def bodyBytes (frames : List BodyFrame) : List UInt8 := frames.flatMap BodyFrame.bytes

theorem collectFrom_ok (limit : ℕ) (label : String) {bytes : List UInt8} (frames : List BodyFrame)
    (hbytes : bytes.length ≤ limit) :
    collectFrom limit label bytes (frames.map .ok) =
      if bytes.length + (bodyBytes frames).length > limit then
        .error (.route ("server " ++ label ++ " response is too large"))
      else .ok (bytes ++ bodyBytes frames) := by
  induction frames generalizing bytes with
  | nil =>
    rw [if_neg (by simpa [bodyBytes] using hbytes)]
    simp [collectFrom, bodyBytes]
  | cons frame frames ih =>
    cases frame with
    | trailers => exact ih hbytes
    | data data =>
      have hbody : bodyBytes (.data data :: frames) = data ++ bodyBytes frames := rfl
      rw [List.map_cons, collectFrom, hbody, List.length_append, ← Nat.add_assoc]
      by_cases hlarge : bytes.length + data.length > limit
      · rw [if_pos hlarge, if_pos (by omega)]
      · rw [if_neg hlarge, ih (by rw [List.length_append]; omega), List.length_append,
          List.append_assoc]

theorem collectBounded_congr {frames frames' : List BodyFrame}
    (h : bodyBytes frames = bodyBytes frames') (limit : ℕ) (label : String) :
    collectBounded (frames.map .ok) limit label = collectBounded (frames'.map .ok) limit label := by
  rw [collectBounded, collectBounded, collectFrom_ok limit label frames (Nat.zero_le _),
    collectFrom_ok limit label frames' (Nat.zero_le _), h]

section Decoded
variable {P : Primitives} {usizeMax : ℕ} {route : HttpRoute} {response : HttpResponse} {status : ℕ}
  {body : List UInt8}

theorem oneHeader_eq_some {headers : Headers} {name : HeaderName} {text : List Char}
    (h : oneHeader headers name = .ok (some text)) :
    ∃ value, headers.getAll name = [value] ∧ headerText value = some text := by
  rw [oneHeader] at h
  cases hvalues : headers.getAll name with
  | nil =>
    rw [hvalues] at h
    cases h
  | cons value rest =>
    rw [hvalues] at h
    cases rest with
    | cons _ _ => cases h
    | nil =>
      dsimp only at h
      cases htext : headerText value with
      | none =>
        rw [htext] at h
        cases h
      | some found =>
        rw [htext] at h
        cases h
        exact ⟨value, rfl, htext⟩

theorem downloadLength_eq_ok {headers : Headers} {length : ℕ}
    (h : downloadLength usizeMax headers = .ok length) :
    length ≤ maxBlobBytes ∧ ∃ value, headers.getAll .contentLength = [value] ∧
      headerText value = some (decimalText length) := by
  obtain ⟨text, htext, h⟩ := bind_eq_ok.mp h
  cases text with
  | none => cases h
  | some text =>
    simp only [bind_eq_ok, deny_eq_ok, exists_const] at h
    obtain ⟨-, -, hcanonical, hbound, heq⟩ := h
    cases heq
    refine ⟨not_lt.mp hbound, ?_⟩
    rw [not_not.mp hcanonical]
    exact oneHeader_eq_some htext

inductive Decoded (P : Primitives) (route : HttpRoute) (response : HttpResponse) : List UInt8 → Prop
  | refusal (hfails : isSuccess response.status = false) : Decoded P route response []
  | typed {body : List UInt8} (hnot : route.isFile = false) (htyped : route.typed response = true)
      (hbound : body.length ≤ route.maxResponseBytes)
      (hreceipt : route.response = .witnessReceipt → body.length = witnessReceiptBytes) :
      Decoded P route response body
  | download {digest : Block 32} {body : List UInt8}
      (hroute : route.response = .blob (.download digest)) (hstatus : response.status = 200)
      (hbound : body.length ≤ maxBlobBytes)
      (hlength : ∃ value, response.headers.getAll .contentLength = [value] ∧
        headerText value = some (decimalText body.length))
      (hdigest : P.sha256 body = digest) : Decoded P route response body
  | result {kind : BlobResponse} {body : List UInt8} (hroute : route.response = .blob kind)
      (hkind : ∀ digest, kind ≠ .download digest) (hsuccess : isSuccess response.status = true)
      (hbound : body.length ≤ maxHttpBodyBytes) : Decoded P route response body

theorem decoded_download {digest : Block 32} {media : List Char}
    (hroute : route.response = .blob (.download digest)) (hstatus : response.status = 200)
    (h : decodeDownload P usizeMax response media digest = .ok (status, body)) :
    status = response.status ∧ Decoded P route response body := by
  simp only [decodeDownload, bind_eq_ok, deny_eq_ok, exists_const] at h
  obtain ⟨-, -, length, hlength, collected, -, hmatches, heq⟩ := h
  cases heq
  push Not at hmatches
  obtain ⟨rfl, hdigest⟩ := hmatches
  obtain ⟨hbound, hheader⟩ := downloadLength_eq_ok hlength
  exact ⟨rfl, .download hroute hstatus hbound hheader hdigest⟩

theorem decoded_result {kind : BlobResponse} {media : List Char}
    (hroute : route.response = .blob kind) (hkind : ∀ digest, kind ≠ .download digest)
    (hsuccess : isSuccess response.status = true)
    (h : decodeResult response media = .ok (status, body)) :
    status = response.status ∧ Decoded P route response body := by
  simp only [decodeResult, bind_eq_ok, deny_eq_ok, exists_const] at h
  obtain ⟨-, collected, hcollected, heq⟩ := h
  cases heq
  exact ⟨rfl, .result hroute hkind hsuccess (collectBounded_length hcollected)⟩

theorem decoded_file {kind : BlobResponse} (hroute : route.response = .blob kind)
    (h : decodeFile P usizeMax response kind = .ok (status, body)) :
    status = response.status ∧ Decoded P route response body := by
  rw [decodeFile] at h
  split_ifs at h with hfails
  · obtain ⟨discarded, -, heq⟩ := bind_eq_ok.mp h
    cases heq
    exact ⟨rfl, .refusal hfails⟩
  · simp only [bind_eq_ok, deny_eq_ok, exists_const] at h
    obtain ⟨hvalid, -, encoding, -, -, typeText, -, h⟩ := h
    have hsuccess : isSuccess response.status = true := Bool.eq_true_of_not_eq_false hfails
    cases kind with
    | download digest =>
      exact decoded_download hroute (of_decide_eq_true (Bool.eq_true_of_not_eq_false hvalid)) h
    | upload => exact decoded_result hroute (fun digest => nofun) hsuccess h
    | delete => exact decoded_result hroute (fun digest => nofun) hsuccess h

theorem decoded_typed (hnot : route.isFile = false)
    (h : decodeTyped response route = .ok (status, body)) :
    status = response.status ∧ Decoded P route response body := by
  rw [decodeTyped] at h
  split_ifs at h with htyped
  · simp only [bind_eq_ok, deny_eq_ok, exists_const] at h
    obtain ⟨hrefused, discarded, -, heq⟩ := h
    cases heq
    push Not at hrefused
    exact ⟨rfl, .refusal (Bool.eq_false_of_not_eq_true hrefused.2)⟩
  · simp only [bind_eq_ok, deny_eq_ok, exists_const] at h
    obtain ⟨collected, hcollected, hreceipt, heq⟩ := h
    cases heq
    refine ⟨rfl, .typed hnot (Bool.eq_true_of_not_eq_false htyped)
      (collectBounded_length hcollected) ?_⟩
    exact fun hwitness => by_contra fun hlength => hreceipt ⟨hwitness, hlength⟩

theorem decoded_response (h : decodeHttpResponse P usizeMax response route = .ok (status, body)) :
    isRedirection status = false ∧ status = response.status ∧ Decoded P route response body := by
  obtain ⟨_, hredirect, h⟩ := bind_eq_ok.mp h
  rw [deny_eq_ok, Bool.not_eq_true] at hredirect
  have hdecoded : status = response.status ∧ Decoded P route response body := by
    cases hresponse : route.response with
    | blob kind =>
      rw [hresponse] at h
      exact decoded_file hresponse h
    | _ =>
      rw [hresponse] at h
      exact decoded_typed (by rw [HttpRoute.isFile, hresponse]) h
  exact ⟨hdecoded.1 ▸ hredirect, hdecoded⟩

theorem Decoded.length_le {path : String} (hkind : route.Kind path)
    (h : Decoded P route response body) :
    body.length ≤ route.maxResponseBytes := by
  cases h with
  | refusal => exact Nat.zero_le _
  | typed _ _ hbound => exact hbound
  | download hroute _ hbound =>
    cases hkind with
    | download digest _ hmax => rwa [hmax]
    | result kind hresponse hkind =>
      cases hroute.symm.trans hresponse
      rcases hkind with hkind | hkind <;> cases hkind
    | witness hresponse => cases hroute.symm.trans hresponse
    | json hresponse =>
      rcases hresponse with hresponse | hresponse <;> cases hroute.symm.trans hresponse
  | result hroute hnot _ hbound =>
    cases hkind with
    | download digest hresponse =>
      cases hroute.symm.trans hresponse
      exact absurd rfl (hnot digest)
    | result _ _ _ hmax => rwa [hmax]
    | witness hresponse => cases hroute.symm.trans hresponse
    | json hresponse =>
      rcases hresponse with hresponse | hresponse <;> cases hroute.symm.trans hresponse

end Decoded

theorem decodeHttpResponse_congr (P : Primitives) (usizeMax : ℕ) (route : HttpRoute) (status : ℕ)
    (headers : Headers) {frames frames' : List BodyFrame}
    (h : bodyBytes frames = bodyBytes frames') :
    decodeHttpResponse P usizeMax ⟨status, headers, frames.map .ok⟩ route =
      decodeHttpResponse P usizeMax ⟨status, headers, frames'.map .ok⟩ route := by
  have hcollect := collectBounded_congr h
  have hfile : ∀ kind, decodeFile P usizeMax ⟨status, headers, frames.map .ok⟩ kind =
      decodeFile P usizeMax ⟨status, headers, frames'.map .ok⟩ kind := by
    intro kind
    simp only [decodeFile, decodeDownload, decodeResult, hcollect]
  have htyped : decodeTyped ⟨status, headers, frames.map .ok⟩ route =
      decodeTyped ⟨status, headers, frames'.map .ok⟩ route := by
    simp only [decodeTyped, hcollect]
    rfl
  simp only [decodeHttpResponse, hfile, htyped]

/-- What the engine hands on of a response on an allowlisted route.

Of a body that arrives without a transport error only the concatenation matters. A response that is
handed on is no redirect and within the bound of its route. A witness gives a receipt of 170 bytes,
with a status a receipt has, or nothing. Where JSON is expected, anything that is not empty is
labelled JSON. A refused file request gives nothing; a downloaded file came with status 200 and one
length header, in canonical decimal, that is the length, and the path it was asked for by is its
digest. -/
theorem http_response_bounded_and_typed (P : Primitives) (usizeMax : ℕ) (method : Method)
    (path : String) (route : HttpRoute) (hroute : allowlisted method path = some route) (status : ℕ)
    (headers : Headers) :
    (∀ frames frames' : List BodyFrame, bodyBytes frames = bodyBytes frames' →
      decodeHttpResponse P usizeMax ⟨status, headers, frames.map .ok⟩ route =
        decodeHttpResponse P usizeMax ⟨status, headers, frames'.map .ok⟩ route) ∧
    ∀ (frames : List (Except String BodyFrame)) (s : ℕ) (b : List UInt8),
      decodeHttpResponse P usizeMax ⟨status, headers, frames⟩ route = .ok (s, b) →
      s = status ∧ isRedirection s = false ∧ b.length ≤ route.maxResponseBytes ∧
      (route.response = .witnessReceipt →
        b = [] ∨ b.length = 170 ∧ (s = 200 ∨ s = 409 ∨ s = 410)) ∧
      (route.response = .json ∨ route.response = .jsonOrEmptyRefusal → b ≠ [] →
        contentType headers = some "application/json".toList) ∧
      (route.isFile = true → isSuccess s = false → b = []) ∧
      (∀ digest, route.response = .blob (.download digest) → isSuccess s = true →
        s = 200 ∧
        (∃ value, headers.getAll .contentLength = [value] ∧
          headerText value = some (decimalText b.length)) ∧
        P.sha256 b = digest ∧ path.toList = '/' :: hexText (P.sha256 b).toList) := by
  refine ⟨fun frames frames' h => decodeHttpResponse_congr P usizeMax route status headers h, ?_⟩
  intro frames s b h
  have hkind := kind_allowlisted hroute
  obtain ⟨hredirect, rfl, hdecoded⟩ := decoded_response h
  refine ⟨rfl, hredirect, hdecoded.length_le hkind, ?_, ?_, ?_, ?_⟩
  · intro hwitness
    cases hdecoded with
    | refusal => exact Or.inl rfl
    | typed _ htyped _ hreceipt =>
      rw [HttpRoute.typed, Bool.and_eq_true, hwitness] at htyped
      exact Or.inr ⟨hreceipt hwitness, of_decide_eq_true htyped.2⟩
    | download hfile => cases hwitness.symm.trans hfile
    | result hfile => cases hwitness.symm.trans hfile
  · intro hjson hne
    cases hdecoded with
    | refusal => exact absurd rfl hne
    | typed _ htyped =>
      rw [HttpRoute.typed, Bool.and_eq_true, beq_iff_eq] at htyped
      rw [htyped.1]
      rcases hjson with hjson | hjson <;> rw [hjson] <;> rfl
    | download hfile => rcases hjson with hjson | hjson <;> cases hjson.symm.trans hfile
    | result hfile => rcases hjson with hjson | hjson <;> cases hjson.symm.trans hfile
  · intro hfile hfails
    cases hdecoded with
    | refusal => rfl
    | typed hnot => cases hnot.symm.trans hfile
    | download _ hstatus =>
      dsimp only at hstatus hfails
      rw [hstatus] at hfails
      cases hfails
    | result _ _ hsuccess => cases hsuccess.symm.trans hfails
  · intro digest hfile hsuccess
    cases hdecoded with
    | refusal hfails => cases hsuccess.symm.trans hfails
    | typed hnot => rw [HttpRoute.isFile, hfile] at hnot; cases hnot
    | result hresult hnot =>
      cases hresult.symm.trans hfile
      exact absurd rfl (hnot digest)
    | download hdownload hstatus _ hlength hdigest =>
      cases hdownload.symm.trans hfile
      refine ⟨hstatus, hlength, hdigest, ?_⟩
      cases hkind with
      | download found hresponse _ hpath =>
        cases hfile.symm.trans hresponse
        rw [hdigest]
        exact hpath
      | result kind hresponse hkind =>
        cases hfile.symm.trans hresponse
        rcases hkind with hkind | hkind <;> cases hkind
      | witness hresponse => cases hfile.symm.trans hresponse
      | json hresponse =>
        rcases hresponse with hresponse | hresponse <;> cases hfile.symm.trans hresponse

section Download

def smallFile : List UInt8 := List.replicate 32 0xab

def smallFilePath : String := String.ofList ('/' :: hexText smallFile)

def smallFileHeaders : Headers :=
  [(.contentType, "application/octet-stream".toUTF8.data.toList),
    (.contentLength, "32".toUTF8.data.toList)]

theorem small_file_downloaded :
    let route : HttpRoute := ⟨.empty, 0, false, .blob (.download ⟨smallFile, rfl⟩), maxBlobBytes⟩
    let frames := [.data (smallFile.take 5), .trailers, .data (smallFile.drop 5)]
    let response : HttpResponse := ⟨200, smallFileHeaders, frames.map .ok⟩
    allowlisted .get smallFilePath = some route ∧
      decodeHttpResponse Primitives.standIn (2 ^ 32 - 1) response route = .ok (200, smallFile) ∧
      smallFilePath.toList = '/' :: hexText (Primitives.standIn.sha256 smallFile).toList := by
  intro route frames response
  have hroute : allowlisted .get smallFilePath = some route := by decide +kernel
  have hdecoded : decodeHttpResponse Primitives.standIn (2 ^ 32 - 1) response route =
      .ok (200, smallFile) := by decide +kernel
  obtain ⟨-, hfacts⟩ := http_response_bounded_and_typed Primitives.standIn (2 ^ 32 - 1) .get
    smallFilePath route hroute 200 smallFileHeaders
  obtain ⟨-, -, -, -, -, -, hdownload⟩ := hfacts _ _ _ hdecoded
  exact ⟨hroute, hdecoded, (hdownload _ rfl rfl).2.2.2⟩

end Download

end ForgeswornLink
