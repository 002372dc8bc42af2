import ForgeswornLink.Engine

/-!
# The HTTP routes an engine takes requests for

A request is for one of a handful of routes, told apart by its method and path.
The route says what the request may carry and how much of what may come back. A
file is asked for by the digest of its bytes, which is the whole path.
-/

namespace ForgeswornLink
open ByteString OrderedChecks

inductive Method where
  | get
  | post
  | put
  | delete
deriving DecidableEq

inductive RequestBody where
  | json
  | octets
  | empty
deriving DecidableEq

inductive BlobResponse where
  | upload
  | download (digest : Block 32)
  | delete
deriving DecidableEq

inductive ResponseBody where
  | json
  | jsonOrEmptyRefusal
  | witnessReceipt
  | blob (kind : BlobResponse)
deriving DecidableEq

structure HttpRoute where
  body : RequestBody
  maxBodyBytes : ℕ
  nostrAuthorization : Bool
  response : ResponseBody
  maxResponseBytes : ℕ
deriving DecidableEq

def HttpRoute.isFile (route : HttpRoute) : Bool :=
  match route.response with
  | .blob _ => true
  | _ => false

def maxHttpPathBytes : ℕ := 2048
def maxHttpAuthorizationBytes : ℕ := 48 * 1024
def maxHttpBodyBytes : ℕ := 256 * 1024
def maxVmlsJsonBytes : ℕ := 128 * 1024
def maxVmlsEnvelopeBytes : ℕ := 44 + 1048576
def maxVmlsFetchResponseBytes : ℕ := 2 * 1024 * 1024
def maxWitnessRequestBytes : ℕ := 256
def witnessReceiptBytes : ℕ := 170
def maxDiscardedRefusalBytes : ℕ := 1024
def maxBlobBytes : ℕ := 64 * 1024 * 1024

def cadenceRoute : HttpRoute where
  body := .json
  maxBodyBytes := maxHttpBodyBytes
  nostrAuthorization := true
  response := .json
  maxResponseBytes := maxHttpBodyBytes

def vmlsRoute (body : RequestBody) (maxResponseBytes : ℕ) : HttpRoute where
  body := body
  maxBodyBytes :=
    match body with
    | .json => maxVmlsJsonBytes
    | .octets => maxVmlsEnvelopeBytes
    | .empty => 0
  nostrAuthorization := true
  response := .jsonOrEmptyRefusal
  maxResponseBytes := maxResponseBytes

def witnessRoute : HttpRoute where
  body := .octets
  maxBodyBytes := maxWitnessRequestBytes
  nostrAuthorization := false
  response := .witnessReceipt
  maxResponseBytes := witnessReceiptBytes

/-! ### Paths -/

def stripPrefix? (start text : String) : Option String :=
  (text.toList.dropPrefix? start.toList).map String.ofList

def isLowerHex (c : Char) : Bool := ('0' ≤ c ∧ c ≤ '9') ∨ ('a' ≤ c ∧ c ≤ 'f')

def lowerHex32 (value : String) : Bool := value.toList.length == 64 && value.toList.all isLowerHex

def canonicalU32 (value : String) : Bool :=
  !value.toList.isEmpty && (value.toList.length == 1 || value.toList.head? != some '0') &&
    value.toList.all Char.isDigit && Nat.ofDigitChars 10 value.toList 0 < 2 ^ 32

def hexValue (c : Char) : Option ℕ :=
  if '0' ≤ c ∧ c ≤ '9' then some (c.toNat - 48)
  else if 'a' ≤ c ∧ c ≤ 'f' then some (c.toNat - 87)
  else if 'A' ≤ c ∧ c ≤ 'F' then some (c.toNat - 55)
  else none

def decodeHex : List Char → Option (List UInt8)
  | [] => some []
  | [_] => none
  | hi :: lo :: rest =>
    (hexValue hi).bind fun h =>
      (hexValue lo).bind fun l =>
        (decodeHex rest).map fun bytes => UInt8.ofNat (h * 16 + l) :: bytes

def blobRoute (method : Method) (path : String) : Option HttpRoute :=
  if method = .put ∧ path = "/upload" then
    some ⟨.octets, maxBlobBytes, true, .blob .upload, maxHttpBodyBytes⟩
  else
    (stripPrefix? "/" path).bind fun hash =>
      if lowerHex32 hash = false then none
      else
        ((decodeHex hash.toList).bind (block? 32)).bind fun digest =>
          match method with
          | .get => some ⟨.empty, 0, false, .blob (.download digest), maxBlobBytes⟩
          | .delete => some ⟨.empty, 0, true, .blob .delete, maxHttpBodyBytes⟩
          | _ => none

/-- The routes below `/vmls/v1/`, by the segments of the rest of the path. -/
def vmlsAllowlisted : Method → List String → Option HttpRoute
  | .put, ["mailboxes", mailbox, "records"] =>
    if lowerHex32 mailbox then some (vmlsRoute .octets maxHttpBodyBytes) else none
  | .post, ["fetch"] => some (vmlsRoute .json maxVmlsFetchResponseBytes)
  | .post, ["ack"] => some (vmlsRoute .json maxHttpBodyBytes)
  | .put, ["packages", package] =>
    if lowerHex32 package then some (vmlsRoute .json maxHttpBodyBytes) else none
  | .delete, ["packages", package] =>
    if lowerHex32 package then some (vmlsRoute .empty maxHttpBodyBytes) else none
  | .put, ["slots", slot, attempt] =>
    if lowerHex32 slot ∧ canonicalU32 attempt then some
      (vmlsRoute .octets maxHttpBodyBytes) else none
  | .post, ["slots", slot, attempt, "status"] =>
    if lowerHex32 slot ∧ canonicalU32 attempt then some (vmlsRoute .json maxVmlsFetchResponseBytes)
    else none
  | .get, ["capabilities"] => some (vmlsRoute .empty maxHttpBodyBytes)
  | _, _ => none

def allowlisted (method : Method) (path : String) : Option HttpRoute :=
  match blobRoute method path with
  | some route => some route
  | none =>
    if "/cadence/v1/".toList <+: path.toList then
      if method = .post ∨ method = .put then some cadenceRoute else none
    else if path = "/vmls-witness/v1/read" ∨ path = "/vmls-witness/v1/advance" then
      if method = .post then some witnessRoute else none
    else
      (stripPrefix? "/vmls/v1/" path).bind fun rest =>
        vmlsAllowlisted method ((rest.toList.splitOn '/').map String.ofList)

/-! ### Requests -/

structure JsonRequest where
  routeId : String
  method : String
  path : String
  authorization : String
  body : List UInt8

def parseMethod (method : String) : Except EngineError Method :=
  if method = "GET" then .ok .get
  else if method = "POST" then .ok .post
  else if method = "PUT" then .ok .put
  else if method = "DELETE" then .ok .delete
  else .error (.route "request method must be GET, POST, PUT or DELETE")

def isAsciiGraphic (c : Char) : Bool := '!' ≤ c ∧ c ≤ '~'

def isAuthorizationChar (c : Char) : Bool := c.isAlphanum || c == '+' || c == '/' || c == '='

def checkAuthorization (route : HttpRoute) (authorization : String) : Except EngineError Unit :=
  if route.nostrAuthorization then
    let encoded := (stripPrefix? "Nostr " authorization).getD ""
    deny (authorization.utf8ByteSize > maxHttpAuthorizationBytes ∨ encoded = "" ∨
        encoded.toList.all isAuthorizationChar = false)
      (.route "authorization is not one bounded Nostr value")
  else deny (authorization ≠ "") (.route "this route carries no authorization")

def validateHttpRequestLength (request : JsonRequest) (bodyBytes : ℕ) :
    Except EngineError (Method × HttpRoute) := do
  let method ← parseMethod request.method
  deny (request.path = "" ∨ request.path.utf8ByteSize > maxHttpPathBytes ∨
    '?' ∈ request.path.toList ∨
      '#' ∈ request.path.toList ∨ request.path.toList.all isAsciiGraphic = false)
    (.route "request path is not canonical")
  match allowlisted method request.path with
  | none => .error (.route "request method and path are not allowlisted")
  | some route =>
    checkAuthorization route request.authorization
    deny (bodyBytes > route.maxBodyBytes) (.route "request body is too large")
    deny (route.response = .blob .upload ∧ bodyBytes = 0) (.route "file upload body is empty")
    return (method, route)

def validateHttpRequest (request : JsonRequest) : Except EngineError (Method × HttpRoute) :=
  validateHttpRequestLength request request.body.length

/-! ### What a route is -/

def hexDigit (n : ℕ) : Char := if n < 10 then Char.ofNat (n + 48) else Char.ofNat (n + 87)

def hexText (bytes : List UInt8) : List Char :=
  bytes.flatMap fun b => [hexDigit (b.toNat / 16), hexDigit (b.toNat % 16)]

theorem hexValue_of_isLowerHex {c : Char} (h : isLowerHex c = true) :
    ∃ n < 16, hexValue c = some n ∧ hexDigit n = c := by
  have hle : ∀ a b : Char, a ≤ b ↔ a.toNat ≤ b.toNat := fun _ _ => Iff.rfl
  rw [isLowerHex, decide_eq_true_eq] at h
  rcases h with hdigit | hletter
  · have hlow : 48 ≤ c.toNat := (hle _ _).mp hdigit.1
    have hhigh : c.toNat ≤ 57 := (hle _ _).mp hdigit.2
    refine ⟨c.toNat - 48, by omega, if_pos hdigit, ?_⟩
    rw [hexDigit, if_pos (by omega), Nat.sub_add_cancel hlow, Char.ofNat_toNat]
  · have hlow : 97 ≤ c.toNat := (hle _ _).mp hletter.1
    have hhigh : c.toNat ≤ 102 := (hle _ _).mp hletter.2
    have hnot : ¬ ('0' ≤ c ∧ c ≤ '9') := fun h => by
      have hnine : c.toNat ≤ 57 := (hle _ _).mp h.2
      omega
    refine ⟨c.toNat - 87, by omega, (if_neg hnot).trans (if_pos hletter), ?_⟩
    rw [hexDigit, if_neg (by omega), Nat.sub_add_cancel (by omega), Char.ofNat_toNat]

theorem hexText_of_decodeHex {text : List Char} {bytes : List UInt8}
    (hlower : text.all isLowerHex = true) (h : decodeHex text = some bytes) :
    hexText bytes = text := by
  induction text using decodeHex.induct generalizing bytes with
  | case1 =>
    cases h
    rfl
  | case2 => cases h
  | case3 hi lo rest ih =>
    rw [List.all_cons, List.all_cons, Bool.and_eq_true, Bool.and_eq_true] at hlower
    obtain ⟨m, hm, hhi, hmtext⟩ := hexValue_of_isLowerHex hlower.1
    obtain ⟨n, hn, hlo, hntext⟩ := hexValue_of_isLowerHex hlower.2.1
    rw [decodeHex, hhi, hlo, Option.bind_some, Option.bind_some] at h
    obtain ⟨tail, htail, rfl⟩ := Option.map_eq_some_iff.mp h
    have hbyte : (UInt8.ofNat (m * 16 + n)).toNat = m * 16 + n := by
      rw [UInt8.toNat_ofNat']
      exact Nat.mod_eq_of_lt (by omega)
    rw [hexText, List.flatMap_cons, hbyte, Nat.mul_add_mod_of_lt hn,
      show (m * 16 + n) / 16 = m by omega, hmtext, hntext]
    exact congrArg (fun t => hi :: lo :: t) (ih hlower.2.2 htail)

theorem stripPrefix?_eq_some {start text rest : String} (h : stripPrefix? start text = some rest) :
    text.toList = start.toList ++ rest.toList := by
  obtain ⟨tail, htail, rfl⟩ := Option.map_eq_some_iff.mp h
  obtain ⟨found, htext, hfound⟩ := List.dropPrefix?_eq_some_iff.mp htail
  rw [htext, beq_iff_eq.mp hfound, String.toList_ofList]

inductive HttpRoute.Kind (path : String) (route : HttpRoute) : Prop
  | download (digest : Block 32) (hresponse : route.response = .blob (.download digest))
      (hmax : route.maxResponseBytes = maxBlobBytes)
      (hpath : path.toList = '/' :: hexText digest.toList)
  | result (kind : BlobResponse) (hresponse : route.response = .blob kind)
      (hkind : kind = .upload ∨ kind = .delete) (hmax : route.maxResponseBytes = maxHttpBodyBytes)
  | witness (hresponse : route.response = .witnessReceipt)
      (hmax : route.maxResponseBytes = witnessReceiptBytes)
  | json (hresponse : route.response = .json ∨ route.response = .jsonOrEmptyRefusal)

theorem kind_blobRoute {method : Method} {path : String} {route : HttpRoute}
    (h : blobRoute method path = some route) : route.Kind path := by
  rw [blobRoute] at h
  split_ifs at h with hupload
  · cases h
    exact .result .upload rfl (Or.inl rfl) rfl
  · obtain ⟨hash, hhash, h⟩ := Option.bind_eq_some_iff.mp h
    split_ifs at h with hlower
    obtain ⟨digest, hdigest, h⟩ := Option.bind_eq_some_iff.mp h
    obtain ⟨bytes, hbytes, hblock⟩ := Option.bind_eq_some_iff.mp hdigest
    have hhex : hash.toList.all isLowerHex = true := by
      rw [Bool.not_eq_false, lowerHex32, Bool.and_eq_true] at hlower
      exact hlower.2
    cases method with
    | get =>
      cases h
      refine .download digest rfl rfl ?_
      rw [← block?_eq_some.mp hblock, hexText_of_decodeHex hhex hbytes]
      exact stripPrefix?_eq_some hhash
    | delete =>
      cases h
      exact .result .delete rfl (Or.inr rfl) rfl
    | post => cases h
    | put => cases h

theorem response_vmlsAllowlisted {method : Method} {segments : List String} {route : HttpRoute}
    (h : vmlsAllowlisted method segments = some route) : route.response = .jsonOrEmptyRefusal := by
  have hguard : ∀ {p : Prop} [Decidable p] {body : RequestBody} {bytes : ℕ},
      (if p then some (vmlsRoute body bytes) else none) = some route →
        route.response = .jsonOrEmptyRefusal := by
    intro p _ body bytes hroute
    split_ifs at hroute
    cases hroute
    rfl
  unfold vmlsAllowlisted at h
  split at h
  all_goals first
    | exact hguard h
    | cases h <;> rfl

theorem kind_allowlisted {method : Method} {path : String} {route : HttpRoute}
    (h : allowlisted method path = some route) : route.Kind path := by
  rw [allowlisted] at h
  cases hblob : blobRoute method path with
  | some found =>
    rw [hblob] at h
    cases h
    exact kind_blobRoute hblob
  | none =>
    rw [hblob] at h
    dsimp only at h
    split_ifs at h with hcadence hmethod hwitness hpost
    · cases h
      exact .json (Or.inl rfl)
    · cases h
      exact .witness rfl rfl
    · obtain ⟨rest, -, h⟩ := Option.bind_eq_some_iff.mp h
      exact .json (Or.inr (response_vmlsAllowlisted h))

end ForgeswornLink
