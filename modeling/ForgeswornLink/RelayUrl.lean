import ForgeswornLink.Lib.AsciiText
import ForgeswornLink.Lib.OrderedChecks
import ForgeswornLink.Identity

/-!
# Relay URLs

A relay is named by a URL, and what is dialled, what a node signs and what a tag
is derived for must be the same host whoever reads it. `RelaySpec::parts` takes a
URL apart into a host in one canonical spelling, a port and a path. How an IP
address is read is left open; how it is written is not.
-/

namespace ForgeswornLink
open ByteString AsciiText OrderedChecks

/-- The standard library's readers of IP addresses. -/
structure IpParser where
  v4 : List Char → Option (Block 4)
  v6 : List Char → Option (Block 16)

def printIpv4 (octets : Block 4) : List Char :=
  ['.'].intercalate (octets.toList.map fun b => Nat.toDigits 10 b.toNat)

structure ZeroSpan where
  start : ℕ
  len : ℕ

def longestZeroes (segments : List ℕ) : ZeroSpan :=
  (segments.zipIdx.foldl (fun (acc : ZeroSpan × ZeroSpan) segment =>
    if segment.1 = 0 then
      let current : ZeroSpan :=
        ⟨if acc.2.len = 0 then segment.2 else acc.2.start, acc.2.len + 1⟩
      (if current.len > acc.1.len then current else acc.1, current)
    else (acc.1, ⟨0, 0⟩)) (⟨0, 0⟩, ⟨0, 0⟩)).1

def hexGroups (segments : List ℕ) : List Char := [':'].intercalate (segments.map (Nat.toDigits 16))

def ipv6Segments (octets : Block 16) : List ℕ :=
  (List.range 8).map fun i => ofBe (slice octets.toList (2 * i) (2 * i + 2))

def printIpv6 (octets : Block 16) : List Char :=
  if octets.toList.take 12 = SocketAddr.ipv4MappedPrefix then
    "::ffff:".toList ++ printIpv4 (readBlock 4 octets.toList 12)
  else
    let segments := ipv6Segments octets
    let zeroes := longestZeroes segments
    if zeroes.len > 1 then
      hexGroups (segments.take zeroes.start) ++ "::".toList ++
        hexGroups (segments.drop (zeroes.start + zeroes.len))
    else hexGroups segments

/-! ### Hosts -/

def isLdh (c : Char) : Bool := c.isLower || c.isDigit || c == '-'

def isHexDigit (c : Char) : Bool := c.isDigit || ('a' ≤ c ∧ c ≤ 'f') || ('A' ≤ c ∧ c ≤ 'F')

def dnsLabel (label : List Char) : Bool :=
  1 ≤ label.length && label.length ≤ 63 && label.head? != some '-' && label.getLast? != some '-' &&
    label.all isLdh

def numericLabel (last : List Char) : Bool :=
  !last.isEmpty && (last.all Char.isDigit || (last.dropPrefix? "0x".toList).any (·.all isHexDigit))

def bracketed (host : List Char) : Option (List Char) :=
  (host.dropPrefix? ['[']).bind fun h => h.dropSuffix? [']']

def canonicalHost (ip : IpParser) (host : List Char) : Bool :=
  match bracketed host with
  | some inner => (ip.v6 inner).any fun addr => '.' ∉ inner ∧ printIpv6 addr = inner
  | none =>
    let labels := host.splitOn '.'
    if numericLabel (labels.getLastD []) then (ip.v4 host).any fun addr => printIpv4 addr = host
    else host.length ≤ 253 && labels.all dnsLabel

/-! ### URLs -/

structure RelaySpec where
  url : String
  certSha256 : Option String
  insecureTls : Bool

def RelaySpec.plain (url : String) : RelaySpec := ⟨url, none, false⟩

def RelaySpec.pinned (url certSha256 : String) : RelaySpec := ⟨url, some certSha256, false⟩

structure RelayParts where
  tls : Bool
  host : List Char
  port : UInt16
  path : List Char
deriving DecidableEq

/-- Printable, and not a character that a URL parser rewrites or reads as structure. -/
def urlChar (c : Char) : Bool := ('!' ≤ c ∧ c ≤ '~') && c != '%' && c != '\\' && c != '#'

def splitScheme (url : List Char) : Except String (Bool × List Char) :=
  match url.dropPrefix? "wss://".toList with
  | some rest => .ok (true, rest)
  | none =>
    match url.dropPrefix? "ws://".toList with
    | some rest => .ok (false, rest)
    | none => .error "relay URL must start with ws:// or wss://"

def splitPath (rest : List Char) : List Char × List Char :=
  match splitOnce '/' rest with
  | some (authority, path) => (authority, '/' :: path)
  | none => (rest, ['/'])

def parseU16 (digits : List Char) : Except String UInt16 :=
  if digits = [] then .error "cannot parse integer from empty string"
  else if Nat.ofDigitChars 10 digits 0 < 2 ^ 16 then .ok
    (UInt16.ofNat (Nat.ofDigitChars 10 digits 0))
  else .error "number too large to fit in target type"

def splitPort (tls : Bool) (authority : List Char) : Except String (List Char × UInt16) :=
  let whole := .ok (authority, if tls then 443 else 80)
  match rsplitOnce ':' authority with
  | some (host, digits) =>
    if host ≠ [] ∧ digits.all Char.isDigit = true then
      (parseU16 digits).map fun port => (host, port)
    else whole
  | none => whole

def relayParts (ip : IpParser) (url : List Char) : Except String RelayParts := do
  let scheme ← splitScheme url
  deny (url.all urlChar = false) "relay URL must be printable ASCII without %, \\ or #"
  let split := splitPath scheme.2
  let hostPort ← splitPort scheme.1 split.1
  let host := hostPort.1.map Char.toLower
  deny (canonicalHost ip host = false)
    "relay URL host must be a DNS name, a dotted-quad IPv4 address or a bracketed IPv6 address"
  return ⟨scheme.1, host, hostPort.2, split.2⟩

def RelayParts.render (parts : RelayParts) : List Char :=
  (if parts.tls then "wss" else "ws").toList ++ "://".toList ++ parts.host ++
    ':' :: Nat.toDigits 10 parts.port.toNat ++ parts.path

namespace RelaySpec
variable (ip : IpParser) (spec : RelaySpec)

def parts : Except String RelayParts := relayParts ip spec.url.toList

def host : Except String String := (spec.parts ip).map fun parts => String.ofList parts.host

def browserUrl : Except String String := do
  deny (spec.certSha256.isSome = true)
    (spec.url ++ " needs a pinned certificate, which a browser cannot check")
  deny (spec.insecureTls = true)
    (spec.url ++ " asks for an unverified certificate, which a browser never accepts")
  let parts ← spec.parts ip
  deny (parts.tls = false) ("a browser reaches relays only over wss://, not " ++ spec.url)
  return String.ofList parts.render

structure Dial where
  host : List Char
  port : UInt16
  serverName : Option (List Char)
  request : List Char

def dial : Except String Dial :=
  (spec.parts ip).map fun parts =>
    ⟨parts.host, parts.port, if parts.tls then some parts.host else none, parts.render⟩

end RelaySpec

/-! ### Characters -/

theorem urlChar_of_between {c : Char} {low high : ℕ} (hlow : low ≤ c.toNat) (hhigh : c.toNat ≤ high)
    (hrange : 33 ≤ low ∧ high ≤ 126)
    (hrest : ['%', '\\', '#'].all (fun d => d.toNat < low ∨ high < d.toNat) = true) :
    urlChar c = true := by
  have hne : ∀ d ∈ ['%', '\\', '#'], c ≠ d := by
    rintro d hd rfl
    have hapart := of_decide_eq_true (List.all_eq_true.mp hrest _ hd)
    omega
  simp only [urlChar, Bool.and_eq_true, decide_eq_true_eq, bne_iff_ne]
  refine ⟨⟨⟨⟨?_, ?_⟩, hne _ (by simp)⟩, hne _ (by simp)⟩, hne _ (by simp)⟩
  · exact show 33 ≤ c.toNat by omega
  · exact show c.toNat ≤ 126 by omega

theorem urlChar_of_lower {c : Char} (hlow : 'a' ≤ c) (hhigh : c ≤ 'z') : urlChar c = true :=
  @urlChar_of_between _ 97 122 hlow hhigh (by decide) (by decide)

theorem urlChar_toLower {c : Char} (h : urlChar c = true) : urlChar c.toLower = true := by
  rcases toLower_cases c with hc | hc
  · rwa [hc]
  · exact urlChar_of_lower hc.1 hc.2

theorem isDigit_bounds {c : Char} (h : c.isDigit = true) : 48 ≤ c.toNat ∧ c.toNat ≤ 57 := by
  rw [Char.isDigit, Bool.and_eq_true, decide_eq_true_eq, decide_eq_true_eq] at h
  exact h

theorem urlChar_of_isDigit {c : Char} (h : c.isDigit = true) : urlChar c = true :=
  urlChar_of_between (isDigit_bounds h).1 (isDigit_bounds h).2 (by decide) (by decide)

theorem isDigit_of_mem_port {n : ℕ} {c : Char} (h : c ∈ Nat.toDigits 10 n) : c.isDigit = true :=
  Nat.isDigit_of_mem_toDigits (by decide) le_rfl h

theorem not_mem_port {n : ℕ} {d : Char} (h : d.isDigit = false) : d ∉ Nat.toDigits 10 n := by
  intro hmem
  rw [isDigit_of_mem_port hmem] at h
  cases h

/-! ### Taking a URL apart -/

theorem splitScheme_eq_ok {url rest : List Char} {tls : Bool}
    (h : splitScheme url = .ok (tls, rest)) :
    url = (if tls then "wss://" else "ws://").toList ++ rest := by
  rw [splitScheme] at h
  cases hwss : url.dropPrefix? "wss://".toList with
  | some found =>
    rw [hwss] at h
    cases h
    obtain ⟨start, hurl, hstart⟩ := List.dropPrefix?_eq_some_iff.mp hwss
    rw [hurl, beq_iff_eq.mp hstart]
    rfl
  | none =>
    rw [hwss] at h
    dsimp only at h
    cases hws : url.dropPrefix? "ws://".toList with
    | some found =>
      rw [hws] at h
      cases h
      obtain ⟨start, hurl, hstart⟩ := List.dropPrefix?_eq_some_iff.mp hws
      rw [hurl, beq_iff_eq.mp hstart]
      rfl
    | none =>
      rw [hws] at h
      cases h

theorem splitScheme_append (tls : Bool) (rest : List Char) :
    splitScheme ((if tls then "wss://" else "ws://").toList ++ rest) = .ok (tls, rest) := by
  have hdrop : ∀ start : List Char, (start ++ rest).dropPrefix? start = some rest := fun start =>
    List.dropPrefix?_eq_some_iff.mpr ⟨_, rfl, beq_self_eq_true _⟩
  cases tls with
  | true =>
    have hurl : (if true then "wss://" else "ws://").toList ++ rest = "wss://".toList ++ rest := rfl
    rw [hurl, splitScheme, hdrop]
  | false =>
    have hurl : (if false then "wss://" else "ws://").toList ++ rest = "ws://".toList ++ rest := rfl
    have hnot : ("ws://".toList ++ rest).dropPrefix? "wss://".toList = none := rfl
    rw [hurl, splitScheme, hnot, hdrop]

theorem splitPath_spec (rest : List Char) :
    ∃ tail, (splitPath rest).2 = '/' :: tail ∧ '/' ∉ (splitPath rest).1 ∧
      ((splitPath rest).1 ++ '/' :: tail = rest ∨ (splitPath rest).1 = rest ∧ tail = []) := by
  rw [splitPath]
  cases hsplit : splitOnce '/' rest with
  | none => exact ⟨[], rfl, splitOnce_eq_none.mp hsplit, Or.inr ⟨rfl, rfl⟩⟩
  | some split =>
    obtain ⟨hrest, hnot⟩ := splitOnce_eq_some.mp hsplit
    exact ⟨split.2, rfl, hnot, Or.inl hrest.symm⟩

theorem splitPath_append {authority tail : List Char} (h : '/' ∉ authority) :
    splitPath (authority ++ '/' :: tail) = (authority, '/' :: tail) := by
  rw [splitPath, splitOnce_append h]

theorem parseU16_toDigits (port : UInt16) : parseU16 (Nat.toDigits 10 port.toNat) = .ok port := by
  rw [parseU16, if_neg Nat.toDigits_ne_nil, Nat.ofDigitChars_ten_toDigits, if_pos port.toNat_lt,
    UInt16.ofNat_toNat]

theorem splitPort_append (tls : Bool) {host : List Char} (h : host ≠ []) (port : UInt16) :
    splitPort tls (host ++ ':' :: Nat.toDigits 10 port.toNat) = .ok (host, port) := by
  have hsplit : rsplitOnce ':' (host ++ ':' :: Nat.toDigits 10 port.toNat) =
      some (host, Nat.toDigits 10 port.toNat) :=
    rsplitOnce_eq_some.mpr ⟨rfl, not_mem_port rfl⟩
  have hdigits : (Nat.toDigits 10 port.toNat).all Char.isDigit = true :=
    List.all_eq_true.mpr fun c hc => isDigit_of_mem_port hc
  rw [splitPort, hsplit]
  dsimp only
  rw [if_pos ⟨h, hdigits⟩, parseU16_toDigits]
  rfl

theorem splitPort_host {tls : Bool} {authority host : List Char} {port : UInt16}
    (h : splitPort tls authority = .ok (host, port)) : host <+: authority := by
  rw [splitPort] at h
  cases hsplit : rsplitOnce ':' authority with
  | none =>
    rw [hsplit] at h
    cases h
    exact List.prefix_refl _
  | some split =>
    rw [hsplit] at h
    dsimp only at h
    by_cases hport : split.1 ≠ [] ∧ split.2.all Char.isDigit = true
    · rw [if_pos hport] at h
      obtain ⟨found, -, heq⟩ : ∃ found, parseU16 split.2 = .ok found ∧
        (split.1, found) = (host, port) := by
        cases hparse : parseU16 split.2 with
        | error e =>
          rw [hparse] at h
          cases h
        | ok found =>
          rw [hparse] at h
          cases h
          exact ⟨_, rfl, rfl⟩
      cases heq
      obtain ⟨hauthority, -⟩ := rsplitOnce_eq_some.mp hsplit
      exact ⟨_, hauthority.symm⟩
    · rw [if_neg hport] at h
      cases h
      exact List.prefix_refl _

structure RelayParts.Canonical (ip : IpParser) (parts : RelayParts) : Prop where
  host : canonicalHost ip parts.host = true
  lower : parts.host.map Char.toLower = parts.host
  noSlash : '/' ∉ parts.host
  path : ∃ tail, parts.path = '/' :: tail
  hostChars : ∀ c ∈ parts.host, urlChar c = true
  pathChars : ∀ c ∈ parts.path, urlChar c = true

theorem canonicalHost_ne_nil {ip : IpParser} {host : List Char} (h : canonicalHost ip host = true) :
    host ≠ [] := by
  rintro rfl
  cases h

theorem canonical_of_relayParts {ip : IpParser} {url : List Char} {parts : RelayParts}
    (h : relayParts ip url = .ok parts) : parts.Canonical ip := by
  simp only [relayParts, bind_eq_ok, deny_eq_ok, exists_const] at h
  obtain ⟨⟨tls, rest⟩, hscheme, hchars, ⟨host, port⟩, hport, hhost, heq⟩ := h
  cases heq
  obtain ⟨tail, htail, hnot, hrest⟩ := splitPath_spec rest
  obtain ⟨more, hmore⟩ := splitPort_host hport
  have hurl := splitScheme_eq_ok hscheme
  have hall : ∀ c ∈ rest, urlChar c = true := by
    rw [Bool.not_eq_false, List.all_eq_true] at hchars
    intro c hc
    exact hchars c (hurl ▸ List.mem_append_right _ hc)
  have hauthority : ∀ c ∈ (splitPath rest).1, c ∈ rest := by
    intro c hc
    rcases hrest with hrest | ⟨hrest, -⟩
    · exact hrest ▸ List.mem_append_left _ hc
    · exact hrest ▸ hc
  have hmem : ∀ c ∈ host, c ∈ (splitPath rest).1 := fun c hc => hmore ▸ List.mem_append_left _ hc
  refine ⟨Bool.eq_true_of_not_eq_false hhost, ?_, ?_, ⟨tail, htail⟩, ?_, ?_⟩
  · dsimp only
    rw [List.map_map]
    exact List.map_congr_left fun c _ => toLower_toLower c
  · intro hslash
    obtain ⟨c, hc, hlower⟩ := List.mem_map.mp hslash
    obtain rfl := eq_of_toLower_eq hlower (by decide)
    exact hnot (hmem _ hc)
  · intro c hc
    obtain ⟨d, hd, rfl⟩ := List.mem_map.mp hc
    exact urlChar_toLower (hall d (hauthority d (hmem d hd)))
  · dsimp only
    rw [htail]
    intro c hc
    rcases hrest with hrest | ⟨-, rfl⟩
    · exact hall c (hrest ▸ List.mem_append_right _ hc)
    · obtain rfl := List.mem_singleton.mp hc
      rfl

theorem relayParts_render {ip : IpParser} {parts : RelayParts} (h : parts.Canonical ip) :
    relayParts ip parts.render = .ok parts := by
  obtain ⟨tail, htail⟩ := h.path
  have hrender : parts.render = (if parts.tls then "wss://" else "ws://").toList ++
      (parts.host ++ ':' :: Nat.toDigits 10 parts.port.toNat ++ '/' :: tail) := by
    rw [RelayParts.render, htail]
    cases parts.tls <;> simp
  have hslash : '/' ∉ parts.host ++ ':' :: Nat.toDigits 10 parts.port.toNat := by
    rw [List.mem_append, List.mem_cons, not_or, not_or]
    exact ⟨h.noSlash, by decide, not_mem_port rfl⟩
  have hchars : parts.render.all urlChar = true := by
    rw [List.all_eq_true]
    intro c hc
    rw [RelayParts.render] at hc
    simp only [List.mem_append, List.mem_cons] at hc
    rcases hc with (((hc | hc) | hc) | rfl | hc) | hc
    · have hscheme : (if parts.tls then "wss" else "ws").toList.all urlChar = true := by
        cases parts.tls <;> decide
      exact List.all_eq_true.mp hscheme c hc
    · have hslashes : "://".toList.all urlChar = true := by decide
      exact List.all_eq_true.mp hslashes c hc
    · exact h.hostChars c hc
    · rfl
    · exact urlChar_of_isDigit (isDigit_of_mem_port hc)
    · exact h.pathChars c hc
  have hne : parts.host ≠ [] := canonicalHost_ne_nil h.host
  have hscheme : splitScheme parts.render = .ok (parts.tls,
      parts.host ++ ':' :: Nat.toDigits 10 parts.port.toNat ++ '/' :: tail) := by
    rw [hrender, splitScheme_append]
  simp only [relayParts, bind_eq_ok, deny_eq_ok, exists_const]
  refine ⟨_, hscheme, by simp [hchars], (parts.host, parts.port), ?_, ?_, ?_⟩
  · rw [splitPath_append hslash]
    exact splitPort_append parts.tls hne parts.port
  · dsimp only
    rw [h.lower, h.host]
    decide
  · dsimp only
    rw [splitPath_append hslash, h.lower, ← htail]
    rfl

/-! ### The host -/

theorem hexDigit_of_mem_toDigits {n : ℕ} {c : Char} (h : c ∈ Nat.toDigits 16 n) :
    ∃ d < 16, c = Nat.digitChar d := by
  induction n using Nat.strong_induction_on with
  | _ n ih =>
    rw [Nat.toDigits_eq_if (by decide)] at h
    split_ifs at h with hlt
    · exact ⟨n, hlt, List.mem_singleton.mp h⟩
    · rcases List.mem_append.mp h with h | h
      · exact ih (n / 16) (by omega) h
      · exact ⟨n % 16, Nat.mod_lt _ (by decide), List.mem_singleton.mp h⟩

def isIpv6Char (c : Char) : Bool := c.isDigit || ('a' ≤ c ∧ c ≤ 'f') || c == ':'

theorem isIpv6Char_hexGroups {segments : List ℕ} {c : Char} (h : c ∈ hexGroups segments) :
    isIpv6Char c = true := by
  have hdigit : ∀ d < 16, isIpv6Char (Nat.digitChar d) = true := by decide
  rcases mem_intercalate h with rfl | ⟨group, hgroup, hc⟩
  · rfl
  · obtain ⟨segment, -, rfl⟩ := List.mem_map.mp hgroup
    obtain ⟨d, hd, rfl⟩ := hexDigit_of_mem_toDigits hc
    exact hdigit d hd

theorem dot_mem_printIpv4 (octets : Block 4) : '.' ∈ printIpv4 octets := by
  obtain ⟨bytes, hbytes⟩ := octets
  obtain ⟨a, b, rest, rfl⟩ : ∃ a b rest, bytes = a :: b :: rest := by
    match bytes, hbytes with
    | a :: b :: rest, _ => exact ⟨a, b, rest, rfl⟩
  simp [printIpv4]

theorem isIpv6Char_printIpv6 {octets : Block 16} (h : '.' ∉ printIpv6 octets) {c : Char}
    (hc : c ∈ printIpv6 octets) : isIpv6Char c = true := by
  by_cases hmapped : octets.toList.take 12 = SocketAddr.ipv4MappedPrefix
  · rw [printIpv6, if_pos hmapped] at h
    exact absurd (List.mem_append_right _ (dot_mem_printIpv4 _)) h
  · rw [printIpv6, if_neg hmapped] at hc
    dsimp only at hc
    split_ifs at hc
    · rw [List.mem_append, List.mem_append] at hc
      rcases hc with (hc | hc) | hc
      · exact isIpv6Char_hexGroups hc
      · have hcolons : "::".toList.all isIpv6Char = true := by decide
        exact List.all_eq_true.mp hcolons c hc
      · exact isIpv6Char_hexGroups hc
    · exact isIpv6Char_hexGroups hc

/-- The spellings a host has: labels of letters, digits and hyphens; an IPv4 address in dotted
decimal; an IPv6 address in brackets. -/
inductive HostForm (host : List Char) : Prop
  | name (hlength : host.length ≤ 253) (hlabels : ∀ label ∈ host.splitOn '.', dnsLabel label = true)
      (hchars : ∀ c ∈ host, isLdh c = true ∨ c = '.')
  | ipv4 (addr : Block 4) (hhost : host = printIpv4 addr)
      (hchars : ∀ c ∈ host, c.isDigit = true ∨ c = '.')
  | ipv6 (addr : Block 16) (hhost : host = '[' :: printIpv6 addr ++ [']'])
      (hchars : ∀ c ∈ printIpv6 addr, isIpv6Char c = true)

theorem bracketed_eq_some {host inner : List Char} (h : bracketed host = some inner) :
    host = '[' :: inner ++ [']'] := by
  obtain ⟨rest, hrest, hinner⟩ := Option.bind_eq_some_iff.mp h
  obtain ⟨start, hhost, hstart⟩ := List.dropPrefix?_eq_some_iff.mp hrest
  obtain ⟨last, hrest, hlast⟩ := List.dropSuffix?_eq_some_iff.mp hinner
  rw [hhost, hrest, beq_iff_eq.mp hstart, beq_iff_eq.mp hlast]
  rfl

theorem hostForm_of_canonical {ip : IpParser} {host : List Char}
    (h : canonicalHost ip host = true) :
    HostForm host := by
  rw [canonicalHost] at h
  cases hbracketed : bracketed host with
  | some inner =>
    rw [hbracketed] at h
    obtain ⟨addr, -, haddr⟩ := (Option.any_eq_true _ _).mp h
    obtain ⟨hdot, rfl⟩ := of_decide_eq_true haddr
    exact .ipv6 addr (bracketed_eq_some hbracketed) fun c hc => isIpv6Char_printIpv6 hdot hc
  | none =>
    rw [hbracketed] at h
    dsimp only at h
    split_ifs at h with hnumeric
    · obtain ⟨addr, -, haddr⟩ := (Option.any_eq_true _ _).mp h
      have hhost := (of_decide_eq_true haddr).symm
      refine .ipv4 addr hhost fun c hc => ?_
      rw [hhost] at hc
      rcases mem_intercalate hc with rfl | ⟨octet, hoctet, hc⟩
      · exact Or.inr rfl
      · obtain ⟨b, -, rfl⟩ := List.mem_map.mp hoctet
        exact Or.inl (Nat.isDigit_of_mem_toDigits (by decide) le_rfl hc)
    · rw [Bool.and_eq_true, decide_eq_true_eq, List.all_eq_true] at h
      refine .name h.1 h.2 fun c hc => ?_
      rw [← @List.intercalate_splitOn _ host _ _ '.'] at hc
      rcases mem_intercalate hc with rfl | ⟨label, hlabel, hc⟩
      · exact Or.inr rfl
      · have hall := h.2 label hlabel
        rw [dnsLabel, Bool.and_eq_true, List.all_eq_true] at hall
        exact Or.inl (hall.2 c hc)

namespace RelaySpec
variable {ip : IpParser} {spec : RelaySpec} {parts : RelayParts}

theorem browserUrl_eq_ok {url : String} (hparts : spec.parts ip = .ok parts)
    (h : spec.browserUrl ip = .ok url) : url = String.ofList parts.render := by
  simp only [browserUrl, bind_eq_ok, deny_eq_ok, exists_const] at h
  obtain ⟨-, -, found, hfound, -, heq⟩ := h
  cases hparts.symm.trans hfound
  exact (Except.ok.inj heq).symm

def hostOfUrl (ip : IpParser) (url : String) : Option String := ((plain url).host ip).toOption

/-- A URL that is accepted has a host in one of three canonical spellings. Rendering what it was
taken apart into, or opening it in a browser, gives a URL that is taken apart into the same; so what
a node signs against, what a tag is derived for, what is dialled and what TLS verifies are that host
for all of them. -/
theorem relay_url_canonical (ip : IpParser) (spec : RelaySpec) (parts : RelayParts)
    (h : spec.parts ip = .ok parts) :
    HostForm parts.host ∧
    (∀ again : RelaySpec, again.url = String.ofList parts.render → again.parts ip = .ok parts) ∧
    (∀ again : RelaySpec, spec.browserUrl ip = .ok again.url → again.parts ip = .ok parts) ∧
    ∀ again : RelaySpec, again.url = spec.url ∨ again.url = String.ofList parts.render ∨
        spec.browserUrl ip = .ok again.url →
      again.host ip = .ok (String.ofList parts.host) ∧
      hostOfUrl ip again.url = some (String.ofList parts.host) ∧
      ∃ dial, again.dial ip = .ok dial ∧ dial.host = parts.host ∧ dial.request = parts.render ∧
        ∀ name, dial.serverName = some name → name = parts.host := by
  have hcanonical := canonical_of_relayParts h
  have hrendered : ∀ again : RelaySpec, again.url = String.ofList parts.render →
      again.parts ip = .ok parts := by
    intro again hurl
    rw [RelaySpec.parts, hurl, String.toList_ofList]
    exact relayParts_render hcanonical
  have hbrowser : ∀ again : RelaySpec, spec.browserUrl ip = .ok again.url →
      again.parts ip = .ok parts := fun again hurl => hrendered again (browserUrl_eq_ok h hurl)
  refine ⟨hostForm_of_canonical hcanonical.host, hrendered, hbrowser, fun again hagain => ?_⟩
  have hparts : relayParts ip again.url.toList = .ok parts := by
    rcases hagain with hurl | hurl | hurl
    · rw [hurl]
      exact h
    · exact hrendered again hurl
    · exact hbrowser again hurl
  refine ⟨?_, ?_,
    ⟨parts.host, parts.port, if parts.tls then some parts.host else none, parts.render⟩,
    ?_, rfl, rfl, ?_⟩
  · rw [host, RelaySpec.parts, hparts]
    rfl
  · rw [hostOfUrl, host, RelaySpec.parts, plain, hparts]
    rfl
  · rw [dial, RelaySpec.parts, hparts]
    rfl
  · intro name hname
    dsimp only at hname
    split_ifs at hname
    exact (Option.some.inj hname).symm

def noAddresses : IpParser := ⟨fun _ => none, fun _ => none⟩

theorem capital_host_canonical :
    let spec := plain "wss://Relay.Example/link?v=1"
    let parts : RelayParts := ⟨true, "relay.example".toList, 443, "/link?v=1".toList⟩
    spec.parts noAddresses = .ok parts ∧
      (plain "wss://relay.example:443/link?v=1").parts noAddresses = .ok parts := by
  intro spec parts
  have hparts : spec.parts noAddresses = .ok parts := by decide +kernel
  exact ⟨hparts, (relay_url_canonical noAddresses spec parts hparts).2.1 _ (by decide +kernel)⟩

end RelaySpec

end ForgeswornLink
