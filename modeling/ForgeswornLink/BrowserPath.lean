import ForgeswornLink.Lib.WhatwgPath
import ForgeswornLink.RelayUrl

/-!
# The path a browser asks a relay for

A native dial sends the path of the relay's URL as it was written. A browser
parses the URL it is given first. The characters a URL may have leave out escapes,
backslashes and fragments so that nothing is rewritten, but a parser also resolves
dot segments, and it encodes some characters that are printable.
-/

namespace ForgeswornLink
open AsciiText OrderedChecks WhatwgPath

def endsAuthority (c : Char) : Bool := c == '/' || c == '\\' || c == '?' || c == '#'

/-- What a browser asks for when it opens a `wss://` URL: the path and query of the parsed URL. -/
def whatwgTarget (url : List Char) : Option (List Char) :=
  (url.dropPrefix? "wss://".toList).map fun rest =>
    (pathStartState (rest.dropWhile fun c => !endsAuthority c)).text

theorem urlChar_spec {c : Char} (h : urlChar c = true) :
    (32 < c.toNat ∧ c.toNat < 127) ∧ c ≠ '%' ∧ c ≠ '\\' ∧ c ≠ '#' := by
  simp only [urlChar, Bool.and_eq_true, decide_eq_true_eq, bne_iff_ne] at h
  obtain ⟨⟨⟨⟨hlow, hhigh⟩, hpercent⟩, hback⟩, hfragment⟩ := h
  exact ⟨⟨hlow, Nat.lt_succ_of_le hhigh⟩, hpercent, hback, hfragment⟩

theorem HostForm.not_question {host : List Char} (h : HostForm host) : '?' ∉ host := by
  intro hmem
  cases h with
  | name _ _ hchars => rcases hchars _ hmem with hc | hc <;> cases hc
  | ipv4 _ _ hchars => rcases hchars _ hmem with hc | hc <;> cases hc
  | ipv6 addr hhost hchars =>
    rw [hhost] at hmem
    rcases List.mem_cons.mp hmem with hc | hmem
    · cases hc
    · rcases List.mem_append.mp hmem with hmem | hmem
      · cases hchars _ hmem
      · cases List.mem_singleton.mp hmem

namespace RelayParts
variable {ip : IpParser} {parts : RelayParts}

theorem Canonical.plain (h : parts.Canonical ip) : Plain parts.path := fun c hc =>
  urlChar_spec (h.pathChars c hc)

theorem whatwgTarget_render (h : parts.Canonical ip) (htls : parts.tls = true) :
    whatwgTarget parts.render = some (pathStartState parts.path).text := by
  obtain ⟨tail, htail⟩ := h.path
  have hrender : parts.render =
      "wss://".toList ++ (parts.host ++ ':' :: Nat.toDigits 10 parts.port.toNat ++ parts.path) := by
    rw [render, htls]
    simp
  have hauthority : ∀ c ∈ parts.host ++ ':' :: Nat.toDigits 10 parts.port.toNat,
      (!endsAuthority c) = true := by
    intro c hc
    rw [Bool.not_eq_true', endsAuthority, Bool.or_eq_false_iff, Bool.or_eq_false_iff,
      Bool.or_eq_false_iff]
    simp only [beq_eq_false_iff_ne]
    rcases List.mem_append.mp hc with hc | hc
    · obtain ⟨-, -, hback, hfragment⟩ := urlChar_spec (h.hostChars c hc)
      exact ⟨⟨⟨ne_of_mem_of_not_mem hc h.noSlash, hback⟩,
        ne_of_mem_of_not_mem hc (hostForm_of_canonical h.host).not_question⟩, hfragment⟩
    · rcases List.mem_cons.mp hc with rfl | hc
      · decide
      · have hne : ∀ d : Char, d.isDigit = false → c ≠ d := fun d hd =>
          ne_of_mem_of_not_mem hc (not_mem_port hd)
        exact ⟨⟨⟨hne _ rfl, hne _ rfl⟩, hne _ rfl⟩, hne _ rfl⟩
  have hdrop : ("wss://".toList ++ (parts.host ++ ':' :: Nat.toDigits 10 parts.port.toNat ++
      parts.path)).dropPrefix? "wss://".toList =
        some (parts.host ++ ':' :: Nat.toDigits 10 parts.port.toNat ++ parts.path) :=
    List.dropPrefix?_eq_some_iff.mpr ⟨_, rfl, beq_self_eq_true _⟩
  rw [whatwgTarget, hrender, hdrop, Option.map_some, List.dropWhile_append_of_pos hauthority, htail,
    List.dropWhile_cons, if_neg (by decide)]

end RelayParts

namespace RelaySpec

theorem browserUrl_parts {ip : IpParser} {spec : RelaySpec} {url : String}
    (h : spec.browserUrl ip = .ok url) :
    ∃ parts, spec.parts ip = .ok parts ∧ parts.tls = true ∧ url = String.ofList parts.render := by
  have hurl := h
  simp only [browserUrl, bind_eq_ok, deny_eq_ok, exists_const] at h
  obtain ⟨-, -, parts, hparts, htls, -⟩ := h
  exact ⟨parts, hparts, (Bool.not_eq_false _).mp htls, browserUrl_eq_ok hparts hurl⟩

/-- A browser asks for the path as it was written, and as a native dial sends it, exactly if the
path has no dot segments and no character that the parser of URLs encodes. -/
theorem browser_path_as_written_iff (ip : IpParser) (spec : RelaySpec) (url : String)
    (h : spec.browserUrl ip = .ok url) :
    ∃ parts, spec.parts ip = .ok parts ∧
      (whatwgTarget url.toList = some parts.path ↔ LeftAlone parts.path) := by
  obtain ⟨parts, hparts, htls, rfl⟩ := browserUrl_parts h
  have hcanonical := canonical_of_relayParts hparts
  obtain ⟨tail, htail⟩ := hcanonical.path
  refine ⟨parts, hparts, ?_⟩
  have hplain := hcanonical.plain
  rw [String.toList_ofList, RelayParts.whatwgTarget_render hcanonical htls, Option.some.injEq]
  rw [htail] at hplain ⊢
  exact text_eq_self_iff hplain

theorem plain_path_as_written :
    (plain "wss://relay.example/link/v1?tag=a").browserUrl noAddresses =
        .ok "wss://relay.example:443/link/v1?tag=a" ∧
      whatwgTarget "wss://relay.example:443/link/v1?tag=a".toList =
        some "/link/v1?tag=a".toList := by
  have hurl : (plain "wss://relay.example/link/v1?tag=a").browserUrl noAddresses =
      .ok "wss://relay.example:443/link/v1?tag=a" := by decide +kernel
  obtain ⟨parts, hparts, hiff⟩ := browser_path_as_written_iff noAddresses _ _ hurl
  have hpath : parts.path = "/link/v1?tag=a".toList := by
    have hfound : (plain "wss://relay.example/link/v1?tag=a").parts noAddresses =
        .ok ⟨true, "relay.example".toList, 443, "/link/v1?tag=a".toList⟩ := by decide +kernel
    cases hparts.symm.trans hfound
    rfl
  rw [hpath] at hiff
  exact ⟨hurl, hiff.mpr (by decide +kernel)⟩

/-- A browser resolves the dot segments of a relay's path; a native dial sends them. -/
theorem browser_resolves_dot_segments :
    let spec := plain "wss://relay.example/a/../b"
    spec.browserUrl noAddresses = .ok "wss://relay.example:443/a/../b" ∧
      (spec.parts noAddresses).toOption.map RelayParts.path = some "/a/../b".toList ∧
      whatwgTarget "wss://relay.example:443/a/../b".toList = some "/b".toList ∧
      whatwgTarget "wss://relay.example:443/a/../b".toList ≠
        (spec.parts noAddresses).toOption.map RelayParts.path := by
  decide +kernel

end RelaySpec

end ForgeswornLink
