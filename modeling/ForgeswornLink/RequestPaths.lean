import ForgeswornLink.HttpRoutes
import ForgeswornLink.Lib.DotSegments

/-!
# Paths a server on the way may rewrite

A path is put on the wire as it was asked for. Most routes name every character of
their path, and none of those is a dot, a percent sign or a backslash. The cadence
routes are told by their first two segments alone: what follows can climb back out
of them once dot segments are removed.
-/

namespace ForgeswornLink
open AsciiText DotSegments OrderedChecks

/-! ### Paths named character by character -/

def rewritten : List Char := ['.', '%', '\\']

def LeftAsIs (text : List Char) : Prop := ∀ c ∈ text, c ∉ rewritten

theorem LeftAsIs.of_all {text : List Char} {ok : Char → Bool} (hok : rewritten.all (!ok ·) = true)
    (h : text.all ok = true) : LeftAsIs text := by
  intro c hc hmem
  have hnot := List.all_eq_true.mp hok c hmem
  rw [List.all_eq_true.mp h c hc] at hnot
  cases hnot

theorem LeftAsIs.append {text text' : List Char} (h : LeftAsIs text) (h' : LeftAsIs text') :
    LeftAsIs (text ++ text') :=
  fun c hc => (List.mem_append.mp hc).elim (h c) (h' c)

theorem leftAsIs_of_lowerHex32 {value : String} (h : lowerHex32 value = true) :
    LeftAsIs value.toList := by
  rw [lowerHex32, Bool.and_eq_true] at h
  exact .of_all (by decide) h.2

theorem leftAsIs_of_canonicalU32 {value : String} (h : canonicalU32 value = true) :
    LeftAsIs value.toList := by
  rw [canonicalU32, Bool.and_eq_true, Bool.and_eq_true] at h
  exact .of_all (by decide) h.1.2

theorem leftAsIs_literal {text : List Char} (h : text.all (· ∉ rewritten) = true) :
    LeftAsIs text :=
  .of_all (by decide) h

theorem leftAsIs_blobRoute {method : Method} {path : String} {route : HttpRoute}
    (h : blobRoute method path = some route) :
    ∃ rest, path.toList = '/' :: rest ∧ LeftAsIs rest := by
  rw [blobRoute] at h
  split_ifs at h with hupload
  · rw [hupload.2]
    exact ⟨"upload".toList, rfl, leftAsIs_literal (by decide)⟩
  · obtain ⟨hash, hhash, h⟩ := Option.bind_eq_some_iff.mp h
    split_ifs at h with hlower
    rw [Bool.not_eq_false] at hlower
    exact ⟨hash.toList, stripPrefix?_eq_some hhash, leftAsIs_of_lowerHex32 hlower⟩

theorem leftAsIs_vmlsAllowlisted {method : Method} {segments : List String} {route : HttpRoute}
    (h : vmlsAllowlisted method segments = some route) :
    ∀ segment ∈ segments, LeftAsIs segment.toList := by
  have hliteral :
      ∀ segment ∈ ["mailboxes", "records", "fetch", "ack", "packages", "slots", "status",
        "capabilities"], LeftAsIs segment.toList := by
    simp only [List.forall_mem_cons]
    refine ⟨?_, ?_, ?_, ?_, ?_, ?_, ?_, ?_, nofun⟩ <;> exact leftAsIs_literal (by decide)
  simp only [List.forall_mem_cons] at hliteral
  unfold vmlsAllowlisted at h
  split at h <;> (try split_ifs at h with hguard) <;>
    simp_all [leftAsIs_of_lowerHex32, leftAsIs_of_canonicalU32]

theorem leftAsIs_allowlisted {method : Method} {path : String} {route : HttpRoute}
    (h : allowlisted method path = some route)
    (hcadence : ¬ "/cadence/v1/".toList <+: path.toList) :
    ∃ rest, path.toList = '/' :: rest ∧ LeftAsIs rest := by
  rw [allowlisted] at h
  cases hblob : blobRoute method path with
  | some found => exact leftAsIs_blobRoute hblob
  | none =>
    rw [hblob] at h
    dsimp only at h
    rw [if_neg hcadence] at h
    split_ifs at h with hwitness hpost
    · rcases hwitness with rfl | rfl
      · exact ⟨"vmls-witness/v1/read".toList, rfl, leftAsIs_literal (by decide)⟩
      · exact ⟨"vmls-witness/v1/advance".toList, rfl, leftAsIs_literal (by decide)⟩
    · obtain ⟨rest, hrest, h⟩ := Option.bind_eq_some_iff.mp h
      refine ⟨"vmls/v1/".toList ++ rest.toList, stripPrefix?_eq_some hrest, ?_⟩
      refine (leftAsIs_literal (by decide)).append fun c hc => ?_
      rw [← @List.intercalate_splitOn _ rest.toList _ _ '/'] at hc
      rcases mem_intercalate hc with rfl | ⟨segment, hsegment, hc⟩
      · decide
      · have hleft := leftAsIs_vmlsAllowlisted h _ (List.mem_map_of_mem hsegment)
        rw [String.toList_ofList] at hleft
        exact hleft c hc

theorem LeftAsIs.not_isDot {rest : List Char} (h : LeftAsIs rest) :
    ∀ segment ∈ rest.splitOn '/', ¬ IsDot segment := by
  intro segment hsegment hdot
  have hmem : '.' ∈ segment := by rcases hdot with rfl | rfl <;> decide
  exact h '.' (mem_of_mem_splitOn hsegment '.' hmem).1 (by decide)

/-! ### What follows the cadence prefix -/

theorem stripPrefix?_of_append {start text rest : String}
    (h : text.toList = start.toList ++ rest.toList) : stripPrefix? start text = some rest := by
  have hdrop : text.toList.dropPrefix? start.toList = some rest.toList :=
    List.dropPrefix?_eq_some_iff.mpr ⟨start.toList, h, beq_self_eq_true _⟩
  rw [stripPrefix?, hdrop, Option.map_some, String.ofList_toList]

theorem splitOn_cadence (rest : List Char) :
    ("cadence/v1/".toList ++ rest).splitOn '/' =
      "cadence".toList :: "v1".toList :: rest.splitOn '/' := by
  simp [List.splitOn_cons_eq_if_modifyHead]

theorem mem_cadence {c : Char} (hc : c ∈ rewritten) (rest : List Char) :
    c ∈ "/cadence/v1/".toList ++ rest ↔ c ∈ rest := by
  have hfixed : LeftAsIs "/cadence/v1/".toList := leftAsIs_literal (by decide)
  rw [List.mem_append, or_iff_right fun hmem => hfixed c hmem hc]

def Normal (path : List Char) : Prop :=
  removeDotSegments path = path ∧ '%' ∉ path ∧ '\\' ∉ path

theorem LeftAsIs.normal {rest : List Char} (h : LeftAsIs rest) : Normal ('/' :: rest) := by
  refine ⟨(removeDotSegments_slash_iff rest).mpr h.not_isDot, fun hmem => ?_, fun hmem => ?_⟩
  · exact h '%' (List.mem_of_ne_of_mem (by decide) hmem) (by decide)
  · exact h '\\' (List.mem_of_ne_of_mem (by decide) hmem) (by decide)

/-- Nothing that follows the prefix climbs out of it or can be read in another way. -/
def Stays (rest : List Char) : Prop :=
  (∀ segment ∈ rest.splitOn '/', segment ≠ ['.'] ∧ segment ≠ ['.', '.']) ∧ '%' ∉ rest ∧ '\\' ∉ rest

instance (rest : List Char) : Decidable (Stays rest) := by
  unfold Stays
  infer_instance

theorem normal_cadence_iff (rest : List Char) :
    Normal ("/cadence/v1/".toList ++ rest) ↔ Stays rest := by
  have hslash : "/cadence/v1/".toList ++ rest = '/' :: ("cadence/v1/".toList ++ rest) := rfl
  have hdots : removeDotSegments ("/cadence/v1/".toList ++ rest) = "/cadence/v1/".toList ++ rest ↔
      ∀ segment ∈ rest.splitOn '/', segment ≠ ['.'] ∧ segment ≠ ['.', '.'] := by
    rw [hslash, removeDotSegments_slash_iff, splitOn_cadence, List.forall_mem_cons,
      List.forall_mem_cons, and_iff_right (by rintro (h | h) <;> cases h),
      and_iff_right (by rintro (h | h) <;> cases h)]
    simp only [IsDot, not_or, ne_eq]
  rw [Normal, Stays, hdots, mem_cadence (by decide), mem_cadence (by decide)]

theorem allowlisted_of_validate {request : JsonRequest} {accepted : Method × HttpRoute}
    (h : validateHttpRequest request = .ok accepted) :
    allowlisted accepted.1 request.path = some accepted.2 := by
  rw [validateHttpRequest, validateHttpRequestLength] at h
  obtain ⟨method, -, h⟩ := bind_eq_ok.mp h
  obtain ⟨-, -, h⟩ := bind_eq_ok.mp h
  cases hroute : allowlisted method request.path with
  | none =>
    rw [hroute] at h
    cases h
  | some route =>
    rw [hroute] at h
    obtain ⟨-, -, h⟩ := bind_eq_ok.mp h
    obtain ⟨-, -, h⟩ := bind_eq_ok.mp h
    obtain ⟨-, -, h⟩ := bind_eq_ok.mp h
    cases h
    exact hroute

/-- The path of a request that is taken is left as it is by a server that removes dot segments, and
has no escape or backslash, exactly if nothing after a cadence prefix can take it elsewhere. Then it
stays on its route. -/
theorem accepted_path_normal_iff {request : JsonRequest} {accepted : Method × HttpRoute}
    (h : validateHttpRequest request = .ok accepted) :
    (Normal request.path.toList ∧
        allowlisted accepted.1 (String.ofList (removeDotSegments request.path.toList)) =
          some accepted.2) ↔
      ∀ rest, stripPrefix? "/cadence/v1/" request.path = some rest → Stays rest.toList := by
  have hroute := allowlisted_of_validate h
  have hkeeps : Normal request.path.toList →
      allowlisted accepted.1 (String.ofList (removeDotSegments request.path.toList)) =
        some accepted.2 := by
    intro hnormal
    rw [hnormal.1, String.ofList_toList]
    exact hroute
  rw [and_iff_left_of_imp hkeeps]
  constructor
  · intro hnormal rest hrest
    rw [stripPrefix?_eq_some hrest] at hnormal
    exact (normal_cadence_iff _).mp hnormal
  · intro hstays
    by_cases hcadence : "/cadence/v1/".toList <+: request.path.toList
    · obtain ⟨rest, hrest⟩ := hcadence
      have hstrip : stripPrefix? "/cadence/v1/" request.path = some (String.ofList rest) :=
        stripPrefix?_of_append (hrest.symm.trans (congrArg (_ ++ ·) String.toList_ofList.symm))
      have htail := hstays _ hstrip
      rw [String.toList_ofList] at htail
      rw [← hrest]
      exact (normal_cadence_iff rest).mpr htail
    · obtain ⟨rest, hpath, hleft⟩ := leftAsIs_allowlisted hroute hcadence
      rw [hpath]
      exact hleft.normal

def statusRequest : JsonRequest where
  routeId := "r"
  method := "POST"
  path := "/cadence/v1/status"
  authorization := "Nostr YQ=="
  body := []

theorem status_path_normal : Normal statusRequest.path.toList := by
  have hstays : ∀ rest, stripPrefix? "/cadence/v1/" statusRequest.path = some rest →
      Stays rest.toList := by
    have hstrip : stripPrefix? "/cadence/v1/" statusRequest.path = some "status" := by
      decide +kernel
    intro rest hrest
    cases hstrip.symm.trans hrest
    decide +kernel
  have haccepted : validateHttpRequest statusRequest = .ok (.post, cadenceRoute) := by
    decide +kernel
  exact ((accepted_path_normal_iff haccepted).mpr hstays).1

def climbingRequest : JsonRequest where
  routeId := "r"
  method := "POST"
  path := "/cadence/v1/../../vmls/v1/ack"
  authorization := "Nostr YQ=="
  body := []

theorem climbing_path_accepted :
    validateHttpRequest climbingRequest = .ok (.post, cadenceRoute) ∧
      removeDotSegments climbingRequest.path.toList = "/vmls/v1/ack".toList ∧
      allowlisted .post "/vmls/v1/ack" = some (vmlsRoute .json maxHttpBodyBytes) ∧
      vmlsRoute .json maxHttpBodyBytes ≠ cadenceRoute := by
  refine ⟨?_, ?_, ?_, ?_⟩ <;> decide +kernel

end ForgeswornLink
