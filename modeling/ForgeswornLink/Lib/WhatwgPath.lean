import Mathlib.Data.List.TakeWhile
import ForgeswornLink.Lib.AsciiText

/-!
# The path of a URL as a browser reads it

The path and query states of the WHATWG URL parser, for a URL of a special scheme
that has no fragment. A segment is percent-encoded as it is read. A segment that
is one dot is dropped and one that is two dots takes the segment before it along,
whether the dots are written or escaped. A path without escapes comes out as it
went in exactly if it has no dot segment and nothing in it is encoded.
-/

namespace WhatwgPath
open AsciiText

/-! ### Percent-encoding -/

def inC0Set (c : Char) : Bool := c.toNat < 0x20 || 0x7e < c.toNat

def inQuerySet (c : Char) : Bool := inC0Set c || [' ', '"', '#', '<', '>'].contains c

def inSpecialQuerySet (c : Char) : Bool := inQuerySet c || c == '\''

def inPathSet (c : Char) : Bool := inQuerySet c || ['?', '^', '`', '{', '}'].contains c

def upperHex (n : ℕ) : Char := (Nat.digitChar n).toUpper

def percentByte (b : UInt8) : List Char := ['%', upperHex (b.toNat / 16), upperHex (b.toNat % 16)]

def encodeChar (set : Char → Bool) (c : Char) : List Char :=
  if set c then (String.utf8EncodeChar c).flatMap percentByte else [c]

def encode (set : Char → Bool) (text : List Char) : List Char := text.flatMap (encodeChar set)

/-! ### The parser -/

def isSingleDot (segment : List Char) : Bool :=
  [".".toList, "%2e".toList].contains (segment.map Char.toLower)

def isDoubleDot (segment : List Char) : Bool :=
  ["..".toList, ".%2e".toList, "%2e.".toList, "%2e%2e".toList].contains (segment.map Char.toLower)

structure Target where
  path : List (List Char)
  query : Option (List Char)

def closeSegment (path : List (List Char)) (buffer : List Char) (slash : Bool) : List (List Char) :=
  if isDoubleDot buffer then if slash then path.dropLast else path.dropLast ++ [[]]
  else if isSingleDot buffer then if slash then path else path ++ [[]]
  else path ++ [buffer]

def queryState (text : List Char) : List Char := encode inSpecialQuerySet (text.takeWhile (· ≠ '#'))

def pathState (path : List (List Char)) (buffer : List Char) : List Char → Target
  | [] => ⟨closeSegment path buffer false, none⟩
  | c :: rest =>
    if c = '/' ∨ c = '\\' then pathState (closeSegment path buffer true) [] rest
    else if c = '?' then ⟨closeSegment path buffer false, some (queryState rest)⟩
    else if c = '#' then ⟨closeSegment path buffer false, none⟩
    else pathState path (buffer ++ encodeChar inPathSet c) rest

def pathStartState : List Char → Target
  | [] => pathState [] [] []
  | c :: rest => if c = '/' ∨ c = '\\' then pathState [] [] rest else pathState [] [] (c :: rest)

def pathText (path : List (List Char)) : List Char := path.flatMap ('/' :: ·)

def queryText : Option (List Char) → List Char
  | some query => '?' :: query
  | none => []

def Target.text (target : Target) : List Char := pathText target.path ++ queryText target.query

/-! ### Texts that are read character by character -/

def Plain (text : List Char) : Prop :=
  ∀ c ∈ text, (32 < c.toNat ∧ c.toNat < 127) ∧ c ≠ '%' ∧ c ≠ '\\' ∧ c ≠ '#'

theorem Plain.mono {text part : List Char} (h : Plain text) (hpart : ∀ c ∈ part, c ∈ text) :
    Plain part :=
  fun c hc => h c (hpart c hc)

section Encode
variable {set : Char → Bool} {c : Char} {text : List Char}

theorem encode_cons : encode set (c :: text) = encodeChar set c ++ encode set text :=
  List.flatMap_cons

theorem encodeChar_of_not (h : set c = false) : encodeChar set c = [c] := by
  rw [encodeChar, h]
  rfl

theorem encodeChar_of_ascii (h : set c = true) (hc : c.toNat < 128) :
    encodeChar set c = percentByte (UInt8.ofNat c.toNat) := by
  have hutf8 : String.utf8EncodeChar c = [UInt8.ofNat c.toNat] := if_pos (Nat.le_of_lt_succ hc)
  rw [encodeChar, h, if_pos rfl, hutf8, List.flatMap_singleton]

theorem encode_of_not (h : ∀ c ∈ text, set c = false) : encode set text = text := by
  induction text with
  | nil => rfl
  | cons c text ih =>
    rw [encode_cons, encodeChar_of_not (h c List.mem_cons_self),
      ih fun d hd => h d (List.mem_cons_of_mem _ hd)]
    rfl

theorem one_lt_length_encodeChar (h : set c = true) : 1 < (encodeChar set c).length := by
  obtain ⟨b, bs, hbs⟩ := List.exists_cons_of_ne_nil (String.utf8EncodeChar_ne_nil (c := c))
  have hlength : (percentByte b).length = 3 := rfl
  rw [encodeChar, if_pos h, hbs, List.flatMap_cons, List.length_append]
  omega

theorem length_encodeChar_pos : 0 < (encodeChar set c).length := by
  cases h : set c with
  | true => exact (one_lt_length_encodeChar h).trans' Nat.one_pos
  | false =>
    rw [encodeChar_of_not h]
    exact Nat.one_pos

theorem length_encode : text.length ≤ (encode set text).length := by
  induction text with
  | nil => exact Nat.zero_le _
  | cons c text ih =>
    have hpos : 0 < (encodeChar set c).length := length_encodeChar_pos
    rw [encode_cons, List.length_append, List.length_cons]
    omega

theorem not_of_encode_eq (h : encode set text = text) : ∀ c ∈ text, set c = false := by
  intro c hc
  by_contra hset
  obtain ⟨before, after, rfl⟩ := List.append_of_mem hc
  have hlength := congrArg List.length h
  rw [encode, List.flatMap_append, List.flatMap_cons, List.length_append, List.length_append,
    List.length_append, List.length_cons] at hlength
  have hbefore : before.length ≤ (encode set before).length := length_encode
  have hafter : after.length ≤ (encode set after).length := length_encode
  have hone : 1 < (encodeChar set c).length :=
    one_lt_length_encodeChar ((Bool.not_eq_false _).mp hset)
  rw [encode] at hbefore hafter
  omega

theorem mem_encodeChar {d : Char} (hc : c.toNat < 128) (hd : d ∈ encodeChar set c) :
    d = c ∨ d ≠ '/' ∧ d ≠ '?' := by
  cases h : set c with
  | false =>
    rw [encodeChar_of_not h] at hd
    exact Or.inl (List.mem_singleton.mp hd)
  | true =>
    have hall : ∀ n < 128, (percentByte (UInt8.ofNat n)).all (fun d => d != '/' && d != '?') =
        true := by
      decide
    rw [encodeChar_of_ascii h hc] at hd
    have hd := List.all_eq_true.mp (hall c.toNat hc) d hd
    simp only [Bool.and_eq_true, bne_iff_ne] at hd
    exact Or.inr hd

end Encode

/-! ### Segments -/

theorem pathState_chunk {chunk : List Char}
    (h : ∀ c ∈ chunk, c ≠ '/' ∧ c ≠ '\\' ∧ c ≠ '?' ∧ c ≠ '#') (path : List (List Char))
    (buffer rest : List Char) :
    pathState path buffer (chunk ++ rest) =
      pathState path (buffer ++ encode inPathSet chunk) rest := by
  induction chunk generalizing buffer with
  | nil =>
    rw [List.nil_append, encode, List.flatMap_nil, List.append_nil]
  | cons c chunk ih =>
    obtain ⟨hslash, hback, hquery, hfragment⟩ := h c List.mem_cons_self
    rw [List.cons_append, pathState, if_neg (not_or.mpr ⟨hslash, hback⟩), if_neg hquery,
      if_neg hfragment, ih fun d hd => h d (List.mem_cons_of_mem _ hd), encode_cons,
      List.append_assoc]

def closeAll (path : List (List Char)) : List (List Char) → List (List Char)
  | [] => path
  | [segment] => closeSegment path segment false
  | segment :: next :: rest => closeAll (closeSegment path segment true) (next :: rest)

theorem pathState_query (path : List (List Char)) (buffer : List Char)
    (query : Option (List Char)) :
    pathState path buffer (queryText query) =
      ⟨closeSegment path buffer false, query.map queryState⟩ := by
  cases query with
  | none => rfl
  | some query =>
    rw [queryText, pathState, if_neg (by decide), if_pos rfl]
    rfl

theorem pathState_segments {segments : List (List Char)} (hne : segments ≠ [])
    (h : ∀ segment ∈ segments, ∀ c ∈ segment, c ≠ '/' ∧ c ≠ '\\' ∧ c ≠ '?' ∧ c ≠ '#')
    (path : List (List Char)) (query : Option (List Char)) :
    pathState path [] (['/'].intercalate segments ++ queryText query) =
      ⟨closeAll path (segments.map (encode inPathSet)), query.map queryState⟩ := by
  induction segments generalizing path with
  | nil => exact absurd rfl hne
  | cons segment rest ih =>
    have hsegment := h segment List.mem_cons_self
    cases rest with
    | nil =>
      rw [List.intercalate_singleton, pathState_chunk hsegment, List.nil_append, pathState_query]
      rfl
    | cons next rest =>
      rw [List.intercalate_cons_cons, List.append_assoc, List.append_assoc,
        pathState_chunk hsegment, List.nil_append, List.singleton_append, pathState,
        if_pos (Or.inl rfl), ih (List.cons_ne_nil _ _) fun s hs => h s (List.mem_cons_of_mem _ hs)]
      rfl

def isDot (segment : List Char) : Bool := isSingleDot segment || isDoubleDot segment

theorem closeSegment_of_not_dot {segment : List Char} (h : isDot segment = false)
    (path : List (List Char)) (slash : Bool) :
    closeSegment path segment slash = path ++ [segment] := by
  rw [isDot, Bool.or_eq_false_iff] at h
  rw [closeSegment, h.1, h.2]
  rfl

theorem closeAll_of_not_dot {segments : List (List Char)} (h : ∀ s ∈ segments, isDot s = false)
    (path : List (List Char)) : closeAll path segments = path ++ segments := by
  induction segments generalizing path with
  | nil => exact (List.append_nil path).symm
  | cons segment rest ih =>
    have hsegment := h segment List.mem_cons_self
    cases rest with
    | nil => exact closeSegment_of_not_dot hsegment path false
    | cons next rest =>
      rw [closeAll, closeSegment_of_not_dot hsegment,
        ih fun s hs => h s (List.mem_cons_of_mem _ hs), List.append_assoc]
      rfl

theorem mem_closeSegment {path : List (List Char)} {segment s : List Char} {slash : Bool}
    (h : s ∈ closeSegment path segment slash) : s ∈ path ∨ s = [] ∨ s = segment ∧
      isDot segment = false := by
  rw [closeSegment] at h
  cases hdouble : isDoubleDot segment with
  | true =>
    rw [hdouble] at h
    cases slash with
    | true => exact Or.inl (List.dropLast_subset _ h)
    | false =>
      rcases List.mem_append.mp h with h | h
      · exact Or.inl (List.dropLast_subset _ h)
      · exact Or.inr (Or.inl (List.mem_singleton.mp h))
  | false =>
    rw [hdouble, if_neg Bool.false_ne_true] at h
    cases hsingle : isSingleDot segment with
    | true =>
      rw [hsingle, if_pos rfl] at h
      cases slash with
      | true => exact Or.inl h
      | false =>
        rcases List.mem_append.mp h with h | h
        · exact Or.inl h
        · exact Or.inr (Or.inl (List.mem_singleton.mp h))
    | false =>
      rw [hsingle, if_neg Bool.false_ne_true] at h
      rcases List.mem_append.mp h with h | h
      · exact Or.inl h
      · exact Or.inr (Or.inr ⟨List.mem_singleton.mp h, by rw [isDot, hsingle, hdouble]; rfl⟩)

theorem mem_closeAll {segments path : List (List Char)} {s : List Char}
    (h : s ∈ closeAll path segments) :
    s ∈ path ∨ s = [] ∨ s ∈ segments ∧ isDot s = false := by
  induction segments generalizing path with
  | nil => exact Or.inl h
  | cons segment rest ih =>
    have hclosed : ∀ slash, s ∈ closeSegment path segment slash →
        s ∈ path ∨ s = [] ∨ s ∈ segment :: rest ∧ isDot s = false := by
      intro slash hs
      rcases mem_closeSegment hs with hs | hs | ⟨rfl, hdot⟩
      · exact Or.inl hs
      · exact Or.inr (Or.inl hs)
      · exact Or.inr (Or.inr ⟨List.mem_cons_self, hdot⟩)
    cases rest with
    | nil => exact hclosed false h
    | cons next rest =>
      rcases ih h with hs | hs | ⟨hs, hdot⟩
      · exact hclosed true hs
      · exact Or.inr (Or.inl hs)
      · exact Or.inr (Or.inr ⟨List.mem_cons_of_mem _ hs, hdot⟩)

theorem closeSegment_ne_nil (path : List (List Char)) (segment : List Char) :
    closeSegment path segment false ≠ [] := by
  simp only [closeSegment, Bool.false_eq_true, if_false]
  split_ifs <;> simp

theorem closeAll_ne_nil {segments : List (List Char)} (h : segments ≠ [])
    (path : List (List Char)) :
    closeAll path segments ≠ [] := by
  induction segments generalizing path with
  | nil => exact absurd rfl h
  | cons segment rest ih =>
    cases rest with
    | nil => exact closeSegment_ne_nil path segment
    | cons next rest => exact ih (List.cons_ne_nil _ _) _

/-! ### Dots -/

def lowered (segment : List Char) : List Char := (encode inPathSet segment).map Char.toLower

theorem lowered_cons {c : Char} {segment : List Char} (h : Plain (c :: segment)) :
    lowered (c :: segment) = c.toLower :: lowered segment ∧ c.toLower ≠ '%' ∨
      ∃ x y, lowered (c :: segment) = '%' :: x :: y :: lowered segment ∧ ¬ (x = '2' ∧ y = 'e') := by
  obtain ⟨⟨-, hascii⟩, hpercent, -, -⟩ := h c List.mem_cons_self
  rw [lowered, encode_cons, List.map_append]
  cases hset : inPathSet c with
  | false =>
    rw [encodeChar_of_not hset]
    exact Or.inl ⟨rfl, fun hlower => hpercent (eq_of_toLower_eq hlower (by decide))⟩
  | true =>
    have hall : ∀ n < 127, n ≠ 46 → ¬ ((upperHex ((UInt8.ofNat n).toNat / 16)).toLower = '2' ∧
        (upperHex ((UInt8.ofNat n).toNat % 16)).toLower = 'e') := by decide
    have hdot : c.toNat ≠ 46 := by
      intro hc
      have hc : c = '.' := (Char.ofNat_toNat c).symm.trans (congrArg Char.ofNat hc)
      subst hc
      cases hset
    rw [encodeChar_of_ascii hset (by omega)]
    exact Or.inr ⟨_, _, rfl, hall c.toNat hascii hdot⟩

theorem lowered_ne_escape {segment rest : List Char} (h : Plain segment) :
    lowered segment ≠ '%' :: '2' :: 'e' :: rest := by
  cases segment with
  | nil => exact nofun
  | cons c segment =>
    intro heq
    rcases lowered_cons h with ⟨hlower, hne⟩ | ⟨x, y, hlower, hne⟩
    · rw [hlower] at heq
      exact hne (List.cons.inj heq).1
    · rw [hlower] at heq
      cases heq
      exact hne ⟨rfl, rfl⟩

theorem lowered_eq_nil {segment : List Char} (h : lowered segment = []) : segment = [] := by
  cases segment with
  | nil => rfl
  | cons c segment =>
    have hlength := congrArg List.length h
    have hle : (c :: segment).length ≤ (encode inPathSet (c :: segment)).length := length_encode
    rw [lowered, List.length_map, List.length_nil] at hlength
    rw [List.length_cons] at hle
    omega

theorem eq_of_lowered_cons {c : Char} {segment rest : List Char} (h : Plain segment)
    (hc : ¬ ('a' ≤ c ∧ c ≤ 'z')) (hpercent : c ≠ '%') (heq : lowered segment = c :: rest) :
    ∃ tail, segment = c :: tail ∧ lowered tail = rest := by
  cases segment with
  | nil => cases heq
  | cons d segment =>
    rcases lowered_cons h with ⟨hlower, -⟩ | ⟨x, y, hlower, -⟩
    · rw [hlower] at heq
      obtain ⟨hd, htail⟩ := List.cons.inj heq
      exact ⟨segment, by rw [eq_of_toLower_eq hd hc], htail⟩
    · rw [hlower] at heq
      exact absurd (List.cons.inj heq).1.symm hpercent

theorem isSingleDot_encode {segment : List Char} (h : Plain segment) :
    isSingleDot (encode inPathSet segment) = true ↔ segment = ['.'] := by
  constructor
  · intro hdot
    have hdot : lowered segment = ['.'] ∨ lowered segment = ['%', '2', 'e'] := by
      simpa [isSingleDot, lowered] using hdot
    rcases hdot with hdot | hdot
    · obtain ⟨tail, rfl, htail⟩ := eq_of_lowered_cons h (by decide) (by decide) hdot
      rw [lowered_eq_nil htail]
    · exact absurd hdot (lowered_ne_escape h)
  · rintro rfl
    decide

theorem isDoubleDot_encode {segment : List Char} (h : Plain segment) :
    isDoubleDot (encode inPathSet segment) = true ↔ segment = ['.', '.'] := by
  constructor
  · intro hdot
    have hdot : lowered segment = ['.', '.'] ∨ lowered segment = ['.', '%', '2', 'e'] ∨
        lowered segment = ['%', '2', 'e', '.'] ∨
          lowered segment = ['%', '2', 'e', '%', '2', 'e'] := by
      simpa [isDoubleDot, lowered] using hdot
    rcases hdot with hdot | hdot | hdot | hdot
    · obtain ⟨tail, rfl, htail⟩ := eq_of_lowered_cons h (by decide) (by decide) hdot
      obtain ⟨tail', rfl, htail'⟩ := eq_of_lowered_cons
        (h.mono fun c hc => List.mem_cons_of_mem _ hc) (by decide) (by decide) htail
      rw [lowered_eq_nil htail']
    · obtain ⟨tail, rfl, htail⟩ := eq_of_lowered_cons h (by decide) (by decide) hdot
      exact absurd htail (lowered_ne_escape (h.mono fun c hc => List.mem_cons_of_mem _ hc))
    · exact absurd hdot (lowered_ne_escape h)
    · exact absurd hdot (lowered_ne_escape h)
  · rintro rfl
    decide

theorem isDot_encode {segment : List Char} (h : Plain segment) :
    isDot (encode inPathSet segment) = false ↔ segment ≠ ['.'] ∧ segment ≠ ['.', '.'] := by
  rw [isDot, Bool.or_eq_false_iff, ← Bool.not_eq_true, ← Bool.not_eq_true, isSingleDot_encode h,
    isDoubleDot_encode h]

/-! ### Paths that are left alone -/

def pathPart (text : List Char) : List Char := text.takeWhile (· ≠ '?')

def queryPart (text : List Char) : List Char := (text.dropWhile (· ≠ '?')).tail

/-- No segment is a dot or two, and nothing is in the set of its part. -/
structure LeftAlone (text : List Char) : Prop where
  segments : ∀ segment ∈ (pathPart text).splitOn '/', segment ≠ ['.'] ∧ segment ≠ ['.', '.']
  path : ∀ c ∈ pathPart text, inPathSet c = false
  query : ∀ c ∈ queryPart text, inSpecialQuerySet c = false

instance (text : List Char) : Decidable (LeftAlone text) :=
  decidable_of_iff
    (((pathPart text).splitOn '/').all (fun segment => segment != ['.'] && segment != ['.', '.']) &&
      ((pathPart text).all (fun c => !inPathSet c) &&
        (queryPart text).all fun c => !inSpecialQuerySet c)) <| by
    simp only [Bool.and_eq_true, List.all_eq_true, bne_iff_ne, Bool.not_eq_true']
    exact ⟨fun h => ⟨h.1, h.2.1, h.2.2⟩, fun h => ⟨h.segments, h.path, h.query⟩⟩

theorem exists_parts (text : List Char) :
    ∃ path query, text = path ++ queryText query ∧ '?' ∉ path ∧ pathPart text = path ∧
      queryPart text = query.getD [] := by
  by_cases hmem : '?' ∈ text
  · obtain ⟨path, query, rfl, hpath⟩ := List.eq_append_cons_of_mem hmem
    have hsplit := splitOnce_append (r := query) hpath
    rw [splitOnce, if_pos hmem] at hsplit
    obtain ⟨hfirst, hsecond⟩ := Prod.mk.inj (Option.some.inj hsplit)
    exact ⟨path, some query, rfl, hpath, hfirst, hsecond⟩
  · have hall : ∀ c ∈ text, decide (c ≠ '?') = true := fun c hc =>
      decide_eq_true (ne_of_mem_of_not_mem hc hmem)
    refine ⟨text, none, (List.append_nil text).symm, hmem, List.takeWhile_eq_self_iff.mpr hall, ?_⟩
    rw [queryPart, List.dropWhile_eq_nil_iff.mpr hall]
    rfl

theorem pathText_eq {path : List (List Char)} (h : path ≠ []) :
    pathText path = '/' :: ['/'].intercalate path := by
  induction path with
  | nil => exact absurd rfl h
  | cons segment rest ih =>
    cases rest with
    | nil => simp [pathText]
    | cons next rest =>
      have hrest := ih (List.cons_ne_nil _ _)
      rw [pathText] at hrest ⊢
      rw [List.flatMap_cons, hrest, List.intercalate_cons_cons]
      simp

theorem queryText_inj {path path' : List Char} {query query' : Option (List Char)} (h : '?' ∉ path)
    (h' : '?' ∉ path') (heq : path ++ queryText query = path' ++ queryText query') :
    path = path' ∧ query = query' := by
  cases query with
  | none =>
    cases query' with
    | none =>
      rw [queryText, List.append_nil, List.append_nil] at heq
      exact ⟨heq, rfl⟩
    | some q' =>
      have heq : path = path' ++ '?' :: q' := (List.append_nil path).symm.trans heq
      exact absurd (heq ▸ List.mem_append_right _ List.mem_cons_self) h
  | some q =>
    cases query' with
    | none =>
      have heq : path ++ '?' :: q = path' := heq.trans (List.append_nil path')
      exact absurd (heq ▸ List.mem_append_right _ List.mem_cons_self) h'
    | some q' =>
      have hsplit := (splitOnce_append h).symm.trans ((congrArg _ heq).trans (splitOnce_append h'))
      cases hsplit
      exact ⟨rfl, rfl⟩

theorem mem_encode {set : Char → Bool} {text : List Char} {d : Char} (h : Plain text)
    (hd : d ∈ encode set text) : d ∈ text ∨ d ≠ '/' ∧ d ≠ '?' := by
  obtain ⟨c, hc, hd⟩ := List.mem_flatMap.mp hd
  rcases mem_encodeChar (by have := (h c hc).1.2; omega) hd with rfl | hd
  · exact Or.inl hc
  · exact Or.inr hd

section Iff
variable {path : List Char} {query : Option (List Char)}

theorem pathStartState_eq (h : Plain path) (hquestion : '?' ∉ path) (query : Option (List Char)) :
    pathStartState ('/' :: (path ++ queryText query)) =
      ⟨closeAll [] ((path.splitOn '/').map (encode inPathSet)), query.map queryState⟩ := by
  have hchars : ∀ segment ∈ path.splitOn '/', ∀ c ∈ segment,
      c ≠ '/' ∧ c ≠ '\\' ∧ c ≠ '?' ∧ c ≠ '#' := by
    intro segment hsegment c hc
    obtain ⟨hmem, hslash⟩ := mem_of_mem_splitOn hsegment c hc
    exact ⟨hslash, (h c hmem).2.2.1, ne_of_mem_of_not_mem hmem hquestion, (h c hmem).2.2.2⟩
  have hsegments := pathState_segments (List.splitOn_ne_nil '/' path) hchars [] query
  rw [List.intercalate_splitOn] at hsegments
  exact hsegments

theorem map_encode_of_leftAlone (hset : ∀ c ∈ path, inPathSet c = false) :
    (path.splitOn '/').map (encode inPathSet) = path.splitOn '/' := by
  refine (List.map_congr_left fun segment hsegment => ?_).trans (List.map_id _)
  exact encode_of_not fun c hc => hset c (mem_of_mem_splitOn hsegment c hc).1

theorem closed_clean (h : Plain path) (hquestion : '?' ∉ path) {segment : List Char}
    (hmem : segment ∈ closeAll [] ((path.splitOn '/').map (encode inPathSet))) :
    '/' ∉ segment ∧ '?' ∉ segment ∧ isDot segment = false := by
  rcases mem_closeAll hmem with hnone | rfl | ⟨hencoded, hdot⟩
  · cases hnone
  · exact ⟨nofun, nofun, rfl⟩
  · obtain ⟨raw, hraw, rfl⟩ := List.mem_map.mp hencoded
    have hplain : Plain raw := h.mono fun c hc => (mem_of_mem_splitOn hraw c hc).1
    refine ⟨fun hslash => ?_, fun hquery => ?_, hdot⟩
    · rcases mem_encode hplain hslash with hslash | ⟨hslash, -⟩
      · exact (mem_of_mem_splitOn hraw _ hslash).2 rfl
      · exact hslash rfl
    · rcases mem_encode hplain hquery with hquery | ⟨-, hquery⟩
      · exact hquestion (mem_of_mem_splitOn hraw _ hquery).1
      · exact hquery rfl

theorem leftAlone_of_closed (h : Plain path) (hquestion : '?' ∉ path)
    (heq : ['/'].intercalate (closeAll [] ((path.splitOn '/').map (encode inPathSet))) = path) :
    (∀ segment ∈ path.splitOn '/', segment ≠ ['.'] ∧ segment ≠ ['.', '.']) ∧
      ∀ c ∈ path, inPathSet c = false := by
  have hne : (path.splitOn '/').map (encode inPathSet) ≠ [] := by
    rw [ne_eq, List.map_eq_nil_iff]
    exact List.splitOn_ne_nil '/' path
  have hsegments : closeAll [] ((path.splitOn '/').map (encode inPathSet)) = path.splitOn '/' := by
    have hsplit := List.splitOn_intercalate '/' (fun s hs => (closed_clean h hquestion hs).1)
      (closeAll_ne_nil hne [])
    rw [heq] at hsplit
    exact hsplit.symm
  have hdots : ∀ segment ∈ path.splitOn '/', segment ≠ ['.'] ∧ segment ≠ ['.', '.'] := by
    intro segment hsegment
    have hdot := (closed_clean h hquestion (hsegments ▸ hsegment)).2.2
    refine ⟨?_, ?_⟩ <;> rintro rfl <;> exact absurd hdot (by decide)
  refine ⟨hdots, ?_⟩
  have hencoded : ∀ s ∈ (path.splitOn '/').map (encode inPathSet), isDot s = false := by
    intro s hs
    obtain ⟨raw, hraw, rfl⟩ := List.mem_map.mp hs
    exact (isDot_encode (h.mono fun c hc => (mem_of_mem_splitOn hraw c hc).1)).mpr (hdots raw hraw)
  rw [closeAll_of_not_dot hencoded, List.nil_append] at hsegments
  intro c hc
  rw [← @List.intercalate_splitOn _ path _ _ '/'] at hc
  rcases mem_intercalate hc with rfl | ⟨segment, hsegment, hc⟩
  · rfl
  · have hsame := List.map_inj_left.mp (hsegments.trans (List.map_id _).symm) segment hsegment
    exact not_of_encode_eq hsame c hc

end Iff

/-- A path without escapes comes out as it went in exactly if it is left alone. -/
theorem text_eq_self_iff {rest : List Char} (h : Plain ('/' :: rest)) :
    (pathStartState ('/' :: rest)).text = '/' :: rest ↔ LeftAlone ('/' :: rest) := by
  obtain ⟨path, query, rfl, hquestion, hpath, hquery⟩ := exists_parts rest
  have hpathPart : pathPart ('/' :: (path ++ queryText query)) = '/' :: path := by
    rw [pathPart, List.takeWhile_cons, if_pos (by decide)]
    exact congrArg _ hpath
  have hqueryPart : queryPart ('/' :: (path ++ queryText query)) = query.getD [] := by
    rw [queryPart, List.dropWhile_cons, if_pos (by decide)]
    exact hquery
  have hsplit : ('/' :: path).splitOn '/' = [] :: path.splitOn '/' := by
    rw [List.splitOn_cons_eq_if_modifyHead, if_pos (beq_self_eq_true _)]
  have hplain : Plain path := h.mono fun c hc => List.mem_cons_of_mem _ (List.mem_append_left _ hc)
  have hne : (path.splitOn '/').map (encode inPathSet) ≠ [] := by
    rw [ne_eq, List.map_eq_nil_iff]
    exact List.splitOn_ne_nil '/' path
  have hfragment : ∀ q, query = some q → q.takeWhile (· ≠ '#') = q := by
    rintro q rfl
    refine List.takeWhile_eq_self_iff.mpr fun c hc => decide_eq_true ?_
    exact (h c (List.mem_cons_of_mem _ (List.mem_append_right _ (List.mem_cons_of_mem _ hc)))).2.2.2
  rw [pathStartState_eq hplain hquestion, Target.text, pathText_eq (closeAll_ne_nil hne []),
    List.cons_append, List.cons.injEq, and_iff_right rfl]
  constructor
  · intro heq
    have hclean :
        '?' ∉ ['/'].intercalate (closeAll [] ((path.splitOn '/').map (encode inPathSet))) := by
      intro hmem
      rcases mem_intercalate hmem with hslash | ⟨segment, hsegment, hmem⟩
      · cases hslash
      · exact (closed_clean hplain hquestion hsegment).2.1 hmem
    obtain ⟨hpaths, hqueries⟩ := queryText_inj hclean hquestion heq
    obtain ⟨hdots, hset⟩ := leftAlone_of_closed hplain hquestion hpaths
    refine ⟨?_, ?_, ?_⟩
    · rw [hpathPart, hsplit]
      exact List.forall_mem_cons.mpr ⟨⟨nofun, nofun⟩, hdots⟩
    · rw [hpathPart]
      exact List.forall_mem_cons.mpr ⟨rfl, hset⟩
    · rw [hqueryPart]
      cases query with
      | none => exact nofun
      | some q =>
        have hsame : queryState q = q := Option.some.inj hqueries
        rw [queryState, hfragment q rfl] at hsame
        exact not_of_encode_eq hsame
  · rintro ⟨hdots, hset, hquerySet⟩
    rw [hpathPart, hsplit] at hdots
    rw [hpathPart] at hset
    rw [hqueryPart] at hquerySet
    have hmap := map_encode_of_leftAlone (List.forall_mem_cons.mp hset).2
    have hclosed : closeAll [] ((path.splitOn '/').map (encode inPathSet)) = path.splitOn '/' := by
      rw [closeAll_of_not_dot, List.nil_append, hmap]
      intro s hs
      obtain ⟨raw, hraw, rfl⟩ := List.mem_map.mp hs
      exact (isDot_encode (hplain.mono fun c hc => (mem_of_mem_splitOn hraw c hc).1)).mpr
        ((List.forall_mem_cons.mp hdots).2 raw hraw)
    have hqueries : query.map queryState = query := by
      cases query with
      | none => rfl
      | some q =>
        rw [Option.map_some, queryState, hfragment q rfl]
        exact congrArg some (encode_of_not hquerySet)
    rw [hclosed, hqueries, List.intercalate_splitOn]

end WhatwgPath
