import Mathlib.Logic.Function.Iterate
import ForgeswornLink.Lib.WhatwgPath

/-!
# Removing dot segments

The loop of RFC 3986, section 5.2.4: a path is taken off an input buffer from the
left, a segment at a time, and put on an output buffer; a segment of one dot is left
out and one of two dots takes the last segment off the output. The two buffers
together never grow, and a dot segment makes them shorter. So an absolute path comes
out as it went in exactly if it has no dot segment.
-/

namespace DotSegments
open AsciiText
open WhatwgPath (pathText pathText_eq)

def dropSegment (output : List Char) : List Char :=
  (output.reverse.dropWhile (· ≠ '/')).tail.reverse

def turn (buffers : List Char × List Char) : List Char × List Char :=
  let (input, output) := buffers
  if "../".toList <+: input then (input.drop 3, output)
  else if "./".toList <+: input then (input.drop 2, output)
  else if "/./".toList <+: input then (input.drop 2, output)
  else if input = "/.".toList then ("/".toList, output)
  else if "/../".toList <+: input then (input.drop 3, dropSegment output)
  else if input = "/..".toList then ("/".toList, dropSegment output)
  else if input = ".".toList ∨ input = "..".toList then ([], output)
  else
    ((input.drop 1).dropWhile (· ≠ '/'),
      output ++ input.take 1 ++ (input.drop 1).takeWhile (· ≠ '/'))

/-- A turn on a non-empty input shortens it, so the length of the path is turns enough. -/
def removeDotSegments (path : List Char) : List Char := (turn^[path.length] (path, [])).2

/-! ### Lengths -/

def size (buffers : List Char × List Char) : ℕ := buffers.1.length + buffers.2.length

theorem length_dropSegment (output : List Char) : (dropSegment output).length ≤ output.length := by
  have hdrop := (List.dropWhile_suffix (l := output.reverse) (· ≠ '/')).length_le
  rw [dropSegment, List.length_reverse, List.length_tail]
  rw [List.length_reverse] at hdrop
  omega

theorem length_segment (input : List Char) :
    (input.take 1).length + ((input.drop 1).takeWhile (· ≠ '/')).length +
      ((input.drop 1).dropWhile (· ≠ '/')).length = input.length := by
  rw [Nat.add_assoc, ← List.length_append, List.takeWhile_append_dropWhile, ← List.length_append,
    List.take_append_drop]

inductive Turned (input output : List Char) : List Char × List Char → Prop
  | moved : Turned input output ((input.drop 1).dropWhile (· ≠ '/'),
      output ++ input.take 1 ++ (input.drop 1).takeWhile (· ≠ '/'))
  | shortened {rest kept : List Char} (hrest : rest.length < input.length)
      (hkept : kept.length ≤ output.length) : Turned input output (rest, kept)

theorem length_drop_of_start {start input : List Char} {n : ℕ} (h : start <+: input)
    (hn : 0 < n) (hstart : 0 < start.length) : (input.drop n).length < input.length := by
  have hlength := h.length_le
  rw [List.length_drop]
  omega

theorem turned_turn (input output : List Char) : Turned input output (turn (input, output)) := by
  have hdropped := length_dropSegment output
  unfold turn
  dsimp only
  split_ifs with h₁ h₂ h₃ h₄ h₅ h₆ h₇
  · exact .shortened (length_drop_of_start h₁ (by decide) (by decide)) le_rfl
  · exact .shortened (length_drop_of_start h₂ (by decide) (by decide)) le_rfl
  · exact .shortened (length_drop_of_start h₃ (by decide) (by decide)) le_rfl
  · rw [h₄]
    exact .shortened (by decide) le_rfl
  · exact .shortened (length_drop_of_start h₅ (by decide) (by decide)) hdropped
  · rw [h₆]
    exact .shortened (by decide) hdropped
  · refine .shortened ?_ le_rfl
    rcases h₇ with rfl | rfl <;> decide
  · exact .moved

theorem size_turn_le (buffers : List Char × List Char) : size (turn buffers) ≤ size buffers := by
  obtain ⟨input, output⟩ := buffers
  have hturned := turned_turn input output
  generalize turn (input, output) = next at hturned
  cases hturned with
  | moved =>
    have hsegment := length_segment input
    simp only [size, List.length_append]
    omega
  | shortened hrest hkept =>
    simp only [size]
    omega

theorem input_turn_lt {input : List Char} (h : input ≠ []) (output : List Char) :
    (turn (input, output)).1.length < input.length := by
  have hturned := turned_turn input output
  generalize turn (input, output) = next at hturned
  cases hturned with
  | moved =>
    have hsegment := length_segment input
    have hfirst : 0 < (input.take 1).length := by
      rw [List.length_take]
      exact lt_min Nat.one_pos (List.length_pos_of_ne_nil h)
    dsimp only
    omega
  | shortened hrest hkept => exact hrest

theorem turn_nil (output : List Char) : turn ([], output) = ([], output) := by
  have hsame : turn ([], output) = ([], output ++ [] ++ []) := rfl
  rw [hsame, List.append_nil, List.append_nil]

theorem iterate_turn_nil (n : ℕ) (output : List Char) : turn^[n] ([], output) = ([], output) :=
  Function.iterate_fixed (turn_nil output) n

theorem size_iterate_le (n : ℕ) (buffers : List Char × List Char) :
    size (turn^[n] buffers) ≤ size buffers := by
  induction n generalizing buffers with
  | zero => exact le_rfl
  | succ n ih => exact (ih (turn buffers)).trans (size_turn_le buffers)

theorem input_iterate {n : ℕ} {input : List Char} (h : input.length ≤ n) (output : List Char) :
    (turn^[n] (input, output)).1 = [] := by
  induction n generalizing input output with
  | zero => exact List.length_eq_zero_iff.mp (Nat.le_zero.mp h)
  | succ n ih =>
    rw [Function.iterate_succ_apply]
    by_cases hinput : input = []
    · rw [hinput, turn_nil, iterate_turn_nil]
    · have hlt := input_turn_lt hinput output
      exact @ih (turn (input, output)).1 (by omega) (turn (input, output)).2

/-! ### Segments -/

def Follows (rest : List Char) : Prop := rest = [] ∨ ∃ tail, rest = '/' :: tail

theorem follows_pathText (segments : List (List Char)) : Follows (pathText segments) := by
  cases segments with
  | nil => exact Or.inl rfl
  | cons segment segments => exact Or.inr ⟨segment ++ pathText segments, rfl⟩

def IsDot (segment : List Char) : Prop := segment = ['.'] ∨ segment = ['.', '.']

theorem turn_slash (rest output : List Char) :
    turn ('/' :: rest, output) =
      if "./".toList <+: rest then (rest.drop 1, output)
      else if rest = ".".toList then ("/".toList, output)
      else if "../".toList <+: rest then (rest.drop 2, dropSegment output)
      else if rest = "..".toList then ("/".toList, dropSegment output)
      else (rest.dropWhile (· ≠ '/'), output ++ '/' :: rest.takeWhile (· ≠ '/')) := by
  unfold turn
  simp


section Segment
variable {segment rest : List Char} (hslash : '/' ∉ segment) (hrest : Follows rest)
include hslash hrest

theorem takeWhile_segment : (segment ++ rest).takeWhile (· ≠ '/') = segment := by
  have hall : ∀ c ∈ segment, decide (c ≠ '/') = true := fun c hc =>
    decide_eq_true fun heq => hslash (heq ▸ hc)
  rw [List.takeWhile_append_of_pos hall]
  rcases hrest with rfl | ⟨tail, rfl⟩ <;> simp

theorem dropWhile_segment : (segment ++ rest).dropWhile (· ≠ '/') = rest := by
  have hall : ∀ c ∈ segment, decide (c ≠ '/') = true := fun c hc =>
    decide_eq_true fun heq => hslash (heq ▸ hc)
  rw [List.dropWhile_append_of_pos hall]
  rcases hrest with rfl | ⟨tail, rfl⟩ <;> simp

theorem eq_of_start {start : List Char} (hstart : '/' ∉ start)
    (h : start ++ ['/'] <+: segment ++ rest) : segment = start := by
  obtain ⟨tail, htail⟩ := h
  rw [List.append_assoc, List.singleton_append] at htail
  rw [← takeWhile_segment hslash hrest, ← htail]
  exact takeWhile_segment hstart (Or.inr ⟨tail, rfl⟩)

theorem eq_of_eq {start : List Char} (hstart : '/' ∉ start) (h : segment ++ rest = start) :
    segment = start := by
  rw [← takeWhile_segment hslash hrest, h]
  simpa using takeWhile_segment hstart (Or.inl rfl)

theorem turn_plain (hplain : ¬ IsDot segment) (output : List Char) :
    turn ('/' :: segment ++ rest, output) = (rest, output ++ '/' :: segment) := by
  have hone : segment ≠ ['.'] := fun h => hplain (Or.inl h)
  have htwo : segment ≠ ['.', '.'] := fun h => hplain (Or.inr h)
  have hone_slash : ¬ "./".toList <+: segment ++ rest := fun h =>
    hone (eq_of_start hslash hrest (by decide) h)
  have htwo_slash : ¬ "../".toList <+: segment ++ rest := fun h =>
    htwo (eq_of_start hslash hrest (by decide) h)
  have hone_end : segment ++ rest ≠ ".".toList :=
    fun h => hone (eq_of_eq hslash hrest (by decide) h)
  have htwo_end : segment ++ rest ≠ "..".toList :=
    fun h => htwo (eq_of_eq hslash hrest (by decide) h)
  rw [List.cons_append, turn_slash, if_neg hone_slash, if_neg hone_end, if_neg htwo_slash,
    if_neg htwo_end, takeWhile_segment hslash hrest, dropWhile_segment hslash hrest]

end Segment

theorem size_turn_dot {segment rest : List Char} (hdot : IsDot segment) (hrest : Follows rest)
    (output : List Char) :
    size (turn ('/' :: segment ++ rest, output)) < size ('/' :: segment ++ rest, output) := by
  have hdropped := length_dropSegment output
  rw [List.cons_append, turn_slash]
  rcases hdot with rfl | rfl <;> rcases hrest with rfl | ⟨tail, rfl⟩ <;> simp [size] <;> omega

/-! ### Whole paths -/

theorem pathText_cons (segment : List Char) (segments : List (List Char)) :
    pathText (segment :: segments) = '/' :: segment ++ pathText segments := rfl

theorem iterate_plain {segments : List (List Char)} (hslash : ∀ segment ∈ segments, '/' ∉ segment)
    (hplain : ∀ segment ∈ segments, ¬ IsDot segment) {rest : List Char} (hrest : Follows rest)
    (output : List Char) :
    turn^[segments.length] (pathText segments ++ rest, output) =
      (rest, output ++ pathText segments) := by
  induction segments generalizing output with
  | nil => simp [pathText]
  | cons segment segments ih =>
    have hfollows : Follows (pathText segments ++ rest) := by
      rcases follows_pathText segments with h | ⟨tail, h⟩
      · rwa [h, List.nil_append]
      · exact Or.inr ⟨tail ++ rest, by rw [h, List.cons_append]⟩
    rw [List.length_cons, Function.iterate_succ_apply, pathText_cons, List.append_assoc,
      turn_plain (hslash segment (.head _)) hfollows (hplain segment (.head _)),
      ih (fun s hs => hslash s (.tail _ hs)) (fun s hs => hplain s (.tail _ hs)), List.append_assoc]

theorem length_le_pathText (segments : List (List Char)) :
    segments.length ≤ (pathText segments).length := by
  induction segments with
  | nil => exact le_rfl
  | cons segment segments ih =>
    rw [pathText_cons, List.length_append, List.length_cons, List.length_cons]
    omega

theorem removeDotSegments_of_plain {segments : List (List Char)}
    (hslash : ∀ segment ∈ segments, '/' ∉ segment)
    (hplain : ∀ segment ∈ segments, ¬ IsDot segment) :
    removeDotSegments (pathText segments) = pathText segments := by
  have hturns := iterate_plain hslash hplain (Or.inl rfl) []
  rw [List.append_nil, List.nil_append] at hturns
  rw [removeDotSegments, ← Nat.sub_add_cancel (length_le_pathText segments),
    Function.iterate_add_apply, hturns, iterate_turn_nil]

theorem length_removeDotSegments_lt {before after : List (List Char)} {dot : List Char}
    (hslash : ∀ segment ∈ before, '/' ∉ segment) (hplain : ∀ segment ∈ before, ¬ IsDot segment)
    (hdot : IsDot dot) :
    (removeDotSegments (pathText (before ++ dot :: after))).length <
      (pathText (before ++ dot :: after)).length := by
  set path := pathText (before ++ dot :: after) with hpath
  have hsplit : path = pathText before ++ ('/' :: dot ++ pathText after) := by
    rw [hpath, pathText, List.flatMap_append]
    rfl
  have hturns := iterate_plain hslash hplain
    (show Follows ('/' :: dot ++ pathText after) from Or.inr ⟨_, rfl⟩) []
  rw [List.nil_append, ← hsplit] at hturns
  have hbefore := length_le_pathText before
  have hlength : before.length + 1 ≤ path.length := by
    rw [hsplit, List.length_append, List.length_append, List.length_cons]
    omega
  have hend := input_iterate (le_refl path.length) []
  have hshort := size_turn_dot hdot (follows_pathText after) (pathText before)
  have hsize : size ('/' :: dot ++ pathText after, pathText before) = path.length := by
    rw [hsplit, List.length_append, Nat.add_comm, size]
  obtain ⟨turns, hturns_eq⟩ := Nat.exists_eq_add_of_le' hlength
  have hrun : size (turn^[path.length] (path, [])) < path.length := by
    have hat : turn^[path.length] (path, []) =
        turn^[turns] (turn ('/' :: dot ++ pathText after, pathText before)) := by
      rw [hturns_eq, Function.iterate_add_apply, Function.iterate_succ_apply', hturns]
    rw [hat]
    exact (size_iterate_le _ _).trans_lt (hshort.trans_eq hsize)
  rw [size, hend] at hrun
  rw [removeDotSegments]
  simpa using hrun

theorem exists_first_dot {segments : List (List Char)} (h : ∃ segment ∈ segments, IsDot segment) :
    ∃ before dot after, segments = before ++ dot :: after ∧ IsDot dot ∧
      ∀ segment ∈ before, ¬ IsDot segment := by
  induction segments with
  | nil => simp at h
  | cons segment segments ih =>
    by_cases hdot : IsDot segment
    · exact ⟨[], segment, segments, rfl, hdot, by simp⟩
    · obtain ⟨found, hmem, hfound⟩ := h
      rcases List.mem_cons.mp hmem with rfl | hmem
      · exact absurd hfound hdot
      obtain ⟨before, dot, after, rfl, hisDot, hbefore⟩ := ih ⟨found, hmem, hfound⟩
      refine ⟨segment :: before, dot, after, rfl, hisDot, ?_⟩
      exact List.forall_mem_cons.mpr ⟨hdot, hbefore⟩

/-- A path comes out as it went in exactly if no segment of it is a dot or two. -/
theorem removeDotSegments_eq_self_iff {segments : List (List Char)}
    (hslash : ∀ segment ∈ segments, '/' ∉ segment) :
    removeDotSegments (pathText segments) = pathText segments ↔
      ∀ segment ∈ segments, ¬ IsDot segment := by
  constructor
  · intro hsame
    by_contra hdots
    push Not at hdots
    obtain ⟨before, dot, after, rfl, hdot, hbefore⟩ := exists_first_dot hdots
    have hlt := @length_removeDotSegments_lt before after dot
      (fun s hs => hslash s (List.mem_append_left _ hs)) hbefore hdot
    rw [hsame] at hlt
    exact lt_irrefl _ hlt
  · exact removeDotSegments_of_plain hslash

theorem removeDotSegments_slash_iff (rest : List Char) :
    removeDotSegments ('/' :: rest) = '/' :: rest ↔
      ∀ segment ∈ rest.splitOn '/', ¬ IsDot segment := by
  have hpath : pathText (rest.splitOn '/') = '/' :: rest := by
    rw [pathText_eq (List.splitOn_ne_nil '/' rest), List.intercalate_splitOn]
  rw [← hpath]
  exact removeDotSegments_eq_self_iff fun segment hsegment hmem =>
    (mem_of_mem_splitOn hsegment '/' hmem).2 rfl

end DotSegments
