import Mathlib.Data.List.Basic
import Mathlib.Data.List.Forall2

/-!
# Frames on a stream that arrives in pieces

A stream is delivered in pieces that need not respect anything its writer meant.
A reader that takes exact amounts sees through them. It reads frames: a header of
a fixed length, which announces the length of a body, then the body. It goes round
until a read comes up short, a header announces a length it does not take or a
body does not parse.
-/

namespace FramedStream

universe u v
variable {α : Type u} {β : Type v}

def readExact : List (List α) → ℕ → Option (List α × List (List α))
  | pieces, 0 => some ([], pieces)
  | [], _ + 1 => none
  | piece :: pieces, n + 1 =>
    if n + 1 ≤ piece.length then some (piece.take (n + 1), piece.drop (n + 1) :: pieces)
    else (readExact pieces (n + 1 - piece.length)).map fun r => (piece ++ r.1, r.2)

theorem readExact_spec {pieces rest : List (List α)} {n : ℕ} {xs : List α}
    (h : readExact pieces n = some (xs, rest)) :
    xs.length = n ∧ pieces.flatten = xs ++ rest.flatten := by
  induction pieces generalizing n xs with
  | nil =>
    cases n with
    | zero =>
      cases h
      exact ⟨rfl, rfl⟩
    | succ n => cases h
  | cons piece pieces ih =>
    cases n with
    | zero =>
      cases h
      exact ⟨rfl, rfl⟩
    | succ n =>
      rw [readExact] at h
      split_ifs at h with henough
      · cases h
        refine ⟨List.length_take_of_le henough, ?_⟩
        rw [List.flatten_cons, List.flatten_cons, ← List.append_assoc, List.take_append_drop]
      · obtain ⟨⟨ys, rest'⟩, hread, heq⟩ := Option.map_eq_some_iff.mp h
        cases heq
        obtain ⟨hlength, hflatten⟩ := ih hread
        refine ⟨?_, by rw [List.flatten_cons, hflatten, List.append_assoc]⟩
        rw [List.length_append, hlength]
        omega

theorem readExact_of_le {pieces : List (List α)} {n : ℕ} (h : n ≤ pieces.flatten.length) :
    ∃ xs rest, readExact pieces n = some (xs, rest) := by
  induction pieces generalizing n with
  | nil =>
    obtain rfl := Nat.le_zero.mp h
    exact ⟨[], [], rfl⟩
  | cons piece pieces ih =>
    cases n with
    | zero => exact ⟨[], piece :: pieces, rfl⟩
    | succ n =>
      rw [readExact]
      split_ifs with henough
      · exact ⟨_, _, rfl⟩
      · rw [List.flatten_cons, List.length_append] at h
        obtain ⟨xs, rest, hread⟩ := ih (n := n + 1 - piece.length) (by omega)
        exact ⟨piece ++ xs, rest, by rw [hread]; rfl⟩

theorem readExact_append {pieces : List (List α)} {xs ys : List α} (h : pieces.flatten = xs ++ ys) :
    ∃ rest, readExact pieces xs.length = some (xs, rest) ∧ rest.flatten = ys := by
  obtain ⟨xs', rest, hread⟩ := @readExact_of_le _ pieces xs.length
    (by rw [h, List.length_append]; omega)
  obtain ⟨hlength, hflatten⟩ := readExact_spec hread
  obtain ⟨rfl, hrest⟩ := List.append_inj (h.symm.trans hflatten) hlength.symm
  exact ⟨rest, hread, hrest.symm⟩

structure Framing (α : Type u) (β : Type v) where
  headLen : ℕ
  headLen_pos : 0 < headLen
  -- The length a header announces, unless the reader stops at it.
  bodyLen : List α → Option ℕ
  parse : List α → Option β

namespace Framing
variable (F : Framing α β)

def readFrame (pieces : List (List α)) : Option (β × List (List α)) :=
  (readExact pieces F.headLen).bind fun head =>
    (F.bodyLen head.1).bind fun len =>
      (readExact head.2 len).bind fun body =>
        (F.parse body.1).map fun m => (m, body.2)

def IsFrame (bytes : List α) (m : β) : Prop :=
  ∃ header body, bytes = header ++ body ∧ header.length = F.headLen ∧
    F.bodyLen header = some body.length ∧ F.parse body = some m

variable {F}

theorem readFrame_shorter {pieces rest : List (List α)} {m : β}
    (h : F.readFrame pieces = some (m, rest)) : rest.flatten.length < pieces.flatten.length := by
  obtain ⟨⟨header, afterHead⟩, hhead, h⟩ := Option.bind_eq_some_iff.mp h
  obtain ⟨len, -, h⟩ := Option.bind_eq_some_iff.mp h
  obtain ⟨⟨body, afterBody⟩, hbody, h⟩ := Option.bind_eq_some_iff.mp h
  obtain ⟨m', -, heq⟩ := Option.map_eq_some_iff.mp h
  cases heq
  obtain ⟨hheader, hpieces⟩ := readExact_spec hhead
  obtain ⟨-, hafter⟩ := readExact_spec hbody
  dsimp only at hafter ⊢
  have hpos := F.headLen_pos
  rw [hpieces, hafter, List.length_append, List.length_append]
  omega

variable (F) in
def readAll (pieces : List (List α)) : List β :=
  match _hread : F.readFrame pieces with
  | none => []
  | some (m, rest) => m :: readAll rest
termination_by pieces.flatten.length
decreasing_by exact readFrame_shorter _hread

theorem readAll_of_none {pieces : List (List α)} (h : F.readFrame pieces = none) :
    F.readAll pieces = [] := by
  rw [readAll]
  split
  · rfl
  · next heq => cases h.symm.trans heq

theorem readAll_of_some {pieces rest : List (List α)} {m : β}
    (h : F.readFrame pieces = some (m, rest)) : F.readAll pieces = m :: F.readAll rest := by
  rw [readAll]
  split
  · next heq => cases h.symm.trans heq
  · next heq =>
    cases h.symm.trans heq
    rfl

theorem readFrame_append {bytes ys : List α} {m : β} (hframe : F.IsFrame bytes m)
    {pieces : List (List α)} (h : pieces.flatten = bytes ++ ys) :
    ∃ rest, F.readFrame pieces = some (m, rest) ∧ rest.flatten = ys := by
  obtain ⟨header, body, rfl, hheader, hbody, hparse⟩ := hframe
  rw [List.append_assoc] at h
  obtain ⟨afterHead, hhead, hafter⟩ := readExact_append h
  obtain ⟨rest, hread, hrest⟩ := readExact_append hafter
  rw [hheader] at hhead
  refine ⟨rest, ?_, hrest⟩
  rw [readFrame, hhead, Option.bind_some, hbody, Option.bind_some, hread, Option.bind_some, hparse]
  rfl

theorem readFrame_of_short {pieces : List (List α)} (h : pieces.flatten.length < F.headLen) :
    F.readFrame pieces = none := by
  rw [readFrame, Option.bind_eq_none_iff]
  rintro ⟨header, rest⟩ hread
  obtain ⟨hlength, hflatten⟩ := readExact_spec hread
  rw [hflatten, List.length_append] at h
  omega

theorem readAll_frames {frames : List (List α)} {ms : List β}
    (h : List.Forall₂ F.IsFrame frames ms) {pieces : List (List α)}
    (hpieces : pieces.flatten = frames.flatten) : F.readAll pieces = ms := by
  induction h generalizing pieces with
  | nil =>
    refine readAll_of_none (readFrame_of_short ?_)
    rw [hpieces]
    exact F.headLen_pos
  | cons hframe _ ih =>
    obtain ⟨rest, hread, hrest⟩ := readFrame_append hframe hpieces
    rw [readAll_of_some hread, ih hrest]

end Framing

end FramedStream
