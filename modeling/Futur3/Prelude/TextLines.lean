import Mathlib.Data.List.Basic

/-! # The lines of a text

What `str.splitlines` makes of a text. Lines that hold no boundary come back from
the text in which each of them ends with a line feed.
-/

namespace Futur3.Prelude

def isLineBoundary (c : Char) : Bool :=
  c.toNat ∈ [10, 11, 12, 13, 28, 29, 30, 133, 8232, 8233]

/-- `str.splitlines`, with what has been read of the line so far. -/
def splitlinesFrom (line : List Char) : List Char → List (List Char)
  | [] => if line = [] then [] else [line]
  | '\r' :: '\n' :: rest => line :: splitlinesFrom [] rest
  | c :: rest =>
    if isLineBoundary c then line :: splitlinesFrom [] rest else splitlinesFrom (line ++ [c]) rest

def splitlines (text : List Char) : List (List Char) := splitlinesFrom [] text

def joinLines (lines : List (List Char)) : List Char := lines.flatMap (· ++ ['\n'])

theorem joinLines_concat (lines : List (List Char)) (line : List Char) :
    joinLines (lines ++ [line]) = joinLines lines ++ line ++ ['\n'] := by
  simp [joinLines]

theorem splitlinesFrom_line {line : List Char} (hLine : ∀ c ∈ line, isLineBoundary c = false)
    (before rest : List Char) :
    splitlinesFrom before (line ++ '\n' :: rest) = (before ++ line) :: splitlinesFrom [] rest := by
  induction line generalizing before with
  | nil => simp [splitlinesFrom, isLineBoundary]
  | cons c line ih =>
    have hc := hLine c List.mem_cons_self
    have hReturn : c ≠ '\r' := by
      rintro rfl
      cases hc
    rw [List.cons_append, splitlinesFrom.eq_3 _ _ _ fun _ h => absurd h hReturn]
    simp [hc, ih fun d hd => hLine d (List.mem_cons_of_mem c hd)]

theorem splitlines_joinLines {lines : List (List Char)}
    (hLines : ∀ line ∈ lines, ∀ c ∈ line, isLineBoundary c = false) :
    splitlines (joinLines lines) = lines := by
  induction lines with
  | nil => rfl
  | cons line lines ih =>
    have hRest := ih fun l hl => hLines l (List.mem_cons_of_mem _ hl)
    rw [joinLines, List.flatMap_cons, List.append_assoc, List.singleton_append, splitlines,
      splitlinesFrom_line (hLines line List.mem_cons_self), List.nil_append]
    exact congrArg (line :: ·) hRest

end Futur3.Prelude
