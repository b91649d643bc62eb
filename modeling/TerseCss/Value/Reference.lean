-- References in a written value. `--name` stands for `var(--name)` unless it is already inside a
-- `var(`, and `--&name` is a reference to a local variable of the class.
import TerseCss.Text.Blank
import TerseCss.Value.Basic

namespace TerseCss

/-- A stretch of a written value. -/
inductive Piece where
  | literal (t : Text)
  /-- `--name` -/
  | custom (name : Text)
  /-- `--&name` -/
  | localRef (name : Text)
deriving DecidableEq

namespace Piece

/-- The piece as it is written. -/
def source : Piece → Text
  | .literal t => t
  | .custom name => "--" ++ name
  | .localRef name => "--&" ++ name

/-- The reference that opens the text, with what follows it. A name takes all name characters
that come, and a reference without a name is none. -/
def reference? : Text → Option (Piece × Text)
  | '-' :: '-' :: '&' :: rest =>
    if rest.takeWhile Text.isNameChar = [] then none
    else some (.localRef (rest.takeWhile Text.isNameChar), rest.dropWhile Text.isNameChar)
  | '-' :: '-' :: rest =>
    if rest.takeWhile Text.isNameChar = [] then none
    else some (.custom (rest.takeWhile Text.isNameChar), rest.dropWhile Text.isNameChar)
  | _ => none

theorem source_append_of_reference? {t rest : Text} {p : Piece}
    (h : reference? t = some (p, rest)) : p.source ++ rest = t := by
  unfold reference? at h
  split at h
  · split at h
    · cases h
    · cases h
      simp [source]
  · split at h
    · cases h
    · cases h
      simp [source]
  · cases h

theorem length_lt_of_reference? {t rest : Text} {p : Piece}
    (h : reference? t = some (p, rest)) : rest.length < t.length := by
  have happ := congrArg List.length (source_append_of_reference? h)
  have hp : 0 < p.source.length := by
    unfold reference? at h
    split at h
    · split at h <;> cases h
      simp [source]
    · split at h <;> cases h
      simp [source]
    · cases h
  rw [List.length_append] at happ
  omega

/-- Puts a character in front of the pieces. It joins a literal that stands there. -/
def consChar (c : Char) : List Piece → List Piece
  | .literal t :: ps => .literal (c :: t) :: ps
  | ps => .literal [c] :: ps

/-- The pieces of a written value, from the left. -/
def split : Text → List Piece
  | [] => []
  | c :: cs =>
    match _h : reference? (c :: cs) with
    | some (p, rest) => p :: split rest
    | none => consChar c (split cs)
termination_by t => t.length
decreasing_by
  · exact length_lt_of_reference? _h
  · simp

end Piece

namespace Value

/-- Whether the text ends in an open `var(`, blanks aside. -/
def opensVar (before : Text) : Bool := ("var(" : Text).isSuffixOf (Text.trimEnd before)

/-- Puts text in front of the segments. It joins text that stands there. -/
def consText (t : Text) : List Segment → List Segment
  | .text u :: ss => .text (t ++ u) :: ss
  | ss => .text t :: ss

/-- The segments that the pieces stand for, where `before` is the written value before them. -/
def segmentsAfter (before : Text) : List Piece → List Segment
  | [] => []
  | .literal t :: ps => consText t (segmentsAfter (before ++ t) ps)
  | .custom name :: ps =>
    consText (if opensVar before then "--" ++ name else "var(--" ++ name ++ ")")
      (segmentsAfter (before ++ "--" ++ name) ps)
  | .localRef name :: ps => .localRef name :: segmentsAfter (before ++ "--&" ++ name) ps

/-- The segments of a written value. There is always at least one. -/
def normalize (raw : Text) : List Segment :=
  match segmentsAfter [] (Piece.split raw) with
  | [] => [.text []]
  | ss => ss

/-- The value that is written as `raw`. -/
def ofRaw (raw : Text) (important : Bool) : Value := { segments := normalize raw, important }

/-- The written value as text, if it refers to no local variable. -/
def normalizeText? (raw : Text) : Option Text :=
  if (ofRaw raw false).hasLocalRefs then none else some (ofRaw raw false).render

end Value

end TerseCss
