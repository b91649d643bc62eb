-- Bracket depth, and lists of tokens that are set apart by blanks outside all brackets.
import TerseCss.Text.Blank

namespace TerseCss.Text

/-- The depth after one more character. Square and round brackets count alike, and a closing one
at depth zero changes nothing. -/
def depthAfter (depth : Nat) (c : Char) : Nat :=
  if c = '[' ∨ c = '(' then depth + 1 else if c = ']' ∨ c = ')' then depth - 1 else depth

/-- Cuts the text at its first blank outside all brackets. -/
def spanToken : Nat → Text → Text × Text
  | _, [] => ([], [])
  | depth, c :: cs =>
    if depth = 0 ∧ isBlank c then ([], c :: cs)
    else
      let r := spanToken (depthAfter depth c) cs
      (c :: r.1, r.2)

/-- The two parts make up the text. -/
theorem spanToken_append (depth : Nat) (t : Text) :
    (spanToken depth t).1 ++ (spanToken depth t).2 = t := by
  induction t generalizing depth with
  | nil => rfl
  | cons c cs ih =>
    unfold spanToken
    split
    · rfl
    · simp [ih]

/-- What follows the token is no longer than the text. -/
theorem spanToken_rest_length (depth : Nat) (t : Text) :
    (spanToken depth t).2.length ≤ t.length := by
  have happ := congrArg List.length (spanToken_append depth t)
  rw [List.length_append] at happ
  omega

/-- The tokens of a list: cut at blanks outside all brackets, empty ones dropped. -/
def tokens : Text → List Text
  | [] => []
  | c :: cs =>
    if isBlank c then tokens cs
    else
      let r := spanToken (depthAfter 0 c) cs
      (c :: r.1) :: tokens r.2
termination_by t => t.length
decreasing_by
  · simp
  · exact Nat.lt_succ_of_le (spanToken_rest_length _ cs)

end TerseCss.Text
