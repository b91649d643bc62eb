-- What stands between the tokens of a source: blanks and comments.
import TerseCss.Text.Blank

namespace TerseCss.Source

/-- Cuts the text after the first `*/`. -/
def splitComment? : Text → Option (Text × Text)
  | [] => none
  | '*' :: '/' :: rest => some ("*/", rest)
  | c :: cs => (splitComment? cs).map fun r => (c :: r.1, r.2)

theorem append_of_splitComment? {t body rest : Text} (h : splitComment? t = some (body, rest)) :
    body ++ rest = t := by
  fun_induction splitComment? t generalizing body with
  | case1 => cases h
  | case2 rest => cases h; rfl
  | case3 c cs _ ih =>
    obtain ⟨r, hr, he⟩ := Option.map_eq_some_iff.mp h
    cases he
    simp [ih hr]

/-- The start of a text up to its first token. -/
inductive Trivia where
  /-- Blanks and comments, and the text that follows them. -/
  | clear (gap rest : Text)
  /-- Blanks and comments, and then a comment without an end. -/
  | unterminated (gap comment : Text)
deriving DecidableEq

/-- Puts text in front of the blanks and comments. -/
def Trivia.prepend (t : Text) : Trivia → Trivia
  | .clear gap rest => .clear (t ++ gap) rest
  | .unterminated gap comment => .unterminated (t ++ gap) comment

/-- Cuts off the blanks and comments at the start of a text. -/
def spanTrivia : Text → Trivia
  | [] => .clear [] []
  | '/' :: '*' :: cs =>
    match _h : splitComment? cs with
    | some (body, rest) => (spanTrivia rest).prepend ("/*" ++ body)
    | none => .unterminated [] ('/' :: '*' :: cs)
  | c :: cs => if Text.isBlank c then (spanTrivia cs).prepend [c] else .clear [] (c :: cs)
termination_by t => t.length
decreasing_by
  · have hlen := congrArg List.length (append_of_splitComment? _h)
    simp only [List.length_append] at hlen
    simp only [List.length_cons]
    omega
  · simp

/-- The whole text that the trivia were cut from. -/
def Trivia.source : Trivia → Text
  | .clear gap rest => gap ++ rest
  | .unterminated gap comment => gap ++ comment

@[simp]
theorem Trivia.source_prepend (t : Text) (v : Trivia) : (v.prepend t).source = t ++ v.source := by
  cases v <;> simp [Trivia.prepend, Trivia.source]

/-- Nothing is lost. -/
theorem source_spanTrivia (t : Text) : (spanTrivia t).source = t := by
  fun_induction spanTrivia t with
  | case1 => rfl
  | case2 cs body rest h ih => simp [ih, append_of_splitComment? h]
  | case3 => rfl
  | case4 c cs _ _ ih => simp [ih]
  | case5 => rfl

end TerseCss.Source
