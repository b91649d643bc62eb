-- The lines of a style by their form: a plain declaration, or a word with a list in brackets.
import TerseCss.Error
import TerseCss.Text.Blank

namespace TerseCss

/-- A line of a style. -/
inductive Line where
  | declaration (text : Text)
  | state (p : PseudoClass) (body : Text)
  | pseudo (p : PseudoElement) (body : Text)
  | media (m : Medium) (body : Text)
deriving DecidableEq

namespace Line

/-- What a word in front of a bracket opens. -/
def opener? (word : Text) : Option (Text → Line) :=
  match PseudoClass.ofName? word with
  | some p => some (state p)
  | none =>
    match PseudoElement.ofName? word with
    | some p => some (pseudo p)
    | none =>
      if word = Medium.screen.name then some (media .screen)
      else if word = Medium.container.name then some (media .container)
      else none

/-- Reads the form of a line. A word that opens nothing is part of a plain declaration. -/
def classify (line : Text) : Except Error Line :=
  match Text.splitAtFirst? (· == '(') line with
  | none => .ok (.declaration line)
  | some (word, rest) =>
    match opener? word with
    | none => .ok (.declaration line)
    | some make =>
      match Text.dropEnd? ")" rest with
      | some body => .ok (make body)
      | none => .error (.malformed (.missingParenthesis word) line)

end Line

end TerseCss
