-- One declaration of the language, `name[value]`: what may stand before the name, and whether a
-- mark after the bracket makes it important.
import TerseCss.Text.Basic

namespace TerseCss

/-- What stands before the name of a declaration. -/
inductive Sigil where
  | plain
  /-- `$`: the value may be set while the page runs. -/
  | runtime
  /-- `--&`: a local variable of the class. -/
  | localVar
deriving DecidableEq

/-- The sigil as it is written. -/
def Sigil.source : Sigil → Text
  | .plain => []
  | .runtime => "$"
  | .localVar => "--&"

/-- A declaration as it is written. -/
structure Declaration where
  sigil : Sigil
  name : Text
  value : Text
  important : Bool
deriving DecidableEq

namespace Declaration

/-- Why a text is no declaration. -/
inductive Fault where
  /-- The text does not begin with a head. -/
  | noHead
  /-- No opening bracket follows the head. -/
  | noBracket
  /-- The text does not end with its bracket, or the name is none. -/
  | badShape
deriving DecidableEq

/-- The characters of a head: those of a name, `$` and `&`. -/
def isHeadChar (c : Char) : Bool := Text.isNameChar c || c == '$' || c == '&'

/-- The value and the mark at the end of what follows the opening bracket. -/
def valueOf? (rest : Text) : Option (Text × Bool) :=
  match Text.dropEnd? "]!" rest with
  | some value => some (value, true)
  | none => (Text.dropEnd? "]" rest).map fun value => (value, false)

/-- The sigil and the name of a head. -/
def sigilOf (head : Text) : Sigil × Text :=
  match Text.dropStart? "--&" head with
  | some name => (.localVar, name)
  | none =>
    match Text.dropStart? "$" head with
    | some name => (.runtime, name)
    | none => (.plain, head)

/-- Reads a declaration. The whole text has to be one. -/
def parse (t : Text) : Except Fault Declaration :=
  let head := t.takeWhile isHeadChar
  if head = [] then .error .noHead
  else
    match t.dropWhile isHeadChar with
    | '[' :: rest =>
      match valueOf? rest with
      | none => .error .badShape
      | some (value, important) =>
        let (sigil, name) := sigilOf head
        if Text.isName name then .ok { sigil, name, value, important } else .error .badShape
    | _ => .error .noBracket

/-- The declaration as it is written. -/
def source (d : Declaration) : Text :=
  d.sigil.source ++ d.name ++ "[" ++ d.value ++ (if d.important then "]!" else "]" : Text)

end Declaration

end TerseCss
