-- Constants: blocks of lines that classes mix in. Their bodies hold lines only.
import TerseCss.Line.Write
import TerseCss.Source.Item

namespace TerseCss

open Source

namespace ConstBody

/-- The lines of the body of the constant `name`. -/
def parse (name body : Text) : Except Error (List Text) := do
  let lexed := lex body
  let lines ← linesOf ("@const " ++ name) lexed.lexemes
  lexed.ending.finish lines

/-- The style of the constant `name`. -/
def compile (theme : Theme) (name body : Text) : Except Error Style := do
  Style.ofLines theme { inConst := true } (← parse name body)

end ConstBody

/-- Constants by name. -/
abbrev Consts := OrderedMap Text Style

namespace Consts

/-- Adds a constant. Its name has to be new. -/
def add (consts : Consts) (name : Text) (style : Style) : Except Error Consts :=
  if name ∈ consts then .error (.duplicateConst name) else .ok (consts.insert name style)

/-- The constants that a class uses, in order. -/
def select (consts : Consts) (uses : List Text) : Except Error (List Style) :=
  uses.mapM fun name =>
    match consts.get? name with
    | some style => .ok style
    | none => .error (.unknownConst name ("@use " ++ Text.join " " uses))

end Consts

end TerseCss
