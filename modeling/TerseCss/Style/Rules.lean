-- Writing a style as the rules of a style sheet.
import TerseCss.Name
import TerseCss.Style.Basic

namespace TerseCss

/-- The text in braces. -/
def braced (t : Text) : Text := "\x7b" ++ t ++ "\x7d"

/-- A property and its value. -/
def declared (property value : Text) : Text := property ++ ":" ++ value

/-- Declarations in a row. -/
def Declarations.written (props : Declarations) : List Text :=
  props.entries.map fun e => declared e.1 e.2.render

/-- The body of a rule. -/
def ruleBody (declarations : List Text) : Text := Text.join ";" declarations

/-- A rule, if there is anything to declare. -/
def ruleIfAny (selector : Text) (declarations : List Text) : List Text :=
  if declarations = [] then [] else [selector ++ braced (ruleBody declarations)]

/-- A rule under a condition. -/
def Media.rule (opening selector : Text) (block : Media) : Text :=
  opening ++ block.query ++
    braced (selector ++ braced (ruleBody (Declarations.written block.props)))

namespace Style

/-- The rules of a style, without those of its queries: root variables, base, states, screens,
containers, pseudo-elements. -/
def rules (selector display : Text) (s : Style) : List Text :=
  let locals := s.locals.entries.map fun e => declared (Name.customProperty e.1 display) e.2.render
  ruleIfAny ":root" (s.rootVars.entries.map fun e => declared e.1 e.2) ++
    ruleIfAny selector (locals ++ Declarations.written s.base) ++
    s.states.entries.flatMap (fun e =>
      ruleIfAny (selector ++ ":" ++ e.1.name) (Declarations.written e.2)) ++
    s.screens.map (Media.rule "@media only screen and " selector) ++
    s.containers.map (Media.rule "@container " selector) ++
    s.pseudos.entries.flatMap fun e =>
      ruleIfAny (selector ++ "::" ++ e.1.name) (Declarations.written e.2)

end Style

namespace StyleTree

mutual

/-- The rules of a style under a selector. Those of its queries come last. -/
def rulesAt (selector display : Text) (t : StyleTree) : List Text :=
  match t with
  | { toStyle, queries } => toStyle.rules selector display ++ queryRules selector display queries

/-- The rules of queries below a selector. -/
def queryRules (selector display : Text) : List (Text × StyleTree) → List Text
  | [] => []
  | (inner, t) :: rest =>
    rulesAt (selector ++ " " ++ inner) display t ++ queryRules selector display rest

end

/-- The rules of the class with the given display name. -/
def rules (display : Text) (t : StyleTree) : List Text := t.rulesAt ("." ++ display) display

/-- The rules as one text. -/
def css (display : Text) (t : StyleTree) : Text := (t.rules display).flatten

end StyleTree

end TerseCss
