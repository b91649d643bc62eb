-- The condition of a screen or container line: written out, or an alias of the theme. Either way it
-- has to bound the width.
import TerseCss.Line.Group

namespace TerseCss

namespace Medium

/-- What the theme is asked for. -/
def themeKind : Medium → ThemeKind
  | .screen => .breakpoint
  | .container => .container

/-- The condition that an alias stands for. -/
def condition? (m : Medium) (theme : Theme) (name : Text) : Option Text :=
  match m with
  | .screen => theme.breakpoint? name
  | .container => theme.container? name

end Medium

namespace Condition

/-- The condition in full. A text with a bracket is a condition, any other an alias. -/
def expand (env : Setting) (m : Medium) (condition : Text) : Except Error Text :=
  if '[' ∈ condition then .ok condition
  else
    match m.condition? env.theme condition with
    | some full => .ok full
    | none => .error (.missingThemeKey m.themeKind condition (.media m) env.line)

/-- The property that a condition asks about. -/
def property (env : Setting) (name : Text) : Except Error Text :=
  if name = "min" then .ok "min-width"
  else if name = "max" then .ok "max-width"
  else
    match Abbreviation.property? name with
    | some property => .ok property
    | none => .error (.unknownAbbreviation name env.line)

/-- The condition as the style sheet has it. -/
def query (env : Setting) (m : Medium) (condition : Text) : Except Error Text := do
  let full ← expand env m condition
  let d ← env.declaration full
  let property ← property env d.name
  let value := Text.trim d.value
  if d.sigil = .plain ∧ d.important = false ∧ value ≠ [] ∧ Abbreviation.isWidthBound property then
    .ok ("(" ++ property ++ ":" ++ value ++ ")")
  else .error (.invalidCondition condition env.line)

end Condition

end TerseCss
