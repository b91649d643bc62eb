-- Giving a style its name: every reference becomes a custom property of the class, and the defaults
-- of the runtime variables go to the root of the page.
import TerseCss.Error
import TerseCss.Name
import TerseCss.Style.Basic
import TerseCss.Value.Reference

namespace TerseCss

/-! ## Values -/

/-- The segment with its reference as a custom property of the class. -/
def Segment.resolve (display : Text) : Segment → Text
  | .text t => t
  | .localRef name => "var(" ++ Name.customProperty name display ++ ")"
  | .runtimeRef key => "var(" ++ Name.customProperty key display ++ ")"

/-- The value with its references as custom properties of the class. A value without references
stays as it is. -/
def Value.resolve (display : Text) (v : Value) : Value :=
  if v.isSymbolic then { v with segments := [.text (v.segments.flatMap (Segment.resolve display))] }
  else v

/-! ## Styles -/

namespace Style

/-- Applies `f` to the values of all groups of declarations. -/
def mapValues (f : Value → Value) (s : Style) : Style :=
  { s with
    base := s.base.map f
    states := s.states.map (OrderedMap.map f)
    pseudos := s.pseudos.map (OrderedMap.map f)
    screens := s.screens.map fun block => { block with props := block.props.map f }
    containers := s.containers.map fun block => { block with props := block.props.map f } }

/-- The local variables that the declarations refer to, in the order of the groups. -/
def localRefs (s : Style) : List Text :=
  s.groups.flatMap fun props => props.values.flatMap Value.localRefs

/-- The keys of the runtime variables with their defaults as written: those of the base, of the
states, of the pseudo-elements. -/
def runtimeDefaults (s : Style) : List (Text × Text) :=
  let keyed (place : Place) (defaults : Defaults) :=
    defaults.entries.map fun e => (place.key e.1, e.2)
  keyed .base s.baseDefaults ++ s.stateDefaults.entries.flatMap (fun e => keyed (.state e.1) e.2) ++
    s.pseudoDefaults.entries.flatMap fun e => keyed (.pseudo e.1) e.2

/-- Puts the defaults of the runtime variables at the root. -/
def publish (display : Text) (s : Style) : Style :=
  { s with
    rootVars := s.rootVars.insertAll <| s.runtimeDefaults.map fun e =>
      (Name.customProperty e.1 display, (Value.normalizeText? e.2).getD e.2) }

/-- The custom property of each runtime variable. -/
def runtimeVars (display : Text) (s : Style) : OrderedMap Text Text :=
  .ofList (s.runtimeDefaults.map fun e => (e.1, Name.customProperty e.1 display))

end Style

namespace StyleTree

mutual

/-- Applies `f` to the values of the declarations, those of the queries included. -/
def mapValues (f : Value → Value) (t : StyleTree) : StyleTree :=
  match t with
  | { toStyle, queries } => { toStyle := toStyle.mapValues f, queries := mapQueries f queries }

/-- Applies `f` to the values of the declarations of each query. -/
def mapQueries (f : Value → Value) : List (Text × StyleTree) → List (Text × StyleTree)
  | [] => []
  | (selector, t) :: rest => (selector, mapValues f t) :: mapQueries f rest

end

mutual

/-- The local variables that the declarations refer to, those of the queries last. -/
def localRefs (t : StyleTree) : List Text :=
  match t with
  | { toStyle, queries } => toStyle.localRefs ++ queryLocalRefs queries

/-- The local variables that the queries refer to. -/
def queryLocalRefs : List (Text × StyleTree) → List Text
  | [] => []
  | (_, t) :: rest => localRefs t ++ queryLocalRefs rest

end

/-- The first local variable that is referred to and not declared. -/
def undeclared? (t : StyleTree) : Option Text :=
  (t.locals.values.flatMap Value.localRefs ++ t.localRefs).find? fun name => name ∉ t.locals

/-- The style under its display name, every reference resolved. -/
def resolve (display : Text) (t : StyleTree) : StyleTree :=
  let named := t.mapValues (Value.resolve display)
  let style := { named.toStyle with locals := named.locals.map (Value.resolve display) }
  { named with toStyle := style.publish display }

/-- Names a style for the class `cls`. Every local variable that it refers to has to be declared.
Gives the style with the custom properties of its runtime variables. -/
def finalize (display cls : Text) (t : StyleTree) :
    Except Error (StyleTree × OrderedMap Text Text) :=
  match t.undeclared? with
  | some name => .error (.undeclaredLocal name cls)
  | none => .ok (t.resolve display, t.runtimeVars display)

end StyleTree

end TerseCss
