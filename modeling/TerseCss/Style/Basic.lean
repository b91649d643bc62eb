-- Styles: the declarations of a class by the place where they apply, the variables that they use,
-- and the styles that are nested under the class.
import TerseCss.OrderedMap
import TerseCss.Pseudo
import TerseCss.Value.Basic

namespace TerseCss

/-- Properties with their values. -/
abbrev Declarations := OrderedMap Text Value

/-- Abbreviations that were declared as runtime variables, with their default values as written. -/
abbrev Defaults := OrderedMap Text Text

/-- Declarations that apply under a condition. -/
structure Media where
  query : Text
  props : Declarations
deriving DecidableEq

/-- The declarations of one class, or of one block that is nested in it. -/
structure Style where
  base : Declarations := ∅
  states : OrderedMap PseudoClass Declarations := ∅
  screens : List Media := []
  containers : List Media := []
  pseudos : OrderedMap PseudoElement Declarations := ∅
  baseDefaults : Defaults := ∅
  stateDefaults : OrderedMap PseudoClass Defaults := ∅
  pseudoDefaults : OrderedMap PseudoElement Defaults := ∅
  /-- The local variables of the class. -/
  locals : OrderedMap Text Value := ∅
  /-- The custom properties that stand at the root of the page. -/
  rootVars : OrderedMap Text Text := ∅
  hasRuntimeVar : Bool := false
deriving DecidableEq

/-- A style with the styles of the descendants that it selects. -/
structure StyleTree extends Style where
  queries : List (Text × StyleTree) := []

instance : Inhabited StyleTree := ⟨{ }⟩

namespace Style

/-- The style without queries. -/
def toTree (s : Style) : StyleTree := { s with }

/-- All groups of declarations, in the order in which they are resolved. -/
def groups (s : Style) : List Declarations :=
  s.base :: (s.states.values ++ s.pseudos.values ++ s.screens.map Media.props ++
    s.containers.map Media.props)

/-- What the base shows for a property. -/
def baseValue? (s : Style) (property : Text) : Option Text :=
  (s.base.get? property).map Value.render

/-- What a state shows for a property. -/
def stateValue? (s : Style) (state : PseudoClass) (property : Text) : Option Text :=
  ((s.states.get? state).bind fun props => props.get? property).map Value.render

end Style

/-- Whether the style holds nothing that could be written. A nested style counts as something,
whatever it holds. -/
def StyleTree.isEmpty (t : StyleTree) : Bool :=
  t.base.isEmpty && t.states.values.all OrderedMap.isEmpty && t.screens.isEmpty &&
    t.containers.isEmpty && t.pseudos.values.all OrderedMap.isEmpty && t.locals.isEmpty &&
    t.rootVars.isEmpty && t.queries.isEmpty

end TerseCss
