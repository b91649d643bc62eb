-- Mixing constants into a class. What the class declares itself wins, and of several constants the
-- first one that declares a property.
import TerseCss.Style.Basic

namespace TerseCss

variable {κ κ' ν : Type} [DecidableEq κ] [DecidableEq κ']

/-- Fills each group from the group of the same key. A group that does not stand is added, even if
it is empty. -/
def OrderedMap.fillGroups (m source : OrderedMap κ (OrderedMap κ' ν)) :
    OrderedMap κ (OrderedMap κ' ν) :=
  source.entries.foldl (fun m e => m.insert e.1 ((m.getD e.1 ∅).fill e.2)) m

namespace Style

/-- Adds what the constant declares and the style does not. Blocks with a condition, local
variables and root variables are left alone. -/
def fill (s const : Style) : Style :=
  { s with
    base := s.base.fill const.base
    baseDefaults := s.baseDefaults.fill const.baseDefaults
    states := s.states.fillGroups const.states
    stateDefaults := s.stateDefaults.fillGroups const.stateDefaults
    pseudos := s.pseudos.fillGroups const.pseudos
    pseudoDefaults := s.pseudoDefaults.fillGroups const.pseudoDefaults
    hasRuntimeVar := s.hasRuntimeVar || const.hasRuntimeVar }

/-- Mixes constants into a style. Their blocks with a condition come before its own, since later
rules win. -/
def merge (s : Style) (consts : List Style) : Style :=
  { consts.foldl fill s with
    screens := consts.flatMap Style.screens ++ s.screens
    containers := consts.flatMap Style.containers ++ s.containers }

end Style

/-- Mixes constants into a style and leaves its queries alone. -/
def StyleTree.merge (t : StyleTree) (consts : List Style) : StyleTree :=
  { t with toStyle := t.toStyle.merge consts }

end TerseCss
