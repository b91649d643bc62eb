-- Writing a line into a style. A line that fails leaves behind what it wrote before the error, save
-- that a screen or container line writes all of its block or nothing.
import TerseCss.Line.Basic
import TerseCss.Line.Condition
import TerseCss.Text.Bracket

namespace TerseCss

/-- Sets the defaults of a key, or takes the key out if there are none. -/
def OrderedMap.settle {κ : Type} [DecidableEq κ] (m : OrderedMap κ Defaults) (k : κ)
    (defaults : Defaults) : OrderedMap κ Defaults :=
  if defaults.isEmpty then m.erase k else m.insert k defaults

namespace Style

/-! ## Local variables -/

/-- Declares a local variable of the class. -/
def declareLocal (env : Setting) (d : Declaration) (s : Style) : Except Error Style :=
  if env.context.inConst then .error (env.notAllowed .localVar .constBlock)
  else if env.context.inQuery then .error (env.notAllowed .localVar .queryBlock)
  else if d.important then .error (env.notAllowed .important .localDeclaration)
  else if d.value = [] then .error (env.malformed .emptyValue)
  else if d.name ∈ s.locals then .error (.duplicateLocal d.name env.line)
  else .ok { s with locals := s.locals.insert d.name (.ofRaw d.value false) }

/-! ## Groups of a style -/

/-- The group at a place. A screen or a container has none: each line of theirs starts a block. -/
def group (s : Style) : Place → Group
  | .base => { props := s.base, defaults := s.baseDefaults }
  | .state p => { props := s.states.getD p ∅, defaults := s.stateDefaults.getD p ∅ }
  | .pseudo p => { props := s.pseudos.getD p ∅, defaults := s.pseudoDefaults.getD p ∅ }
  | .media _ => { props := ∅, defaults := ∅ }

/-- The style with the group at the place. -/
def setGroup (s : Style) (g : Group) : Place → Style
  | .base => { s with base := g.props, baseDefaults := g.defaults }
  | .state p =>
    { s with
      states := s.states.insert p g.props
      stateDefaults := s.stateDefaults.insert p g.defaults }
  | .pseudo p =>
    { s with
      pseudos := s.pseudos.insert p g.props
      pseudoDefaults := s.pseudoDefaults.insert p g.defaults }
  | .media _ => s

/-- The style after a line that was written to its end and left the group at the place. Defaults
that are empty are dropped, and a runtime variable is noted. -/
def settleGroup (s : Style) (g : Group) : Place → Style
  | .base => { s.setGroup g .base with hasRuntimeVar := s.hasRuntimeVar || g.runtime }
  | .state p =>
    { s.setGroup g (.state p) with
      stateDefaults := s.stateDefaults.settle p g.defaults
      hasRuntimeVar := s.hasRuntimeVar || g.runtime }
  | .pseudo p =>
    { s.setGroup g (.pseudo p) with
      pseudoDefaults := s.pseudoDefaults.settle p g.defaults
      hasRuntimeVar := s.hasRuntimeVar || g.runtime }
  | .media _ => s

/-- Leaves at the place what was written of its group. -/
def keepGroup (s : Style) (place : Place) (a : Attempt Group) : Attempt Style :=
  match a.error? with
  | some e => .stop (s.setGroup a.state place) e
  | none => { state := s.settleGroup a.state place }

/-! ## The forms of a line -/

/-- Writes a plain declaration. -/
def addDeclaration (env : Setting) (s : Style) : Attempt Style :=
  match env.declaration env.line with
  | .error e => .stop s e
  | .ok d =>
    if d.sigil = .localVar then .ofExcept s (s.declareLocal env d)
    else s.keepGroup .base (Group.write env .base d (s.group .base))

/-- Writes the declarations of a state or a pseudo-element. -/
def addList (env : Setting) (place : Place) (name body : Text) (s : Style) : Attempt Style :=
  let raws := Text.tokens body
  if raws = [] then .stop s (env.malformed (.noProperties name))
  else s.keepGroup place (Group.writeAll env place raws (s.group place))

/-- Reads the block of a screen or container line. -/
def mediaBlock (env : Setting) (m : Medium) (body : Text) : Except Error Media := do
  let some (condition, list) := Text.splitAtFirst? (· == ',') body
    | .error (env.malformed (.noComma m))
  let condition := Text.trim condition
  if condition = [] then .error (env.malformed (.emptyCondition m))
  else
    let query ← Condition.query env m condition
    let raws := Text.tokens list
    if raws = [] then .error (env.malformed (.noProperties m.name))
    else
      let g ← (Group.writeAll env (.media m) raws { props := ∅, defaults := ∅ }).toExcept
      .ok { query, props := g.props }

/-- Adds a block at the end of its kind. -/
def pushMedia (s : Style) (block : Media) : Medium → Style
  | .screen => { s with screens := s.screens ++ [block] }
  | .container => { s with containers := s.containers ++ [block] }

/-- Writes the block of a screen or container line. -/
def addMedia (env : Setting) (m : Medium) (body : Text) (s : Style) : Attempt Style :=
  .ofExcept s ((mediaBlock env m body).map fun block => s.pushMedia block m)

/-! ## Any line -/

/-- Writes a line. Blanks around it do not count, and an empty line writes nothing. -/
def addLine (theme : Theme) (context : Context) (line : Text) (s : Style) : Attempt Style :=
  let line := Text.trim line
  if line = [] then { state := s }
  else
    let env : Setting := { line, context, theme }
    match Line.classify line with
    | .error e => .stop s e
    | .ok (.declaration _) => s.addDeclaration env
    | .ok (.state p body) => s.addList env (.state p) p.name body
    | .ok (.pseudo p body) => s.addList env (.pseudo p) p.name body
    | .ok (.media m body) => s.addMedia env m body

/-- The style that the lines write. -/
def ofLines (theme : Theme) (context : Context) (lines : List Text) : Except Error Style :=
  (Attempt.forEach (addLine theme context) lines {}).toExcept

end Style

/-- Writes a line into a style and leaves its queries alone. -/
def StyleTree.addLine (theme : Theme) (context : Context) (line : Text) (t : StyleTree) :
    Attempt StyleTree :=
  (t.toStyle.addLine theme context line).map fun style => { t with toStyle := style }

end TerseCss
