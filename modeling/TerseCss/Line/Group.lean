-- Writing declarations into one group of a style: which checks a declaration has to pass, in which
-- order, and what it leaves in the group.
import TerseCss.Abbreviation
import TerseCss.Attempt
import TerseCss.Declaration
import TerseCss.Style.Basic
import TerseCss.Theme
import TerseCss.Value.Reference

namespace TerseCss

/-- The kind of block that a line stands in. -/
structure Context where
  inConst : Bool := false
  inQuery : Bool := false
deriving DecidableEq

/-- What the declarations of a line are read against. -/
structure Setting where
  line : Text
  context : Context
  theme : Theme

namespace Setting

/-- The line is malformed. -/
def malformed (env : Setting) (problem : Problem) : Error := .malformed problem env.line

/-- The line has something that is not allowed there. -/
def notAllowed (env : Setting) (feature : Feature) (region : Region) : Error :=
  .notAllowed feature region env.line

/-- Reads a declaration of the line. -/
def declaration (env : Setting) (raw : Text) : Except Error Declaration :=
  match Declaration.parse raw with
  | .ok d => .ok d
  | .error _ => .error (env.malformed (.notADeclaration raw))

/-- A constant is mixed into classes, so its declarations may not be important. -/
def checkImportant (env : Setting) (d : Declaration) : Except Error Unit :=
  if d.important && env.context.inConst then .error (env.notAllowed .important .constBlock)
  else .ok ()

end Setting

/-- The declarations that a line writes to, with the defaults of their runtime variables. -/
structure Group where
  props : Declarations
  defaults : Defaults
  /-- Whether the line has declared a runtime variable. -/
  runtime : Bool := false

namespace Group

/-! ## Typography -/

/-- Writes one property of a typography entry. -/
def writeProperty (key : Text) (important : Bool) (entry : Text × Text) (g : Group) :
    Attempt Group :=
  if Abbreviation.isProperty entry.1 then
    { state := { g with props := g.props.insert entry.1 (.ofRaw entry.2 important) } }
  else .stop g (.invalidThemeProperty key entry.1)

/-- Writes all properties of a typography entry, up to one that is unknown. -/
def writeTypography (env : Setting) (place : Place) (d : Declaration) (g : Group) :
    Attempt Group :=
  match env.checkImportant d with
  | .error e => .stop g e
  | .ok () =>
    let key := Text.trim d.value
    match env.theme.typography? key with
    | none => .stop g (.missingThemeKey .typography key place env.line)
    | some entry => Attempt.forEach (writeProperty key d.important) entry.entries g

/-! ## Runtime variables -/

/-- What keeps runtime variables from being declared at a place, if anything does. -/
def runtimeRegion? (context : Context) (place : Place) : Option Region :=
  if context.inConst then some .constBlock
  else if context.inQuery then some .queryBlock
  else
    match place with
    | .media _ => some .media
    | _ => none

/-- Whether the group has the property with a value that is not a runtime variable. -/
def hasPlain (g : Group) (property : Text) : Bool :=
  (g.props.get? property).any fun v => !v.isRuntime

/-- Writes a property whose value is a runtime variable, and the default of the variable. -/
def writeRuntime (env : Setting) (place : Place) (d : Declaration) (property : Text) (g : Group) :
    Except Error Group :=
  match runtimeRegion? env.context place with
  | some region => .error (env.notAllowed .runtimeVar region)
  | none =>
    if Text.occursIn "--&" d.value then .error (env.notAllowed .localVar .runtimeDefault)
    else if g.hasPlain property then .error (.mixedForm d.name env.line)
    else
      .ok {
        props := g.props.insert property
          { Value.runtime (place.key d.name) with important := d.important }
        defaults := g.defaults.insert d.name d.value
        runtime := true }

/-! ## Plain declarations -/

/-- Writes a property with the value as it is written. -/
def writePlain (env : Setting) (d : Declaration) (property : Text) (g : Group) :
    Except Error Group :=
  let value := Value.ofRaw d.value d.important
  if d.name ∈ g.defaults then .error (.mixedForm d.name env.line)
  else if value.hasLocalRefs && env.context.inQuery then
    .error (env.notAllowed .localVar .queryBlock)
  else .ok { g with props := g.props.insert property value }

/-- Writes a declaration whose name is an abbreviation. -/
def writeAbbreviation (env : Setting) (place : Place) (d : Declaration) (g : Group) :
    Except Error Group :=
  match Abbreviation.property? d.name with
  | none => .error (.unknownAbbreviation d.name env.line)
  | some property =>
    if d.value = [] then .error (env.malformed (.emptyValueFor d.name))
    else
      match env.checkImportant d with
      | .error e => .error e
      | .ok () =>
        if d.sigil = .runtime then writeRuntime env place d property g
        else writePlain env d property g

/-! ## Content -/

/-- A text as a quoted string. A quote inside it gets a backslash. -/
def quotedString (t : Text) : Text :=
  "\"" ++ t.flatMap (fun c => if c = '"' then ['\\', '"'] else [c]) ++ "\""

/-- Writes the text of a pseudo-element. -/
def writeContent (env : Setting) (d : Declaration) (g : Group) : Except Error Group :=
  if d.value = [] then .error (env.malformed .emptyContent)
  else
    match env.checkImportant d with
    | .error e => .error e
    | .ok () =>
      .ok { g with
        props := g.props.insert "content"
          { Value.ofText (quotedString d.value) with important := d.important } }

/-! ## Any declaration -/

/-- Whether the declaration is the text of a pseudo-element. -/
def isContent (place : Place) (d : Declaration) : Bool :=
  match place with
  | .pseudo _ => d.name == Abbreviation.contentName && d.sigil == .plain
  | _ => false

/-- Writes a declaration. -/
def write (env : Setting) (place : Place) (d : Declaration) (g : Group) : Attempt Group :=
  if isContent place d then .ofExcept g (writeContent env d g)
  else if d.sigil = .localVar then .stop g (env.malformed .localNotAlone)
  else if d.name = Abbreviation.typographyName ∧ d.sigil = .plain then
    if d.value = [] then .stop g (env.malformed (.emptyValueFor d.name))
    else writeTypography env place d g
  else .ofExcept g (writeAbbreviation env place d g)

/-- Reads and writes a declaration. -/
def writeRaw (env : Setting) (place : Place) (raw : Text) (g : Group) : Attempt Group :=
  match env.declaration raw with
  | .error e => .stop g e
  | .ok d => write env place d g

/-- Writes the declarations of a list one after the other. -/
def writeAll (env : Setting) (place : Place) (raws : List Text) (g : Group) : Attempt Group :=
  Attempt.forEach (writeRaw env place) raws g

end Group

end TerseCss
