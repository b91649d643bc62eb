-- Compiling a template in a session: its scope, its constants, its classes, its binds. A template
-- that fails leaves no trace in the session.
import TerseCss.Session.Basic
import TerseCss.Template

namespace TerseCss

/-- A compiled template. -/
structure Sheet where
  scope : Option Text := none
  /-- What to write for each class and each bind key. -/
  classes : OrderedMap Text Text := ∅
  css : Text := []
  /-- The runtime variables of each class that has any. -/
  runtimeVars : OrderedMap Text (OrderedMap Text Text) := ∅
deriving DecidableEq

namespace Sheet

/-- Adds a class. -/
def addClass (sheet : Sheet) (name : Text) (c : CompiledClass) : Sheet :=
  { sheet with
    classes := sheet.classes.insert name c.display
    css := sheet.css ++ c.css
    runtimeVars :=
      if c.runtimeVars.isEmpty then sheet.runtimeVars
      else sheet.runtimeVars.insert name c.runtimeVars }

/-- What to write for the classes of a bind. An earlier bind counts as a class. -/
def bound (sheet : Sheet) (bind : Bind) : Except Error (List Text) :=
  bind.classes.mapM fun cls =>
    match sheet.classes.get? cls with
    | some attr => .ok attr
    | none => .error (.unknownBindClass bind.key cls)

/-- Adds a bind. Its key has to be new. -/
def addBind (sheet : Sheet) (bind : Bind) : Except Error Sheet :=
  if bind.key ∈ sheet.classes then .error (.duplicateBind bind.key)
  else (sheet.bound bind).map fun attrs =>
    { sheet with classes := sheet.classes.insert bind.key (Text.join " " attrs) }

end Sheet

/-- The constants of a template. -/
def Template.constants (theme : Theme) (t : Template) : Except Error Consts :=
  t.consts.foldlM (fun (consts : Consts) block => do
    consts.add block.name (← ConstBody.compile theme block.name block.body)) ∅

namespace Session

/-- Declares a scope. -/
def registerScope (s : Session) (scope : Text) : Step Unit :=
  if s.registry.hasScope scope then s.report (.duplicateScope scope)
  else .ok { s with registry := s.registry.addScope scope } ()

/-- Declares the scope of a template, if it has one. -/
def registerScope? (s : Session) : Option Text → Step Unit
  | some scope => s.registerScope scope
  | none => .ok s ()

/-- Compiles the classes of a template one after the other. -/
def compileClasses (consts : Consts) (scope : Text) :
    List RawBlock → Session → Sheet → Step Sheet
  | [], s, sheet => .ok s sheet
  | block :: blocks, s, sheet =>
    (s.compileClass consts scope block.name block.body).andThen fun s c =>
      compileClasses consts scope blocks s (sheet.addClass block.name c)

/-- Compiles the parts of a template. -/
def compileParts (s : Session) (t : Template) : Step Sheet :=
  (s.registerScope? t.scope).andThen fun s _ =>
    (Step.ofExcept s (t.constants s.theme)).andThen fun s consts =>
      (compileClasses consts (t.scope.getD []) t.classes s { scope := t.scope }).andThen
        fun s sheet => .ofExcept s (t.binds.foldlM Sheet.addBind sheet)

/-- Compiles a template. -/
def compileTemplate (s : Session) (source : Text) : Step Sheet :=
  let step := (Step.ofExcept s (Template.parse source)).andThen compileParts
  match step.result with
  | .ok _ => step
  | .error _ => { step with session := step.session.rollback s }

/-- The style element of a template that is compiled on its own. -/
def renderStyleTag (source attr : Text) : Except Error Text :=
  let step := compileTemplate {} source
  step.result.map fun _ => (step.session.flush StyleText.sink {}).2.1.tag attr

end Session

end TerseCss
