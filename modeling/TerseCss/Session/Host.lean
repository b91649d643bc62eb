-- A host: a session with the constants, the style sheet and the snapshots that go along with it,
-- and the commands that it takes one after the other.
import TerseCss.Session.Sheet

namespace TerseCss

/-- A session and what goes along with it. -/
structure Host where
  session : Session := {}
  consts : Consts := ∅
  sheet : StyleText := {}
  snapshots : OrderedMap Text Registry := ∅

namespace Host

/-- What a host can be told to do. -/
inductive Command where
  | template (source : Text)
  | cls (scope name body : Text)
  | const (name body : Text)
  | getConst (name : Text)
  | consts
  | clearConsts
  | flush
  /-- Flushes into a sink that refuses the rules which contain `part`. -/
  | flushRefusing (part reason : Text)
  | pending
  | diagnostics
  | takeDiagnostics
  | scopeSeen (scope : Text)
  | classSeen (scope name : Text)
  | reset
  | snapshot (id : Text)
  | restore (id : Text)
  | sameSnapshot (a b : Text)
  | setTheme (theme : Theme)
  | theme
  | options

/-- What a command answers. -/
inductive Answer where
  | done
  | truth (b : Bool)
  | sheet (sheet : Sheet)
  | cls (c : CompiledClass)
  | const (style : Style)
  | found (style : Option Style)
  | names (names : List Text)
  | flushed (report : FlushReport) (sheet : StyleText)
  | taken (report : FlushReport) (rules : List Text)
  | rules (rules : List Text)
  | diagnostics (list : List Diagnostic)
  | theme (theme : Theme)
  | options (options : Options)

/-- A host after a command, with its answer and the warnings on the way. -/
structure Reply where
  host : Host
  answer : Except Error Answer
  warnings : List Text := []

/-- A command that only asks. -/
def tell (h : Host) (a : Answer) : Reply := { host := h, answer := .ok a }

/-- A command that changes the session and answers nothing. -/
def change (h : Host) (s : Session) : Reply :=
  { host := { h with session := s }, answer := .ok .done }

/-- A command that is a step of the session. -/
def step {α : Type} (h : Host) (s : Step α) (answer : α → Answer) : Reply :=
  { host := { h with session := s.session }, answer := s.result.map answer, warnings := s.warnings }

/-- The snapshot under a name. A name that was never given stands for nothing declared. -/
def snapshot (h : Host) (id : Text) : Registry := h.snapshots.getD id {}

/-- Carries out a command. -/
def run (h : Host) : Command → Reply
  | .template source => h.step (h.session.compileTemplate source) .sheet
  | .cls scope name body => h.step (h.session.compileClass h.consts scope name body) .cls
  | .const name body =>
    match ConstBody.compile h.session.theme name body with
    | .error e => { host := h, answer := .error e }
    | .ok style =>
      match h.consts.add name style with
      | .error e => { host := h, answer := .error e }
      | .ok consts => { host := { h with consts }, answer := .ok (.const style) }
  | .getConst name => h.tell (.found (h.consts.get? name))
  | .consts => h.tell (.names h.consts.keys)
  | .clearConsts => { host := { h with consts := ∅ }, answer := .ok .done }
  | .flush =>
    let (session, sheet, report, warnings) := h.session.flush StyleText.sink h.sheet
    { host := { h with session, sheet }, answer := .ok (.flushed report sheet), warnings }
  | .flushRefusing part reason =>
    let (session, rules, report, warnings) := h.session.flush (Sink.refusing part reason) []
    { host := { h with session }, answer := .ok (.taken report rules), warnings }
  | .pending => h.tell (.rules h.session.pending)
  | .diagnostics => h.tell (.diagnostics h.session.diagnostics)
  | .takeDiagnostics =>
    { host := { h with session := h.session.dropDiagnostics }
      answer := .ok (.diagnostics h.session.diagnostics) }
  | .scopeSeen scope => h.tell (.truth (h.session.registry.hasScope scope))
  | .classSeen scope name => h.tell (.truth (h.session.registry.hasClass scope name))
  | .reset => h.change h.session.reset
  | .snapshot id =>
    { host := { h with snapshots := h.snapshots.insert id h.session.registry }
      answer := .ok .done }
  | .restore id => h.change (h.session.restore (h.snapshot id))
  | .sameSnapshot a b => h.tell (.truth ((h.snapshot a).same (h.snapshot b)))
  | .setTheme theme => h.change { h.session with theme }
  | .theme => h.tell (.theme h.session.theme)
  | .options => h.tell (.options h.session.options)

/-- Carries out commands one after the other. A command that fails does not stop the others. -/
def runAll (h : Host) : List Command → List Reply
  | [] => []
  | c :: cs =>
    let r := h.run c
    r :: runAll r.host cs

end Host

end TerseCss
