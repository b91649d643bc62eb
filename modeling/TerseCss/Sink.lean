-- Sinks: where finished rules go. A sink may refuse a rule, and it may keep a state.
import TerseCss.Text.Basic

namespace TerseCss

/-- Takes a rule, or gives the reason why it refuses it. The state moves on either way. -/
abbrev Sink (σ : Type) := Text → σ → σ × Except Text Unit

/-- How many rules a sink took and how many it refused. -/
structure FlushReport where
  inserted : Nat := 0
  rejected : Nat := 0
deriving DecidableEq

/-- Offers the rules to a sink one after the other. Gives the state of the sink, the counts, and a
warning for each rule that it refuses. -/
def Sink.offer {σ : Type} (sink : Sink σ) : List Text → σ → σ × FlushReport × List Text
  | [], s => (s, {}, [])
  | rule :: rules, s =>
    let (next, answer) := sink rule s
    let (last, report, warnings) := Sink.offer sink rules next
    match answer with
    | .ok () => (last, { report with inserted := report.inserted + 1 }, warnings)
    | .error reason =>
      (last, { report with rejected := report.rejected + 1 },
        ("rule rejected by sink: " ++ reason ++ ": " ++ rule) :: warnings)

/-! ## Sinks of the library -/

/-- The text of a style sheet, rule after rule. -/
structure StyleText where
  css : Text := []
  rules : Nat := 0
deriving DecidableEq

namespace StyleText

/-- Takes every rule. -/
def sink : Sink StyleText := fun rule s => ({ css := s.css ++ rule, rules := s.rules + 1 }, .ok ())

/-- Whether no rule was taken. -/
def isEmpty (s : StyleText) : Bool := s.rules == 0

/-- The style sheet as an element of a page. -/
def tag (s : StyleText) (attr : Text) : Text :=
  "<style data-" ++ attr ++ "=\"ssr\">" ++ s.css ++ "</style>"

end StyleText

/-- Refuses the rules that contain `part` and keeps the others. -/
def Sink.refusing (part reason : Text) : Sink (List Text) := fun rule taken =>
  if Text.occursIn part rule then (taken, .error reason) else (taken ++ [rule], .ok ())

end TerseCss
