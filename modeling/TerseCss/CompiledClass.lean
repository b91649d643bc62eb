-- Compiling one class. The result depends on the class alone, and not on what was compiled before.
import TerseCss.ClassBody
import TerseCss.ConstBody
import TerseCss.Style.Merge
import TerseCss.Style.Resolve
import TerseCss.Style.Rules

namespace TerseCss

namespace ClassBody

/-- The selector and the style of a query block. -/
def compileQuery (theme : Theme) (q : QueryBlock) : Except Error (Text × StyleTree) := do
  return (q.selector, (← Style.ofLines theme { inQuery := true } q.lines).toTree)

/-- The style of a class: its own lines, its queries, and the constants that it uses. -/
def compile (theme : Theme) (consts : Consts) (b : ClassBody) : Except Error StyleTree := do
  let own ← Style.ofLines theme {} b.lines
  let queries ← b.queries.mapM (compileQuery theme)
  let used ← consts.select b.uses
  return StyleTree.merge { own with queries } used

end ClassBody

/-- A class with its name in the style sheet. -/
structure CompiledClass where
  display : Text
  style : StyleTree
  /-- The custom property of each runtime variable. -/
  runtimeVars : OrderedMap Text Text

namespace CompiledClass

/-- The rules of the class. -/
def rules (c : CompiledClass) : List Text := c.style.rules c.display

/-- The rules of the class as one text. -/
def css (c : CompiledClass) : Text := c.rules.flatten

/-- Compiles the class `cls` of a scope. -/
def ofBody (theme : Theme) (seed : UInt32) (consts : Consts) (scope cls body : Text) :
    Except Error CompiledClass := do
  let style ← (← ClassBody.parse body).compile theme consts
  let display := Name.display seed scope cls
  let (style, runtimeVars) ← style.finalize display cls
  return { display, style, runtimeVars }

end CompiledClass

end TerseCss
