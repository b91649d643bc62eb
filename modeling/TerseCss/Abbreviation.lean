-- The abbreviations of the language and the properties they stand for. The table is closed: a name
-- that is not in it is an error wherever an abbreviation is expected.
import TerseCss.Text.Basic

namespace TerseCss.Abbreviation

/-! ## The table -/

/-- Boxes and where they stand. -/
def layout : List (Text × Text) := [
  ("d", "display"), ("pos", "position"), ("t", "top"), ("r", "right"), ("b", "bottom"),
  ("l", "left"), ("inset", "inset"), ("z", "z-index"), ("ov", "overflow"),
  ("ov-x", "overflow-x"), ("ov-y", "overflow-y"), ("vis", "visibility"), ("fl", "float"),
  ("clr", "clear"), ("box", "box-sizing"), ("ar", "aspect-ratio"), ("obj-fit", "object-fit"),
  ("obj-pos", "object-position"), ("iso", "isolation")]

/-- Widths and heights. -/
def sizing : List (Text × Text) := [
  ("w", "width"), ("h", "height"), ("min-w", "min-width"), ("max-w", "max-width"),
  ("min-h", "min-height"), ("max-h", "max-height")]

/-- Padding, margin and gaps. -/
def spacing : List (Text × Text) := [
  ("p", "padding"), ("pt", "padding-top"), ("pr", "padding-right"), ("pb", "padding-bottom"),
  ("pl", "padding-left"), ("px", "padding-inline"), ("py", "padding-block"), ("m", "margin"),
  ("mt", "margin-top"), ("mr", "margin-right"), ("mb", "margin-bottom"), ("ml", "margin-left"),
  ("mx", "margin-inline"), ("my", "margin-block"), ("gap", "gap"), ("row-gap", "row-gap"),
  ("col-gap", "column-gap")]

/-- Flexible boxes. -/
def flexbox : List (Text × Text) := [
  ("fx", "flex"), ("fx-dir", "flex-direction"), ("fx-wrap", "flex-wrap"),
  ("fx-flow", "flex-flow"), ("fx-grow", "flex-grow"), ("fx-shrink", "flex-shrink"),
  ("fx-basis", "flex-basis"), ("order", "order"), ("jc", "justify-content"),
  ("ji", "justify-items"), ("js", "justify-self"), ("ai", "align-items"),
  ("ac", "align-content"), ("as", "align-self"), ("pc", "place-content"), ("pi", "place-items"),
  ("ps", "place-self")]

/-- Grids. -/
def grid : List (Text × Text) := [
  ("gd", "grid"), ("gd-area", "grid-area"), ("gd-col", "grid-column"), ("gd-row", "grid-row"),
  ("gd-col-start", "grid-column-start"), ("gd-col-end", "grid-column-end"),
  ("gd-row-start", "grid-row-start"), ("gd-row-end", "grid-row-end"),
  ("gd-cols", "grid-template-columns"), ("gd-rows", "grid-template-rows"),
  ("gd-areas", "grid-template-areas"), ("gd-flow", "grid-auto-flow"),
  ("gd-auto-cols", "grid-auto-columns"), ("gd-auto-rows", "grid-auto-rows")]

/-- Colours and backgrounds. -/
def color : List (Text × Text) := [
  ("c", "color"), ("bg", "background-color"), ("bg-sh", "background"),
  ("bg-img", "background-image"), ("bg-size", "background-size"),
  ("bg-pos", "background-position"), ("bg-rep", "background-repeat"),
  ("bg-clip", "background-clip"), ("bg-att", "background-attachment"),
  ("bg-blend", "background-blend-mode"), ("acc", "accent-color"), ("caret", "caret-color")]

/-- Borders and outlines. -/
def border : List (Text × Text) := [
  ("bd", "border"), ("bd-t", "border-top"), ("bd-r", "border-right"), ("bd-b", "border-bottom"),
  ("bd-l", "border-left"), ("bd-w", "border-width"), ("bd-s", "border-style"),
  ("bd-c", "border-color"), ("br", "border-radius"), ("br-tl", "border-top-left-radius"),
  ("br-tr", "border-top-right-radius"), ("br-bl", "border-bottom-left-radius"),
  ("br-br", "border-bottom-right-radius"), ("bd-collapse", "border-collapse"), ("ol", "outline"),
  ("ol-off", "outline-offset")]

/-- Fonts and text. -/
def typography : List (Text × Text) := [
  ("fs", "font-size"), ("fw", "font-weight"), ("ff", "font-family"), ("fst", "font-style"),
  ("lh", "line-height"), ("ls", "letter-spacing"), ("ta", "text-align"),
  ("td", "text-decoration"), ("tt", "text-transform"), ("ti", "text-indent"),
  ("tov", "text-overflow"), ("tsh", "text-shadow"), ("ws", "white-space"), ("wb", "word-break"),
  ("ow", "overflow-wrap"), ("va", "vertical-align"), ("lst", "list-style")]

/-- Shadows, filters, transforms, transitions and animations. -/
def effects : List (Text × Text) := [
  ("op", "opacity"), ("sh", "box-shadow"), ("tf", "transform"), ("tf-o", "transform-origin"),
  ("tr", "transition"), ("an", "animation"), ("fil", "filter"), ("bf", "backdrop-filter"),
  ("mix", "mix-blend-mode")]

/-- Pointers, scrolling and selection. -/
def interaction : List (Text × Text) := [
  ("cur", "cursor"), ("pe", "pointer-events"), ("us", "user-select"), ("ap", "appearance"),
  ("rs", "resize"), ("sb", "scroll-behavior"), ("wc", "will-change")]

/-- Containers. -/
def containment : List (Text × Text) := [
  ("cq-type", "container-type"), ("cq-name", "container-name")]

/-- Fills and strokes. -/
def drawing : List (Text × Text) := [
  ("fill", "fill"), ("stroke", "stroke"), ("stroke-w", "stroke-width")]

/-- All abbreviations, each with its property. -/
def table : List (Text × Text) :=
  layout ++ sizing ++ spacing ++ flexbox ++ grid ++ color ++ border ++
    typography ++ effects ++ interaction ++ containment ++ drawing

/-! ## Looking up -/

/-- The property that an abbreviation stands for. -/
def property? (abbr : Text) : Option Text := table.lookup abbr

/-- Whether some abbreviation stands for the property. -/
def isProperty (property : Text) : Bool := table.any fun row => row.2 == property

/-- Whether the property may be asked for in the condition of a screen or container. -/
def isWidthBound (property : Text) : Bool := property == "min-width" || property == "max-width"

/-! ## Reserved names -/

/-- Writes all properties of a typography entry of the theme. -/
def typographyName : Text := "ty"

/-- Writes the text of a pseudo-element. -/
def contentName : Text := "ct"

end TerseCss.Abbreviation
