import FlowGrid.Svg.Element
import FlowGrid.Text.Blank

/-! Style sheets: the built-in one, which is written in terms of two colors, and the
element that embeds sheets into a drawing. -/

namespace FlowGrid.Svg

/-! ### The built-in sheet -/

/-- The two colors that all others are mixed from. -/
structure Colors where
  background : String
  foreground : String

def Colors.standard : Colors := ⟨"#FFFFFF", "#27272A"⟩

/-- A selector with its declarations. -/
structure Rule where
  selector : String
  declarations : List (String × String)

def Rule.write (r : Rule) : String :=
  "\n".intercalate ((r.selector ++ " \x7b") ::
    r.declarations.map (fun (property, value) => "  " ++ property ++ ": " ++ value ++ ";") ++
    ["\x7d"])

/-- The foreground with a share of the background mixed in, by percent of the foreground. -/
def mixed (percent : Nat) : String :=
  s!"color-mix(in srgb, var(--fg) {percent}%, var(--bg))"

/-- A mixed color that a user can replace by setting a variable. -/
def mixedUnless (name : String) (percent : Nat) : String :=
  s!"var({name}, {mixed percent})"

def builtInRules (colors : Colors) : List Rule := [
  ⟨"svg", [
    ("--bg", colors.background),
    ("--fg", colors.foreground),
    ("--_line", mixedUnless "--line" 50),
    ("--_arrow", mixedUnless "--accent" 70),
    ("--_node-fill", mixedUnless "--surface" 3),
    ("--_node-stroke", mixedUnless "--border" 40),
    ("--_text-muted", mixed 60)]⟩,
  ⟨"text", [("font-family", "'Inter', system-ui, sans-serif")]⟩,
  ⟨".background", [("fill", "var(--bg)")]⟩,
  ⟨".node", [
    ("fill", "var(--_node-fill)"),
    ("stroke", "var(--_node-stroke)"),
    ("stroke-width", "1.5")]⟩,
  ⟨".node-wrapper text", [
    ("fill", "var(--fg)"),
    ("font-size", "14px"),
    ("font-weight", "500")]⟩,
  ⟨".connection .path", [
    ("fill", "none"),
    ("stroke", "var(--_line)"),
    ("stroke-width", "1.5")]⟩,
  ⟨".connection .arrowhead", [
    ("fill", "var(--_arrow)"),
    ("stroke", "none")]⟩,
  ⟨".connection text", [
    ("fill", "var(--_text-muted)"),
    ("font-size", "12px"),
    ("font-weight", "400")]⟩]

def builtInSheet (colors : Colors) : String :=
  "\n".intercalate ((builtInRules colors).map Rule.write)

/-! ### Embedding -/

/-- The sheets that are not blank, without their outer blanks, one below the other. -/
def joinSheets (sheets : List String) : String :=
  "\n".intercalate ((sheets.map Text.trim).filter fun sheet => !sheet.isEmpty)

/-- Character data that holds a text; it is marked as such when the text could be read as
markup. -/
def characterData (body : String) : String :=
  if body.toList.any fun c => c = '<' || c = '&' then "<![CDATA[\n" ++ body ++ "\n]]>" else body

/-- The element that embeds sheets, if there is anything to embed. -/
def styleElement? (sheets : List String) : Option Element :=
  let body := joinSheets sheets
  if body.isEmpty then none else some (.lines "style" [] [.verbatim (characterData body)])

/-- The text of the element that embeds sheets; nothing when all of them are blank. -/
def styleBlock (sheets : List String) : String :=
  ((styleElement? sheets).map Element.write).getD ""

end FlowGrid.Svg
