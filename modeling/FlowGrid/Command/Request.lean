import FlowGrid.Command.Arguments
import FlowGrid.Command.Files
import FlowGrid.Number.Literal
import FlowGrid.Settings
import FlowGrid.Text.Control

/-! What a command line asks for. Its options are checked in the order in which they are
first given, then the input, then the rest; asking for the version or for help comes
before all checks. -/

namespace FlowGrid.Command

/-- Why a command line is refused. -/
inductive Misuse
  /-- An option is unknown or lacks a value, or an operand is missing or too many. -/
  | malformed
  | invalid (parameter message : String)
deriving DecidableEq, Repr

def Misuse.message? : Misuse → Option String
  | .malformed => none
  | .invalid parameter message =>
    some (Text.plain s!"Error: Invalid value for {parameter}: {message}")

/-! ### Values -/

def notPositive (x : Float) : Bool := x ≤ Binary64.ofInt 0

/-- Reads two numbers with a comma between them; neither may be zero or negative. -/
def readSize (value : String) : Except String (Float × Float) :=
  match (value.toList.splitOn ',').map String.ofList with
  | [w, h] =>
    match Literal.read? w, Literal.read? h with
    | some w, some h =>
      if notPositive w || notPositive h then .error "width and height must be positive"
      else .ok (w, h)
    | _, _ => .error s!"cannot parse '{value}' as two numbers"
  | _ => .error "size should have the format \"W,H\""

/-- Refuses a directory in place of a file. -/
def checkFile (find : String → Found) (path : String) : Except String Unit :=
  match find path with
  | .directory => .error s!"File {Text.quoted path} is a directory."
  | _ => .ok ()

def checkFiles (find : String → Found) : List String → Except String Unit
  | [] => .ok ()
  | path :: rest => do
    checkFile find path
    checkFiles find rest

/-- The operand that stands for standard input. -/
def standardInput : String := "-"

/-- Style sheets have to be files. -/
def checkSheets (find : String → Found) (paths : List String) : Except String Unit := do
  checkFiles find paths
  if standardInput ∈ paths then throw "stylesheets must be files; \"-\" is only accepted as INPUT"

def checkSize (value : Option String) : Except String Unit :=
  match value with
  | none => .ok ()
  | some v => (readSize v).map fun _ => ()

/-- Checks what is given for one option. -/
def checkOption (find : String → Found) (g : Given) (p : Parameter) : Except Misuse Unit :=
  match p with
  | .node => (checkSize (g.value? .node)).mapError (.invalid "'--node' / '-n'")
  | .gap => (checkSize (g.value? .gap)).mapError (.invalid "'--gap' / '-g'")
  | .css => (checkSheets find (g.values .css)).mapError (.invalid "'--css'")
  | _ => .ok ()

def checkOptions (find : String → Found) (g : Given) : List Parameter → Except Misuse Unit
  | [] => .ok ()
  | p :: rest => do
    checkOption find g p
    checkOptions find g rest

/-- The only operand, which names the input. -/
def checkOperands (find : String → Found) : List String → Except Misuse String
  | [] => .error .malformed
  | input :: rest => do
    if input ≠ standardInput then (checkFile find input).mapError (.invalid "'INPUT'")
    if rest.isEmpty then pure input else throw .malformed

/-! ### Requests -/

/-- A chart to be drawn: from where, to where, and how. No output means standard output. -/
structure Request where
  input : String
  output : Option String
  node : Option (Float × Float)
  gap : Option (Float × Float)
  sheets : List String
  builtInSheet : Bool
  verbose : Bool

inductive Action
  | showVersion
  | showHelp
  | draw (r : Request)

/-- A size option that has been checked. -/
def size? (g : Given) (p : Parameter) : Option (Float × Float) :=
  (g.value? p).bind fun value => (readSize value).toOption

def Request.ofGiven (g : Given) (input : String) : Request where
  input
  output := (g.value? .output).filter fun path => !path.isEmpty
  node := size? g .node
  gap := size? g .gap
  sheets := g.values .css
  builtInSheet := !g.has .noDefaultCss
  verbose := g.has .verbose

/-- The first option that is answered before anything is checked. -/
def urgent? (g : Given) : Option Action :=
  g.options.findSome? fun (p, _) =>
    match p with
    | .version => some .showVersion
    | .help => some .showHelp
    | _ => none

def Action.ofArguments (find : String → Found) (arguments : List String) :
    Except Misuse Action :=
  match Given.ofArguments? arguments with
  | none => .error .malformed
  | some g =>
    match urgent? g with
    | some action => .ok action
    | none => do
      checkOptions find g (g.options.map (·.1)).eraseDups
      let input ← checkOperands find g.operands
      pure (.draw (.ofGiven g input))

/-- The settings of a request, given the texts of its style sheets. -/
def Request.settings (r : Request) (sheets : List String) : Settings where
  sizes :=
    { cellWidth := (r.node.map fun s => .fraction s.1).getD Metrics.standard.cellWidth
      cellHeight := (r.node.map fun s => .fraction s.2).getD Metrics.standard.cellHeight
      gapX := (r.gap.map fun s => .fraction s.1).getD Metrics.standard.gapX
      gapY := (r.gap.map fun s => .fraction s.2).getD Metrics.standard.gapY }
  sheets
  builtInSheet := r.builtInSheet

end FlowGrid.Command
