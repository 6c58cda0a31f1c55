import FlowGrid.Command.Journal
import FlowGrid.Command.Request
import FlowGrid.Svg.Drawing
import FlowGrid.Text.Utf8

/-! A run of the command line, as a function of its arguments and of what it finds around
it. It ends well, or with a message, or with a refusal of its arguments, or because
something stopped it that it has no message for. What it prints is plain text; a file
that it writes keeps control sequences as they are. -/

namespace FlowGrid.Command

/-- What a run finds: the files, why a path cannot be written to, and standard input. The text of
standard input, with its line ends, is made by the system. -/
structure Surroundings where
  find : String → Found
  refuses? : String → Option FileFault
  stdin : List UInt8
  decode : List UInt8 → Except Text.Utf8Fault String

/-- What stops a run without a message of its own. -/
inductive Escape
  | text (f : Text.Utf8Fault)
  | fault (f : Fault)

def Escape.message : Escape → String
  | .text f => f.message
  | .fault f => f.message

inductive Ending
  | success
  | failure (message : String)
  | misuse (m : Misuse)
  | escaped (e : Escape)

def Ending.exitCode : Ending → Nat
  | .success => 0
  | .failure _ => 1
  | .misuse _ => 2
  | .escaped _ => 1

/-- What a run leaves behind: its ending, its text on standard output, the lines of its
journal, and the file that it writes, by path and content. -/
structure Outcome where
  ending : Ending
  stdout : String
  journal : List String
  written : Option (String × String)

def Outcome.stopped (ending : Ending) (journal : List String) : Outcome :=
  ⟨ending, "", journal, none⟩

/-- The text on standard error, apart from refusals of the arguments and from the trace of what
escapes. -/
def Outcome.stderr (o : Outcome) : String :=
  let last := match o.ending with
    | .failure message => [Text.plain ("error: " ++ message)]
    | _ => []
  String.join ((o.journal ++ last).map (· ++ "\n"))

/-! ### Reading -/

/-- Bytes that spell no text stop a run. -/
def decoded (text : Except Text.Utf8Fault String) : Except Ending String :=
  text.mapError fun f => .escaped (.text f)

/-- Reads a file; a message calls it `what`. -/
def readFile (s : Surroundings) (what path : String) : Except Ending String :=
  match s.find path with
  | .file bytes => decoded (Text.read bytes)
  | .directory =>
    .error (.failure s!"cannot read {what}'{path}': {FileFault.isDirectory.message path}")
  | .nothing fault => .error (.failure s!"cannot read {what}'{path}': {fault.message path}")

def readInput (s : Surroundings) (path : String) : Except Ending String :=
  if path = standardInput then decoded (s.decode s.stdin) else readFile s "" path

def readSheets (s : Surroundings) : List String → Except Ending (List String)
  | [] => .ok []
  | path :: rest => do
    let sheet ← readFile s "stylesheet " path
    let sheets ← readSheets s rest
    pure (sheet :: sheets)

/-! ### Drawing -/

/-- A fault of the source text has a message; others have none. -/
def endingOf : Fault → Ending
  | .source d => .failure s!"{d.cause.kind}: {d.message}"
  | f => .escaped (.fault f)

/-- Puts a drawing where it is wanted. -/
def deliver (s : Surroundings) (r : Request) (lines : List String) (svg : String) : Outcome :=
  match r.output with
  | none => ⟨.success, Text.plain svg, lines, none⟩
  | some path =>
    match s.refuses? path with
    | some fault => .stopped (.failure s!"cannot write '{path}': {fault.message path}") lines
    | none => ⟨.success, "", lines, some (path, svg)⟩

/-- Draws the chart that a text describes. -/
def drawText (s : Surroundings) (r : Request) (text : String) (sheets : List String) : Outcome :=
  let settings := r.settings sheets
  match settings.metrics with
  | .error f => .stopped (endingOf (.size f)) []
  | .ok m =>
    let chart := Chart.compile m text
    let lines := if r.verbose then journal settings.sizes text chart else []
    match chart.bind fun c => (Svg.Drawing.ofChart c).write (Svg.sheetsOf settings) with
    | .error f => .stopped (endingOf f) lines
    | .ok svg => deliver s r lines svg

def draw (s : Surroundings) (r : Request) : Outcome :=
  match readInput s r.input with
  | .error ending => .stopped ending []
  | .ok text =>
    match readSheets s r.sheets with
    | .error ending => .stopped ending []
    | .ok sheets => drawText s r text sheets

/-! ### Whole runs -/

def versionText : String := "gridchart, version 0.1.0\n"

def helpText : String :=
  "\n".intercalate [
    "Usage: gridchart [OPTIONS] INPUT",
    "",
    "  Compile a gridchart flowchart (INPUT, or - for stdin) to SVG.",
    "",
    "Options:",
    "  -o, --output TEXT  Write output to this file instead of stdout",
    "  -n, --node TEXT    Node width and height (W,H; default 200,100)",
    "  -g, --gap TEXT     Grid gap width and height (W,H; default 50,50)",
    "  --css FILE         Stylesheet to embed after the default one (repeatable)",
    "  --no-default-css   Do not embed the built-in stylesheet",
    "  -v, --verbose      Log pipeline details to stderr",
    "  --version          Show the version and exit.",
    "  --help             Show this message and exit.",
    ""]

def run (s : Surroundings) (arguments : List String) : Outcome :=
  match Action.ofArguments s.find arguments with
  | .error m => .stopped (.misuse m) []
  | .ok .showVersion => ⟨.success, versionText, [], none⟩
  | .ok .showHelp => ⟨.success, helpText, [], none⟩
  | .ok (.draw r) => draw s r

/-! ### Systems -/

/-- A system with the states `σ` that runs meet, and the places `π` that its paths lead to. -/
structure System (σ π : Type) where
  surroundings : σ → Surroundings
  /-- What the file at a place holds, if there is one. -/
  file? : σ → π → Option (List UInt8)
  place : σ → String → π
  /-- The path leads to a file that keeps what is written to it, or to none yet. -/
  Keeps : σ → String → Prop
  /-- Writes a text to the file that a path leads to. -/
  write : σ → String → String → σ

/-- A run in a state of a system, with the state that it leaves. -/
def System.run {σ π : Type} (S : System σ π) (state : σ) (arguments : List String) : Outcome × σ :=
  let outcome := Command.run (S.surroundings state) arguments
  match outcome.written with
  | none => (outcome, state)
  | some (path, content) => (outcome, S.write state path content)

/-- Trees of files as states. -/
def FileTree.system : System FileTree Place where
  surroundings t := ⟨t.find, t.refuses?, t.input, Text.read⟩
  file? t place :=
    match t.at? place with
    | .file bytes => some bytes
    | _ => none
  place _ path := placeOf path
  Keeps t path := t.sinks.contains (placeOf path) = false
  write t path content := t.write path content.toUTF8.toList

/-- A run among the files of a tree, with the tree that it leaves. -/
def runInTree (t : FileTree) (arguments : List String) : Outcome × FileTree :=
  FileTree.system.run t arguments

end FlowGrid.Command
