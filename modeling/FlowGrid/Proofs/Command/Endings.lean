import FlowGrid.Proofs.Command.Messages

/-! How runs of the command line end. Whatever the arguments, the files and the bytes on standard
input are, a run that is to draw something puts the drawing where it is wanted, or ends with one
line about what went wrong, or refuses its arguments. There are three ways out besides these: a
path or the system breaks the line of a message, what is read is no text, or a number of the chart
is out of range. -/

namespace FlowGrid.Command

open Result

/-! ### Messages -/

/-- Why a file cannot be read. -/
inductive Unreadable (s : Surroundings) (path : String) : FileFault → Prop
  | directory (h : s.find path = .directory) : Unreadable s path .isDirectory
  | nothing {fault : FileFault} (h : s.find path = .nothing fault) : Unreadable s path fault

/-- What a request gets told about a file, by its path and what is wrong with it. -/
inductive FileReport (s : Surroundings) (r : Request) : String → FileFault → String → Prop
  | input {fault : FileFault} (operand : r.input ≠ standardInput)
    (unreadable : Unreadable s r.input fault) :
    FileReport s r r.input fault s!"cannot read '{r.input}': {fault.message r.input}"
  | sheet {path : String} {fault : FileFault} (given : path ∈ r.sheets)
    (unreadable : Unreadable s path fault) :
    FileReport s r path fault s!"cannot read stylesheet '{path}': {fault.message path}"
  | output {path : String} {fault : FileFault} (wanted : r.output = some path)
    (refused : s.refuses? path = some fault) :
    FileReport s r path fault s!"cannot write '{path}': {fault.message path}"

/-- What a request gets told when its drawing cannot be made or put where it is wanted. -/
inductive Reports (s : Surroundings) (r : Request) : String → Prop
  | file {path message : String} {fault : FileFault} (report : FileReport s r path fault message) :
    Reports s r message
  | mistake {text : String} {sheets : List String} {d : Diagnostic}
    (read : readInput s r.input = .ok text) (readSheets : readSheets s r.sheets = .ok sheets)
    (mistaken : Mistake text d)
    (fails : Svg.render (r.settings sheets) text = .error (.source d)) :
    Reports s r s!"{d.cause.kind}: {d.message}"

/-- What a request reads is no text. Files have to be in UTF-8; the bytes on standard input are
decoded by the system. -/
inductive Undecodable (s : Surroundings) (r : Request) : Text.Utf8Fault → Prop
  | stdin {fault : Text.Utf8Fault} (operand : r.input = standardInput)
    (unreadable : s.decode s.stdin = .error fault) : Undecodable s r fault
  | input {bytes : List UInt8} {fault : Text.Utf8Fault} (operand : r.input ≠ standardInput)
    (found : s.find r.input = .file bytes) (unreadable : Text.read bytes = .error fault) :
    Undecodable s r fault
  | sheet {path : String} {bytes : List UInt8} {fault : Text.Utf8Fault} (given : path ∈ r.sheets)
    (found : s.find path = .file bytes) (unreadable : Text.read bytes = .error fault) :
    Undecodable s r fault

/-- What is seen of a run: its exit code, its text on standard output, the file that it writes, and
the lines on standard error that tell of an error, apart from the refusal of its arguments and the
trace of what escapes. Its journal are records. -/
structure Seen (o : Outcome) (code : Nat) (stdout : String) (written : Option (String × String))
    (errors : List String) : Prop where
  exit : o.ending.exitCode = code
  stdout : o.stdout = stdout
  written : o.written = written
  errors : errorLines o.stderr = errors
  records : ∀ line ∈ o.journal, IsRecord line

/-- What a request to draw leaves behind. -/
inductive Ends (s : Surroundings) (r : Request) (o : Outcome) : Prop
  /-- The drawing stands on standard output. -/
  | shown {text svg : String} {sheets : List String} (read : readInput s r.input = .ok text)
    (readSheets : readSheets s r.sheets = .ok sheets)
    (drawn : Svg.render (r.settings sheets) text = .ok svg) (wanted : r.output = none)
    (ending : o.ending = .success) (seen : Seen o 0 (Text.plain svg) none [])
  /-- The drawing stands in a file. -/
  | written {text svg path : String} {sheets : List String}
    (read : readInput s r.input = .ok text) (readSheets : readSheets s r.sheets = .ok sheets)
    (drawn : Svg.render (r.settings sheets) text = .ok svg) (wanted : r.output = some path)
    (accepted : s.refuses? path = none) (ending : o.ending = .success)
    (seen : Seen o 0 "" (some (path, svg)) [])
  /-- There is one line about an error, and no drawing. -/
  | failed {message : String} (reports : Reports s r message) (single : Text.IsLine message)
    (ending : o.ending = .failure message) (seen : Seen o 1 "" none [errorText message])
  /-- There is a message of several lines, since a path or the reason of the system has a line
  break, and no drawing. -/
  | broken {path message : String} {fault : FileFault} (report : FileReport s r path fault message)
    (breaks : ¬ Text.IsLine path ∨ ¬ Text.IsLine fault.reason)
    (several : ¬ Text.IsLine message) (ending : o.ending = .failure message)
    (seen : Seen o 1 "" none (errorLines (errorText message)))
  /-- What is no text stops the run, and no line tells of an error. -/
  | notText {fault : Text.Utf8Fault} (undecodable : Undecodable s r fault)
    (ending : o.ending = .escaped (.text fault)) (seen : Seen o 1 "" none [])
  /-- A number out of range stops the run, and no line tells of an error. -/
  | outOfRange {text : String} {sheets : List String} {fault : ArithmeticFault}
    (read : readInput s r.input = .ok text) (readSheets : readSheets s r.sheets = .ok sheets)
    (fails : Svg.render (r.settings sheets) text = .error (.arithmetic fault))
    (ending : o.ending = .escaped (.fault (.arithmetic fault))) (seen : Seen o 1 "" none [])

theorem seen_stopped {ending : Ending} {lines : List String}
    (hrecords : ∀ line ∈ lines, IsRecord line) (hfailure : ∀ message, ending ≠ .failure message) :
    Seen (.stopped ending lines) ending.exitCode "" none [] := by
  refine ⟨rfl, rfl, rfl, ?_, hrecords⟩
  rw [errorLines_stderr hrecords]
  cases ending with
  | failure message => exact absurd rfl (hfailure message)
  | _ => rfl

theorem isLine_aboutFile {before path : String} {fault : FileFault} (hbefore : Text.IsLine before)
    (hpath : Text.IsLine path) (hreason : Text.IsLine fault.reason) :
    Text.IsLine (before ++ path ++ "': " ++ fault.message path) := by
  have hnumber := Text.isLine_toString_nat fault.number
  have hfault : Text.IsLine s!"[Errno {fault.number}] {fault.reason}" :=
    Text.isLine_append (Text.isLine_between (by decide) hnumber (by decide)) hreason
  have hplace : Text.IsLine (if fault.tellsPath then s!": {Text.quoted path}" else "") := by
    split
    · exact Text.isLine_append (by decide) (Text.isLine_quoted path)
    · decide
  have hfront : Text.IsLine (before ++ path ++ "': ") :=
    Text.isLine_between hbefore hpath (by decide)
  exact Text.isLine_append hfront (Text.isLine_append hfault hplace)

/-- A message about a file is a single line if the path and the reason are. -/
theorem FileReport.isLine {s : Surroundings} {r : Request} {path message : String}
    {fault : FileFault} (h : FileReport s r path fault message) (hpath : Text.IsLine path)
    (hreason : Text.IsLine fault.reason) : Text.IsLine message := by
  cases h with
  | input => exact isLine_aboutFile (by decide) hpath hreason
  | sheet => exact isLine_aboutFile (by decide) hpath hreason
  | output => exact isLine_aboutFile (by decide) hpath hreason

/-- A message is told in its lines. -/
theorem ends_failure {s : Surroundings} {r : Request} {message : String} {lines : List String}
    (hreports : Reports s r message) (hrecords : ∀ line ∈ lines, IsRecord line) :
    Ends s r (.stopped (.failure message) lines) := by
  have hseen : Seen (.stopped (.failure message) lines) 1 "" none
      (errorLines (errorText message)) :=
    ⟨rfl, rfl, rfl, errorLines_stderr hrecords, hrecords⟩
  by_cases hsingle : Text.IsLine message
  · rw [errorLines_errorText hsingle] at hseen
    exact .failed hreports hsingle rfl hseen
  · cases hreports with
    | mistake read readSheets mistaken fails => exact absurd mistaken.isLine hsingle
    | file report =>
      have hbreaks := not_and_or.mp fun h => hsingle (report.isLine h.1 h.2)
      exact .broken report hbreaks hsingle rfl hseen

/-! ### Reading -/

/-- What stops a request while it reads. -/
inductive Stops (s : Surroundings) (r : Request) : Ending → Prop
  | failure {message : String} (reports : Reports s r message) : Stops s r (.failure message)
  | text {fault : Text.Utf8Fault} (undecodable : Undecodable s r fault) :
    Stops s r (.escaped (.text fault))

section Reading

variable {s : Surroundings} {r : Request}

theorem yields_decoded {text : Except Text.Utf8Fault String}
    (h : ∀ fault, text = .error fault → Undecodable s r fault) :
    Result.Yields (fun _ => True) (Stops s r) (decoded text) := by
  cases text with
  | error fault => exact .text (h fault rfl)
  | ok text => trivial

theorem yields_readFile {what path : String}
    (hfile : ∀ bytes fault, s.find path = .file bytes → Text.read bytes = .error fault →
      Undecodable s r fault)
    (hreports : ∀ fault, Unreadable s path fault →
      FileReport s r path fault s!"cannot read {what}'{path}': {fault.message path}") :
    Result.Yields (fun _ => True) (Stops s r) (readFile s what path) := by
  unfold readFile
  cases hfind : s.find path with
  | file bytes => exact yields_decoded fun fault => hfile bytes fault hfind
  | directory => exact .failure (.file (hreports _ (.directory hfind)))
  | nothing fault => exact .failure (.file (hreports _ (.nothing hfind)))

theorem yields_readInput (s : Surroundings) (r : Request) :
    Result.Yields (fun _ => True) (Stops s r) (readInput s r.input) := by
  unfold readInput
  split_ifs with h
  · exact yields_decoded fun fault => .stdin h
  · exact yields_readFile (fun bytes fault => .input h) fun fault => .input h

theorem yields_readSheets {paths : List String} (h : ∀ path ∈ paths, path ∈ r.sheets) :
    Result.Yields (fun _ => True) (Stops s r) (readSheets s paths) := by
  induction paths with
  | nil => trivial
  | cons path paths ih =>
    rw [List.forall_mem_cons] at h
    have hpath : Result.Yields (fun _ => True) (Stops s r) (readFile s "stylesheet " path) :=
      yields_readFile (fun bytes fault => .sheet h.1) fun fault => .sheet h.1
    exact hpath.bind fun _ _ => (ih h.2).bind fun _ _ => trivial

end Reading

/-! ### Sizes -/

section Sizes

variable {g : Given} {p : Parameter} {w h : Float}

theorem notPositive_of_readSize {value : String} (hread : readSize value = .ok (w, h)) :
    notPositive w = false ∧ notPositive h = false := by
  unfold readSize at hread
  split at hread
  · split at hread
    · split_ifs at hread with hpositive
      cases hread
      simpa using hpositive
    · cases hread
  · cases hread

theorem notPositive_of_size? (hsize : size? g p = some (w, h)) :
    notPositive w = false ∧ notPositive h = false := by
  obtain ⟨value, -, hvalue⟩ := Option.bind_eq_some_iff.mp hsize
  cases hread : readSize value with
  | error message =>
    rw [hread] at hvalue
    cases hvalue
  | ok size =>
    rw [hread] at hvalue
    cases hvalue
    exact notPositive_of_readSize hread

/-- The sizes that a request asks for have been found positive, and so are the standard ones. -/
theorem exists_metrics (g : Given) (input : String) (sheets : List String) :
    ∃ m, ((Request.ofGiven g input).settings sheets).metrics = .ok m := by
  let sizes := ((Request.ofGiven g input).settings sheets).sizes
  have hsize (p : Parameter) (first second : Length) (hfirst : first.isAtMostZero = false)
      (hsecond : second.isAtMostZero = false) :
      (((size? g p).map fun s => Length.fraction s.1).getD first).isAtMostZero = false ∧
        (((size? g p).map fun s => Length.fraction s.2).getD second).isAtMostZero = false := by
    cases hp : size? g p with
    | none => exact ⟨hfirst, hsecond⟩
    | some size => exact notPositive_of_size? hp
  obtain ⟨hwidth, hheight⟩ := hsize .node (.whole 200) (.whole 100) rfl rfl
  obtain ⟨hgapX, hgapY⟩ := hsize .gap (.whole 50) (.whole 50) rfl rfl
  have hnone : [Measure.cellWidth, .cellHeight, .gapX, .gapY].find?
      (fun m => (sizes.get m).isAtMostZero) = none := by
    simp only [List.find?_eq_none, List.forall_mem_cons, Bool.not_eq_true]
    exact ⟨hwidth, hheight, hgapX, hgapY, by simp⟩
  rw [Settings.metrics, hnone]
  exact ⟨_, rfl⟩

end Sizes

/-! ### Runs -/

/-- A drawing is put where it is wanted, or there is a message that it cannot be. -/
theorem ends_deliver {s : Surroundings} {r : Request} {text svg : String}
    {sheets lines : List String} (hread : readInput s r.input = .ok text)
    (hsheets : readSheets s r.sheets = .ok sheets)
    (hdrawn : Svg.render (r.settings sheets) text = .ok svg)
    (hrecords : ∀ line ∈ lines, IsRecord line) : Ends s r (deliver s r lines svg) := by
  unfold deliver
  split
  case h_1 hwanted =>
    exact .shown hread hsheets hdrawn hwanted rfl
      ⟨rfl, rfl, rfl, errorLines_stderr hrecords, hrecords⟩
  case h_2 path hwanted =>
    split
    case h_1 fault hrefused => exact ends_failure (.file (.output hwanted hrefused)) hrecords
    case h_2 hrefused =>
      exact .written hread hsheets hdrawn hwanted hrefused rfl
        ⟨rfl, rfl, rfl, errorLines_stderr hrecords, hrecords⟩

theorem ends_drawText {s : Surroundings} {r : Request} {text : String} {sheets : List String}
    (hread : readInput s r.input = .ok text) (hsheets : readSheets s r.sheets = .ok sheets)
    (hmetrics : ∃ m, (r.settings sheets).metrics = .ok m) :
    Ends s r (drawText s r text sheets) := by
  obtain ⟨m, hm⟩ := hmetrics
  have hrender : Svg.render (r.settings sheets) text =
      (Chart.compile m text).bind fun c =>
        (Svg.Drawing.ofChart c).write (Svg.sheetsOf (r.settings sheets)) := by
    rw [Svg.render, hm]
    rfl
  have hyields : Result.Yields (fun _ => True) (Fault.IsExpected (Mistake text))
      (Svg.render (r.settings sheets) text) := by
    rw [hrender]
    exact (Chart.yields_compile m text).bind fun chart _ => Svg.yields_write_fault chart _
  have hrecords : ∀ line ∈ (if r.verbose then
      journal (r.settings sheets).sizes text (Chart.compile m text) else []), IsRecord line := by
    split_ifs
    · exact isRecord_of_mem_journal
    · simp
  simp only [drawText, hm]
  rw [← hrender]
  cases hsvg : Svg.render (r.settings sheets) text with
  | ok svg => exact ends_deliver hread hsheets hsvg hrecords
  | error fault =>
    rw [hsvg] at hyields
    cases hyields with
    | source hmistake => exact ends_failure (.mistake hread hsheets hmistake hsvg) hrecords
    | arithmetic f => exact .outOfRange hread hsheets hsvg rfl (seen_stopped hrecords nofun)

/-- A request with the exit code of success that names no file shows its drawing. -/
theorem Ends.exists_seen {s : Surroundings} {r : Request} {o : Outcome} (h : Ends s r o)
    (hexit : o.ending.exitCode = 0) (hwanted : r.output = none) :
    ∃ text sheets svg, readInput s r.input = .ok text ∧ readSheets s r.sheets = .ok sheets ∧
      Svg.render (r.settings sheets) text = .ok svg ∧ Seen o 0 (Text.plain svg) none [] := by
  have hone : ¬ o.ending.exitCode = 1 := by omega
  cases h with
  | shown read readSheets drawn wanted ending seen =>
    exact ⟨_, _, _, read, readSheets, drawn, seen⟩
  | written read readSheets drawn wanted => cases hwanted.symm.trans wanted
  | failed reports single ending seen => exact absurd seen.exit hone
  | broken report breaks several ending seen => exact absurd seen.exit hone
  | notText undecodable ending seen => exact absurd seen.exit hone
  | outOfRange read readSheets fails ending seen => exact absurd seen.exit hone

theorem ends_of_stops {s : Surroundings} {r : Request} {ending : Ending} (h : Stops s r ending) :
    Ends s r (.stopped ending []) := by
  have hnone : ∀ line ∈ ([] : List String), IsRecord line := by simp
  cases h with
  | failure reports => exact ends_failure reports hnone
  | text undecodable => exact .notText undecodable rfl (seen_stopped hnone nofun)

theorem ends_draw {s : Surroundings} {g : Given} {input : String} :
    Ends s (.ofGiven g input) (draw s (.ofGiven g input)) := by
  let r := Request.ofGiven g input
  have hinput := yields_readInput s r
  have hsheets := yields_readSheets (s := s) (r := r) fun path hpath => hpath
  unfold draw
  cases hread : readInput s r.input with
  | error ending =>
    rw [hread] at hinput
    exact ends_of_stops hinput
  | ok text =>
    cases hsheet : readSheets s r.sheets with
    | error ending =>
      rw [hsheet] at hsheets
      exact ends_of_stops hsheets
    | ok sheets => exact ends_drawText hread hsheet (exists_metrics g input sheets)

theorem urgent?_ne_draw {g : Given} {r : Request} : urgent? g ≠ some (.draw r) := by
  intro h
  obtain ⟨⟨p, value⟩, -, hp⟩ := List.exists_of_findSome?_eq_some h
  cases p <;> cases hp

/-- An option that is answered before all checks is, and other options make up a request. -/
theorem exists_given_of_ofArguments {find : String → Found} {arguments : List String}
    {action : Action} (h : Action.ofArguments find arguments = .ok action) :
    ∃ g, Given.ofArguments? arguments = some g ∧ (urgent? g = some action ∨
      urgent? g = none ∧ ∃ input, action = .draw (.ofGiven g input)) := by
  unfold Action.ofArguments at h
  split at h
  case h_1 => cases h
  case h_2 g hg =>
    split at h
    case h_1 urgent hurgent =>
      cases h
      exact ⟨g, hg, .inl hurgent⟩
    case h_2 hurgent =>
      obtain ⟨-, -, h⟩ := bind_eq_ok_iff.mp h
      obtain ⟨input, -, h⟩ := bind_eq_ok_iff.mp h
      cases h
      exact ⟨g, hg, .inr ⟨hurgent, input, rfl⟩⟩

/-- A request to draw holds what the options of some command line give. -/
theorem ofGiven_of_ofArguments {find : String → Found} {arguments : List String} {r : Request}
    (h : Action.ofArguments find arguments = .ok (.draw r)) :
    ∃ g input, r = .ofGiven g input := by
  obtain ⟨g, -, hurgent | ⟨-, input, hdraw⟩⟩ := exists_given_of_ofArguments h
  · exact absurd hurgent urgent?_ne_draw
  · cases hdraw
    exact ⟨g, input, rfl⟩

/-- How a run ends that is not asked for the version or for help: it refuses its arguments, with the
exit code for that, or it draws what they ask for, up to a message or to a fault without one. -/
theorem run_ends {s : Surroundings} {arguments : List String}
    (hversion : Action.ofArguments s.find arguments ≠ .ok .showVersion)
    (hhelp : Action.ofArguments s.find arguments ≠ .ok .showHelp) :
    (∃ m, Action.ofArguments s.find arguments = .error m ∧
      (run s arguments).ending = .misuse m ∧ Seen (run s arguments) 2 "" none []) ∨
    ∃ r, Action.ofArguments s.find arguments = .ok (.draw r) ∧ Ends s r (run s arguments) := by
  unfold run
  cases haction : Action.ofArguments s.find arguments with
  | error m => exact .inl ⟨m, rfl, rfl, seen_stopped (by simp) nofun⟩
  | ok action =>
    cases action with
    | showVersion => exact absurd haction hversion
    | showHelp => exact absurd haction hhelp
    | draw r =>
      obtain ⟨g, input, rfl⟩ := ofGiven_of_ofArguments haction
      exact .inr ⟨_, rfl, ends_draw⟩

/-! ### One node -/

/-- The text of a chart of one node. -/
def oneNodeText : String := "grid \x7b a; \x7d"

/-- The drawing of that chart in standard measures, without a style sheet. -/
def oneNodeDrawing : String :=
  "\n".intercalate [
    "<svg xmlns=\"http://www.w3.org/2000/svg\" viewBox=\"0 0 300 200\" width=\"300\" height=\"200\">",
    "<rect class=\"background\" x=\"0\" y=\"0\" width=\"300\" height=\"200\" />",
    "<g class=\"nodes\">",
    "<g class=\"node-wrapper\">",
    "<rect class=\"node rect\" x=\"50\" y=\"50\" width=\"200\" height=\"100\" />",
    "</g>",
    "</g>",
    "<g class=\"connections\">",
    "</g>",
    "</svg>",
    ""]

theorem not_holdsControl_oneNodeDrawing : ¬ Text.HoldsControl oneNodeDrawing.toList :=
  Text.not_holdsControl (Text.not_mem_intercalate (by decide) (by decide +kernel))

/-- A request to draw the chart of one node, read from standard input. -/
def oneNodeRequest : Request := .ofGiven ⟨[(.noDefaultCss, "")], ["-"]⟩ "-"

theorem render_oneNode :
    Svg.render (oneNodeRequest.settings []) oneNodeText = .ok oneNodeDrawing := by
  have h : (Svg.render (oneNodeRequest.settings []) oneNodeText).toOption =
      some oneNodeDrawing := by decide +kernel
  cases hsvg : Svg.render (oneNodeRequest.settings []) oneNodeText with
  | error fault =>
    rw [hsvg] at h
    cases h
  | ok svg =>
    rw [hsvg] at h
    exact congrArg Except.ok (Option.some.inj h)

/-- What is seen when the chart of one node has been drawn. -/
theorem Ends.seen_oneNode {s : Surroundings} {o : Outcome} (h : Ends s oneNodeRequest o)
    (hstdin : s.decode s.stdin = .ok oneNodeText) (hexit : o.ending.exitCode = 0) :
    Seen o 0 oneNodeDrawing none [] := by
  obtain ⟨text, sheets, svg, hread, hsheets, hdrawn, hseen⟩ := h.exists_seen hexit rfl
  have hinput : readInput s oneNodeRequest.input = .ok oneNodeText := congrArg decoded hstdin
  cases hinput.symm.trans hread
  cases hsheets
  cases render_oneNode.symm.trans hdrawn
  rwa [Text.plain_eq_self not_holdsControl_oneNodeDrawing] at hseen

/-- The chart of one node on standard input, and no file. -/
def oneNode : Surroundings :=
  ⟨fun _ => .nothing .absent, fun _ => none, oneNodeText.toUTF8.toList, Text.read⟩

/-- The chart of one node is drawn to standard output. -/
theorem run_ends_of_oneNode :
    Action.ofArguments oneNode.find ["-", "--no-default-css"] ≠ .ok .showVersion ∧
      Action.ofArguments oneNode.find ["-", "--no-default-css"] ≠ .ok .showHelp ∧
      Seen (run oneNode ["-", "--no-default-css"]) 0 oneNodeDrawing none [] := by
  have hversion : Action.ofArguments oneNode.find ["-", "--no-default-css"] ≠ .ok .showVersion :=
    nofun
  have hhelp : Action.ofArguments oneNode.find ["-", "--no-default-css"] ≠ .ok .showHelp := nofun
  have hexit : (run oneNode ["-", "--no-default-css"]).ending.exitCode = 0 := by decide +kernel
  have hstdin : Text.read oneNode.stdin = .ok oneNodeText := by decide +kernel
  refine ⟨hversion, hhelp, ?_⟩
  rcases run_ends hversion hhelp with ⟨m, hm, -⟩ | ⟨r, hr, hends⟩
  · cases hm
  · cases hr
    exact hends.seen_oneNode hstdin hexit

/-- Bytes that are not in UTF-8 end a run, and no line tells of an error. A path with a line break
in it makes two lines of one error. -/
theorem run_escapes :
    let s : Surroundings := ⟨fun _ => .nothing .absent, fun _ => none, [0xff], Text.read⟩
    ((run s ["-"]).ending = .escaped (.text ⟨.startByte, 0xff, 0, 1⟩) ∧
      (run s ["-"]).ending.exitCode = 1 ∧ (run s ["-"]).stderr = "") ∧
    (run s ["a\nerror: b"]).ending.exitCode = 1 ∧
      (errorLines (run s ["a\nerror: b"]).stderr).length = 2 :=
  ⟨⟨rfl, rfl, rfl⟩, rfl, by decide +kernel⟩

end FlowGrid.Command
