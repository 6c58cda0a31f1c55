/-! Command-line arguments as options and operands. A long option takes its value after an
equals sign or from the next argument; short options can be grouped, and the first of a
group that takes a value takes the rest of the group or the next argument. Options and
operands may be mixed until two dashes end the options. -/

namespace FlowGrid.Command

inductive Parameter
  | output
  | node
  | gap
  | css
  | noDefaultCss
  | verbose
  | version
  | help
deriving DecidableEq, Repr

namespace Parameter

def takesValue : Parameter → Bool
  | .output | .node | .gap | .css => true
  | _ => false

def ofLong? (name : String) : Option Parameter :=
  match name with
  | "--output" => some .output
  | "--node" => some .node
  | "--gap" => some .gap
  | "--css" => some .css
  | "--no-default-css" => some .noDefaultCss
  | "--verbose" => some .verbose
  | "--version" => some .version
  | "--help" => some .help
  | _ => none

def ofShort? : Char → Option Parameter
  | 'o' => some .output
  | 'n' => some .node
  | 'g' => some .gap
  | 'v' => some .verbose
  | _ => none

end Parameter

/-- What one argument says. -/
inductive Reading
  | operand
  | endOfOptions
  | unknown
  /-- Flags, and perhaps an option with a value after them; the value is the next argument
  when none is attached. -/
  | options (flags : List Parameter) (last : Option (Parameter × Option String))
deriving DecidableEq, Repr

namespace Reading

/-- Reads a group of short options. -/
def ofGroup (flags : List Parameter) : List Char → Reading
  | [] => .options flags none
  | c :: rest =>
    match Parameter.ofShort? c with
    | none => .unknown
    | some p =>
      if p.takesValue then
        .options flags (some (p, if rest.isEmpty then none else some (String.ofList rest)))
      else ofGroup (flags ++ [p]) rest

/-- Reads an argument that begins with a dash and goes on. -/
def ofDashed (arg : List Char) : Reading :=
  let name := arg.takeWhile (· != '=')
  let attached :=
    match arg.dropWhile (· != '=') with
    | [] => none
    | _ :: value => some (String.ofList value)
  match Parameter.ofLong? (String.ofList name) with
  | some p =>
    if p.takesValue then .options [] (some (p, attached))
    else if attached.isSome then .unknown
    else .options [p] none
  | none => if arg.take 2 = ['-', '-'] then .unknown else ofGroup [] (arg.drop 1)

def ofArgument (arg : String) : Reading :=
  match arg.toList with
  | ['-', '-'] => .endOfOptions
  | '-' :: c :: rest => ofDashed ('-' :: c :: rest)
  | _ => .operand

end Reading

/-- The options of a command line with their values, in order, and its operands. A flag has
the empty value. -/
structure Given where
  options : List (Parameter × String)
  operands : List String
deriving DecidableEq, Repr

namespace Given

def addOptions (options : List (Parameter × String)) (g : Given) : Given :=
  { g with options := options ++ g.options }

def addOperand (operand : String) (g : Given) : Given :=
  { g with operands := operand :: g.operands }

/-- Reads a command line; an unknown option or one that lacks its value makes it
unreadable. -/
def ofArguments? : List String → Option Given
  | [] => some ⟨[], []⟩
  | arg :: rest =>
    match Reading.ofArgument arg with
    | .operand => (ofArguments? rest).map (addOperand arg)
    | .endOfOptions => some ⟨[], rest⟩
    | .unknown => none
    | .options flags none => (ofArguments? rest).map (addOptions (flags.map (·, "")))
    | .options flags (some (p, some value)) =>
      (ofArguments? rest).map (addOptions (flags.map (·, "") ++ [(p, value)]))
    | .options flags (some (p, none)) =>
      match rest with
      | [] => none
      | value :: rest =>
        (ofArguments? rest).map (addOptions (flags.map (·, "") ++ [(p, value)]))

def has (g : Given) (p : Parameter) : Bool := g.options.any fun (q, _) => q = p

/-- All values of an option, in order. -/
def values (g : Given) (p : Parameter) : List String :=
  g.options.filterMap fun (q, value) => if q = p then some value else none

/-- The value of an option; of several ones the last. -/
def value? (g : Given) (p : Parameter) : Option String := (g.values p).getLast?

end Given
end FlowGrid.Command
