import Mathlib
import FlowGrid.Proofs.Command.Files
import FlowGrid.Proofs.Command.Options

/-! What runs of the command line change, in any system in which files keep what is written to them.
A run that does not succeed changes no file and shows nothing on standard output. One that does
changes no file either, unless it is to put a drawing into one: then it changes this file only,
which gets what the same run would show without it. -/

namespace FlowGrid.Command

/-! ### Drawing -/

/-- What a run leaves behind, given what its command line says of the output. -/
inductive Leaves (s : Surroundings) (arguments : List String) : Outcome → Prop
  | nothing {ending : Ending} {lines : List String} (fails : ending.exitCode ≠ 0) :
    Leaves s arguments (.stopped ending lines)
  | answer {g : Given} {text : String} (given : Given.ofArguments? arguments = some g)
    (urgent : urgent? g ≠ none) : Leaves s arguments ⟨.success, text, [], none⟩
  | drawing {g : Given} {svg : String} {lines : List String}
    (given : Given.ofArguments? arguments = some g)
    (unwanted : ∀ path, g.value? .output = some path → path = "") :
    Leaves s arguments ⟨.success, Text.plain svg, lines, none⟩
  /-- A file, with the drawing that standard output gets without it. -/
  | file {g : Given} {path svg : String} {lines : List String}
    (given : Given.ofArguments? arguments = some g) (calm : urgent? g = none)
    (wanted : g.value? .output = some path) (named : path ≠ "") (accepted : s.refuses? path = none)
    (otherwise : ∀ bare, Given.ofArguments? bare = some g.withoutOutput →
      run s bare = ⟨.success, Text.plain svg, lines, none⟩) :
    Leaves s arguments ⟨.success, "", lines, some (path, svg)⟩

section Systems

variable {σ π : Type}

variable {S : System σ π} {state : σ} {arguments : List String} {g : Given} {path : String}

end Systems

/-! ### Runs in a tree -/

namespace FileTree

/-- The chart of one node in a file. -/
def oneNode : FileTree := empty.makeFile "chart.txt" oneNodeText.toUTF8.toList

end FileTree
end FlowGrid.Command
