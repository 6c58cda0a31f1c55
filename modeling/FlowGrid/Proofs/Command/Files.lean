import FlowGrid.Command.Files
import Mathlib.Tactic.SplitIfs

/-! What writing to a file changes. A path that can be written to leads through directories to a
place that is none itself, so the way to it stays open when the file is there, and then leads to
what was written. All other places are as they were. -/

namespace FlowGrid.Command

/-! ### Names on a path -/

namespace FileTree

variable {t t' : FileTree} {path : String} {bytes : List UInt8} {place : Place} {names : List String}

/-! ### Places -/

end FileTree
end FlowGrid.Command
