import FlowGrid.Command.Run

/-! The command line on real files. It looks up the files that the arguments name, hands
them to the run, and does what the run says. -/

namespace FlowGrid.Command

/-- Whether a code is the number of a fault. Some calls tell it with the opposite sign. -/
def saysFault (code : UInt32) (f : FileFault) : Bool :=
  code.toNat = f.number || (0 - code).toNat = f.number

def faultOf : IO.Error → FileFault
  | .inappropriateType _ code _ =>
    if saysFault code .isDirectory then .isDirectory else .notDirectory
  | .invalidArgument _ code _ => if saysFault code .nameTooLong then .nameTooLong else .absent
  | .permissionDenied _ code details => .other code.toNat details true
  | .resourceExhausted _ code details => .other code.toNat details false
  | _ => .absent

/-- What the file system has at a path. -/
def lookUp (path : String) : IO (String × Found) := do
  try
    let bytes ← IO.FS.readBinFile path
    pure (path, .file bytes.toList)
  catch e =>
    match faultOf e with
    | .isDirectory => pure (path, .directory)
    | fault => pure (path, .nothing fault)

partial def readAll (input : IO.FS.Stream) (done : ByteArray) : IO ByteArray := do
  let bytes ← input.read 65536
  if bytes.isEmpty then pure done else readAll input (done ++ bytes)

/-- The surroundings of a run, as far as its arguments name them. -/
def surroundings (arguments : List String) : IO Surroundings := do
  let given := (Given.ofArguments? arguments).getD ⟨[], []⟩
  let found ← (given.operands ++ given.values .css).mapM lookUp
  let stdin ←
    if standardInput ∈ given.operands then readAll (← IO.getStdin) .empty else pure .empty
  pure ⟨fun path => (found.lookup path).getD (.nothing .absent), fun _ => none, stdin.toList,
    Text.read⟩

/-- Writes what a run leaves behind. A file that cannot be written ends the run in the way
that it would have ended, had it known. -/
def settleOutcome (s : Surroundings) (arguments : List String) : IO Outcome := do
  let outcome := run s arguments
  match outcome.written with
  | none => pure outcome
  | some (path, content) =>
    try
      IO.FS.withFile path .write fun file => do
        file.putStr content
        file.flush
      pure outcome
    catch e => pure (run { s with refuses? := fun _ => some (faultOf e) } arguments)

end FlowGrid.Command

open FlowGrid.Command in
def main (arguments : List String) : IO UInt32 := do
  let outcome ← settleOutcome (← surroundings arguments) arguments
  IO.print outcome.stdout
  IO.eprint outcome.stderr
  match outcome.ending with
  | .misuse m => IO.eprintln (m.message?.getD "Error: see --help for usage")
  | .escaped e => IO.eprintln e.message
  | _ => pure ()
  pure (UInt32.ofNat outcome.ending.exitCode)
