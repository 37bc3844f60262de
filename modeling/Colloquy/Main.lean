import Colloquy.Lint.Report
import Colloquy.Preview

/-!
# Main — the command-line programs

`lint` checks scripts and `preview` plays them. The files that a command line names are read before
anything else is done.
-/

namespace Colloquy

/-- Reads the file or the directory at a path, with all that is below it. -/
partial def readNode (path : String) : IO (Option Node) := do
  try
    let place ← IO.FS.realPath path
    if ← place.isDir then
      let mut entries := #[]
      for entry in ← place.readDir do
        if let some node ← readNode (joinPath path entry.fileName) then
          entries := entries.push (entry.fileName, node)
      return some (.directory entries.toList)
    else
      return some (.file (← IO.FS.readBinFile path))
  catch _ =>
    return none

/-- Reads what the arguments of a command line name. -/
def readFiles (args : List String) : IO Files := do
  let nodes ← args.filterMapM fun path => do
    return (← readNode path).map (path, ·)
  return fun path => nodes.lookup path

/-- Prints what a program leaves behind. -/
def Output.print (o : Output) : IO UInt32 := do
  IO.print o.out
  IO.eprint o.err
  return o.exit.toUInt32

/-- Answers typed lines until there are no more, or an order to quit. -/
partial def Preview.serve (x : Session) : IO Unit := do
  IO.print Preview.prompt
  (← IO.getStdout).flush
  let line ← (← IO.getStdin).getLine
  if line.isEmpty then
    return
  let order := Order.ofLine line
  let (x, lines) := Preview.answer x order
  IO.print (unlines lines)
  match order with
  | .quit => return
  | _ => serve x

end Colloquy

open Colloquy

/-- Runs the program that the first argument names. -/
def main : List String → IO UInt32
  | "lint" :: args => do
    ((LintOutcome.ofArgs (← readFiles args) args).output Finding.message).print
  | "preview" :: args => do
    match Preview.ofArgs (← readFiles args) args with
    | .error output => output.print
    | .ok x => do
      IO.print (unlines (Preview.greeting x))
      Preview.serve x
      return 0
  | _ => do
    IO.eprintln "Usage: colloquy lint <arguments> | colloquy preview <arguments>"
    return 1
