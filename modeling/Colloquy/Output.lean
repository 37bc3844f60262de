/-!
# Output — what a command-line program leaves behind
-/

namespace Colloquy

/-- The text of the two output streams of a program, and its exit code. -/
structure Output where
  exit : Nat
  out : String
  err : String
deriving DecidableEq, Repr

/-- Lines as one text, each of them ended. -/
def unlines (lines : List String) : String := String.join (lines.map (· ++ "\n"))

/-- A program that writes lines. -/
def Output.ofLines (exit : Nat) (out err : List String) : Output := ⟨exit, unlines out, unlines err⟩

end Colloquy
