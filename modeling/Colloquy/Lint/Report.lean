import Colloquy.Lint
import Colloquy.Output

/-!
# Lint/Report — linting files

The scripts of a directory, at any depth, or a single file are linted in the order of their paths. A
report names the scripts that were accepted, then all warnings, then all errors.
-/

namespace Colloquy

mutual

/-- The scripts below a node, with their paths. A file that is named itself counts whatever its
name. -/
def Node.scripts (path : String) : Node → List (String × Node)
  | .file bytes => [(path, .file bytes)]
  | .directory entries => scriptsAmong path entries

/-- The scripts among the entries of a directory, and below. -/
def scriptsAmong (path : String) : List (String × Node) → List (String × Node)
  | [] => []
  | (name, node) :: rest =>
    (if node.isDirectory || hasExtension "json" name then node.scripts (joinPath path name)
      else []) ++ scriptsAmong path rest

end

/-- What is found about files, by path. -/
structure LintReport where
  verdicts : List (String × Verdict)

namespace LintReport

/-- Lints the scripts below a node. -/
def ofNode (sprites? : Option Sprites) (path : String) (node : Node) : LintReport :=
  let scripts := (node.scripts path).mergeSort fun a b => partsLe (pathParts a.1) (pathParts b.1)
  ⟨scripts.map fun s => (s.1, Verdict.ofText? sprites? s.2.text?)⟩

/-- The findings, with the paths of the files. -/
def findings (r : LintReport) : List (String × Finding) :=
  r.verdicts.flatMap fun v => v.2.findings.map (v.1, ·)

/-- The errors. -/
def errors (r : LintReport) : List (String × Finding) := r.findings.filter (·.2.isError)

/-- The warnings. -/
def warnings (r : LintReport) : List (String × Finding) := r.findings.filter (!·.2.isError)

/-- The lines of a report, for some wording of the findings. -/
def lines (wording : Finding → String) (r : LintReport) : List String :=
  let line (word : String) (f : String × Finding) := word ++ ": " ++ f.1 ++ ": " ++ wording f.2
  ["Linting " ++ toString r.verdicts.length ++ " conversation file(s)"] ++
    ((r.verdicts.filter (·.2.accepted)).map fun v => "  Checked: " ++ v.1) ++
    ["", "=== Conversation Lint Report ===", ""] ++
    (if r.findings.isEmpty then ["All checks passed!"] else []) ++
    r.warnings.map (line "WARNING") ++ r.errors.map (line "ERROR") ++
    ["", "Summary: " ++ toString r.errors.length ++ " errors, " ++
      toString r.warnings.length ++ " warnings"]

end LintReport

/-! ## The command line -/

/-- What comes of a command line. -/
inductive LintOutcome
  | usage
  | noSprites (cause : SpriteError)
  | noSuchPath (path : String)
  | report (r : LintReport)

namespace LintOutcome

/-- The path that the last option for sprites names. -/
def spritesPath? : List String → Option String
  | "--sprites" :: path :: rest => (spritesPath? rest).or (some path)
  | _ :: rest => spritesPath? rest
  | [] => none

/-- The sprites that are asked for, if any. -/
def sprites (files : Files) (args : List String) : Except SpriteError (Option Sprites) :=
  match spritesPath? args with
  | some path =>
    let loaded := Sprites.empty.loadFile (files path)
    loaded.result.map fun _ => some loaded.sprites
  | none => .ok none

/-- Lints what a command line asks for. -/
def ofArgs (files : Files) : List String → LintOutcome
  | [] | "--help" :: _ | "-h" :: _ => usage
  | path :: args =>
    match sprites files args with
    | .error e => noSprites e
    | .ok sprites? =>
      match files path with
      | some node => report (.ofNode sprites? path node)
      | none => noSuchPath path

/-- How the program is called. -/
def usageLine : String := "Usage: conversation_linter <file_or_dir> [--sprites <manifest.ron>]"

/-- What is printed, for some wording of the findings. -/
def output (wording : Finding → String) : LintOutcome → Output
  | usage => .ofLines 0 [usageLine] []
  | noSprites cause => .ofLines 1 [] ["ERROR: Failed to load sprite manifest: " ++ cause.message]
  | noSuchPath path => .ofLines 1 [] ["ERROR: Path '" ++ path ++ "' does not exist"]
  | report r => .ofLines (if r.errors.isEmpty then 0 else 1) (r.lines wording) []

end LintOutcome

end Colloquy
