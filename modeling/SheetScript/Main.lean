import SheetScript.CommandLine
import SheetScript.Json.Printer

/-!
# The program

The outer layer of the command line: it reads files, prints the answer and gives the exit code.
-/

namespace SheetScript.Program

/-- How the program is called. -/
def usageText : String :=
  "Run a script file and print the result as JSON\n\n" ++
    "Usage: qbscript [OPTIONS] <SCRIPT>\n\n" ++
    "  --chart <NAME=FILE>  Chart available to the script (repeatable)\n" ++
    "  --config <FILE>      Engine configuration file\n" ++
    "  --event <NAME>       Handler function to call after the top level has run\n" ++
    "  --arg <JSON>         JSON argument passed to the handler (repeatable)\n" ++
    "  -h, --help           Print help\n" ++
    "  -V, --version        Print version"

/-- Read a file. -/
def readFile (path : String) : IO (Except String String) := do
  try
    return .ok (← IO.FS.readFile path)
  catch e =>
    return .error (toString e)

/-- Print an answer. -/
def printAnswer : CommandAnswer → IO Unit
  | .result reply => IO.println reply.toJson.pretty
  | .fileFailure f => IO.eprintln ("Error: " ++ f.summary ++ "\n\nCaused by:\n    " ++ f.cause)
  | .usage => IO.eprintln usageText
  | .version => IO.println Command.versionText
  | .help => IO.println usageText

end SheetScript.Program

/-- Run the program. -/
def main (args : List String) : IO UInt32 := do
  let answer ← SheetScript.Command.answer SheetScript.Program.readFile args
  SheetScript.Program.printAnswer answer
  return answer.exitCode
