import FunctionNaming.CommandLine.Run

/-!
The program: it takes the arguments to `run` with the files of the system, and shows the response.
-/

namespace FunctionNaming

/-- What an error of the system means for the program. -/
def FileError.ofSystem : IO.Error → FileError
  | .noFileOrDirectory .. => .missing
  | e => .other (toString e)

/-- The files of the system. -/
def systemFiles : FileAccess IO where
  read path := do
    try
      match String.fromUTF8? (← IO.FS.readBinFile path) with
      | some text => return .ok text
      | none => return .error .notText
    catch e => return .error (.ofSystem e)
  write path text := do
    try
      IO.FS.writeFile path text
      return .ok ()
    catch e => return .error (.ofSystem e)

/-- How the program is used. -/
def usage : String :=
  "Names the anonymous functions of a script.\n\n" ++
  "Usage: function-naming [OPTIONS] <INPUT>\n\n" ++
  "Options:\n" ++
  "  -o, --out <FILE>             Write the renamed script to this file\n" ++
  "      --previous-map <FILE>    Keep the names of this map\n" ++
  "      --map-out <FILE>         Write the final map to this file\n" ++
  "      --map-format <FORMAT>    text or json\n" ++
  "      --mode <MODE>            mapped or unmapped\n" ++
  "      --compact                Print without optional blanks\n" ++
  "      --config <FILE>          Take options from this JSON file\n" ++
  "  -h, --help                   Print help\n" ++
  "  -V, --version                Print version\n"

/-- What is wrong with the arguments. -/
def UsageError.message : UsageError → String
  | missingInput => "the script to rename is missing"
  | unknownArgument => "unexpected argument"
  | invalidValue => "missing or invalid value"
  | repeated => "an argument cannot be used multiple times"
  | unexpectedValue => "unexpected value for a flag"
  | helpWanted => ""
  | versionWanted => ""

/-- The response to arguments that do not say what to do. -/
def Response.ofUsage : UsageError → Response
  | .helpWanted => ⟨0, usage, ""⟩
  | .versionWanted => ⟨0, "function-naming 0.1.0\n", ""⟩
  | e => ⟨2, "", "error: " ++ e.message ++ "\n\n" ++ usage⟩

/-- Shows a response. -/
def Response.show (r : Response) : IO UInt32 := do
  (← IO.getStderr).putStr r.errors
  (← IO.getStdout).putStr r.output
  return r.exitCode.toUInt32

end FunctionNaming

def main (args : List String) : IO UInt32 := do
  match FunctionNaming.Arguments.parse args with
  | .error e => (FunctionNaming.Response.ofUsage e).show
  | .ok arguments =>
    let result ← (FunctionNaming.run FunctionNaming.systemFiles arguments).run
    (FunctionNaming.Response.ofRun arguments result).show
