import LegBoard.Board.Route
import LegBoard.Settings.CommandLine

/-!
The program. It makes its settings from the command line, the environment and the files they name,
logs how it came to them, and prints the page.
-/
namespace LegBoard.Main

open LegBoard.Settings

/-- Why a file could not be read, unless it is for a reason that no path by itself has, such as a
missing permission. -/
def readErrorOf? (path : String) : IO.Error → Option ReadError
  | .noFileOrDirectory .. => some .notFound
  | .inappropriateType .. => some (if path.endsWith "/" then .notDirectory else .isDirectory)
  | _ => none

/-- The text of a file. A failure of any other kind ends the run as it is. -/
def readText (path : String) : IO (Except ReadError String) := do
  if path.contains '\x00' then return .error .invalidPath
  try
    match String.fromUTF8? (← IO.FS.readBinFile path) with
    | some text => return .ok text
    | none => return .error .notText
  catch e =>
    match readErrorOf? path e with
    | some cause => return .error cause
    | none => throw e

/-- A value of the environment for every option that has one. -/
def environment : IO Args :=
  Flag.all.foldlM (fun args flag => do
    match ← IO.getEnv flag.envName with
    | some value => return args.set flag value
    | none => return args) {}

/-- Why a file could not be read, in words. -/
def describeRead : ReadError → String
  | .notFound => "no such file"
  | .isDirectory => "it is a directory"
  | .notDirectory => "part of the path is a file"
  | .invalidPath => "the path holds a NUL"
  | .notText => "the content is not UTF-8"

/-- How an error is told, with its cause. -/
def describe (e : ResolveError) : String :=
  e.message ++ ": " ++
    match e with
    | .unreadable _ _ cause => describeRead cause
    | .badConfig _ => "it is no TOML document of the expected shape"
    | .badItinerary _ fault => fault.message

end LegBoard.Main

open LegBoard LegBoard.Settings in
/-- Prints the page, or the help, or why there is neither. -/
def main (words : List String) : IO UInt32 := do
  let env ← Main.environment
  match CommandLine.parse env words with
  | .error .helpRequested =>
    IO.print (CommandLine.help env)
    return 0
  | .error _ =>
    IO.eprintln "error: these arguments cannot be used, try '--help'"
    return 2
  | .ok args =>
    let resolution ← resolveWith Main.readText args
    for event in resolution.log do
      IO.eprintln event.message
    match resolution.result with
    | .error e =>
      IO.eprintln ("Error: " ++ Main.describe e)
      return 1
    | .ok settings =>
      IO.println (Board.itineraryPage settings).render
      return 0
