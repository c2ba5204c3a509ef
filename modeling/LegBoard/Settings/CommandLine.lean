import LegBoard.Settings.Resolve

/-!
The command line. Three options take a value each, in the next word or behind an equals sign, and
every one of them has a variable of the environment that is asked when the option is not given. An
option whose value is the next word is looked at only once the next option starts or the words end.
-/
namespace LegBoard.Settings

/-- The options that take a value. -/
inductive Flag where
  | config
  | graphiqlUrl
  | itinerary
deriving DecidableEq, Repr

namespace Flag

/-- The options, in the order in which the environment is asked for them. -/
def all : List Flag := [.config, .graphiqlUrl, .itinerary]

/-- The name of an option, without the dashes before it. -/
def name : Flag → String
  | .config => "config"
  | .graphiqlUrl => "graphiql-url"
  | .itinerary => "itinerary"

/-- The variable of the environment that stands in for an option. -/
def envName : Flag → String
  | .config => "OTP_DEBUG_CONFIG"
  | .graphiqlUrl => "GRAPHIQL_URL"
  | .itinerary => "ITINERARY_FILE"

def ofName? (name : String) : Option Flag := all.find? fun flag => flag.name == name

/-- Whether an option takes a value. A path may not be empty. -/
def accepts : Flag → String → Bool
  | .graphiqlUrl, _ => true
  | _, value => value ≠ ""

end Flag

namespace Args

def get (args : Args) : Flag → Option String
  | .config => args.config
  | .graphiqlUrl => args.graphiqlUrl
  | .itinerary => args.itinerary

def set (args : Args) (flag : Flag) (value : String) : Args :=
  match flag with
  | .config => { args with config := some value }
  | .graphiqlUrl => { args with graphiqlUrl := some value }
  | .itinerary => { args with itinerary := some value }

end Args

/-- Why a command line does not lead to a run. -/
inductive UsageError where
  | helpRequested
  | unknownArgument
  /-- A value is missing, or empty where it may not be. -/
  | invalidValue
  | argumentConflict
  /-- An option that takes no value has one. -/
  | tooManyValues
deriving DecidableEq, Repr

namespace CommandLine

/-- What a word of the command line is by itself. -/
inductive Word where
  /-- Two dashes: no options follow. -/
  | terminator
  | help
  /-- The help option with a value behind an equals sign. -/
  | helpWithValue
  | flag (flag : Flag)
  | flagWithValue (flag : Flag) (value : String)
  | unknownOption
  | other (word : String)
deriving DecidableEq, Repr

/-- The word behind two dashes. -/
def longWord (cs : List Char) : Word :=
  let name := String.ofList (cs.takeWhile (· ≠ '='))
  match cs.dropWhile (· ≠ '='), Flag.ofName? name with
  | [], some flag => .flag flag
  | _ :: value, some flag => .flagWithValue flag (String.ofList value)
  | [], none => if name = "help" then .help else .unknownOption
  | _ :: _, none => if name = "help" then .helpWithValue else .unknownOption

def Word.of (word : String) : Word :=
  match word.toList with
  | ['-', '-'] => .terminator
  | '-' :: '-' :: cs => longWord cs
  | '-' :: 'h' :: _ => .help
  | '-' :: _ :: _ => .unknownOption
  | _ => .other word

/-- What is known after some words: the values given, and an option not yet looked at, whose value
may still be missing. -/
structure State where
  args : Args := {}
  pending : Option (Flag × Option String) := none
deriving DecidableEq, Repr

/-- Takes over a value. -/
def State.give (state : State) (flag : Flag) (value : String) : Except UsageError State :=
  if (state.args.get flag).isSome then .error .argumentConflict
  else if flag.accepts value then .ok { state with args := state.args.set flag value }
  else .error .invalidValue

/-- Looks at the option that was left pending. -/
def State.settle (state : State) : Except UsageError State :=
  match state.pending with
  | none => .ok state
  | some (_, none) => .error .invalidValue
  | some (flag, some value) => ({ state with pending := none } : State).give flag value

/-- Reads the words of a command line. -/
def readWords : State → List String → Except UsageError State
  | state, [] => state.settle
  | state, word :: words =>
    match Word.of word with
    | .terminator => if words = [] then state.settle else .error .unknownArgument
    | .help => do
      let _ ← state.settle
      .error .helpRequested
    | .helpWithValue => .error .tooManyValues
    | .unknownOption => .error .unknownArgument
    | .flag flag => do
      let state ← state.settle
      readWords { state with pending := some (flag, none) } words
    | .flagWithValue flag value => do
      let state ← state.settle
      let state ← state.give flag value
      readWords state words
    | .other word =>
      match state.pending with
      | some (flag, none) => readWords { state with pending := some (flag, some word) } words
      | _ => .error .unknownArgument

/-- Asks the environment for an option that was not given. -/
def askEnvironment (env args : Args) (flag : Flag) : Except UsageError Args :=
  match args.get flag, env.get flag with
  | none, some value => if flag.accepts value then .ok (args.set flag value) else .error .invalidValue
  | _, _ => .ok args

/-- What a run is given by its command line and its environment. -/
def parse (env : Args) (words : List String) : Except UsageError Args := do
  let state ← readWords {} words
  Flag.all.foldlM (askEnvironment env) state.args

/-- A value of the environment as the help shows it. A line end in it is followed by blanks. -/
def shownValue (env : Args) (flag : Flag) : String :=
  String.ofList <| ((env.get flag).getD "").toList.flatMap fun c =>
    if c = '\n' then c :: List.replicate 37 ' ' else [c]

/-- The variable of the environment that stands in for an option, with its value. -/
def shownVariable (env : Args) (flag : Flag) : String :=
  "[env: " ++ flag.envName ++ "=" ++ shownValue env flag ++ "]\n"

def help (env : Args) : String :=
  "Itinerary debug client with GraphiQL line links\n\n" ++
  "Usage: otp-debug-web [OPTIONS]\n\n" ++
  "Options:\n" ++
  "      --config <CONFIG>              TOML config file " ++ shownVariable env .config ++
  "      --graphiql-url <GRAPHIQL_URL>  GraphiQL base URL, including its own query string " ++
    shownVariable env .graphiqlUrl ++
  "      --itinerary <ITINERARY>        Itinerary JSON to display instead of the bundled sample " ++
    shownVariable env .itinerary ++
  "  -h, --help                         Print help\n"

end CommandLine

end LegBoard.Settings
