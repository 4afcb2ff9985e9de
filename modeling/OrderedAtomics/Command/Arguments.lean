/-
  The command line: two subcommands with flags, and help on each.  The first argument that is wrong
  decides the error.
-/
namespace OrderedAtomics.Command

/-- What the command line asks for. -/
inductive Request where
  | symbols (json : Bool)
  | bench (quick reportOnly : Bool)
  deriving DecidableEq

/-- The subcommands that help can be asked on. -/
inductive Topic where
  | all
  | symbols
  | bench
  | help
  deriving DecidableEq

/-- Why a command line is no request. -/
inductive UsageError where
  /-- Help was asked for. -/
  | help (topic : Topic)
  /-- No subcommand was given. -/
  | missingSubcommand
  | invalidSubcommand
  | unknownArgument
  /-- A value was given to a flag. -/
  | tooManyValues
  /-- A flag was given twice. -/
  | argumentConflict
  deriving DecidableEq

namespace UsageError

/-- The name of the kind of error. -/
def kind : UsageError → String
  | .help _ => "DisplayHelp"
  | .missingSubcommand => "DisplayHelpOnMissingArgumentOrSubcommand"
  | .invalidSubcommand => "InvalidSubcommand"
  | .unknownArgument => "UnknownArgument"
  | .tooManyValues => "TooManyValues"
  | .argumentConflict => "ArgumentConflict"

end UsageError

/-- An argument by its form. -/
inductive Form where
  /-- Two dashes alone: no flags follow. -/
  | endOfFlags
  /-- A flag by its name, and whether a value is attached to it. -/
  | long (name : String) (valued : Bool)
  /-- One-letter flags behind one dash. -/
  | short (letters : List Char)
  | word (w : String)

/-- The form of an argument; a dash alone is a word. -/
def formOf (argument : String) : Form :=
  match argument.toList with
  | ['-', '-'] => .endOfFlags
  | '-' :: '-' :: rest =>
    .long (String.ofList (rest.takeWhile (· != '='))) (rest.contains '=')
  | '-' :: c :: rest => .short (c :: rest)
  | _ => .word argument

/-- What a flag that is not the subcommand's own comes to: help, or an error. -/
def commonFlag (topic : Topic) : Form → UsageError
  | .long name valued =>
    if name = "help" then if valued then .tooManyValues else .help topic else .unknownArgument
  | .short ('h' :: _) => .help topic
  | _ => .unknownArgument

/-- Reads the flags of a subcommand: `allowed` are its flags and `given` those read so far.  No
words are taken. -/
def readFlags (topic : Topic) (allowed : List String) (given : List String) :
    List String → Except UsageError (List String)
  | [] => .ok given
  | argument :: rest =>
    match formOf argument with
    | .endOfFlags => if rest.isEmpty then .ok given else .error .unknownArgument
    | .long name valued =>
      if allowed.contains name then
        if valued then .error .tooManyValues
        else if given.contains name then .error .argumentConflict
        else readFlags topic allowed (name :: given) rest
      else .error (commonFlag topic (.long name valued))
    | form => .error (commonFlag topic form)

/-- The subcommands. -/
def subcommands : List String := ["symbols", "bench", "help"]

/-- Reads the names that follow the subcommand for help. -/
def readHelp : List String → UsageError
  | [] => .help .all
  | ["symbols"] => .help .symbols
  | ["bench"] => .help .bench
  | ["help"] => .help .help
  | _ => .invalidSubcommand

/-- Reads a command line. -/
def parse : List String → Except UsageError Request
  | [] => .error .missingSubcommand
  | argument :: rest =>
    match formOf argument with
    | .endOfFlags =>
      match rest with
      | [] => .error .missingSubcommand
      | word :: _ =>
        .error (if subcommands.contains word then .unknownArgument else .invalidSubcommand)
    | .word "symbols" => do
      let given ← readFlags .symbols ["json"] [] rest
      return .symbols (given.contains "json")
    | .word "bench" => do
      let given ← readFlags .bench ["quick", "report-only"] [] rest
      return .bench (given.contains "quick") (given.contains "report-only")
    | .word "help" => .error (readHelp rest)
    | .word _ => .error .invalidSubcommand
    | form => .error (commonFlag .all form)

/-- A request in words. -/
def Request.toText : Request → String
  | .symbols json => "symbols json=" ++ boolText json
  | .bench quick reportOnly =>
    "bench quick=" ++ boolText quick ++ " report_only=" ++ boolText reportOnly
where
  /-- A truth value in words. -/
  boolText (b : Bool) : String := if b then "true" else "false"

end OrderedAtomics.Command
