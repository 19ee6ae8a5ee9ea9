import Backfield.CommandLine.Similarity
import Backfield.Text.Quoted

/-!
# The command line

Which options there are, how arguments are read, and what is said about arguments that
make no sense.
-/

namespace Backfield.CommandLine

/-- What the program is called in messages about its use. -/
def usageName : String := "reactive-property-gen"

/-- What the paths are called there. -/
def pathsName : String := "PATHS..."

/-! ## Options -/

inductive Flag
  | force
  | noValidate
  | includeGenerated
  | simpleNames
  | dryRun
  | verbose
  | debug
  | help
  deriving DecidableEq, Repr

/-- An option that takes a value. -/
inductive Parameter
  | output
  | config
  deriving DecidableEq, Repr

inductive OptionKind
  | flag (f : Flag)
  | parameter (p : Parameter)
  deriving DecidableEq, Repr

structure OptionSpec where
  long : String
  short : Option Char := none
  kind : OptionKind
  /-- What stands for the value in the help text. -/
  valueName : String := ""
  help : String := ""

def options : List OptionSpec := [
  { long := "--output", short := some 'o', kind := .parameter .output, valueName := "DIRECTORY"
    help := "Directory for generated files" },
  { long := "--config", short := some 'c', kind := .parameter .config, valueName := "FILE" },
  { long := "--force", kind := .flag .force, help := "Overwrite existing generated files" },
  { long := "--no-validate", kind := .flag .noValidate
    help := "Write artifacts without parsing them first" },
  { long := "--include-generated", kind := .flag .includeGenerated
    help := "Also read *.g.cs input files" },
  { long := "--simple-names", kind := .flag .simpleNames
    help := "Name artifacts by simple type name only" },
  { long := "--dry-run", kind := .flag .dryRun
    help := "List the artifacts without writing them" },
  { long := "--verbose", short := some 'v', kind := .flag .verbose
    help := "Enable verbose output." },
  { long := "--debug", kind := .flag .debug, help := "Enable debug logging." },
  { long := "--help", kind := .flag .help, help := "Show this message and exit." }]

def longOption? (name : String) : Option OptionSpec := options.find? (·.long == name)

def shortOption? (name : Char) : Option OptionSpec := options.find? (·.short == some name)

/-! ## Faults -/

/-- What is wrong with a path that was given. -/
inductive PathFault
  | missing
  | isFile
  | isDirectory
  deriving DecidableEq, Repr

/-- Where a path was given. -/
inductive PathRole
  | output
  | config
  | source
  deriving DecidableEq, Repr

inductive UsageFault
  | noSuchOption (name : String) (similar : List String)
  | needsValue (name : String)
  | takesNoValue (name : String)
  | noPaths
  | badPath (role : PathRole) (text : String) (fault : PathFault)
  deriving DecidableEq, Repr

/-- Where a path was given, as a message calls it. -/
def PathRole.place : PathRole → String
  | output => "'--output' / '-o'"
  | config => "'--config' / '-c'"
  | source => "'" ++ pathsName ++ "'"

/-- What a path should lead to. -/
def PathRole.noun : PathRole → String
  | output => "Directory"
  | config => "File"
  | source => "Path"

def PathFault.text : PathFault → String
  | missing => "does not exist."
  | isFile => "is a file."
  | isDirectory => "is a directory."

/-- Options that may have been meant. -/
def suggestion : List String → String
  | [] => ""
  | [one] => " Did you mean " ++ one ++ "?"
  | several =>
    " (Possible options: " ++ ", ".intercalate (several.mergeSort fun a b => decide (a ≤ b)) ++ ")"

def UsageFault.message : UsageFault → String
  | noSuchOption name similar => "No such option: " ++ name ++ suggestion similar
  | needsValue name => "Option " ++ Text.quoted name ++ " requires an argument."
  | takesNoValue name => "Option " ++ Text.quoted name ++ " does not take a value."
  | noPaths => "Missing argument '" ++ pathsName ++ "'."
  | badPath role text fault =>
    "Invalid value for " ++ role.place ++ ": " ++ role.noun ++ " " ++ Text.quoted text ++ " " ++
      fault.text

/-! ## Reading arguments -/

/-- What the arguments say, in the order in which they say it. -/
structure Arguments where
  flags : List Flag := []
  values : List (Parameter × String) := []
  paths : List String := []
  deriving DecidableEq, Repr

/-- An option whose value is the next argument, under the name that it was given by. -/
abbrev Pending := Option (Parameter × String)

def Arguments.addFlag (a : Arguments) (f : Flag) : Arguments := { a with flags := a.flags ++ [f] }

def Arguments.addValue (a : Arguments) (p : Parameter) (value : String) : Arguments :=
  { a with values := a.values ++ [(p, value)] }

/-- Reads an option that begins with two dashes, with its value if one is attached. -/
def readLong (a : Arguments) (name : String) (value : Option String) :
    Except UsageFault (Arguments × Pending) :=
  match longOption? name with
  | none => .error (.noSuchOption name (Similarity.closest (options.map (·.long)) name))
  | some spec =>
    match spec.kind, value with
    | .flag f, none => .ok (a.addFlag f, none)
    | .flag _, some _ => .error (.takesNoValue name)
    | .parameter p, some value => .ok (a.addValue p value, none)
    | .parameter p, none => .ok (a, some (p, name))

/-- Reads the letters after a single dash: flags, and perhaps an option, whose value is
what follows its letter. -/
def readShort (a : Arguments) : List Char → Except UsageFault (Arguments × Pending)
  | [] => .ok (a, none)
  | c :: rest =>
    let name := String.ofList ['-', c]
    match shortOption? c with
    | none => .error (.noSuchOption name [])
    | some spec =>
      match spec.kind with
      | .flag f => readShort (a.addFlag f) rest
      | .parameter p =>
        if rest.isEmpty then .ok (a, some (p, name))
        else .ok (a.addValue p (String.ofList rest), none)

/-- The part of an argument before its first equals sign, and what follows the sign. -/
def splitValue (arg : List Char) : String × Option String :=
  match arg.dropWhile (· != '=') with
  | [] => (String.ofList arg, none)
  | _ :: value => (String.ofList (arg.takeWhile (· != '=')), some (String.ofList value))

/-- Reads one argument that is no value of the option before. -/
def readArgument (a : Arguments) (arg : String) : Except UsageFault (Arguments × Pending) :=
  match arg.toList with
  | '-' :: '-' :: rest =>
    let (name, value) := splitValue ('-' :: '-' :: rest)
    readLong a name value
  | '-' :: c :: rest => readShort a (c :: rest)
  | _ => .ok ({ a with paths := a.paths ++ [arg] }, none)

/-- Reads the arguments.  After two dashes alone everything is a path. -/
def readArguments (a : Arguments) : Pending → List String → Except UsageFault Arguments
  | none, [] => .ok a
  | some (_, name), [] => .error (.needsValue name)
  | some (p, _), value :: rest => readArguments (a.addValue p value) none rest
  | none, arg :: rest =>
    if arg == "--" then .ok { a with paths := a.paths ++ rest }
    else do
      let (a, pending) ← readArgument a arg
      readArguments a pending rest

/-- The arguments of a command line. -/
def parse (args : List String) : Except UsageFault Arguments := readArguments {} none args

/-- The value that counts if an option was given several times: the last one. -/
def Arguments.value? (a : Arguments) (p : Parameter) : Option String :=
  (a.values.filter (·.1 = p)).getLast?.map (·.2)

/-! ## Texts -/

def usageLine : String := "Usage: " ++ usageName ++ " [OPTIONS] " ++ pathsName

/-- What is printed for arguments that make no sense. -/
def UsageFault.report (fault : UsageFault) : String :=
  usageLine ++ "\nTry '" ++ usageName ++ " --help' for help.\n\nError: " ++ fault.message ++ "\n"

/-- An option as the help text shows it. -/
def OptionSpec.usage (spec : OptionSpec) : String :=
  let names :=
    match spec.short with
    | some c => "-" ++ c.toString ++ ", " ++ spec.long
    | none => spec.long
  if spec.valueName == "" then names else names ++ " " ++ spec.valueName

/-- Fills a text with spaces up to a width. -/
def fill (width : Nat) (text : String) : String :=
  text ++ String.ofList (List.replicate (width - text.length) ' ')

/-- The help line of an option, with the first column of the given width. -/
def OptionSpec.helpLine (width : Nat) (spec : OptionSpec) : String :=
  "  " ++ (if spec.help == "" then spec.usage else fill (width + 2) spec.usage ++ spec.help)

def helpText : String :=
  let width := (options.map (·.usage.length)).foldl max 0
  usageLine ++ "\n\nOptions:\n" ++
    String.join (options.map fun spec => spec.helpLine width ++ "\n")

end Backfield.CommandLine
