set_option autoImplicit false

/-!
The arguments of the command line.
-/

namespace TaggedRegex.CommandLine

/-- The options that are either given or not. -/
inductive Flag where
  /-- Find the first match anywhere in an input. -/
  | search
  /-- Keep equivalent states apart. -/
  | noMerge
  /-- Show the compiled transitions after matching. -/
  | dumpTable
  /-- Show all spans of every group. -/
  | history
  deriving DecidableEq

/-- The flag with this name. -/
def Flag.ofName? (name : String) : Option Flag :=
  if name = "search" then some .search
  else if name = "no-merge" then some .noMerge
  else if name = "dump-table" then some .dumpTable
  else if name = "history" then some .history
  else none

/-- The name of the option that takes a value. -/
def filterName : String := "log-filter"

inductive UsageError where
  | unknownOption (argument : String)
  | repeatedOption (argument : String)
  | unexpectedValue (argument : String)
  | missingValue (argument : String)
  | noPattern
  deriving DecidableEq

def UsageError.message : UsageError → String
  | .unknownOption argument => "unexpected argument " ++ argument
  | .repeatedOption argument => argument ++ " cannot be used multiple times"
  | .unexpectedValue argument => "unexpected value in " ++ argument
  | .missingValue argument => "a value is required for " ++ argument
  | .noPattern => "the pattern is missing"

/-- The arguments in their roles. -/
structure Arguments where
  flags : List Flag
  filter : Option String
  words : List String

namespace Arguments

def none : Arguments := ⟨[], .none, []⟩

/-- A flag can be given once. -/
def addFlag (arguments : Arguments) (argument : String) (flag : Flag) :
    Except UsageError Arguments :=
  if flag ∈ arguments.flags then .error (.repeatedOption argument)
  else .ok { arguments with flags := flag :: arguments.flags }

/-- The log filter can be given once. -/
def addFilter (arguments : Arguments) (argument value : String) : Except UsageError Arguments :=
  match arguments.filter with
  | some _ => .error (.repeatedOption argument)
  | .none => .ok { arguments with filter := some value }

def addWords (arguments : Arguments) (words : List String) : Arguments :=
  { arguments with words := arguments.words ++ words }

end Arguments

/-- An argument, by its first characters. -/
inductive Shape where
  /-- Ends the options. -/
  | dashes
  /-- An option, and the value behind its equals sign. -/
  | long (name : String) (value : Option String)
  /-- Anything else behind a dash. -/
  | short
  | word

/-- An option has two dashes in front. A dash alone is a word. -/
def Shape.ofArgument (argument : String) : Shape :=
  match argument.toList with
  | ['-', '-'] => .dashes
  | '-' :: '-' :: chars =>
      let name := String.ofList (chars.takeWhile fun c => c ≠ '=')
      match chars.dropWhile fun c => c ≠ '=' with
      | [] => .long name none
      | _ :: value => .long name (some (String.ofList value))
  | '-' :: _ :: _ => .short
  | _ => .word

/-- Sorts arguments into their roles. Options may stand anywhere before two lone dashes. -/
def scan (given : Arguments) : List String → Except UsageError Arguments
  | [] => .ok given
  | argument :: rest =>
      match Shape.ofArgument argument with
      | .dashes => .ok (given.addWords rest)
      | .word => scan (given.addWords [argument]) rest
      | .short => .error (.unknownOption argument)
      | .long name value? =>
          match Flag.ofName? name, value? with
          | some flag, none =>
              match given.addFlag argument flag with
              | .ok given => scan given rest
              | .error error => .error error
          | some _, some _ => .error (.unexpectedValue argument)
          | none, some value =>
              if name = filterName then
                match given.addFilter argument value with
                | .ok given => scan given rest
                | .error error => .error error
              else .error (.unknownOption argument)
          | none, none =>
              if name = filterName then
                match rest with
                | [] => .error (.missingValue argument)
                | value :: rest =>
                    match Shape.ofArgument value with
                    | .word =>
                        match given.addFilter argument value with
                        | .ok given => scan given rest
                        | .error error => .error error
                    | _ => .error (.missingValue argument)
              else .error (.unknownOption argument)

/-- What the command line asks for. The log filter changes nothing that is printed. -/
structure Options where
  flags : List Flag
  pattern : String
  inputs : List String

namespace Options

/-- The first word is the pattern and the others are the inputs. -/
def ofArguments (arguments : List String) : Except UsageError Options :=
  match scan .none arguments with
  | .error error => .error error
  | .ok given =>
      match given.words with
      | [] => .error .noPattern
      | pattern :: inputs => .ok ⟨given.flags, pattern, inputs⟩

/-- Whether a flag was given. -/
def has (options : Options) (flag : Flag) : Bool := decide (flag ∈ options.flags)

end Options

end TaggedRegex.CommandLine
