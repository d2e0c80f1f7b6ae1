import TaggedRegex.CommandLine.Arguments
import TaggedRegex.Pattern

set_option autoImplicit false

/-!
What the command line prints for its inputs, and the code with which it ends.
-/

namespace TaggedRegex.CommandLine

/-- The text on standard output and the exit code. -/
structure Outcome where
  code : Nat
  output : String
  deriving DecidableEq

/-- The arguments cannot be understood. -/
def usageCode : Nat := 2

/-- The pattern or an input cannot be read. -/
def failureCode : Nat := 1

/-- A rule inside the program was broken. -/
def faultCode : Nat := 101

/-- Puts a byte in front of lines, each of which comes with whether a line feed ended it. -/
def addByte (byte : UInt8) (lines : List (List UInt8 × Bool)) : List (List UInt8 × Bool) :=
  if byte = 10 then ([], true) :: lines
  else
    match lines with
    | [] => [([byte], false)]
    | (line, ended) :: rest => (byte :: line, ended) :: rest

/-- Cuts bytes behind every line feed; bytes behind the last one are a line of their own. -/
def cutLines (bytes : List UInt8) : List (List UInt8 × Bool) := bytes.foldr addByte []

/-- A line as text, if it is UTF-8. A carriage return before the line feed belongs to the end of the
line. -/
def lineText? (line : List UInt8) (ended : Bool) : Option String :=
  let kept := if ended ∧ line.getLast? = some 13 then line.dropLast else line
  String.fromUTF8? ⟨kept.toArray⟩

/-- The lines of standard input; one that is not UTF-8 has no text. -/
def inputLines (bytes : ByteArray) : List (Option String) :=
  (cutLines bytes.toList).map fun (line, ended) => lineText? line ended

/-- The spans of a group with blanks between them. -/
def spansText (spans : List Span) : String := " ".intercalate (spans.map Span.text)

/-- The last span of a group, or the one that stands for an absent group. -/
def spanText (result : MatchResult) (group : Nat) : String :=
  match result.spanOf group with
  | .ok span => span.text
  | .error _ => Span.unset.text

/-- The line for an input: the input, the entire match, and the last span of every other group. -/
def summary (input : String) (result : MatchResult) : String :=
  let groups := (List.range result.groupCount).drop 1
  Text.quoteString input ++ ": " ++ result.text ++
    String.join (groups.map fun group => " " ++ toString group ++ ":" ++ spanText result group) ++
    "\n"

/-- A line for every group with all its spans. -/
def historyLines (result : MatchResult) : String :=
  String.join ((List.range result.groupCount).map fun group =>
    let spans := match result.history group with
      | .ok spans => spans
      | .error _ => []
    "  " ++ toString group ++ ": [" ++ spansText spans ++ "]\n")

/-- All that is printed for an input. -/
def report (options : Options) (input : String) (result : MatchResult) : String :=
  summary input result ++ if options.has .history then historyLines result else ""

/-- The texts printed for inputs, one after the other, and the exit code. An input without text
ends the program. -/
def reportAll (options : Options) (matcher : Matcher) : List (Option String) → Nat × List String
  | [] => (0, if options.has .dumpTable then [matcher.table.text] else [])
  | none :: _ => (failureCode, [])
  | some input :: rest =>
      match matcher.matchInput input with
      | .error _ => (faultCode, [])
      | .ok (result, matcher) =>
          let (code, texts) := reportAll options matcher rest
          (code, report options input result :: texts)

/-- Whether the inputs come from standard input. -/
def Options.readsInput (options : Options) : Bool := options.inputs.isEmpty

def Options.config (options : Options) : Config :=
  ⟨if options.has .search then .search else .full, !options.has .noMerge⟩

/-- Matches the inputs of the arguments or, if there are none, the lines of standard input. -/
def Options.outcome (options : Options) (stdin : ByteArray) : Outcome :=
  let inputs :=
    if options.readsInput then inputLines stdin else options.inputs.map some
  match Matcher.ofPattern options.pattern options.config with
  | .error _ => ⟨failureCode, ""⟩
  | .ok (.error _) => ⟨faultCode, ""⟩
  | .ok (.ok matcher) =>
      let (code, texts) := reportAll options matcher inputs
      ⟨code, String.join texts⟩

/-- The outcome for arguments and standard input. -/
def run (arguments : List String) (stdin : ByteArray) : Outcome :=
  match Options.ofArguments arguments with
  | .error _ => ⟨usageCode, ""⟩
  | .ok options => options.outcome stdin

end TaggedRegex.CommandLine
