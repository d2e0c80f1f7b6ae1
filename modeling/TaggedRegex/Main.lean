import TaggedRegex.CommandLine.Report

set_option autoImplicit false

/-!
The program: it matches inputs against a pattern and prints the captured spans.
-/

namespace TaggedRegex.CommandLine

/-- All bytes that are left in a stream. -/
partial def readAllFrom (stream : IO.FS.Stream) (read : ByteArray) : IO ByteArray := do
  let bytes ← stream.read 65536
  if bytes.isEmpty then return read else readAllFrom stream (read ++ bytes)

/-- Runs the command line. Standard input is read only if the inputs come from there. -/
def answer (arguments : List String) : IO UInt32 := do
  match Options.ofArguments arguments with
  | .error error =>
      IO.eprintln ("error: " ++ error.message)
      return usageCode.toUInt32
  | .ok options =>
      let stdin ← if options.readsInput then readAllFrom (← IO.getStdin) .empty else pure .empty
      let outcome := options.outcome stdin
      IO.print outcome.output
      return outcome.code.toUInt32

end TaggedRegex.CommandLine

def main (arguments : List String) : IO UInt32 := TaggedRegex.CommandLine.answer arguments
