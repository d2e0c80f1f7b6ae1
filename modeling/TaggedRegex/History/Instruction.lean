import TaggedRegex.Ident

set_option autoImplicit false

/-!
What a transition does to the histories of a match.
-/

namespace TaggedRegex

/-- One effect on the histories. A list of them runs in order, and a later one may read what an
earlier one wrote. -/
inductive Instruction where
  /-- The head becomes the current position plus an offset. -/
  | set (history : HistoryId) (offset : Int)
  /-- One history becomes a copy of another. -/
  | copy (target source : HistoryId)
  /-- The head, at which a group begins, joins the committed values. -/
  | commitStart (history : HistoryId)
  /-- The head, at which a group ends, joins the committed values. -/
  | commitEnd (history : HistoryId)
  /-- The history holds nothing any more. -/
  | reset (history : HistoryId)
  deriving DecidableEq

namespace Instruction

/-- An offset with its sign; none is written for zero. -/
def offsetText (offset : Int) : String :=
  if offset = 0 then "" else if offset < 0 then toString offset else "+" ++ toString offset

def text : Instruction → String
  | .set history offset => history.text ++ "<-pos" ++ offsetText offset
  | .copy target source => target.text ++ "<-" ++ source.text
  | .commitStart history => "c↑" ++ history.text
  | .commitEnd history => "c↓" ++ history.text
  | .reset history => "reset " ++ history.text

/-- The instructions in brackets, separated by commas. -/
def listText (instructions : List Instruction) : String :=
  "[" ++ ", ".intercalate (instructions.map text) ++ "]"

end Instruction

end TaggedRegex
