import BytecodeIR.Text.Blank
/-!
Lines of a text.

A line ends at a line feed, and a carriage return right before the line feed belongs to the line
end.  What follows the last line feed is a line of its own unless it is empty.
-/

namespace BytecodeIR.Text

/-- Cuts a text after each line feed; every piece but the last ends in one. -/
def splitAfterFeed : List Char → List (List Char)
  | [] => []
  | c :: rest =>
    if c = '\n' then [c] :: splitAfterFeed rest
    else
      match splitAfterFeed rest with
      | [] => [[c]]
      | line :: lines => (c :: line) :: lines

/-- Nothing is lost in cutting a text into lines. -/
@[simp] theorem flatten_splitAfterFeed (cs : List Char) : (splitAfterFeed cs).flatten = cs := by
  induction cs with
  | nil => rfl
  | cons c rest ih =>
    unfold splitAfterFeed
    split
    · simp [ih]
    · split
      · rename_i h
        rw [h] at ih
        simpa using ih
      · rename_i h
        rw [h] at ih
        simpa using ih

/-- A line without its end: the line feed, and a carriage return before it. -/
def dropLineEnd (line : List Char) : List Char :=
  if line.getLast? = some '\n' then
    let body := line.dropLast
    if body.getLast? = some '\r' then body.dropLast else body
  else line

/-- The lines of a text, without their ends. -/
def lines (text : String) : List String :=
  (splitAfterFeed text.toList).map fun line => String.ofList (dropLineEnd line)

/-- A text without the blanks at its start. -/
def trimStart (text : String) : String := String.ofList (text.toList.dropWhile isBlank)

/-- Whether a text consists of blanks alone. -/
def isBlankText (text : String) : Bool := text.toList.all isBlank

end BytecodeIR.Text
