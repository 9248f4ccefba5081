import MarkdownEdits.Whitespace

/-!
# Task markers

A list item is a task when its first text begins with a box in square brackets, empty or with an
x in it, and a blank character behind it. The marker takes all blank characters that follow.
-/
namespace MarkdownEdits.TaskMarkers

/-- The characters after a task marker, if one stands at the front. -/
def afterMarker? : List Char → Option (List Char)
  | '[' :: c :: ']' :: b :: rest =>
    if (c = ' ' || c = 'x' || c = 'X') && Whitespace.isBlank b then
      some (rest.dropWhile Whitespace.isBlank)
    else none
  | _ => none

/-- The text after a task marker, if it begins with one. -/
def strip? (text : String) : Option String := (afterMarker? text.toList).map String.ofList

end MarkdownEdits.TaskMarkers
