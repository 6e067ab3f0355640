/-!
# Joining and splitting text

`Text.join` puts a separator between parts.  `Text.split` cuts a text at every occurrence of a
separator, reading from the left; occurrences do not overlap.  Nothing is escaped: a part that
holds the separator is cut too.
-/

namespace DualView.Text

/-- The parts of a text between the occurrences of `sep`, which is not empty.  The first `skip`
characters are the rest of an occurrence already found. -/
def pieces (sep : List Char) : Nat → List Char → List (List Char)
  | _, [] => [[]]
  | skip + 1, _ :: rest => pieces sep skip rest
  | 0, c :: rest =>
    if sep.isPrefixOf (c :: rest) then
      [] :: pieces sep (sep.length - 1) rest
    else
      (pieces sep 0 rest).modifyHead (c :: ·)

/-- The parts of `text` between the occurrences of `sep`, which is not empty. -/
def split (sep text : String) : List String :=
  (pieces sep.toList 0 text.toList).map String.ofList

/-- The parts with `sep` between them. -/
def join (sep : String) (parts : List String) : String := sep.intercalate parts

end DualView.Text
