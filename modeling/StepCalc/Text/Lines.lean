/-!
# Lines of text

A line ends at a line feed, before which one carriage return is left out. There is
no line after the last line feed.
-/

namespace StepCalc.Text

/-- A line whose end is marked, without the carriage return that may be part of the mark. -/
def withoutReturn (line : String) : String :=
  let cs := line.toList
  if cs.getLast? = some '\r' then String.ofList cs.dropLast else line

def lines (s : String) : List String :=
  let parts := s.splitOn "\n"
  parts.dropLast.map withoutReturn ++ (parts.getLast?.filter (· != "")).toList

end StepCalc.Text
