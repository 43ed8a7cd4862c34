/-!
# Lines of a text

A line ends with a line feed, and a carriage return in front of the line feed ends with it; the last
line may end with the text.
-/

namespace SecureGroup.Text

def lineChars : List Char → List (List Char)
  | [] => []
  | '\n' :: cs => [] :: lineChars cs
  | '\r' :: '\n' :: cs => [] :: lineChars cs
  | c :: cs => match lineChars cs with
    | [] => [[c]]
    | line :: rest => (c :: line) :: rest

def lines (s : String) : List String := (lineChars s.toList).map String.ofList

end SecureGroup.Text
