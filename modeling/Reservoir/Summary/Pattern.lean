import Reservoir.Fault
import Reservoir.Text.Regex

/-!
Patterns for keys. A star stands for any run of characters and a question mark for any one
character; neither covers a line feed. Every other character stands for itself. A pattern is made
a regular expression between both ends of a key.
-/

namespace Reservoir.Pattern

def piece (escape : Char → String) : Char → String
  | '*' => ".*"
  | '?' => "."
  | c => escape c

def source (escape : Char → String) (pattern : String) : String :=
  "^" ++ String.join (pattern.toList.map (piece escape)) ++ "$"

def compile (library : Regex.Library) (pattern : String) : Outcome (String → Bool) :=
  match library.compile (source library.escape pattern) with
  | .ok isMatch => .ok isMatch
  | .error reason => reject (.keyPattern pattern reason)

end Reservoir.Pattern
