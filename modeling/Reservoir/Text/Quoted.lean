import Reservoir.Text.Number
import Reservoir.Text.Printable

/-!
Values quoted in messages: text between double quotes with the characters that cannot be
shown written as escapes, lists between brackets and triples between parentheses.
-/

namespace Reservoir.Text

def escape (c : Char) : List Char :=
  match c with
  | '"' => ['\\', '"']
  | '\\' => ['\\', '\\']
  | '\n' => ['\\', 'n']
  | '\r' => ['\\', 'r']
  | '\t' => ['\\', 't']
  | '\x00' => ['\\', '0']
  | c =>
    if isPrintable c then [c]
    else ['\\', 'u', '\x7b'] ++ hex c.toNat ++ ['\x7d']

def quoted (s : String) : String :=
  String.ofList ('"' :: s.toList.flatMap escape ++ ['"'])

def bracketed (items : List String) : String :=
  "[" ++ ", ".intercalate items ++ "]"

def triple (x y z : Nat) : String :=
  s!"({x}, {y}, {z})"

def offset (n : Nat) : String :=
  "0x" ++ String.ofList (hex n)

end Reservoir.Text
