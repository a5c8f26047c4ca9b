/-!
Regular expressions, as far as keys are matched with them: characters, the repetition of one, and
both ends of a text. An expression is written out, read into its parts, and searched for in a text.
-/

namespace Reservoir.Regex

inductive Atom where
  | any
  | exactly (c : Char)
deriving DecidableEq, Repr

def Atom.accepts : Atom → Char → Bool
  | any, c => c != '\n'
  | exactly d, c => c == d

inductive Part where
  | start
  | stop
  | once (a : Atom)
  | many (a : Atom)
deriving DecidableEq, Repr

inductive Token where
  | start
  | stop
  | star
  | atom (a : Atom)
deriving DecidableEq, Repr

def isMeta (c : Char) : Bool :=
  ['\\', '.', '+', '*', '?', '(', ')', '|', '[', ']', '{', '}', '^', '$', '#', '&', '-',
    '~'].contains c

def escape (c : Char) : String :=
  .ofList (if isMeta c then ['\\', c] else [c])

def token? : Char → Option Token
  | '^' => some .start
  | '$' => some .stop
  | '*' => some .star
  | '.' => some (.atom .any)
  | c => if isMeta c then none else some (.atom (.exactly c))

def tokens? : List Char → Option (List Token)
  | [] => some []
  | '\\' :: c :: rest =>
    if isMeta c then do return .atom (.exactly c) :: (← tokens? rest) else none
  | c :: rest => do return (← token? c) :: (← tokens? rest)

def parts? : List Token → Option (List Part)
  | [] => some []
  | .start :: rest => do return .start :: (← parts? rest)
  | .stop :: rest => do return .stop :: (← parts? rest)
  | .atom a :: .star :: rest => do return .many a :: (← parts? rest)
  | .atom a :: rest => do return .once a :: (← parts? rest)
  | .star :: _ => none

-- Flags tell for a text and each of its tails whether parts match at its front; the text itself
-- may be at its start, the tails behind its first character are not.

def flagsOnce (a : Atom) : List Char → List Bool → List Bool
  | c :: text, _ :: flags => (a.accepts c && flags.headD false) :: flagsOnce a text flags
  | _, _ => [false]

def flagsMany (a : Atom) : List Char → List Bool → List Bool
  | c :: text, flag :: flags =>
    let rest := flagsMany a text flags
    (flag || a.accepts c && rest.headD false) :: rest
  | _, flags => flags

def flagsStop : List Char → List Bool → List Bool
  | _ :: text, _ :: flags => false :: flagsStop text flags
  | _, flags => flags

def flagsStart (atStart : Bool) : List Bool → List Bool
  | flag :: flags => (atStart && flag) :: flags.map fun _ => false
  | [] => []

def flags (atStart : Bool) (text : List Char) : List Part → List Bool
  | [] => text.map (fun _ => true) ++ [true]
  | .start :: parts => flagsStart atStart (flags atStart text parts)
  | .stop :: parts => flagsStop text (flags atStart text parts)
  | .once a :: parts => flagsOnce a text (flags atStart text parts)
  | .many a :: parts => flagsMany a text (flags atStart text parts)

def occurs (parts : List Part) (text : List Char) : Bool := (flags true text parts).any id

/-- What a library of regular expressions is used for. -/
structure Library where
  escape : Char → String
  /-- The test of an expression, or why it has none. -/
  compile : String → Except String (String → Bool)

def compile (source : String) : Except String (String → Bool) :=
  match (tokens? source.toList).bind parts? with
  | some parts => .ok fun text => occurs parts text.toList
  | none => .error "unsupported expression"

def library : Library := ⟨escape, compile⟩

end Reservoir.Regex
