import Reservoir.Fault
import Reservoir.Text.Blank

/-!
The fields of a line of text: bare words between blanks, and quoted text that may hold
blanks but no quote.
-/

namespace Reservoir.Text

inductive Token where
  | bare (text : List Char)
  | quoted (text : List Char)
deriving DecidableEq, Repr

theorem length_dropWhile_le {α : Type} (p : α → Bool) (xs : List α) :
    (xs.dropWhile p).length ≤ xs.length :=
  (List.dropWhile_sublist p).length_le

def isQuote (c : Char) : Bool := c == '\''

def tokensOf (line : List Char) (rest : List Char) : Outcome (List Token) :=
  match _h : trimStart rest with
  | [] => .ok []
  | c :: cs =>
    if isQuote c then
      match _hq : cs.dropWhile (!isQuote ·) with
      | [] => reject (.openQuote (String.ofList line))
      | _ :: after => do
        let tokens ← tokensOf line after
        return .quoted (cs.takeWhile (!isQuote ·)) :: tokens
    else do
      let tokens ← tokensOf line (cs.dropWhile (!isBlank ·))
      return .bare (c :: cs.takeWhile (!isBlank ·)) :: tokens
termination_by rest.length
decreasing_by
  · have h₁ := length_dropWhile_le isBlank rest
    have h₂ := length_dropWhile_le (!isQuote ·) cs
    rw [show rest.dropWhile isBlank = c :: cs from _h] at h₁
    rw [_hq] at h₂
    simp only [List.length_cons] at h₁ h₂
    omega
  · have h₁ := length_dropWhile_le isBlank rest
    have h₂ := length_dropWhile_le (!isBlank ·) cs
    rw [show rest.dropWhile isBlank = c :: cs from _h] at h₁
    simp only [List.length_cons] at h₁
    omega

def tokenize (line : List Char) : Outcome (List Token) :=
  tokensOf line (dropTrailing isLineEnd line)

end Reservoir.Text
