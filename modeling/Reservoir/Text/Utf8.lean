import Reservoir.Bytes

/-!
UTF-8. Bytes are cut into pieces, each a character or a longest run that starts one and
breaks off. Strict decoding wants characters only; lenient decoding shows each broken run
as the replacement character.
-/

namespace Reservoir.Text

/-- What a first byte announces: its part of the code point, how many bytes follow, and the
range of the next one. -/
structure Lead where
  bits : Nat
  tails : Nat
  low : UInt8
  high : UInt8

def lead? (b : UInt8) : Option Lead :=
  let n := b.toNat
  if n < 0x80 then some ⟨n, 0, 0x80, 0xbf⟩
  else if n < 0xc2 then none
  else if n < 0xe0 then some ⟨n % 0x20, 1, 0x80, 0xbf⟩
  else if n < 0xf0 then
    some ⟨n % 0x10, 2, if n == 0xe0 then 0xa0 else 0x80, if n == 0xed then 0x9f else 0xbf⟩
  else if n < 0xf5 then
    some ⟨n % 0x8, 3, if n == 0xf0 then 0x90 else 0x80, if n == 0xf4 then 0x8f else 0xbf⟩
  else none

def readTails : Nat → UInt8 → UInt8 → Nat → Bytes → Option Char × Bytes
  | 0, _, _, value, rest => (some (Char.ofNat value), rest)
  | _ + 1, _, _, _, [] => (none, [])
  | tails + 1, low, high, value, b :: rest =>
    if low ≤ b && b ≤ high then readTails tails 0x80 0xbf (value * 64 + b.toNat % 64) rest
    else (none, b :: rest)

theorem length_readTails_le (tails : Nat) (low high : UInt8) (value : Nat) (bs : Bytes) :
    (readTails tails low high value bs).2.length ≤ bs.length := by
  fun_induction readTails tails low high value bs with
  | case1 => exact Nat.le_refl _
  | case2 => exact Nat.le_refl _
  | case3 _ _ _ _ _ _ _ ih => exact Nat.le_succ_of_le ih
  | case4 => exact Nat.le_refl _

def readPiece (b : UInt8) (rest : Bytes) : Option Char × Bytes :=
  match lead? b with
  | some lead => readTails lead.tails lead.low lead.high lead.bits rest
  | none => (none, rest)

theorem length_readPiece_le (b : UInt8) (rest : Bytes) :
    (readPiece b rest).2.length ≤ rest.length := by
  unfold readPiece
  split
  · exact length_readTails_le ..
  · exact Nat.le_refl _

/-- The characters of a byte string, with nothing for each broken run. -/
def pieces : Bytes → List (Option Char)
  | [] => []
  | b :: rest => (readPiece b rest).1 :: pieces (readPiece b rest).2
termination_by bs => bs.length
decreasing_by exact Nat.lt_succ_of_le (length_readPiece_le b rest)

theorem pieces_cons_of_lt {b : UInt8} (h : b.toNat < 0x80) (rest : Bytes) :
    pieces (b :: rest) = some (Char.ofNat b.toNat) :: pieces rest := by
  have hp : readPiece b rest = (some (Char.ofNat b.toNat), rest) := by
    simp [readPiece, lead?, h, readTails]
  rw [pieces, hp]

def decodeUtf8? (bs : Bytes) : Option (List Char) := (pieces bs).mapM id

def decodeLenient (bs : Bytes) : List Char :=
  (pieces bs).map fun piece => piece.getD '\ufffd'

def encodeUtf8 (cs : List Char) : Bytes := cs.flatMap String.utf8EncodeChar

/-- Cuts after `width` bytes of the encoded text; nothing if that is inside a character. -/
def splitAtByte? : Nat → List Char → Option (List Char × List Char)
  | 0, cs => some ([], cs)
  | _ + 1, [] => none
  | width + 1, c :: cs =>
    if c.utf8Size ≤ width + 1 then
      (splitAtByte? (width + 1 - c.utf8Size) cs).map fun (front, back) => (c :: front, back)
    else none
termination_by _ cs => cs.length

def continuesWith (part : String) (offset : Nat) (cs : List Char) : Bool :=
  match splitAtByte? offset cs with
  | some (_, tail) => part.toList.isPrefixOf tail
  | none => false

def endsWith (part : String) (offset : Nat) (cs : List Char) : Bool :=
  match splitAtByte? offset cs with
  | some (_, tail) => part.toList == tail
  | none => false

end Reservoir.Text
