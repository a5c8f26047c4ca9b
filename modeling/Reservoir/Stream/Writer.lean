import Reservoir.Stream.Codec

/-!
Writing keywords one after another. Every piece is sent as soon as it is made, so a fault
leaves behind what was sent before it.
-/

namespace Reservoir

structure Output where
  bytes : Bytes
  fault : Option Fault
deriving DecidableEq, Repr

namespace Output

def ofOutcome : Outcome Bytes → Output
  | .ok bytes => ⟨bytes, none⟩
  | .error fault => ⟨[], some fault⟩

/-- One output after another; nothing follows a fault. -/
def append (first second : Output) : Output :=
  match first.fault with
  | none => ⟨first.bytes ++ second.bytes, second.fault⟩
  | some fault => ⟨first.bytes, some fault⟩

end Output

namespace Records

def sendFrames (order : ByteOrder) : List Bytes → Output
  | [] => ⟨[], none⟩
  | payload :: rest =>
    (Output.ofOutcome (Record.frame order payload)).append (sendFrames order rest)

def dataPayloads (order : ByteOrder) (k : Keyword) : List Bytes :=
  let sizes := (k.type.recordSizes k.count).map (· * k.type.size)
  (Lines.parts sizes k.payload).map (reorder order k.type)

def send (order : ByteOrder) (k : Keyword) : Output :=
  match k.header.toRecord order with
  | .error fault => ⟨[], some fault⟩
  | .ok header => sendFrames order (header :: dataPayloads order k)

end Records

def Encoding.send : Encoding → Keyword → Output
  | .text, k => ⟨Lines.encode k, none⟩
  | .binary order, k => Records.send order k

structure Writer where
  encoding : Encoding
  bytes : Bytes
  written : Nat
deriving DecidableEq, Repr

namespace Writer

def start (encoding : Encoding) : Writer := ⟨encoding, [], 0⟩

/-- Appends a keyword. After a fault the stream keeps what was sent, and the keyword does not
count. -/
def write (w : Writer) (k : Keyword) : Writer × Option Fault :=
  let output := w.encoding.send k
  let bytes := w.bytes ++ output.bytes
  match output.fault with
  | none => ({ w with bytes, written := w.written + 1 }, none)
  | some fault => ({ w with bytes }, some fault)

def writeAll (w : Writer) : List Keyword → Writer × Option Fault
  | [] => (w, none)
  | k :: ks =>
    match w.write k with
    | (w, none) => w.writeAll ks
    | (w, some fault) => (w, some fault)

end Writer

end Reservoir
