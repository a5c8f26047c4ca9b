import Reservoir.Text.Utf8

/-!
Classes of summary variables. The first letters of a keyword tell what it is measured on;
some keywords are known by name. Places within a keyword count bytes.
-/

namespace Reservoir

inductive VariableClass where
  | aquifer
  | block
  | completion
  | field
  | group
  | localBlock
  | localCompletion
  | localWell
  | misc
  | network
  | region
  | regionToRegion
  | segment
  | well
deriving DecidableEq, Repr

namespace VariableClass

def name : VariableClass → String
  | aquifer => "aquifer"
  | block => "block"
  | completion => "completion"
  | field => "field"
  | group => "group"
  | localBlock => "local block"
  | localCompletion => "local completion"
  | localWell => "local well"
  | misc => "misc"
  | network => "network"
  | region => "region"
  | regionToRegion => "region to region"
  | segment => "segment"
  | well => "well"

def runKeywords : List String := [
  "NAIMFRAC", "NBAKFL", "NBYTOT", "NCPRLINS", "NEWTFL", "NEWTON", "NLINEARP", "NLINEARS",
  "NLINSMAX", "NLINSMIN", "NLRESMAX", "NLRESSUM", "NMESSAGE", "NNUMFL", "NNUMST", "NTS",
  "NTSECL", "NTSMCL", "NTSPCL", "ELAPSED", "MAXDPR", "MAXDSO", "MAXDSG", "MAXDSW",
  "STEPTYPE", "WNEWTON"]

/-- A region keyword names a flow between regions if it says so after two or three bytes, or
as a whole; one keyword that says so does not. -/
def isFlow (keyword : List Char) : Bool :=
  Text.endsWith "F" 2 keyword || keyword == "RNLF".toList
    || keyword != "RORFR".toList
      && ([2, 3].any fun offset =>
        Text.continuesWith "FT" offset keyword || Text.continuesWith "FR" offset keyword)

def ofLetters : List Char → VariableClass
  | 'A' :: _ => aquifer
  | 'B' :: _ => block
  | 'C' :: _ => completion
  | 'F' :: _ => field
  | 'G' :: _ => group
  | 'L' :: 'B' :: _ => localBlock
  | 'L' :: 'C' :: _ => localCompletion
  | 'L' :: 'W' :: _ => localWell
  | 'N' :: _ => network
  | 'R' :: rest => if isFlow ('R' :: rest) then regionToRegion else region
  | 'S' :: _ => segment
  | 'W' :: _ => well
  | _ => misc

def ofKeyword (key : String) : VariableClass :=
  let keyword := key.toList.takeWhile (· != ':')
  if runKeywords.contains (String.ofList keyword) then misc else ofLetters keyword

def hasOwner : VariableClass → Bool
  | well | group | completion | segment | network | localWell | localCompletion => true
  | aquifer | block | field | localBlock | misc | region | regionToRegion => false

def isLocal : VariableClass → Bool
  | localBlock | localCompletion | localWell => true
  | aquifer | block | completion | field | group | misc | network | region | regionToRegion
  | segment | well => false

end VariableClass

end Reservoir
