import Reservoir.Summary.VariableClass

/-!
What a keyword measures: rates, totals, or neither. After the letters of its class a keyword
starts with the name of a quantity; a longer keyword may go on from there.
-/

namespace Reservoir

namespace Quantity

def rates : List String := [
  "OPR", "OIR", "OVPR", "OVIR", "OFR", "OPP", "OPI", "OMR", "GPR", "GIR", "GVPR", "GVIR",
  "GFR", "GPP", "GPI", "GMR", "WGPR", "WGIR", "WPR", "WIR", "WVPR", "WVIR", "WFR", "WPP",
  "WPI", "WMR", "LPR", "LFR", "VPR", "VIR", "VFR", "GLIR", "RGR", "EGR", "EXGR", "SGR", "GSR",
  "FGR", "GIMR", "GCR", "NPR", "NIR", "CPR", "CIR", "SIR", "SPR", "TIR", "TPR", "GOR", "WCT",
  "OGR", "WGR", "GLR"]

def segmentRates : List String := [
  "OFR", "GFR", "WFR", "CFR", "SFR", "TFR", "CVPR", "WCT", "GOR", "OGR", "WGR"]

def totals : List String := [
  "OPT", "OIT", "OVPT", "OVIT", "OMT", "GPT", "GIT", "GVPT", "GVIT", "GMT", "WGPT", "WGIT",
  "WPT", "WIT", "WVPT", "WVIT", "WMT", "LPT", "VPT", "VIT", "RGT", "EGT", "EXGT", "SGT",
  "GST", "FGT", "GIMT", "GCT", "NPT", "NIT", "CPT", "CIT", "SIT", "SPT", "TIT", "TPT"]

def segmentTotals : List String := ["OFT", "GFT", "WFT"]

def namedAt (offset : Nat) (names : List String) (keyword : String) : Bool :=
  names.any fun name => Text.continuesWith name offset keyword.toList

end Quantity

namespace VariableClass

/-- Whether a keyword of this class measures a rate, which holds over the time up to its
report. -/
def isRate (keyword : String) : VariableClass → Bool
  | localWell | localCompletion | network => Quantity.namedAt 2 Quantity.rates keyword
  | well | group | field | region | completion => Quantity.namedAt 1 Quantity.rates keyword
  | segment => Quantity.namedAt 1 Quantity.segmentRates keyword
  | regionToRegion => [2, 3].any fun offset => Quantity.namedAt offset ["FR"] keyword
  | aquifer | block | localBlock | misc => false

def isTotal (keyword : String) : VariableClass → Bool
  | localWell | localCompletion => Quantity.namedAt 2 Quantity.totals keyword
  | well | group | field | region | completion => Quantity.namedAt 1 Quantity.totals keyword
  | segment => Quantity.namedAt 1 Quantity.segmentTotals keyword
  | regionToRegion => [2, 3].any fun offset => Quantity.namedAt offset ["FT"] keyword
  | aquifer | block | localBlock | misc | network => false

/-- Whether a keyword of this class tells what was observed, not what was computed. -/
def isHistorical (keyword : String) : VariableClass → Bool
  | well | group | field => keyword.toList.getLast? == some 'H'
  | _ => false

end VariableClass

end Reservoir
