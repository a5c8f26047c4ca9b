import Mathlib.Tactic.Linarith
import Reservoir.Proofs.Text.Tokens
import Reservoir.Summary.Variable

/-!
What the keys of variables tell. The parts of a key are kept apart by its separator, so a key gives
back its keyword and with it the class, which says what the other parts are; a cell gives back its
number and a pair of regions theirs.
-/

namespace Reservoir

open Text

theorem intercalate_inj {c : Char} {xs ys : List String} (hxs : ∀ x ∈ xs, c ∉ x.toList)
    (hys : ∀ y ∈ ys, c ∉ y.toList) (hx : xs ≠ []) (hy : ys ≠ [])
    (h : (String.ofList [c]).intercalate xs = (String.ofList [c]).intercalate ys) : xs = ys := by
  have hsplit : ∀ zs : List String, (∀ z ∈ zs, c ∉ z.toList) → zs ≠ [] →
      List.splitOn c ((String.ofList [c]).intercalate zs).toList = zs.map String.toList := by
    intro zs hzs hne
    rw [String.toList_intercalate, String.toList_ofList]
    exact List.splitOn_intercalate c (by simpa using hzs) (by simpa using hne)
  have hmap := (hsplit xs hxs hx).symm.trans
    ((congrArg _ (congrArg String.toList h)).trans (hsplit ys hys hy))
  exact List.map_injective_iff.2 (fun _ _ => String.toList_inj.1) hmap

namespace Extent

theorem number_of_address? {e : Extent} {number : Int} {a : CellAddress}
    (h : e.address? number = some a) :
    number = a.i + (a.j - 1) * e.nx + (a.k - 1) * (e.nx * e.ny) := by
  obtain ⟨located, hlocated, hwords⟩ := Option.bind_eq_some_iff.1 h
  obtain ⟨-, rfl⟩ := CellAddress.inWords?_eq_some.1 hwords
  obtain ⟨-, -, rfl⟩ := locate?_eq_some.1 hlocated
  have hlayer := Int.emod_add_mul_ediv (number - 1) (e.nx * e.ny)
  have hrow := Int.emod_add_mul_ediv ((number - 1) % (e.nx * e.ny)) e.nx
  simp only [add_sub_cancel_right]
  linarith

end Extent

theorem comma_ne_digitChar : ∀ d < 10, ',' ≠ digitChar d := by
  decide

theorem dash_ne_digitChar : ∀ d < 10, '-' ≠ digitChar d := by
  decide

theorem colon_ne_digitChar : ∀ d < 10, ':' ≠ digitChar d := by
  decide

namespace CellAddress

theorem toList_text (a : CellAddress) : a.text.toList = signedDecimal a.i ++ ',' ::
    (signedDecimal a.j ++ ',' :: signedDecimal a.k) := by
  rw [text, String.toList_ofList, List.append_assoc, List.cons_append]

theorem text_injective : Function.Injective text := by
  have hcomma := notMem_signedDecimal comma_ne_digitChar (by decide)
  intro a b h
  have hlist := congrArg String.toList h
  rw [toList_text, toList_text] at hlist
  obtain ⟨hi, hrest⟩ := eq_of_append_cons (hcomma _) (hcomma _) hlist
  obtain ⟨hj, hk⟩ := eq_of_append_cons (hcomma _) (hcomma _) hrest
  cases a
  cases b
  simp only [mk.injEq]
  exact ⟨signedDecimal_injective hi, signedDecimal_injective hj, signedDecimal_injective hk⟩

end CellAddress

theorem nameIn_ne_empty (text : String) : nameIn text ≠ some "" := by
  unfold nameIn
  dsimp only
  split
  · exact Option.some_ne_none "" ∘ Eq.symm
  · next hne => exact fun h => hne (Option.some.inj h)

def VariableClass.isNumbered : VariableClass → Bool
  | aquifer | block | completion | region | regionToRegion | segment => true
  | field | group | localBlock | localCompletion | localWell | misc | network | well => false

namespace Variable

variable {extent : Extent} {v w : Variable}

theorem integerText_injective : Function.Injective integerText :=
  fun _ _ h => signedDecimal_injective (String.ofList_injective h)

theorem toList_integerText (n : Int) : (integerText n).toList = signedDecimal n :=
  String.toList_ofList

theorem notMem_integerText {c : Char} (hdigit : ∀ d < 10, c ≠ digitChar d) (hsign : c ≠ '-')
    (n : Int) : c ∉ (integerText n).toList := by
  rw [toList_integerText]
  exact notMem_signedDecimal hdigit hsign n

theorem colon_notMem_integerText (n : Int) : ':' ∉ (integerText n).toList :=
  notMem_integerText colon_ne_digitChar (by decide) n

theorem text_ne_integerText (a : CellAddress) (n : Int) : a.text ≠ integerText n := by
  intro h
  have hcomma := notMem_integerText comma_ne_digitChar (by decide) n
  rw [← h, CellAddress.toList_text] at hcomma
  exact hcomma (List.mem_append_right _ List.mem_cons_self)

theorem dash_notMem_integerText {n : Int} (h : 0 ≤ n) : '-' ∉ (integerText n).toList := by
  obtain ⟨n, rfl⟩ := Int.eq_ofNat_of_zero_le h
  rw [toList_integerText]
  intro hdash
  obtain ⟨d, hd, heq⟩ := mem_decimal hdash
  exact dash_ne_digitChar d hd heq

def regionsText (regions : Int × Int) : String :=
  integerText regions.1 ++ "-" ++ integerText regions.2

theorem toList_regionsText (regions : Int × Int) : (regionsText regions).toList =
    (integerText regions.1).toList ++ '-' :: (integerText regions.2).toList := by
  simp [regionsText]

theorem regionsText_inj {a b : Int × Int} (ha : 0 ≤ a.1) (hb : 0 ≤ b.1)
    (h : regionsText a = regionsText b) : a = b := by
  have hlist := congrArg String.toList h
  rw [toList_regionsText, toList_regionsText] at hlist
  obtain ⟨hfirst, hsecond⟩ := eq_of_append_cons (dash_notMem_integerText ha)
    (dash_notMem_integerText hb) hlist
  exact Prod.ext (integerText_injective (String.toList_inj.1 hfirst))
    (integerText_injective (String.toList_inj.1 hsecond))

theorem regionsText_ne_integerText (regions : Int × Int) {n : Int} (h : 0 ≤ n) :
    regionsText regions ≠ integerText n := by
  intro heq
  have hdash := dash_notMem_integerText h
  rw [← heq, toList_regionsText] at hdash
  exact hdash (List.mem_append_right _ List.mem_cons_self)

theorem text_ne_regionsText (a : CellAddress) (regions : Int × Int) :
    a.text ≠ regionsText regions := by
  intro h
  have hcomma : ',' ∈ a.text.toList := by
    rw [CellAddress.toList_text]
    exact List.mem_append_right _ List.mem_cons_self
  have hregions := notMem_integerText comma_ne_digitChar (by decide)
  rw [h, toList_regionsText] at hcomma
  simp [hregions] at hcomma

theorem colon_notMem_text (a : CellAddress) : ':' ∉ a.text.toList := by
  have hnumber := notMem_signedDecimal colon_ne_digitChar (by decide)
  rw [CellAddress.toList_text]
  simp [hnumber]

theorem colon_notMem_regionsText (regions : Int × Int) : ':' ∉ (regionsText regions).toList := by
  rw [toList_regionsText]
  simp [colon_notMem_integerText]

inductive Spot where
  | anywhere
  | number (n : Int)
  | cell (a : CellAddress)
  | regions (pair : Int × Int)

namespace Spot

def parts : Spot → List String
  | anywhere => []
  | number n => [integerText n]
  | cell a => [a.text]
  | regions pair => [regionsText pair]

def Unsigned : Spot → Prop
  | anywhere | cell _ => True
  | number n => 0 ≤ n
  | regions pair => 0 ≤ pair.1

theorem eq_of_parts {s t : Spot} (hs : s.Unsigned) (ht : t.Unsigned) (h : s.parts = t.parts) :
    s = t := by
  cases s with
  | anywhere =>
    cases t with
    | anywhere => rfl
    | _ => cases h
  | number n =>
    cases t with
    | anywhere => cases h
    | number m => exact congrArg number (integerText_injective (List.cons.inj h).1)
    | cell a => exact (text_ne_integerText a n (List.cons.inj h).1.symm).elim
    | regions pair => exact (regionsText_ne_integerText pair hs (List.cons.inj h).1.symm).elim
  | cell a =>
    cases t with
    | anywhere => cases h
    | number n => exact (text_ne_integerText a n (List.cons.inj h).1).elim
    | cell b => exact congrArg cell (CellAddress.text_injective (List.cons.inj h).1)
    | regions pair => exact (text_ne_regionsText a pair (List.cons.inj h).1).elim
  | regions pair =>
    cases t with
    | anywhere => cases h
    | number n => exact (regionsText_ne_integerText pair ht (List.cons.inj h).1).elim
    | cell a => exact (text_ne_regionsText a pair (List.cons.inj h).1.symm).elim
    | regions other => exact congrArg regions (regionsText_inj hs ht (List.cons.inj h).1)

theorem number_eq {n m : Int} {s : Spot} (hn : some (number n) = some s)
    (hm : some (number m) = some s) : n = m :=
  number.inj (Option.some.inj (hn.trans hm.symm))

theorem colon_notMem (s : Spot) : ∀ part ∈ s.parts, ':' ∉ part.toList := by
  cases s <;>
    simp [parts, colon_notMem_integerText, colon_notMem_text, colon_notMem_regionsText]

end Spot

theorem number_of_regions? {regions : Int × Int} (h : v.regions? = some regions)
    (hnumber : 0 ≤ v.number) :
    0 ≤ regions.1 ∧ v.number = regions.1 + (regions.2 + 10) * regionBase := by
  unfold regions? at h
  split at h
  · cases h
    simp only [regionBase]
    rw [Int.tmod_eq_emod_of_nonneg hnumber]
    have hmod := Int.emod_nonneg v.number (show (32768 : Int) ≠ 0 by decide)
    have hle : 0 ≤ v.number - v.number % 32768 := by omega
    rw [Int.tdiv_eq_ediv_of_nonneg hle]
    omega
  · cases h

/-- Which of its keys a variable is looked up by. -/
inductive KeyRole where
  | primary
  | plain
deriving DecidableEq, Repr

def identityIn (v : Variable) : KeyRole → Option (List String)
  | .primary => v.identity
  | .plain => v.plainIdentity

def keyIn? (separator : String) (v : Variable) : KeyRole → Option String
  | .primary => v.key? separator
  | .plain => v.plainKey? separator

def OfFields (extent : Extent) (v : Variable) : Prop :=
  ∃ keyword owner number unit place, v = ofFields extent keyword owner number unit place

/-- No colon is in the keyword, nor in a name that its class has in its keys. -/
structure NoColon (v : Variable) : Prop where
  keyword : ':' ∉ v.keyword.toList
  owner : v.category.hasOwner → ∀ name, v.owner = some name → ':' ∉ name.toList
  refinement : v.category.isLocal → ∀ name, v.refinement = some name → ':' ∉ name.toList

/-- The variables agree on all that takes part in the keys of their class. -/
structure SameEntity (v w : Variable) : Prop where
  keyword : v.keyword = w.keyword
  category : v.category = w.category
  owner : v.category.hasOwner → v.owner = w.owner
  number : v.category.isNumbered → v.number = w.number
  refinement : v.category.isLocal → v.refinement = w.refinement
  cell : v.cell = w.cell

theorem keyIn?_eq_some {separator key : String} {role : KeyRole} :
    v.keyIn? separator role = some key ↔ v.isIdentified = true ∧
      ∃ parts, v.identityIn role = some parts ∧
        separator.intercalate (v.keyword :: parts) = key := by
  have hkey : v.keyIn? separator role = v.keyOf separator (v.identityIn role) := by
    cases role <;> rfl
  rw [hkey, keyOf]
  split
  · next h => simp [h]
  · next h => simp [h]

def spotIn? (v : Variable) : KeyRole → Option Spot
  | .primary =>
    match v.category with
    | .field | .misc | .well | .group | .network | .localWell => some .anywhere
    | .region | .aquifer | .segment => some (.number v.number)
    | .regionToRegion => v.regions?.map .regions
    | .block | .completion | .localBlock | .localCompletion => v.cell.map .cell
  | .plain =>
    match v.category with
    | .regionToRegion | .block | .completion => some (.number v.number)
    | _ => none

def keyNames (v : Variable) : List String :=
  (if v.category.isLocal then [v.refinement.getD ""] else [])
    ++ (if v.category.hasOwner then [v.owner.getD ""] else [])

theorem identityIn_eq (v : Variable) (role : KeyRole) :
    v.identityIn role = (v.spotIn? role).map fun spot => v.keyNames ++ spot.parts := by
  cases role with
  | primary =>
    simp only [identityIn, identity, spotIn?, keyNames]
    cases v.category <;>
      simp [VariableClass.isLocal, VariableClass.hasOwner, Spot.parts, regionsText,
        Function.comp_def]
  | plain =>
    simp only [identityIn, plainIdentity, spotIn?, keyNames]
    cases v.category <;> simp [VariableClass.isLocal, VariableClass.hasOwner, Spot.parts]

theorem unsigned_of_spotIn? {role : KeyRole} {spot : Spot} (hv : v.isIdentified = true)
    (h : v.spotIn? role = some spot) : spot.Unsigned := by
  cases role with
  | primary =>
    simp only [spotIn?, isIdentified] at h hv
    cases hc : v.category <;> simp only [hc] at h hv
    case regionToRegion =>
      obtain ⟨regions, hregions, rfl⟩ := Option.map_eq_some_iff.1 h
      exact (number_of_regions? hregions (by simpa using hv)).1
    case block | completion | localBlock | localCompletion =>
      obtain ⟨a, -, rfl⟩ := Option.map_eq_some_iff.1 h
      trivial
    all_goals
      cases h
      simp_all [Spot.Unsigned]
  | plain =>
    simp only [spotIn?, isIdentified] at h hv
    cases hc : v.category <;> simp only [hc, reduceCtorEq] at h hv
    all_goals
      cases h
      simp_all [Spot.Unsigned]

theorem role_eq_of_spot {role role' : KeyRole} {spot : Spot} (hcategory : v.category = w.category)
    (hv : v.spotIn? role = some spot) (hw : w.spotIn? role' = some spot) : role = role' := by
  have hroles : ∀ {v w : Variable}, v.category = w.category →
      v.spotIn? .primary = some spot → w.spotIn? .plain ≠ some spot := by
    intro v w hcategory hv hw
    simp only [spotIn?, ← hcategory] at hv hw
    cases hc : v.category <;> simp only [hc, reduceCtorEq] at hv hw
    all_goals
      cases hw
      obtain ⟨_, -, hspot⟩ := Option.map_eq_some_iff.1 hv
      cases hspot
  cases role with
  | primary =>
    cases role' with
    | primary => rfl
    | plain => exact (hroles hcategory hv hw).elim
  | plain =>
    cases role' with
    | primary => exact (hroles hcategory.symm hw hv).elim
    | plain => rfl

namespace OfFields

theorem owner_ne_empty (h : v.OfFields extent) : v.owner ≠ some "" := by
  obtain ⟨keyword, owner, number, unit, place, rfl⟩ := h
  simp only [ofFields]
  exact nameIn_ne_empty owner

theorem refinement_ne_empty (h : v.OfFields extent) : v.refinement ≠ some "" := by
  obtain ⟨keyword, owner, number, unit, place, rfl⟩ := h
  simp only [ofFields]
  cases place with
  | none => exact Option.some_ne_none "" ∘ Eq.symm
  | some place =>
    rw [Option.bind_some]
    exact nameIn_ne_empty place.1

theorem cell_of_number (h : v.OfFields extent)
    (hc : v.category = .block ∨ v.category = .completion) :
    v.cell = extent.address? v.number := by
  obtain ⟨keyword, owner, number, unit, place, rfl⟩ := h
  change VariableClass.ofKeyword keyword = _ ∨ VariableClass.ofKeyword keyword = _ at hc
  obtain hc | hc := hc <;> simp only [ofFields, hc]

theorem cell_eq_none (h : v.OfFields extent) (hblock : v.category ≠ .block)
    (hcompletion : v.category ≠ .completion) (hlocalBlock : v.category ≠ .localBlock)
    (hlocalCompletion : v.category ≠ .localCompletion) : v.cell = none := by
  obtain ⟨keyword, owner, number, unit, place, rfl⟩ := h
  change VariableClass.ofKeyword keyword ≠ _ at hblock hcompletion hlocalBlock hlocalCompletion
  simp only [ofFields]

end OfFields

/-- The spot of a variable tells its number, where its class has one. -/
theorem number_eq_of_spot (hv : v.OfFields extent) (hw : w.OfFields extent)
    (hidv : v.isIdentified = true) (hidw : w.isIdentified = true) {role : KeyRole} {spot : Spot}
    (hcategory : v.category = w.category) (hspotv : v.spotIn? role = some spot)
    (hspotw : w.spotIn? role = some spot) (hnumbered : v.category.isNumbered) :
    v.number = w.number := by
  cases role with
  | primary =>
    have hcellv := hv.cell_of_number
    have hcellw := hw.cell_of_number
    simp only [spotIn?, isIdentified, ← hcategory] at hspotv hspotw hidv hidw hcellw
    cases hc : v.category <;> simp only [hc] at hspotv hspotw hidv hidw
    case regionToRegion =>
      obtain ⟨regions, hregions, rfl⟩ := Option.map_eq_some_iff.1 hspotv
      obtain ⟨other, hother, heq⟩ := Option.map_eq_some_iff.1 hspotw
      cases heq
      rw [(number_of_regions? hregions (by simpa using hidv)).2,
        (number_of_regions? hother (by simpa using hidw)).2]
    case block | completion =>
      obtain ⟨a, ha, rfl⟩ := Option.map_eq_some_iff.1 hspotv
      obtain ⟨b, hb, heq⟩ := Option.map_eq_some_iff.1 hspotw
      cases heq
      rw [hcellv (by simp [hc])] at ha
      rw [hcellw (by simp [hc])] at hb
      rw [Extent.number_of_address? ha, Extent.number_of_address? hb]
    case region | aquifer | segment => exact Spot.number_eq hspotv hspotw
    all_goals
      rw [hc] at hnumbered
      cases hnumbered
  | plain =>
    simp only [spotIn?, ← hcategory] at hspotv hspotw
    cases hc : v.category <;> simp only [hc, reduceCtorEq] at hspotv hspotw
    all_goals exact Spot.number_eq hspotv hspotw

theorem cell_eq_of_spot (hv : v.OfFields extent) (hw : w.OfFields extent) {role : KeyRole}
    {spot : Spot} (hcategory : v.category = w.category)
    (hnumber : v.category.isNumbered → v.number = w.number)
    (hspotv : v.spotIn? role = some spot) (hspotw : w.spotIn? role = some spot) :
    v.cell = w.cell := by
  cases hc : v.category
  case block | completion =>
    have hcategories := hcategory ▸ hc
    rw [hv.cell_of_number (by simp [hc]), hw.cell_of_number (by simp [hcategories]),
      hnumber (by rw [hc]; rfl)]
  case localBlock | localCompletion =>
    cases role with
    | primary =>
      simp only [spotIn?, ← hcategory, hc] at hspotv hspotw
      obtain ⟨a, ha, rfl⟩ := Option.map_eq_some_iff.1 hspotv
      obtain ⟨b, hb, heq⟩ := Option.map_eq_some_iff.1 hspotw
      cases heq
      rw [ha, hb]
    | plain =>
      simp only [spotIn?, hc] at hspotv
      cases hspotv
  all_goals
    have hcategories := hcategory ▸ hc
    rw [hv.cell_eq_none (by simp [hc]) (by simp [hc]) (by simp [hc]) (by simp [hc]),
      hw.cell_eq_none (by simp [hcategories]) (by simp [hcategories]) (by simp [hcategories])
        (by simp [hcategories])]

theorem colon_notMem_getD {name : Option String}
    (h : ∀ text, name = some text → ':' ∉ text.toList) :
    ':' ∉ (name.getD "").toList := by
  cases name with
  | none => exact List.not_mem_nil
  | some text => exact h text rfl

theorem NoColon.colon_notMem (h : v.NoColon) {role : KeyRole} {parts : List String}
    (hparts : v.identityIn role = some parts) : ∀ part ∈ parts, ':' ∉ part.toList := by
  rw [identityIn_eq] at hparts
  obtain ⟨spot, -, rfl⟩ := Option.map_eq_some_iff.1 hparts
  intro part hpart
  simp only [keyNames, List.mem_append] at hpart
  obtain (hpart | hpart) | hpart := hpart
  · split at hpart
    · next hlocal =>
      rw [List.mem_singleton.1 hpart]
      exact colon_notMem_getD (h.refinement hlocal)
    · cases hpart
  · split at hpart
    · next howner =>
      rw [List.mem_singleton.1 hpart]
      exact colon_notMem_getD (h.owner howner)
    · cases hpart
  · exact spot.colon_notMem part hpart

theorem getD_inj {name name' : Option String} (h : name ≠ some "") (h' : name' ≠ some "")
    (heq : name.getD "" = name'.getD "") : name = name' := by
  cases name <;> cases name' <;> simp_all

/-- With ':' as separator, keys of two variables of one catalog are the same text only if they are
of one kind, the variables have the same keyword, and they agree on all that is in the key. -/
theorem sameEntity_of_key_eq (hv : v.OfFields extent) (hw : w.OfFields extent)
    (hplainv : v.NoColon) (hplainw : w.NoColon) {role role' : KeyRole} {key : String}
    (hkeyv : v.keyIn? ":" role = some key) (hkeyw : w.keyIn? ":" role' = some key) :
    role = role' ∧ v.SameEntity w := by
  obtain ⟨hidv, partsv, hpartsv, rfl⟩ := keyIn?_eq_some.1 hkeyv
  obtain ⟨hidw, partsw, hpartsw, hkeys⟩ := keyIn?_eq_some.1 hkeyw
  have hcolonv : ∀ part ∈ v.keyword :: partsv, ':' ∉ part.toList :=
    List.forall_mem_cons.2 ⟨hplainv.keyword, hplainv.colon_notMem hpartsv⟩
  have hcolonw : ∀ part ∈ w.keyword :: partsw, ':' ∉ part.toList :=
    List.forall_mem_cons.2 ⟨hplainw.keyword, hplainw.colon_notMem hpartsw⟩
  obtain ⟨hkeyword, hparts⟩ := List.cons.inj (intercalate_inj hcolonw hcolonv (List.cons_ne_nil _ _)
    (List.cons_ne_nil _ _) hkeys)
  have hcategory : v.category = w.category := congrArg VariableClass.ofKeyword hkeyword.symm
  rw [identityIn_eq] at hpartsv hpartsw
  obtain ⟨spot, hspotv, rfl⟩ := Option.map_eq_some_iff.1 hpartsv
  obtain ⟨other, hspotw, rfl⟩ := Option.map_eq_some_iff.1 hpartsw
  have hlength : w.keyNames.length = v.keyNames.length := by
    simp only [keyNames, hcategory, List.length_append]
    split <;> split <;> rfl
  obtain ⟨hnames, hspots⟩ := List.append_inj hparts hlength
  have hsame := Spot.eq_of_parts (unsigned_of_spotIn? hidw hspotw) (unsigned_of_spotIn? hidv hspotv)
    hspots
  subst hsame
  obtain rfl := role_eq_of_spot hcategory hspotv hspotw
  have hnumber := number_eq_of_spot hv hw hidv hidw hcategory hspotv hspotw
  obtain ⟨hrefinements, howners⟩ := List.append_inj hnames (by rw [hcategory]; split <;> rfl)
  rw [← hcategory] at hrefinements howners
  exact ⟨rfl, {
    keyword := hkeyword.symm
    category := hcategory
    owner := fun h => getD_inj hv.owner_ne_empty hw.owner_ne_empty
      (by simpa [h] using howners.symm)
    number := hnumber
    refinement := fun h => getD_inj hv.refinement_ne_empty hw.refinement_ne_empty
      (by simpa [h] using hrefinements.symm)
    cell := cell_eq_of_spot hv hw hcategory hnumber hspotv hspotw }⟩

def paddedPair : Variable × Variable :=
  (ofFields ⟨2, 3, 4⟩ "COPR" "OP_1  " 8 "SM3/DAY" none,
    ofFields ⟨2, 3, 4⟩ "COPR" " OP_1" 8 "STB/DAY" none)

/-- The padding of a name and the unit are not in the key, and the pair is of one entity. -/
theorem sameEntity_of_key_eq_padded :
    (paddedPair.1.keyIn? ":" .primary = some "COPR:OP_1:2,1,2"
      ∧ paddedPair.2.keyIn? ":" .primary = some "COPR:OP_1:2,1,2")
    ∧ KeyRole.primary = .primary ∧ paddedPair.1.SameEntity paddedPair.2 := by
  have hkeyv : paddedPair.1.keyIn? ":" .primary = some "COPR:OP_1:2,1,2" := by decide +kernel
  have hkeyw : paddedPair.2.keyIn? ":" .primary = some "COPR:OP_1:2,1,2" := by decide +kernel
  have hplain : ∀ v : Variable, v.keyword = "COPR" → v.owner = some "OP_1" →
      v.refinement = none → v.NoColon := by
    intro v hkeyword howner hrefinement
    refine ⟨by rw [hkeyword]; decide, fun _ name hname => ?_, fun _ name hname => ?_⟩
    · cases howner.symm.trans hname
      decide
    · cases hrefinement.symm.trans hname
  have hplainv := hplain paddedPair.1 rfl (by decide +kernel) rfl
  have hplainw := hplain paddedPair.2 rfl (by decide +kernel) rfl
  have hv : paddedPair.1.OfFields ⟨2, 3, 4⟩ := ⟨"COPR", "OP_1  ", 8, "SM3/DAY", none, rfl⟩
  have hw : paddedPair.2.OfFields ⟨2, 3, 4⟩ := ⟨"COPR", " OP_1", 8, "STB/DAY", none, rfl⟩
  exact ⟨⟨hkeyv, hkeyw⟩, sameEntity_of_key_eq hv hw hplainv hplainw hkeyv hkeyw⟩

end Variable

end Reservoir
