import Reservoir.Proofs.Summary.Keys
import Reservoir.Proofs.Summary.Resolving

/-!
Variables that stand for nothing real. They have no owner where their class wants one, or no number
where it wants one, and so they have no key and nothing leads to them, but they keep their
positions. Every other variable has a key, unless it is local to a cell that is not stored. A node
of the network has its key whether it has a name or not.
-/

namespace Reservoir

open Outcome

theorem nameIn_eq_none {text : String} : nameIn text = none ↔ Text.trimmed text = "" := by
  simp [nameIn]

theorem nameIn_eq_some {text name : String} (hname : name ≠ "") :
    nameIn text = some name ↔ Text.trimmed text = name := by
  simp only [nameIn]
  split
  · next hblank => exact iff_of_false (fun h => by cases h) fun h => hname (h.symm.trans hblank)
  · exact Option.some_inj

namespace Variable

variable {v : Variable} {separator : String}

/-- The owner is missing, or it is the one that stands for none. -/
def Unowned (v : Variable) : Prop := v.owner = none ∨ v.owner = some noOwner

/-- What the class of the variable is measured on is not told. That a node of the network has no
name does not count. -/
def IsPlaceholder (v : Variable) : Prop :=
  (v.category.hasOwner = true ∧ v.category ≠ .network ∧ v.Unowned) ∨
    (v.category.isNumbered = true ∧ v.number < 0)

/-- The variable is local to a cell of a refinement, and there is no cell. -/
def LacksCell (v : Variable) : Prop :=
  (v.category = .localBlock ∨ v.category = .localCompletion) ∧ v.cell = none

instance (v : Variable) : Decidable v.Unowned := inferInstanceAs (Decidable (_ ∨ _))

instance (v : Variable) : Decidable v.IsPlaceholder := inferInstanceAs (Decidable (_ ∨ _))

instance (v : Variable) : Decidable v.LacksCell := inferInstanceAs (Decidable (_ ∧ _))

theorem isOwned_eq_true : v.isOwned = true ↔ ¬v.Unowned := by
  unfold isOwned Unowned
  cases v.owner <;> simp

theorem isIdentified_eq_true : v.isIdentified = true ↔ ¬v.IsPlaceholder := by
  unfold isIdentified IsPlaceholder
  cases v.category <;>
    simp [VariableClass.hasOwner, VariableClass.isNumbered, isOwned_eq_true]

theorem keyOf_of_placeholder (h : v.IsPlaceholder) (identity : Option (List String)) :
    v.keyOf separator identity = none := by
  rw [keyOf, if_neg fun hv => isIdentified_eq_true.1 hv h]

theorem keyOf_eq_none (h : ¬v.IsPlaceholder) {identity : Option (List String)} :
    v.keyOf separator identity = none ↔ identity = none := by
  rw [keyOf, if_pos (isIdentified_eq_true.2 h), Option.map_eq_none_iff]

theorem identity_eq_none : v.identity = none ∧ v.plainIdentity = none ↔ v.LacksCell := by
  unfold identity plainIdentity LacksCell
  cases hc : v.category <;> simp [regions?, hc]

theorem keys_eq_nil (h : ¬v.IsPlaceholder) : v.keys separator = [] ↔ v.LacksCell := by
  rw [← identity_eq_none, keys, List.append_eq_nil_iff, Option.toList_eq_nil_iff,
    Option.toList_eq_nil_iff, key?, plainKey?, keyOf_eq_none h, keyOf_eq_none h]

theorem key?_of_network (h : v.category = .network) :
    v.key? separator = some (separator.intercalate [v.keyword, v.owner.getD ""]) := by
  have hidentified : v.isIdentified = true := by simp only [isIdentified, h]
  have hidentity : v.identity = some [v.owner.getD ""] := by simp only [identity, h]
  rw [key?, keyOf, if_pos hidentified, hidentity, Option.map_some]

end Variable

namespace SummaryCatalog

variable {c : SummaryCatalog} {p : Nat} {v : Variable}

theorem unowned_variableOf {extent : Extent} {keyword owner unit : String} {number : Int}
    {place : Option (String × CellAddress)} :
    (variableOf extent keyword owner number unit place).Unowned ↔
      Text.trimmed owner = "" ∨ Text.trimmed owner = Variable.noOwner := by
  have hname : Variable.noOwner ≠ "" := by decide
  rw [Variable.Unowned, variableOf, Variable.ofFields, nameIn_eq_none, nameIn_eq_some hname]

theorem position?_ne_of_placeholder (hv : c.atPosition? p = some v) (h : v.IsPlaceholder)
    (key : String) : c.position? key ≠ some p := by
  intro hp
  obtain ⟨⟨v', hv', hkey⟩, -⟩ := position?_eq_some.1 hp
  cases hv.symm.trans hv'
  rw [Variable.key?, Variable.plainKey?, Variable.keyOf_of_placeholder h,
    Variable.keyOf_of_placeholder h] at hkey
  rcases hkey with hkey | hkey <;> cases hkey

/-- A placeholder has neither key, no key leads to it, and it is found at its position all the same.
Any other variable has a key, unless it lacks its cell, and a node of the network has one with
whatever name there is. The variables of a file are placed as it has them, each of them with its
class and number, and without an owner just where the field is blank or says so. -/
theorem keyless_of_placeholder (c : SummaryCatalog) :
    (∀ p v, c.atPosition? p = some v → v.IsPlaceholder →
      v.key? c.separator = none ∧ v.plainKey? c.separator = none ∧
        (∀ key, c.position? key ≠ some p) ∧ c.getVariable p = .ok v) ∧
    (∀ v : Variable, ¬v.IsPlaceholder → (v.keys c.separator = [] ↔ v.LacksCell)) ∧
    (∀ v : Variable, v.category = .network →
      v.key? c.separator = some (c.separator.intercalate [v.keyword, v.owner.getD ""])) ∧
    ∀ calendar file stream, readBy calendar file stream c.separator = .ok c →
      ∃ x : Stored, x.In calendar file stream ∧ c.size = x.keywords.length ∧
        ∀ p v, c.atPosition? p = some v → ∃ keyword owner number,
          x.keywords[p]? = some keyword ∧ x.owners[p]? = some owner ∧
            x.numbers[p]? = some number ∧ v.keyword = Text.trimmed keyword ∧ v.number = number ∧
            (v.Unowned ↔ Text.trimmed owner = "" ∨ Text.trimmed owner = Variable.noOwner) := by
  refine ⟨fun p v hv h => ?_, fun v => Variable.keys_eq_nil, fun v => Variable.key?_of_network,
    fun calendar file stream hread => ?_⟩
  · refine ⟨Variable.keyOf_of_placeholder h _, Variable.keyOf_of_placeholder h _,
      position?_ne_of_placeholder hv h, ?_⟩
    rw [getVariable, hv]
  · obtain ⟨x, hx, heq⟩ := readBy_eq_ok.1 hread
    have hmembers : c.members = x.members := by rw [← heq]; rfl
    refine ⟨x, hx, ?_, fun p v hv => ?_⟩
    · have hlength := congrArg List.length hx.map_keyword
      rwa [List.length_map, List.length_map, ← hmembers] at hlength
    · rw [atPosition?, hmembers] at hv
      obtain ⟨keyword, owner, number, unit, place, hkeyword, howner, hnumber, -, -, rfl⟩ :=
        Stored.getElem?_members hv
      exact ⟨keyword, owner, number, hkeyword, howner, hnumber, rfl, rfl, unowned_variableOf⟩

def unnamedMembers : List Variable := [
  .ofFields ⟨2, 2, 2⟩ "WOPR" ":+:+:+:+" 1 "SM3/DAY" none,
  .ofFields ⟨2, 2, 2⟩ "NPR" "" 1 "BARSA" none,
  .ofFields ⟨2, 2, 2⟩ "RPR" "" (-1) "BARSA" none,
  .ofFields ⟨2, 2, 2⟩ "WWIR" "INJ" 0 "SM3/DAY" none]

def unnamedStream : Outcome Bytes := do
  let texts := [
    ← Keyword.ofStrings "KEYWORDS" ["WOPR", "NPR", "RPR", "WWIR"],
    ← Keyword.ofStrings "WGNAMES" [":+:+:+:+", "", "", "INJ"],
    ← Keyword.ofStrings "UNITS" ["SM3/DAY", "BARSA", "BARSA", "SM3/DAY"]]
  let numbers := [
    ← Keyword.ofValues "NUMS" [(1 : Int32), 1, -1, 0],
    ← Keyword.ofValues "DIMENS" [(4 : Int32), 2, 2, 2, 0, -1],
    ← Keyword.ofValues "STARTDAT" [(1 : Int32), 1, 2000]]
  return ((texts ++ numbers).map (Records.bytesOf .big)).flatten

/-- The well and the region have no key, the node has the key of an empty name, and the injector
after them has a key at its own position. -/
theorem keyless_of_placeholder_unnamed :
    ∃ file stream c, read file stream ":" = .ok c ∧
      (∃ x : Stored, x.In .gregorian file stream ∧ c.size = x.keywords.length) ∧
      (∃ well, c.atPosition? 0 = some well ∧ well.IsPlaceholder ∧ well.key? ":" = none ∧
        c.position? "WOPR::+:+:+:+" ≠ some 0) ∧
      (∃ node, c.atPosition? 1 = some node ∧ node.Unowned ∧ node.key? ":" = some "NPR:") ∧
      (∃ region, c.atPosition? 2 = some region ∧ region.IsPlaceholder ∧
        region.key? ":" = none ∧ c.getVariable 2 = .ok region) ∧
      ∃ injector, c.atPosition? 3 = some injector ∧ injector.keys ":" ≠ [] := by
  have hrun : (do
      let stream ← unnamedStream
      let file ← KeywordFile.scan ⟨"CASE.SMSPEC", .binary .big, stream.length, .empty⟩ stream
      let c ← read file stream ":"
      return (c.members, c.separator)) = Except.ok (unnamedMembers, ":") := by
    decide +kernel
  obtain ⟨stream, -, hrun⟩ := bind_eq_ok.1 hrun
  obtain ⟨file, -, hrun⟩ := bind_eq_ok.1 hrun
  obtain ⟨c, hread, hrun⟩ := bind_eq_ok.1 hrun
  obtain ⟨hmembers, hseparator⟩ := Prod.mk.inj (Except.ok.inj hrun)
  have hat : ∀ p, c.atPosition? p = unnamedMembers[p]? := fun p => by rw [atPosition?, hmembers]
  obtain ⟨hkeyless, hkeyed, hnetwork, hfields⟩ := keyless_of_placeholder c
  rw [hseparator] at hkeyless hkeyed hnetwork hfields
  have hwell : (unnamedMembers.get ⟨0, by decide⟩).IsPlaceholder := by decide +kernel
  have hnode : (unnamedMembers.get ⟨1, by decide⟩).Unowned ∧
      (unnamedMembers.get ⟨1, by decide⟩).category = .network := by decide +kernel
  have hregion : (unnamedMembers.get ⟨2, by decide⟩).IsPlaceholder := by decide +kernel
  have hinjector : ¬(unnamedMembers.get ⟨3, by decide⟩).IsPlaceholder := by decide +kernel
  obtain ⟨hnokey, -, hposition, -⟩ := hkeyless 0 _ ((hat 0).trans rfl) hwell
  obtain ⟨hnumberless, -, -, hplace⟩ := hkeyless 2 _ ((hat 2).trans rfl) hregion
  have hinjectorCell : ¬(unnamedMembers.get ⟨3, by decide⟩).LacksCell := by decide +kernel
  obtain ⟨x, hx, hsize, -⟩ := hfields .gregorian file stream hread
  exact ⟨file, stream, c, hread, ⟨x, hx, hsize⟩,
    ⟨_, (hat 0).trans rfl, hwell, hnokey, hposition _⟩,
    ⟨_, (hat 1).trans rfl, hnode.1, hnetwork _ hnode.2⟩,
    ⟨_, (hat 2).trans rfl, hregion, hnumberless, hplace⟩,
    _, (hat 3).trans rfl, fun h => hinjectorCell ((hkeyed _ hinjector).1 h)⟩

end SummaryCatalog

end Reservoir
