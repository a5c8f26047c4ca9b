import Mathlib.Order.Bounds.Basic
import Reservoir.Proofs.Stream.Places
import Reservoir.Proofs.Summary.Stored

/-!
Keys and the variables they lead to. The keys of all variables, the first ones and the ones with the
plain number, are set in one table in the order of the variables, so each leads to the last variable
that carries it.
-/

namespace Reservoir

open Outcome

namespace KeyTable

variable {t : KeyTable} {key other : String} {position : Nat}

theorem lookup_without (t : KeyTable) (key other : String) :
    (t.without key).lookup other = if key = other then none else t.position? other := by
  rw [without, position?]
  induction t.entries with
  | nil => simp
  | cons entry entries ih =>
    rw [List.filter_cons]
    by_cases hkey : entry.1 = key
    · rw [if_neg (by simpa using hkey), ih, PlaceTable.lookup_cons_ite other entry.1 entry.2, hkey]
      split <;> rfl
    · rw [if_pos (by simpa using hkey), PlaceTable.lookup_cons_ite other entry.1 entry.2,
        PlaceTable.lookup_cons_ite other entry.1 entry.2, ih]
      by_cases hother : entry.1 = other
      · rw [if_pos hother, if_pos hother, if_neg fun h => hkey (hother.trans h.symm)]
      · rw [if_neg hother, if_neg hother]

theorem position?_set (t : KeyTable) (key other : String) (position : Nat) :
    (t.set key position).position? other =
      if key = other then some position else t.position? other := by
  have hset : (t.set key position).position? other =
      ((key, position) :: t.without key).lookup other := rfl
  rw [hset, PlaceTable.lookup_cons_ite, lookup_without]
  split <;> rfl

theorem position?_setAll (t : KeyTable) (keys : List String) (other : String) (position : Nat) :
    (t.setAll keys position).position? other =
      if other ∈ keys then some position else t.position? other := by
  induction keys generalizing t with
  | nil => rfl
  | cons key keys ih =>
    have hset : t.setAll (key :: keys) position = (t.set key position).setAll keys position := rfl
    rw [hset, ih, position?_set]
    by_cases hkeys : other ∈ keys
    · rw [if_pos hkeys, if_pos (List.mem_cons_of_mem _ hkeys)]
    · simp only [List.mem_cons, hkeys, or_false, eq_comm, if_false]

theorem position?_isSome_iff : (t.position? key).isSome ↔ key ∈ t.keys := by
  rw [Option.isSome_iff_ne_none, ne_eq, position?, List.lookup_eq_none_iff, keys, List.mem_map]
  simp

theorem ofRows_concat (rows : List (List String)) (keys : List String) :
    ofRows (rows ++ [keys]) = (ofRows rows).setAll keys rows.length := by
  rw [ofRows, List.zipIdx_append, List.foldl_append, List.zipIdx_singleton, Nat.zero_add]
  rfl

def holders (rows : List (List String)) (key : String) : Set Nat :=
  {place | ∃ keys, rows[place]? = some keys ∧ key ∈ keys}

theorem isGreatest_holders_concat {rows : List (List String)} {keys : List String}
    (h : key ∈ keys) : IsGreatest (holders (rows ++ [keys]) key) rows.length := by
  refine ⟨⟨keys, List.getElem?_concat_length, h⟩, ?_⟩
  rintro place ⟨keys', hplace, -⟩
  have hlt := (List.getElem?_eq_some_iff.1 hplace).1
  rw [List.length_append, List.length_singleton] at hlt
  exact Nat.le_of_lt_succ hlt

theorem holders_concat {rows : List (List String)} {keys : List String} (h : key ∉ keys) :
    holders (rows ++ [keys]) key = holders rows key := by
  ext place
  constructor
  · rintro ⟨keys', hplace, hkey⟩
    rcases Nat.lt_or_ge place rows.length with hlt | hge
    · rw [List.getElem?_append_left hlt] at hplace
      exact ⟨keys', hplace, hkey⟩
    · rw [List.getElem?_append_right hge] at hplace
      rw [List.mem_singleton.1 (List.mem_of_getElem? hplace)] at hkey
      exact absurd hkey h
  · rintro ⟨keys', hplace, hkey⟩
    have hlt := (List.getElem?_eq_some_iff.1 hplace).1
    exact ⟨keys', (List.getElem?_append_left hlt).trans hplace, hkey⟩

theorem position?_ofRows (rows : List (List String)) (key : String) (position : Nat) :
    (ofRows rows).position? key = some position ↔ IsGreatest (holders rows key) position := by
  induction rows using List.reverseRecOn with
  | nil =>
    refine iff_of_false (fun h => by cases h) ?_
    rintro ⟨⟨keys, hplace, -⟩, -⟩
    rw [List.getElem?_nil] at hplace
    cases hplace
  | append_singleton rows keys ih =>
    rw [ofRows_concat, position?_setAll]
    by_cases hkey : key ∈ keys
    · rw [if_pos hkey, Option.some.injEq]
      have hlast := @isGreatest_holders_concat _ rows _ hkey
      exact ⟨fun h => h ▸ hlast, fun h => hlast.unique h⟩
    · rw [if_neg hkey, holders_concat hkey, ih]

theorem position?_ofRows_eq_none (rows : List (List String)) (key : String) :
    (ofRows rows).position? key = none ↔ ∀ keys ∈ rows, key ∉ keys := by
  induction rows using List.reverseRecOn with
  | nil => exact iff_of_true rfl (List.forall_mem_nil _)
  | append_singleton rows keys ih =>
    rw [ofRows_concat, position?_setAll, List.forall_mem_append, List.forall_mem_singleton]
    by_cases hkey : key ∈ keys
    · rw [if_pos hkey]
      exact iff_of_false (fun h => by cases h) fun h => h.2 hkey
    · rw [if_neg hkey, ih, and_iff_left hkey]

end KeyTable

namespace SummaryCatalog

variable {c : SummaryCatalog} {key : String} {p : Nat} {v : Variable}

/-- The variable at a position has a key, be it the first one or the one with the plain number. -/
def Carries (c : SummaryCatalog) (key : String) (position : Nat) : Prop :=
  ∃ v, c.atPosition? position = some v ∧
    (v.key? c.separator = some key ∨ v.plainKey? c.separator = some key)

theorem mem_keysOf :
    key ∈ c.keysOf v ↔ v.key? c.separator = some key ∨ v.plainKey? c.separator = some key := by
  rw [keysOf, Variable.keys, List.mem_append, Option.mem_toList, Option.mem_toList]

theorem holders_keysOf (c : SummaryCatalog) (key : String) :
    KeyTable.holders (c.members.map c.keysOf) key = {p | c.Carries key p} := by
  ext p
  simp only [KeyTable.holders, Set.mem_ofPred_eq, List.getElem?_map, Option.map_eq_some_iff,
    Carries, ← mem_keysOf, atPosition?]
  constructor
  · rintro ⟨-, ⟨v, hv, rfl⟩, hkey⟩
    exact ⟨v, hv, hkey⟩
  · rintro ⟨v, hv, hkey⟩
    exact ⟨_, ⟨v, hv, rfl⟩, hkey⟩

/-- A key leads to the last variable that carries it. -/
theorem position?_eq_some :
    c.position? key = some p ↔ IsGreatest {p | c.Carries key p} p := by
  rw [← holders_keysOf]
  exact KeyTable.position?_ofRows _ key p

theorem position?_eq_none : c.position? key = none ↔ ∀ p, ¬c.Carries key p := by
  have hnone := KeyTable.position?_ofRows_eq_none (c.members.map c.keysOf) key
  rw [List.forall_mem_map] at hnone
  refine hnone.trans ⟨fun h p => ?_, fun h v hv hkey => ?_⟩
  · rintro ⟨v, hv, hkey⟩
    exact h v (List.mem_of_getElem? hv) (mem_keysOf.2 hkey)
  · obtain ⟨p, hp⟩ := List.mem_iff_getElem?.1 hv
    exact h p ⟨v, hp, mem_keysOf.1 hkey⟩

theorem named?_eq_some (hp : c.position? key = some p) (hv : c.atPosition? p = some v) :
    c.named? key = some (p, v) := by
  rw [named?, hp]
  change (c.atPosition? p).bind (fun v => some (p, v)) = _
  rw [hv]
  rfl

theorem named?_of_mem_keys (h : key ∈ c.keyTable.keys) :
    ∃ p v, c.named? key = some (p, v) ∧ c.atPosition? p = some v ∧
      (v.key? c.separator = some key ∨ v.plainKey? c.separator = some key) := by
  obtain ⟨p, hp⟩ := Option.isSome_iff_exists.1 (KeyTable.position?_isSome_iff.2 h)
  obtain ⟨⟨v, hv, hkey⟩, -⟩ := position?_eq_some.1 hp
  exact ⟨p, v, named?_eq_some hp hv, hv, hkey⟩

theorem named?_of_unshadowed (hv : c.atPosition? p = some v)
    (hkey : v.key? c.separator = some key ∨ v.plainKey? c.separator = some key)
    (hlast : ∀ later, p < later → ¬c.Carries key later) : c.named? key = some (p, v) := by
  refine named?_eq_some (position?_eq_some.2 ⟨⟨v, hv, hkey⟩, fun later hlater => ?_⟩) hv
  exact Nat.le_of_not_lt fun hlt => hlast later hlt hlater

/-- A key leads to the last variable that carries it as one of its keys, and to none if none does.
So whatever is in the table leads to a carrier, what no later variable takes over leads to its own
variable, and positions count all variables as they are stored, with or without keys. -/
theorem position?_resolves (c : SummaryCatalog) :
    (∀ key p, c.position? key = some p ↔ IsGreatest {p | c.Carries key p} p) ∧
    (∀ key, c.position? key = none ↔ ∀ p, ¬c.Carries key p) ∧
    (∀ key ∈ c.keyTable.keys, ∃ p v, c.named? key = some (p, v) ∧ c.atPosition? p = some v ∧
      (v.key? c.separator = some key ∨ v.plainKey? c.separator = some key)) ∧
    (∀ p v key, c.atPosition? p = some v →
      v.key? c.separator = some key ∨ v.plainKey? c.separator = some key →
      (∀ later, p < later → ¬c.Carries key later) → c.named? key = some (p, v)) ∧
    (∀ p, (∃ v, c.atPosition? p = some v) ↔ p < c.size) ∧
    ∀ calendar file stream separator, readBy calendar file stream separator = .ok c →
      ∃ keywords, (required file stream "KEYWORDS" >>= Keyword.strings) = .ok keywords ∧
        ∀ p, (c.atPosition? p).map Variable.keyword = keywords[p]?.map Text.trimmed := by
  refine ⟨fun _ _ => position?_eq_some, fun _ => position?_eq_none, fun _ => named?_of_mem_keys,
    fun _ _ _ => named?_of_unshadowed, fun p => ?_, fun calendar file stream separator hread => ?_⟩
  · exact ⟨fun ⟨v, hv⟩ => (List.getElem?_eq_some_iff.1 hv).1,
      fun h => ⟨_, List.getElem?_eq_getElem h⟩⟩
  · obtain ⟨keywords, hkeywords, hmembers⟩ := keywords_of_readBy hread
    refine ⟨keywords, hkeywords, fun p => ?_⟩
    rw [atPosition?, ← List.getElem?_map, hmembers, List.getElem?_map]

/-- A well without a name and two completions. The first key of one completion is what the other
one has with the plain number. -/
def shadowedMembers : List Variable := [
  .ofFields ⟨2, 2, 2⟩ "WOPR" ":+:+:+:+" 0 "SM3/DAY" none,
  .ofFields ⟨2, 2, 2⟩ "COPR" "OP" 1 "SM3/DAY" none,
  .ofFields ⟨2, 2, 2⟩ "COPR" "OP,1,1" 1 "SM3/DAY" none]

def shadowedStream : Outcome Bytes := do
  let texts := [
    ← Keyword.ofStrings "KEYWORDS" ["WOPR", "COPR", "COPR"],
    ← Keyword.ofStrings "WGNAMES" [":+:+:+:+", "OP", "OP,1,1"],
    ← Keyword.ofStrings "UNITS" ["SM3/DAY", "SM3/DAY", "SM3/DAY"]]
  let numbers := [
    ← Keyword.ofValues "NUMS" [(0 : Int32), 1, 1],
    ← Keyword.ofValues "DIMENS" [(0 : Int32), 2, 2, 2, 0, -1],
    ← Keyword.ofValues "STARTDAT" [(1 : Int32), 1, 2000]]
  return ((texts ++ numbers).map (Records.bytesOf .big)).flatten

/-- The key of the first completion leads to the second one, which carries it later; the plain key
of the first one is left to it. -/
theorem position?_resolves_shadowed :
    ∃ file stream c, read file stream "," = .ok c ∧
      c.Carries "COPR,OP,1,1,1" 1 ∧ c.position? "COPR,OP,1,1,1" = some 2 ∧
      (∃ v, c.named? "COPR,OP,1" = some (1, v)) ∧
      ∃ keywords, (required file stream "KEYWORDS" >>= Keyword.strings) = .ok keywords := by
  have hrun : (do
      let stream ← shadowedStream
      let file ← KeywordFile.scan ⟨"CASE.SMSPEC", .binary .big, stream.length, .empty⟩ stream
      let c ← read file stream ","
      return (c.members, c.separator)) = Except.ok (shadowedMembers, ",") := by
    decide +kernel
  obtain ⟨stream, -, hrun⟩ := bind_eq_ok.1 hrun
  obtain ⟨file, -, hrun⟩ := bind_eq_ok.1 hrun
  obtain ⟨c, hread, hrun⟩ := bind_eq_ok.1 hrun
  obtain ⟨hmembers, hseparator⟩ := Prod.mk.inj (Except.ok.inj hrun)
  have hat : ∀ p, c.atPosition? p = shadowedMembers[p]? := fun p => by rw [atPosition?, hmembers]
  have hcarries : ∀ key p, c.Carries key p ↔
      ∃ v, shadowedMembers[p]? = some v ∧ (v.key? "," = some key ∨ v.plainKey? "," = some key) := by
    intro key p
    rw [Carries, hat, hseparator]
  obtain ⟨hsome, -, -, hnamed, hplaces, hkeywords⟩ := position?_resolves c
  refine ⟨file, stream, c, hread, ?_, ?_, ?_, ?_⟩
  · exact (hcarries _ _).2 ⟨_, rfl, .inl (by decide +kernel)⟩
  · refine (hsome _ _).2 ⟨(hcarries _ _).2 ⟨_, rfl, .inr (by decide +kernel)⟩, ?_⟩
    rintro p ⟨v, hv, -⟩
    have hlt := (hplaces p).1 ⟨v, hv⟩
    rw [size, hmembers] at hlt
    exact Nat.le_of_lt_succ hlt
  · refine ⟨_, hnamed 1 _ _ ((hat 1).trans rfl) (.inr ?_) ?_⟩
    · rw [hseparator]
      decide +kernel
    · intro later hlt hlater
      obtain ⟨v, hv, hkey⟩ := (hcarries _ _).1 hlater
      have hlast : later = 2 :=
        Nat.le_antisymm (Nat.le_of_lt_succ (List.getElem?_eq_some_iff.1 hv).1) hlt
      rw [hlast] at hv
      cases hv
      revert hkey
      decide +kernel
  · exact (hkeywords .gregorian file stream "," hread).imp fun keywords h => h.1

end SummaryCatalog

end Reservoir
