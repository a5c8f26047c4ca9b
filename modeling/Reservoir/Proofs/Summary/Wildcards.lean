import Mathlib.Data.List.Forall2
import Reservoir.Proofs.Summary.Resolving
import Reservoir.Proofs.Text.Regex
import Reservoir.Summary.Catalog

/-!
What patterns cover. A key is covered if it is the pattern with each character replaced by what it
stands for; a lawful library finds just these keys, for the expression of a pattern is read as one
part for each character.
-/

namespace Reservoir

open Regex

namespace Pattern

/-- What the characters of a pattern are replaced by. -/
def Replaces : Char → List Char → Prop
  | '*', run => ∀ c ∈ run, c ≠ '\n'
  | '?', run => ∃ c, c ≠ '\n' ∧ run = [c]
  | c, run => run = [c]

/-- A text is the pattern with all of its characters replaced. -/
def Covers (pattern text : List Char) : Prop :=
  ∃ runs, List.Forall₂ Replaces pattern runs ∧ runs.flatten = text

variable {pattern text : List Char} {c : Char}

theorem covers_nil : Covers [] text ↔ text = [] := by
  constructor
  · rintro ⟨runs, hruns, rfl⟩
    cases hruns
    rfl
  · rintro rfl
    exact ⟨[], .nil, rfl⟩

theorem covers_cons : Covers (c :: pattern) text ↔
    ∃ run rest, run ++ rest = text ∧ Replaces c run ∧ Covers pattern rest := by
  constructor
  · rintro ⟨runs, hruns, rfl⟩
    obtain ⟨run, later, hrun, hlater, rfl⟩ := List.forall₂_cons_left_iff.1 hruns
    exact ⟨run, later.flatten, rfl, hrun, later, hlater, rfl⟩
  · rintro ⟨run, -, rfl, hrun, runs, hruns, rfl⟩
    exact ⟨run :: runs, .cons hrun hruns, rfl⟩

def part : Char → Part
  | '*' => .many .any
  | '?' => .once .any
  | c => .once (.exactly c)

theorem replaces_literal (hstar : c ≠ '*') (hmark : c ≠ '?') {run : List Char} :
    Replaces c run ↔ run = [c] := by
  rw [Replaces]
  exacts [hstar, hmark]

theorem part_literal (hstar : c ≠ '*') (hmark : c ≠ '?') : part c = .once (.exactly c) := by
  rw [part]
  exacts [hstar, hmark]

theorem piece_literal (hstar : c ≠ '*') (hmark : c ≠ '?') (escape : Char → String) :
    piece escape c = escape c := by
  rw [piece]
  exacts [hstar, hmark]

theorem reads_piece {escape : Char → String} {source : List Char} {parts : List Part}
    (h : Reads escape source parts) (c : Char) :
    Reads escape ((piece escape c).toList ++ source) (part c :: parts) := by
  have hmany : ".*".toList = ['.'] ++ ['*'] := by decide +kernel
  have honce : ".".toList = ['.'] := by decide +kernel
  rcases eq_or_ne c '*' with rfl | hstar
  · rw [piece, hmany]
    exact .many .any h
  rcases eq_or_ne c '?' with rfl | hmark
  · rw [piece, honce]
    exact .once .any h
  · rw [piece_literal hstar hmark, part_literal hstar hmark]
    exact .once (.exactly c) h

theorem reads_source (escape : Char → String) (pattern : String) :
    Reads escape (source escape pattern).toList
      (.start :: (pattern.toList.map part ++ [.stop])) := by
  have hpieces : ∀ cs : List Char, Reads escape
      ((cs.map (piece escape)).flatMap String.toList ++ ['$']) (cs.map part ++ [.stop]) := by
    intro cs
    induction cs with
    | nil => exact .stop .nil
    | cons c cs ih =>
      rw [List.map_cons, List.flatMap_cons, List.append_assoc]
      exact reads_piece ih c
  rw [source, String.toList_append, String.toList_append, String.toList_join]
  exact .start (hpieces pattern.toList)

variable {atStart : Bool} {a : Atom} {parts : List Part}

theorem spans_many_iff {holds : List Char → Prop}
    (h : ∀ atStart text, Spans atStart parts text ↔ holds text) :
    Spans atStart (.many a :: parts) text ↔
      ∃ run rest, run ++ rest = text ∧ (∀ c ∈ run, a.accepts c = true) ∧ holds rest := by
  induction text generalizing atStart with
  | nil =>
    rw [spans_many_nil, h]
    constructor
    · exact fun hrest => ⟨[], [], rfl, List.forall_mem_nil _, hrest⟩
    · rintro ⟨run, rest, htext, -, hrest⟩
      rwa [(List.append_eq_nil_iff.1 htext).2] at hrest
  | cons c text ih =>
    rw [spans_many_cons, h, ih]
    constructor
    · rintro (hrest | ⟨hc, run, rest, rfl, hrun, hrest⟩)
      · exact ⟨[], c :: text, rfl, List.forall_mem_nil _, hrest⟩
      · exact ⟨c :: run, rest, rfl, List.forall_mem_cons.2 ⟨hc, hrun⟩, hrest⟩
    · rintro ⟨_ | ⟨d, run⟩, rest, htext, hrun, hrest⟩
      · exact .inl (htext ▸ hrest)
      · obtain ⟨rfl, rfl⟩ := List.cons.inj htext
        obtain ⟨hc, hrun⟩ := List.forall_mem_cons.1 hrun
        exact .inr ⟨hc, run, rest, rfl, hrun, hrest⟩

theorem spans_once_iff {holds : List Char → Prop}
    (h : ∀ atStart text, Spans atStart parts text ↔ holds text) :
    Spans atStart (.once a :: parts) text ↔
      ∃ c rest, c :: rest = text ∧ a.accepts c = true ∧ holds rest := by
  cases text with
  | nil => exact iff_of_false not_spans_once_nil (by rintro ⟨c, rest, htext, -⟩; cases htext)
  | cons c text =>
    rw [spans_once_cons, h]
    constructor
    · exact fun ⟨hc, hrest⟩ => ⟨c, text, rfl, hc, hrest⟩
    · rintro ⟨d, rest, htext, hd, hrest⟩
      obtain ⟨rfl, rfl⟩ := List.cons.inj htext
      exact ⟨hd, hrest⟩

theorem spans_part_iff {holds : List Char → Prop}
    (h : ∀ atStart text, Spans atStart parts text ↔ holds text) :
    Spans atStart (part c :: parts) text ↔
      ∃ run rest, run ++ rest = text ∧ Replaces c run ∧ holds rest := by
  rcases eq_or_ne c '*' with rfl | hstar
  · refine (spans_many_iff h).trans ?_
    simp only [Replaces, Atom.accepts, bne_iff_ne]
  rcases eq_or_ne c '?' with rfl | hmark
  · refine (spans_once_iff h).trans ⟨?_, ?_⟩
    · rintro ⟨d, rest, rfl, hd, hrest⟩
      exact ⟨[d], rest, rfl, ⟨d, bne_iff_ne.1 hd, rfl⟩, hrest⟩
    · rintro ⟨-, rest, rfl, ⟨d, hd, rfl⟩, hrest⟩
      exact ⟨d, rest, rfl, bne_iff_ne.2 hd, hrest⟩
  · simp only [part_literal hstar hmark, replaces_literal hstar hmark]
    refine (spans_once_iff h).trans ⟨?_, ?_⟩
    · rintro ⟨d, rest, rfl, hd, hrest⟩
      exact ⟨[d], rest, rfl, by rw [beq_iff_eq.1 hd], hrest⟩
    · rintro ⟨-, rest, rfl, rfl, hrest⟩
      exact ⟨c, rest, rfl, beq_self_eq_true c, hrest⟩

/-- By induction on the pattern: its parts in front of the end match what it covers. -/
theorem spans_parts_iff (pattern : List Char) (atStart : Bool) (text : List Char) :
    Spans atStart (pattern.map part ++ [.stop]) text ↔ Covers pattern text := by
  induction pattern generalizing atStart text with
  | nil =>
    rw [covers_nil]
    cases text with
    | nil => exact iff_of_true (.stop .nil) rfl
    | cons c text => exact iff_of_false not_spans_stop_cons (List.cons_ne_nil c text)
  | cons c pattern ih => exact (spans_part_iff ih).trans covers_cons.symm

theorem found_iff_covers :
    Found (.start :: (pattern.map part ++ [.stop])) text ↔ Covers pattern text := by
  rw [← spans_parts_iff pattern true]
  constructor
  · rintro ⟨before, rest, rfl, h⟩
    obtain ⟨hbefore, h⟩ := spans_start.1 h
    rwa [List.isEmpty_iff.1 hbefore]
  · exact fun h => ⟨[], text, rfl, .start h⟩

instance : Decidable (Covers pattern text) :=
  decidable_of_iff _ (occurs_iff.trans found_iff_covers)

end Pattern

namespace SummaryCatalog

open Pattern

variable {keys : List String}

theorem pairwise_lt_mergeSort (h : keys.Nodup) :
    (keys.mergeSort fun a b => !(b < a)).Pairwise (· < ·) := by
  have hle : ∀ {a b : String}, (!decide (b < a)) = true ↔ a ≤ b := by
    intro a b
    rw [Bool.not_eq_true', decide_eq_false_iff_not, String.not_lt]
  have hsorted := @List.pairwise_mergeSort String (fun a b => !decide (b < a))
    (fun a b c hab hbc => hle.2 (String.le_trans (hle.1 hab) (hle.1 hbc)))
    (fun a b => by rw [Bool.or_eq_true, hle, hle]; exact String.le_total a b) keys
  have hdistinct := (List.mergeSort_perm keys fun a b => !decide (b < a)).nodup_iff.2 h
  refine (hsorted.and hdistinct).imp fun {a b} ⟨hab, hne⟩ => ?_
  exact String.not_le.1 fun hba => hne (String.le_antisymm (hle.1 hab) hba)

theorem mem_keys_iff_hasKey {c : SummaryCatalog} {key : String} :
    key ∈ c.keyTable.keys ↔ c.hasKey key = true := KeyTable.position?_isSome_iff.symm

/-- Of a catalog, the search by a pattern gives the keys that the pattern covers, each once and
sorted by code points, whatever characters the pattern has. -/
theorem keysMatchingBy_exact {library : Regex.Library} {accepted : String → Prop}
    (hlibrary : library.Lawful accepted) (c : SummaryCatalog) (pattern : String)
    (haccepted : accepted (source library.escape pattern)) :
    ∃ keys, c.keysMatchingBy library pattern = .ok keys ∧
      (keys.Pairwise fun a b => a.toList < b.toList) ∧
      ∀ key, key ∈ keys ↔ c.hasKey key = true ∧ Covers pattern.toList key.toList := by
  obtain ⟨isMatch, hcompile, hmatch⟩ := hlibrary.compiles (reads_source _ pattern) haccepted
  refine ⟨(c.keyTable.keys.filter isMatch).mergeSort fun a b => !(b < a), ?_, ?_, fun key => ?_⟩
  · rw [keysMatchingBy, Pattern.compile, hcompile]
    rfl
  · exact (pairwise_lt_mergeSort (c.keyTable.distinct.filter _)).imp String.lt_iff.1
  · rw [List.mem_mergeSort, List.mem_filter, mem_keys_iff_hasKey, hmatch, found_iff_covers]

/-- A dot and a bracket in a pattern stand for themselves. -/
theorem keysMatchingBy_exact_wells :
    let well (owner : String) : Variable := ⟨"WOPR", owner, 0, "SM3/DAY", none, none⟩
    let c : SummaryCatalog := ⟨[well "OP.[2", well "OP.[1", well "OPX[1", well "P.[11"], ⟨1, 1, 1⟩,
      none, none, .gregorian, .midnight ⟨2000, 1, 1⟩, ":"⟩
    Regex.library.Lawful (fun _ => True) ∧
    ∃ keys, c.keysMatching "W*:*P.[?" = .ok keys ∧
      (keys.Pairwise fun a b => a.toList < b.toList) ∧
      "WOPR:OP.[1" ∈ keys ∧ "WOPR:OP.[2" ∈ keys ∧ "WOPR:OPX[1" ∉ keys ∧ "WOPR:P.[11" ∉ keys := by
  intro well c
  obtain ⟨keys, hmatching, hsorted, hexact⟩ :=
    keysMatchingBy_exact Regex.lawful_library c "W*:*P.[?" trivial
  refine ⟨Regex.lawful_library, keys, hmatching, hsorted, ?_⟩
  simp only [hexact]
  decide +kernel

end SummaryCatalog

end Reservoir
