import Reservoir.Proofs.Keyword.Strings
import Reservoir.Proofs.Summary.Stored
import Reservoir.Proofs.Text.Tokens

/-!
The case that a run was restarted from. A long name is cut into slots, and every slot is read
without the blanks at its end. So the pieces make up the name again unless a slot ends in a blank of
the name; such blanks are lost. Nothing else of the catalog depends on that keyword.
-/

namespace Reservoir

open Outcome

namespace Text

variable {width : Nat} {cs : List Char}

/-- What is left of a text that is cut into pieces of a width: each of them drops the blanks at its
end. -/
def joinedPieces (width : Nat) (cs : List Char) : List Char :=
  (Lines.parts (partSizes width cs.length) cs).flatMap (dropTrailing (· == ' '))

@[simp] theorem joinedPieces_nil (width : Nat) : joinedPieces width [] = [] := by
  rw [joinedPieces, List.length_nil, partSizes_zero, Lines.parts, List.flatMap_nil]

theorem joinedPieces_eq (hwidth : 0 < width) (cs : List Char) : joinedPieces width cs =
    dropTrailing (· == ' ') (cs.take width) ++ joinedPieces width (cs.drop width) := by
  by_cases hcs : cs = []
  · rw [hcs, List.take_nil, List.drop_nil, joinedPieces_nil, dropTrailing_nil, List.append_nil]
  · have hlength : cs.length ≠ 0 := fun h => hcs (List.eq_nil_of_length_eq_zero h)
    have hfront : cs.take (min width cs.length) = cs.take width := List.take_eq_take_min.symm
    have hback : cs.drop (min width cs.length) = cs.drop width :=
      List.drop_eq_drop_iff.2 (by omega)
    rw [joinedPieces, partSizes_of_pos hwidth hlength, Lines.parts, List.flatMap_cons, hfront,
      hback, joinedPieces, List.length_drop]

theorem pieces_induction (hwidth : 0 < width) {P : List Char → Prop} (nil : P [])
    (piece : ∀ cs, cs ≠ [] → P (cs.drop width) → P cs) (cs : List Char) : P cs := by
  induction hn : cs.length using Nat.strong_induction_on generalizing cs with
  | _ n ih =>
    by_cases hcs : cs = []
    · rwa [hcs]
    · have hlength := List.length_pos_of_ne_nil hcs
      exact piece cs hcs (ih _ (by rw [List.length_drop]; omega) _ rfl)

theorem length_joinedPieces_le (hwidth : 0 < width) (cs : List Char) :
    (joinedPieces width cs).length ≤ cs.length := by
  induction cs using pieces_induction hwidth with
  | nil => rw [joinedPieces_nil]
  | piece cs _ ih =>
    have hfront := length_dropTrailing_le (· == ' ') (cs.take width)
    have hlength := congrArg List.length (List.take_append_drop width cs)
    rw [List.length_append] at hlength
    rw [joinedPieces_eq hwidth, List.length_append]
    omega

theorem joinedPieces_eq_self (hwidth : 0 < width) (cs : List Char) : joinedPieces width cs = cs ↔
    dropTrailing (· == ' ') (cs.take width) = cs.take width ∧
      joinedPieces width (cs.drop width) = cs.drop width := by
  rw [joinedPieces_eq hwidth]
  constructor
  · intro h
    have hparts := h.trans (List.take_append_drop width cs).symm
    have hfront := length_dropTrailing_le (· == ' ') (cs.take width)
    have hback := length_joinedPieces_le hwidth (cs.drop width)
    have hlength := congrArg List.length hparts
    rw [List.length_append, List.length_append] at hlength
    exact List.append_inj hparts (by omega)
  · rintro ⟨hfront, hback⟩
    rw [hfront, hback, List.take_append_drop]

theorem dropTrailing_blank_eq_self_iff :
    dropTrailing (· == ' ') cs = cs ↔ cs.getLast? ≠ some ' ' := by
  rw [dropTrailing_eq_self_iff]
  exact ⟨fun h hblank => Bool.noConfusion (h _ hblank),
    fun h c hc => beq_false_of_ne fun hblank => h (hblank ▸ hc)⟩

theorem getLast?_take_eq_blank (hwidth : 0 < width) (hlast : cs.getLast? ≠ some ' ') :
    (cs.take width).getLast? = some ' ' ↔ cs[width - 1]? = some ' ' := by
  rw [List.getLast?_take, if_neg (Nat.ne_of_gt hwidth)]
  cases cs[width - 1]? with
  | none => simp [hlast]
  | some c => rw [Option.some_or]

/-- A text that does not end in a blank is left as it is just where none of its pieces does. -/
theorem joinedPieces_eq_self_iff (hwidth : 0 < width) (hlast : cs.getLast? ≠ some ' ') :
    joinedPieces width cs = cs ↔ ∀ n, 0 < n → cs[n * width - 1]? ≠ some ' ' := by
  induction cs using pieces_induction hwidth with
  | nil => simp
  | piece cs _ ih =>
    have hback : (cs.drop width).getLast? ≠ some ' ' := by
      rw [List.getLast?_drop]
      split
      · nofun
      · exact hlast
    -- The piece at the front ends at `width`; what the others end at is counted from there.
    have hplace : ∀ n, 0 < n → (cs.drop width)[n * width - 1]? = cs[(n + 1) * width - 1]? := by
      intro n hn
      have hpos : 0 < n * width := Nat.mul_pos hn hwidth
      rw [List.getElem?_drop, Nat.succ_mul, Nat.add_comm (n * width), Nat.add_sub_assoc hpos]
    rw [joinedPieces_eq_self hwidth, dropTrailing_blank_eq_self_iff, Ne,
      getLast?_take_eq_blank hwidth hlast, ih hback]
    constructor
    · rintro ⟨hfirst, hothers⟩ n hn
      obtain ⟨n, rfl⟩ := Nat.exists_eq_succ_of_ne_zero (Nat.ne_of_gt hn)
      rcases Nat.eq_zero_or_pos n with rfl | hpos
      · rwa [Nat.one_mul]
      · exact hplace n hpos ▸ hothers n hpos
    · intro h
      refine ⟨?_, fun n hn => hplace n hn ▸ h (n + 1) (Nat.succ_pos n)⟩
      have hfirst := h 1 Nat.one_pos
      rwa [Nat.one_mul] at hfirst

theorem dropTrailing_isFiller (hprint : ∀ c ∈ cs, isPrintableAscii c) :
    dropTrailing isFiller cs = dropTrailing (· == ' ') cs := by
  have hnul : ¬EndsInNul (String.ofList cs) := by
    intro h
    have hmem := mem_of_mem_dropTrailing (List.mem_of_getLast? h)
    rw [String.toList_ofList] at hmem
    exact absurd (hprint _ hmem) (by decide)
  have hdrop := dropFillers_eq_dropBlanks_iff.2 hnul
  rwa [dropFillers, dropBlanks, String.toList_ofList] at hdrop

theorem flatMap_trimSlot (hwidth : 0 < width) {count blanks : Nat}
    (hprint : ∀ c ∈ cs, isPrintableAscii c) (hlength : cs.length + blanks = count * width) :
    ((Bytes.slots width count (asciiBytes cs ++ List.replicate blanks 0x20)).map trimSlot).flatMap
      String.toList = joinedPieces width cs := by
  induction count generalizing cs blanks with
  | zero =>
    have hcs : cs = [] := List.eq_nil_of_length_eq_zero (by omega)
    rw [hcs, joinedPieces_nil]
    rfl
  | succ count ih =>
    rw [Nat.succ_mul] at hlength
    have hascii : ∀ c ∈ cs.take width, isAscii c :=
      fun c hc => isAscii_of_isPrintableAscii (hprint c (List.mem_of_mem_take hc))
    have hpiece : (asciiBytes cs ++ List.replicate blanks 0x20).take width =
        asciiBytes (padRight width ' ' (cs.take width)) := by
      rw [List.take_append, List.take_replicate, padRight, asciiBytes, asciiBytes, List.map_append,
        List.map_replicate, List.map_take, List.length_map, List.length_take]
      congr 2
      omega
    have hothers : (asciiBytes cs ++ List.replicate blanks 0x20).drop width =
        asciiBytes (cs.drop width) ++ List.replicate (blanks - (width - cs.length)) 0x20 := by
      rw [List.drop_append, List.drop_replicate, asciiBytes, asciiBytes, List.map_drop,
        List.length_map]
    have hback := @ih (cs.drop width) (blanks - (width - cs.length))
      (fun c hc => hprint c (List.mem_of_mem_drop hc)) (by rw [List.length_drop]; omega)
    rw [Bytes.slots, List.map_cons, List.flatMap_cons, hpiece, hothers, hback,
      trimSlot_padRight hascii, String.toList_ofList,
      dropTrailing_isFiller fun c hc => hprint c (List.mem_of_mem_take hc),
      ← joinedPieces_eq hwidth]

/-- The name of a case: printable characters, and a blank at neither end. -/
structure IsCaseName (s : String) : Prop where
  printable : ∀ c ∈ s.toList, isPrintableAscii c
  ne_nil : s.toList ≠ []
  first : s.toList.head? ≠ some ' '
  last : s.toList.getLast? ≠ some ' '

theorem isBlank_of_isPrintableAscii {c : Char} (h : isPrintableAscii c) (hc : c ≠ ' ') :
    isBlank c = false := by
  have hne : c.toNat ≠ 0x20 := fun heq => hc (Char.toNat_inj.1 heq)
  simp only [isPrintableAscii, isBlank, Bool.and_eq_true, decide_eq_true_eq, Bool.or_eq_false_iff,
    Bool.and_eq_false_iff, decide_eq_false_iff_not, beq_eq_false_iff_ne] at h ⊢
  omega

theorem dropTrailing_cons {p : Char → Bool} {c : Char} (hc : p c = false) (cs : List Char) :
    dropTrailing p (c :: cs) = c :: dropTrailing p cs := by
  have hlast : [c].dropWhile p = [c] := by simp [hc]
  rw [dropTrailing, List.reverse_cons, List.dropWhile_append, hlast, dropTrailing]
  split
  · next hnil => rw [List.isEmpty_iff.1 hnil]; rfl
  · rw [List.reverse_append]; rfl

theorem IsCaseName.trimmed_joinedPieces {s : String} (hs : IsCaseName s) (hwidth : 0 < width) :
    trimmed (String.ofList (joinedPieces width s.toList)) ≠ "" := by
  obtain ⟨c, cs, hcs⟩ := List.exists_cons_of_ne_nil hs.ne_nil
  have hfirst : c ≠ ' ' := fun hc => hs.first (by rw [hcs, hc, List.head?_cons])
  have hblank := isBlank_of_isPrintableAscii (hs.printable c (hcs ▸ List.mem_cons_self)) hfirst
  obtain ⟨width, rfl⟩ := Nat.exists_eq_succ_of_ne_zero (Nat.ne_of_gt hwidth)
  have hspace : (c == ' ') = false := beq_false_of_ne hfirst
  rw [hcs, joinedPieces_eq hwidth, List.take_succ_cons, dropTrailing_cons (p := (· == ' ')) hspace,
    List.cons_append, trimmed, String.toList_ofList, trim, trimStart_of_not_blank hblank, trimEnd,
    dropTrailing_cons hblank, Ne, ← String.ofList_nil, String.ofList_inj]
  exact List.cons_ne_nil _ _

end Text

namespace KeywordFile

variable {file : KeywordFile} {stream : Bytes} {absent name : String}

def without (file : KeywordFile) (name : String) : KeywordFile :=
  { file with catalog := ⟨file.catalog.entries.filter (·.name != name)⟩ }

theorem named_without (h : name ≠ absent) :
    (file.without absent).catalog.named name = file.catalog.named name := by
  rw [Catalog.named, without, List.filter_filter, Catalog.named]
  refine List.filter_congr fun entry _ => ?_
  by_cases hname : entry.name = name <;> simp [hname, h]

theorem get?_without (h : name ≠ absent) (occurrence : Nat) :
    (file.without absent).catalog.get? name occurrence = file.catalog.get? name occurrence := by
  rw [Catalog.get?, named_without h, Catalog.get?]

theorem has_without (h : name ≠ absent) :
    (file.without absent).catalog.has name = file.catalog.has name := by
  rw [Catalog.has, without, List.any_filter, Catalog.has]
  refine congrArg _ (funext fun entry => ?_)
  by_cases hname : entry.name = name <;> simp [hname, h]

theorem load_without (entry : Entry) :
    (file.without absent).load stream entry = file.load stream entry := rfl

theorem loadNamed_without (h : name ≠ absent) (occurrence : Nat) :
    (file.without absent).loadNamed stream name occurrence =
      file.loadNamed stream name occurrence := by
  simp only [loadNamed, loadFrom, get?_without h, load_without]

theorem loadOptional_without (h : name ≠ absent) :
    (file.without absent).loadOptional stream (file.without absent).catalog name =
      file.loadOptional stream file.catalog name := by
  simp only [loadOptional, get?_without h, load_without]

theorem loadOptional_of_loadNamed {k : Keyword} (h : file.loadNamed stream name 0 = .ok k) :
    file.loadOptional stream file.catalog name = .ok (some k) := by
  unfold loadNamed loadFrom at h
  unfold loadOptional
  split at h
  · exact congrArg (Except.map some) h
  · cases h

end KeywordFile

/-- The keyword is of strings, and its slots are filled with a text and blanks after it. -/
def Keyword.HoldsText (k : Keyword) (s : String) : Prop :=
  k.type.isString ∧
    ∃ blanks, k.payload = Text.asciiBytes s.toList ++ List.replicate blanks 0x20

namespace SummaryCatalog

variable {calendar : Calendar} {file : KeywordFile} {stream : Bytes}
  {absent name separator : String} {c : SummaryCatalog} {k : Keyword} {count : Nat}

theorem required_without (h : name ≠ absent) :
    required (file.without absent) stream name = required file stream name := by
  rw [required, KeywordFile.loadNamed_without h, required]

theorem parallel_without (h : name ≠ absent) :
    parallel (file.without absent) stream count name = parallel file stream count name := by
  rw [parallel, required_without h, parallel]

theorem parallel?_without (h : name ≠ absent) :
    parallel? (file.without absent) stream count name = parallel? file stream count name := by
  rw [parallel?, KeywordFile.loadOptional_without h, parallel?]

theorem ownersName_without (h : "WGNAMES" ≠ absent) :
    ownersName (file.without absent) = ownersName file := by
  rw [ownersName, KeywordFile.has_without h, ownersName]

theorem ownersName_ne_restart : ownersName file ≠ "RESTART" := by
  unfold ownersName
  split <;> decide

theorem Stored.In.restarted {x : Stored}
    (h : x.In calendar (file.without "RESTART") stream) {case : Option String}
    (hcase : readRestartCase file stream = .ok case) :
    ({ x with restartCase := case } : Stored).In calendar file stream where
  keywords := by rw [← h.keywords, required_without (by decide)]
  owners := by
    rw [← h.owners, ownersName_without (by decide), parallel_without ownersName_ne_restart]
  units := by rw [← h.units, parallel_without (by decide)]
  numbers := by rw [← h.numbers, readNumbers, readNumbers, parallel?_without (by decide)]
  dimensions := by rw [← h.dimensions, readDimensions, readDimensions, required_without (by decide)]
  start := by rw [← h.start, readStart, readStart, required_without (by decide)]
  restartCase := hcase
  places := by
    simp only [← h.places, readPlaces, parallel?_without (by decide : "LGRS" ≠ "RESTART"),
      parallel_without (by decide : "NUMLX" ≠ "RESTART"),
      parallel_without (by decide : "NUMLY" ≠ "RESTART"),
      parallel_without (by decide : "NUMLZ" ≠ "RESTART")]

theorem readRestartCase_eq {s : String} (hload : file.loadNamed stream "RESTART" 0 = .ok k)
    (hk : k.HoldsText s) (hs : Text.IsCaseName s) : readRestartCase file stream =
      .ok (some (String.ofList (Text.joinedPieces k.type.size s.toList))) := by
  obtain ⟨hstring, blanks, hpayload⟩ := hk
  have hsize := ElementType.size_ne_zero_of_isString hstring
  have hwidth := Nat.pos_of_ne_zero hsize
  have hwhole := KeywordFile.whole_of_loadFrom hload
  have hlength := hwhole
  rw [Keyword.Whole, hpayload, List.length_append, Text.asciiBytes, List.length_map,
    List.length_replicate] at hlength
  have hpieces := Text.flatMap_trimSlot hwidth hs.printable hlength
  have hstrings : k.strings = .ok (k.slots.map Text.trimSlot) := by
    rw [Keyword.strings, Keyword.checkString, if_pos hstring, ok_bind, pure_eq]
  rw [readRestartCase, KeywordFile.loadOptional_of_loadNamed hload, ok_bind]
  dsimp only
  rw [hstrings, ok_bind, Keyword.slots_eq hwhole hsize, hpayload, hpieces,
    if_neg (hs.trimmed_joinedPieces hwidth), pure_eq]

/-- A catalog is read with what the slots leave of the name of its case, whatever their width. That
is the name itself just where no slot ends in a blank of it, and always where one slot holds it all.
-/
theorem restartCase_of_pieces {s : String}
    (hread : readBy calendar (file.without "RESTART") stream separator = .ok c)
    (hload : file.loadNamed stream "RESTART" 0 = .ok k) (hk : k.HoldsText s)
    (hs : Text.IsCaseName s) :
    ∃ name, readBy calendar file stream separator = .ok { c with restartCase := some name } ∧
      name.toList = Text.joinedPieces k.type.size s.toList ∧
      (name = s ↔ ∀ n, 0 < n → s.toList[n * k.type.size - 1]? ≠ some ' ') ∧
      (s.toList.length ≤ k.type.size → name = s) := by
  have hcase := readRestartCase_eq hload hk hs
  have hwidth := Nat.pos_of_ne_zero (ElementType.size_ne_zero_of_isString hk.1)
  have hsame : String.ofList (Text.joinedPieces k.type.size s.toList) = s ↔
      ∀ n, 0 < n → s.toList[n * k.type.size - 1]? ≠ some ' ' := by
    rw [← Text.joinedPieces_eq_self_iff hwidth hs.last, ← String.toList_inj, String.toList_ofList]
  obtain ⟨x, hx, rfl⟩ := readBy_eq_ok.1 hread
  refine ⟨_, readBy_eq_ok.2 ⟨_, hx.restarted hcase, rfl⟩, String.toList_ofList, hsame,
    fun hfits => ?_⟩
  -- The only slot that can end within the name ends with it.
  refine hsame.2 fun n hn hblank => ?_
  have hplace : n * k.type.size - 1 < s.toList.length := (List.getElem?_eq_some_iff.1 hblank).1
  have hone : k.type.size ≤ n * k.type.size := Nat.le_mul_of_pos_left _ hn
  have hend : n * k.type.size - 1 = s.toList.length - 1 := by omega
  exact hs.last (by rw [List.getLast?_eq_getElem?, ← hend, hblank])

def restartedStream (restart : Outcome Keyword) : Outcome Bytes := do
  let texts := [
    ← Keyword.ofStrings "KEYWORDS" ["FOPR"],
    ← Keyword.ofStrings "WGNAMES" [""],
    ← Keyword.ofStrings "UNITS" ["SM3/DAY"],
    ← restart]
  let numbers := [
    ← Keyword.ofValues "DIMENS" [(1 : Int32), 2, 2, 2, 0, 3],
    ← Keyword.ofValues "STARTDAT" [(1 : Int32), 1, 2000]]
  return ((texts ++ numbers).map (Records.bytesOf .big)).flatten

def restartedRun (restart : Outcome Keyword) : Outcome (ElementType × Bytes) := do
  let stream ← restartedStream restart
  let file ← KeywordFile.scan ⟨"CASE.SMSPEC", .binary .big, stream.length, .empty⟩ stream
  let _ ← read (file.without "RESTART") stream ":"
  let k ← file.loadNamed stream "RESTART" 0
  return (k.type, k.payload)

theorem exists_of_restartedRun {restart : Outcome Keyword} {type : ElementType} {payload : Bytes}
    (h : restartedRun restart = .ok (type, payload)) :
    ∃ (file : KeywordFile) (stream : Bytes) (c : SummaryCatalog) (k : Keyword),
      read (file.without "RESTART") stream ":" = .ok c ∧
        file.loadNamed stream "RESTART" 0 = .ok k ∧ k.type = type ∧ k.payload = payload := by
  obtain ⟨stream, -, h⟩ := bind_eq_ok.1 h
  obtain ⟨file, -, h⟩ := bind_eq_ok.1 h
  obtain ⟨c, hread, h⟩ := bind_eq_ok.1 h
  obtain ⟨k, hload, h⟩ := bind_eq_ok.1 h
  obtain ⟨htype, hpayload⟩ := Prod.mk.inj (Except.ok.inj h)
  exact ⟨file, stream, c, k, hread, hload, htype, hpayload⟩

/-- The blank at the end of the first of three slots is lost, and it is kept within one wide slot.
-/
theorem restartCase_of_pieces_blank :
    (∃ file stream c k, read (file.without "RESTART") stream ":" = .ok c ∧
      file.loadNamed stream "RESTART" 0 = .ok k ∧ k.HoldsText "ABCDEFG HIJ" ∧
        read file stream ":" = .ok { c with restartCase := some "ABCDEFGHIJ" }) ∧
      ∃ file stream c k, read (file.without "RESTART") stream ":" = .ok c ∧
        file.loadNamed stream "RESTART" 0 = .ok k ∧ k.HoldsText "ABCDEFG HIJ" ∧
          read file stream ":" = .ok { c with restartCase := some "ABCDEFG HIJ" } := by
  have hname : Text.IsCaseName "ABCDEFG HIJ" :=
    ⟨List.all_eq_true.1 (by decide), by decide, by decide, by decide⟩
  have hslots : restartedRun (Keyword.ofStrings "RESTART" ["ABCDEFG", "HIJ", ""]) = .ok (.char,
      Text.asciiBytes "ABCDEFG HIJ".toList ++ List.replicate 13 0x20) := by
    decide +kernel
  have hwide : restartedRun (Keyword.ofFixedStrings "RESTART" 16 ["ABCDEFG HIJ"]) =
      .ok (.fixed ⟨16, by decide⟩,
        Text.asciiBytes "ABCDEFG HIJ".toList ++ List.replicate 5 0x20) := by
    decide +kernel
  constructor
  · obtain ⟨file, stream, c, k, hread, hload, htype, hpayload⟩ := exists_of_restartedRun hslots
    have hk : k.HoldsText "ABCDEFG HIJ" := ⟨by rw [htype]; rfl, _, hpayload⟩
    obtain ⟨name, hdone, hpieces, -⟩ := restartCase_of_pieces hread hload hk hname
    have hlost : name = "ABCDEFGHIJ" := by
      rw [← String.toList_inj, hpieces, htype]
      decide +kernel
    exact ⟨file, stream, c, k, hread, hload, hk, hlost ▸ hdone⟩
  · obtain ⟨file, stream, c, k, hread, hload, htype, hpayload⟩ := exists_of_restartedRun hwide
    have hk : k.HoldsText "ABCDEFG HIJ" := ⟨by rw [htype]; rfl, _, hpayload⟩
    obtain ⟨name, hdone, -, -, hfits⟩ := restartCase_of_pieces hread hload hk hname
    have hkept : name = "ABCDEFG HIJ" := hfits (by rw [htype]; decide)
    exact ⟨file, stream, c, k, hread, hload, hk, hkept ▸ hdone⟩

end SummaryCatalog

end Reservoir
