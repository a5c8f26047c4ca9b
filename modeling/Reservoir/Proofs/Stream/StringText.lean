import Reservoir.Proofs.Stream.LineRoundTrip
import Reservoir.Proofs.Stream.LineSlots
import Reservoir.Proofs.Text.Spellings

/-!
Which strings lines of text can hold. Strings are read from lines, so no line feed is ever read into
a slot, and a slot is filled with ASCII text only; all other bytes come back as they were written.
-/

namespace Reservoir

open Outcome

namespace Text

def IsPlainBytes (bs : Bytes) : Prop := ∀ b ∈ bs, b.toNat < 0x80 ∧ b ≠ 0xa

theorem isPlainBytes_append {front back : Bytes} :
    IsPlainBytes (front ++ back) ↔ IsPlainBytes front ∧ IsPlainBytes back :=
  List.forall_mem_append

theorem suffix_readTails (tails : Nat) (low high : UInt8) (value : Nat) (bs : Bytes) :
    (readTails tails low high value bs).2 <:+ bs := by
  fun_induction readTails tails low high value bs with
  | case1 => exact List.suffix_refl _
  | case2 => exact List.suffix_refl _
  | case3 _ _ _ _ _ _ _ ih => exact ih.trans (List.suffix_cons ..)
  | case4 => exact List.suffix_refl _

theorem suffix_readPiece (b : UInt8) (rest : Bytes) : (readPiece b rest).2 <:+ rest := by
  unfold readPiece
  split
  · exact suffix_readTails ..
  · exact List.suffix_refl _

theorem eq_lineFeed_of_readPiece {b : UInt8} {rest : Bytes}
    (h : (readPiece b rest).1 = some '\n') : b = 0xa := by
  rcases Nat.lt_or_ge b.toNat 0x80 with hb | hb
  · have hpiece : readPiece b rest = (some (charOf b), rest) := by
      simp [readPiece, lead?, hb, readTails, charOf]
    rw [hpiece] at h
    refine UInt8.toNat_inj.1 ?_
    rw [← toNat_charOf hb, Option.some.inj h]
    rfl
  · obtain ⟨n, hn, hle⟩ := le_of_readPiece hb (Prod.ext h rfl)
    have hcases := toNat_ofNat_cases n
    rw [← hn] at hcases
    have hnat : ('\n').toNat = 10 := rfl
    omega

/-- Bytes with a line feed at most at their end are read as characters of which this holds too. -/
theorem notMem_dropLast_of_pieces {bs : Bytes} {cs : List Char} (h : pieces bs = cs.map some)
    (hbs : 0xa ∉ bs.dropLast) : '\n' ∉ cs.dropLast := by
  induction cs generalizing bs with
  | nil => exact List.not_mem_nil
  | cons c cs ih =>
    cases bs with
    | nil => simp [pieces] at h
    | cons b rest =>
      rw [pieces, List.map_cons, List.cons.injEq] at h
      cases cs with
      | nil => exact List.not_mem_nil
      | cons c' cs =>
        obtain ⟨pre, hrest⟩ := suffix_readPiece b rest
        have hback : (readPiece b rest).2 ≠ [] := by
          intro hnil
          rw [hnil] at h
          simp [pieces] at h
        have hne : rest ≠ [] := by
          rintro rfl
          exact hback (List.append_eq_nil_iff.1 hrest).2
        rw [List.dropLast_cons_of_ne_nil hne, List.mem_cons, not_or, ← hrest,
          List.dropLast_append_of_ne_nil hback, List.mem_append, not_or] at hbs
        rw [List.dropLast_cons_of_ne_nil (List.cons_ne_nil _ _), List.mem_cons, not_or]
        refine ⟨?_, ih h.2 hbs.2.2⟩
        rintro rfl
        exact hbs.1 (eq_lineFeed_of_readPiece h.1).symm

theorem notMem_dropTrailing_of_dropLast {cs : List Char} (h : '\n' ∉ cs.dropLast) :
    '\n' ∉ dropTrailing isLineEnd cs := by
  rcases List.eq_nil_or_concat' cs with rfl | ⟨front, c, rfl⟩
  · exact List.not_mem_nil
  · rw [List.dropLast_concat] at h
    rw [dropTrailing_concat]
    split
    · exact fun hmem => h (mem_of_mem_dropTrailing hmem)
    · next hc =>
      rw [List.mem_append, List.mem_singleton, not_or]
      refine ⟨h, ?_⟩
      rintro rfl
      exact hc rfl

theorem isPlainBytes_padAscii_iff {s : String} {width : Nat} {slot : Bytes}
    (h : padAscii s width = .ok slot) : IsPlainBytes slot ↔ '\n' ∉ s.toList := by
  unfold padAscii at h
  split at h
  · cases h
  · next hall =>
    have hascii : ∀ c ∈ s.toList, isAscii c := List.all_eq_true.1 (not_not.1 hall)
    split at h
    · cases h
    · cases h
      constructor
      · intro hslot hmem
        have hfeed : (0xa : UInt8) ∈ asciiBytes s.toList := List.mem_map_of_mem hmem
        exact (hslot 0xa (List.mem_append_left _ hfeed)).2 rfl
      · intro hplain b hb
        rcases List.mem_append.1 hb with hb | hb
        · refine ⟨isAsciiBytes_asciiBytes hascii b hb, ?_⟩
          rintro rfl
          obtain ⟨c, hc, hbyte⟩ := List.mem_map.1 hb
          have hchar : c = '\n' := by
            rw [← charOf_ofNat (hascii c hc), hbyte]
            rfl
          exact hplain (hchar ▸ hc)
        · rw [List.eq_of_mem_replicate hb]
          decide

end Text

namespace Lines

theorem notMem_dropLast_frontLine (bs : Bytes) : 0xa ∉ (frontLine bs).dropLast := by
  have hfront : ∀ b ∈ bs.takeWhile (!isLineFeed ·), b ≠ 0xa := by
    rintro b hb rfl
    exact absurd (List.mem_takeWhile_imp hb) (by decide)
  unfold frontLine
  cases bs.dropWhile (!isLineFeed ·) with
  | nil =>
    rw [List.take_nil, List.append_nil]
    exact fun hmem => hfront 0xa (List.dropLast_subset _ hmem) rfl
  | cons b rest =>
    rw [List.take_succ_cons, List.take_zero, List.dropLast_concat]
    exact fun hmem => hfront 0xa hmem rfl

theorem notMem_of_readLine {c c' : Cursor} {line : List Char}
    (h : readLine c = .ok (some (line, c'))) : '\n' ∉ Text.dropTrailing Text.isLineEnd line := by
  unfold readLine at h
  split at h
  · cases h
  · dsimp only at h
    split at h
    · next hdecode =>
      cases h
      have hpieces := (Text.eq_map_of_mapM (P := fun _ => True)
        (fun _ _ hpiece => ⟨hpiece, trivial⟩) hdecode).1
      exact Text.notMem_dropTrailing_of_dropLast
        (Text.notMem_dropLast_of_pieces hpieces (notMem_dropLast_frontLine c.rest))
    · cases h

theorem notMem_of_takeLines {name : String} {expected left : Nat} {c c' : Cursor}
    {lines : List (List Char)} (h : takeLines name expected left c = .ok (lines, c')) :
    ∀ line ∈ lines, '\n' ∉ Text.dropTrailing Text.isLineEnd line := by
  induction left generalizing c lines with
  | zero =>
    cases h
    exact List.forall_mem_nil _
  | succ left ih =>
    obtain ⟨line, c₁, back, hline, hback, rfl⟩ := takeLines_succ_eq_ok h
    exact List.forall_mem_cons.2 ⟨notMem_of_readLine hline, ih hback⟩

theorem isPlainBytes_of_decodeNext {c next : Cursor} {k : Keyword} (hstring : k.type.isString)
    (h : Encoding.text.decodeNext c = .ok (k, next)) : Text.IsPlainBytes k.payload := by
  obtain ⟨data, -, hpayload⟩ := Encoding.decodeNext_eq_ok.1 h
  obtain ⟨lines, hlines, hread⟩ := Encoding.readPayload_text_eq_ok hpayload
  obtain ⟨slots, hslots, -, hall⟩ := slots_of_payload hread
  intro b hb
  rw [hslots] at hb
  obtain ⟨slot, hslot, hb⟩ := List.mem_flatten.1 hb
  cases hall slot hslot with
  | word hnumeric => exact absurd hstring hnumeric
  | @string line text _ hline hsubset hpad =>
    refine (Text.isPlainBytes_padAscii_iff hpad).2 ?_ b hb
    rw [String.toList_ofList]
    exact fun hmem => notMem_of_takeLines hlines line hline (hsubset hmem)

end Lines

namespace Keyword

theorem isPlainBytes_stringSlots_iff {width : Nat} {values : List String}
    {slots : { bs : List Bytes // ∀ b ∈ bs, b.length = width }}
    (h : stringSlots width values = .ok slots) :
    Text.IsPlainBytes slots.val.flatten ↔ ∀ s ∈ values, '\n' ∉ s.toList := by
  induction values generalizing slots with
  | nil =>
    cases h
    exact iff_of_true (List.forall_mem_nil _) (List.forall_mem_nil _)
  | cons s values ih =>
    unfold stringSlots at h
    split at h
    · cases h
    · next slot hslot =>
      obtain ⟨back, hback, h⟩ := bind_eq_ok.1 h
      cases h
      rw [List.flatten_cons, Text.isPlainBytes_append, List.forall_mem_cons,
        Text.isPlainBytes_padAscii_iff hslot, ih hback]

theorem isPlainBytes_ofStringSlots_iff {name : String} {type : ElementType} {values : List String}
    {k : Keyword} (h : ofStringSlots name type values = .ok k) :
    Text.IsPlainBytes k.payload ↔ ∀ s ∈ values, '\n' ∉ s.toList := by
  obtain ⟨checked, -, h⟩ := bind_eq_ok.1 h
  obtain ⟨slots, hslots, h⟩ := bind_eq_ok.1 h
  cases h
  exact isPlainBytes_stringSlots_iff hslots

theorem isPlainBytes_setString_iff {k k' : Keyword} (hk : Text.IsPlainBytes k.payload) {index : Nat}
    {value : String} (h : k.setString index value = .ok k') :
    Text.IsPlainBytes k'.payload ↔ '\n' ∉ value.toList := by
  obtain ⟨⟨⟩, -, h⟩ := bind_eq_ok.1 h
  obtain ⟨⟨⟩, -, h⟩ := bind_eq_ok.1 h
  split at h
  · next slot hslot =>
    obtain ⟨start, -, h⟩ := bind_eq_ok.1 h
    cases h
    have htake : Text.IsPlainBytes (k.payload.take start.val) :=
      fun b hb => hk b (List.mem_of_mem_take hb)
    have hdrop : Text.IsPlainBytes (k.payload.drop (start.val + k.type.size)) :=
      fun b hb => hk b (List.mem_of_mem_drop hb)
    rw [← Text.isPlainBytes_padAscii_iff hslot]
    simp only [Text.isPlainBytes_append, htake, hdrop, true_and, and_true]
  · cases h

theorem textual_of_isPlainBytes {k : Keyword} (hk : k.Whole) (hstring : k.type.isString)
    (hname : '\'' ∉ k.name.val.toList) (hcount : k.count < UInt64.size)
    (hplain : Text.IsPlainBytes k.payload) : k.Textual where
  name := hname
  count := hcount
  whole := hk
  slots slot hslot := by
    have hsize := ElementType.size_ne_zero_of_isString hstring
    have hbytes : ∀ b ∈ slot, b.toNat < 0x80 ∧ b ≠ 0xa := fun b hb => by
      refine hplain b ?_
      rw [← flatten_slots hk hsize]
      exact List.mem_flatten.2 ⟨slot, hslot, hb⟩
    generalize k.type = type at hstring
    cases type with
    | char => exact hbytes
    | fixed width => exact hbytes
    | _ => cases hstring

/-- A keyword of strings is read back from its lines, with all that follows it, if and only if its
bytes are ASCII without a line feed. Other bytes are never read from lines at all. So strings are
read back that hold no line feed, whether a keyword is made of them or they are put into it. -/
theorem string_decodes_iff {k : Keyword} (hk : k.Whole) (hstring : k.type.isString)
    (hname : '\'' ∉ k.name.val.toList) (hcount : k.count < UInt64.size) :
    ((∃ bytes, Encoding.text.send k = ⟨bytes, none⟩ ∧ Encoding.text.Decodes bytes k) ↔
      Text.IsPlainBytes k.payload) ∧
    (¬Text.IsPlainBytes k.payload → ∀ c next, Encoding.text.decodeNext c ≠ .ok (k, next)) ∧
    (∀ name values, ofStringSlots name k.type values = .ok k →
      (Text.IsPlainBytes k.payload ↔ ∀ s ∈ values, '\n' ∉ s.toList)) ∧
    (Text.IsPlainBytes k.payload → ∀ index value k', k.setString index value = .ok k' →
      (Text.IsPlainBytes k'.payload ↔ '\n' ∉ value.toList)) := by
  refine ⟨⟨?_, fun hplain => ?_⟩, fun hplain c next hdecode => ?_,
    fun name values => isPlainBytes_ofStringSlots_iff,
    fun hplain index value k' => isPlainBytes_setString_iff hplain⟩
  · rintro ⟨bytes, -, hdecodes⟩
    exact Lines.isPlainBytes_of_decodeNext hstring (hdecodes 0 [])
  · exact ⟨_, rfl, Lines.decodes_encode (textual_of_isPlainBytes hk hstring hname hcount hplain)⟩
  · exact hplain (Lines.isPlainBytes_of_decodeNext hstring hdecode)

/-- Quotes, a carriage return and a NUL are read back, and a string with a line feed is not. -/
theorem string_decodes_iff_lineFeed :
    let quoted : Keyword := ⟨⟨"WGNAMES", by decide⟩, .char, 1,
      [0x27, 0x20, 0x0d, 0x00, 0x27, 0x27, 0x41, 0x20], .inl rfl⟩
    let broken : Keyword :=
      ⟨⟨"UNITS", by decide⟩, .fixed ⟨3, by decide⟩, 1, [0x41, 0x0a, 0x42], .inl rfl⟩
    (∃ bytes, Encoding.text.send quoted = ⟨bytes, none⟩ ∧ Encoding.text.Decodes bytes quoted) ∧
      ofFixedStrings "UNITS" 3 ["A\nB"] = .ok broken ∧
      ∀ c next, Encoding.text.decodeNext c ≠ .ok (broken, next) := by
  intro quoted broken
  have hmade : ofFixedStrings "UNITS" 3 ["A\nB"] = .ok broken := by decide +kernel
  have hslots : ofStringSlots "UNITS" broken.type ["A\nB"] = .ok broken := hmade
  obtain ⟨-, hnever, hstrings, -⟩ :=
    @string_decodes_iff broken rfl rfl (by decide) (by decide)
  refine ⟨(@string_decodes_iff quoted rfl rfl (by decide) (by decide)).1.2 ?_, hmade,
    hnever fun hplain => ?_⟩
  · unfold Text.IsPlainBytes
    decide +kernel
  · exact (hstrings "UNITS" ["A\nB"] hslots).1 hplain "A\nB" List.mem_cons_self (by decide)

end Keyword

end Reservoir
