import Reservoir.Proofs.Text.Ascii
import Reservoir.Proofs.Text.Digits

/-!
One spelling each. Bytes that are read as printable ASCII text are the bytes of that text; a
padded name and the four characters of a type code can be written in no other way.
-/

namespace Reservoir

namespace Text

theorem le_of_readTails {tails value : Nat} {low high : UInt8} {bs rest : Bytes} {c : Char}
    (h : readTails tails low high value bs = (some c, rest)) :
    ∃ n, c = Char.ofNat n ∧ value * 64 ^ tails ≤ n := by
  fun_induction readTails tails low high value bs with
  | case1 =>
    cases h
    exact ⟨_, rfl, by rw [pow_zero, Nat.mul_one]⟩
  | case2 => cases h
  | case3 tails low high value b bs hb ih =>
    obtain ⟨n, hc, hn⟩ := ih h
    refine ⟨n, hc, Nat.le_trans ?_ hn⟩
    rw [pow_succ, Nat.mul_comm (64 ^ tails), ← Nat.mul_assoc]
    exact Nat.mul_le_mul_right _ (Nat.le_add_right ..)
  | case4 => cases h

theorem toNat_ofNat_cases (n : Nat) : (Char.ofNat n).toNat = n ∨ (Char.ofNat n).toNat = 0 := by
  by_cases hvalid : n.isValidChar
  · rw [Char.ofNat, dif_pos hvalid]
    exact .inl rfl
  · rw [Char.ofNat, dif_neg hvalid]
    exact .inr rfl

theorem not_isPrintableAscii_ofNat {n : Nat} (h : 0x80 ≤ n) :
    ¬isPrintableAscii (Char.ofNat n) := by
  have hcases := toNat_ofNat_cases n
  simp only [isPrintableAscii, Bool.and_eq_true, decide_eq_true_eq]
  omega

theorem le_of_readTails_succ {tails value : Nat} {low high : UInt8} {bs rest : Bytes} {c : Char}
    (h : readTails (tails + 1) low high value bs = (some c, rest)) :
    ∃ n, ∃ b : UInt8, c = Char.ofNat n ∧ low.toNat ≤ b.toNat ∧ b.toNat ≤ high.toNat ∧
      (value * 64 + b.toNat % 64) * 64 ^ tails ≤ n := by
  cases bs with
  | nil => cases h
  | cons b bs =>
    rw [readTails] at h
    split at h
    · next hb =>
      obtain ⟨n, hc, hn⟩ := le_of_readTails h
      rw [Bool.and_eq_true, decide_eq_true_eq, decide_eq_true_eq] at hb
      exact ⟨n, b, hc, UInt8.le_iff_toNat_le.1 hb.1, UInt8.le_iff_toNat_le.1 hb.2, hn⟩
    · cases h

theorem le_of_readPiece {b : UInt8} {rest back : Bytes} {c : Char} (hb : 0x80 ≤ b.toNat)
    (h : readPiece b rest = (some c, back)) : ∃ n, c = Char.ofNat n ∧ 0x80 ≤ n := by
  rw [readPiece, lead?, if_neg (Nat.not_lt.2 hb)] at h
  split at h
  · next lead hlead =>
    split at hlead
    · cases hlead
    · split at hlead
      · cases hlead
        obtain ⟨n, b', hn, hlow, hhigh, hle⟩ := le_of_readTails_succ h
        dsimp only at hle
        exact ⟨n, hn, by omega⟩
      · split at hlead
        · cases hlead
          obtain ⟨n, b', hn, hlow, hhigh, hle⟩ := le_of_readTails_succ h
          dsimp only at hlow hhigh hle
          refine ⟨n, hn, ?_⟩
          by_cases hfirst : b.toNat = 0xe0
          · rw [hfirst] at hlow hhigh hle
            have hlow : 0xa0 ≤ b'.toNat := hlow
            have hhigh : b'.toNat ≤ 0xbf := hhigh
            omega
          · omega
        · split at hlead
          · cases hlead
            obtain ⟨n, b', hn, hlow, hhigh, hle⟩ := le_of_readTails_succ h
            dsimp only at hlow hhigh hle
            refine ⟨n, hn, ?_⟩
            by_cases hfirst : b.toNat = 0xf0
            · rw [hfirst] at hlow hhigh hle
              have hlow : 0x90 ≤ b'.toNat := hlow
              have hhigh : b'.toNat ≤ 0xbf := hhigh
              omega
            · omega
          · cases hlead
  · cases h

theorem lt_of_readPiece {b : UInt8} {rest back : Bytes} {c : Char} (hc : isPrintableAscii c)
    (h : readPiece b rest = (some c, back)) : b.toNat < 0x80 := by
  refine Nat.lt_of_not_le fun hb => ?_
  obtain ⟨n, rfl, hn⟩ := le_of_readPiece hb h
  exact not_isPrintableAscii_ofNat hn hc

theorem eq_asciiBytes_of_pieces {bs : Bytes} {cs : List Char} (h : pieces bs = cs.map some)
    (hc : ∀ c ∈ cs, isPrintableAscii c) : bs = asciiBytes cs := by
  induction cs generalizing bs with
  | nil =>
    cases bs with
    | nil => rfl
    | cons b rest => simp [pieces] at h
  | cons c cs ih =>
    simp only [List.mem_cons, forall_eq_or_imp] at hc
    cases bs with
    | nil => simp [pieces] at h
    | cons b rest =>
      have hlt : b.toNat < 0x80 := by
        rw [pieces, List.map_cons, List.cons.injEq] at h
        exact lt_of_readPiece hc.1 (Prod.ext h.1 rfl)
      rw [pieces_cons_of_lt hlt, List.map_cons, List.cons.injEq] at h
      have hb : charOf b = c := Option.some.inj h.1
      rw [asciiBytes, List.map_cons, ← hb, toNat_charOf hlt, UInt8.ofNat_toNat, ih h.2 hc.2]
      rfl

theorem eq_map_of_mapM {α β : Type} {read : α → Option β} {write : β → α} {P : β → Prop}
    (hread : ∀ x y, read x = some y → x = write y ∧ P y) {xs : List α} {ys : List β}
    (h : xs.mapM read = some ys) : xs = ys.map write ∧ ∀ y ∈ ys, P y := by
  induction xs generalizing ys with
  | nil =>
    cases h
    exact ⟨rfl, fun y hy => nomatch hy⟩
  | cons x xs ih =>
    rw [List.mapM_cons] at h
    obtain ⟨y, hy, h⟩ := Option.bind_eq_some_iff.1 h
    obtain ⟨back, hback, h⟩ := Option.bind_eq_some_iff.1 h
    cases h
    obtain ⟨hx, hP⟩ := hread x y hy
    obtain ⟨hxs, hall⟩ := ih hback
    exact ⟨by rw [List.map_cons, ← hx, ← hxs], List.forall_mem_cons.2 ⟨hP, hall⟩⟩

theorem eq_asciiBytes_of_decodeUtf8? {bs : Bytes} {cs : List Char} (h : decodeUtf8? bs = some cs)
    (hc : ∀ c ∈ cs, isPrintableAscii c) : bs = asciiBytes cs := by
  refine eq_asciiBytes_of_pieces ?_ hc
  exact (eq_map_of_mapM (P := fun _ => True) (fun _ _ hpiece => ⟨hpiece, trivial⟩) h).1

/-- No broken run is shown as a printable character. -/
theorem eq_asciiBytes_of_decodeLenient {bs : Bytes}
    (h : ∀ c ∈ decodeLenient bs, isPrintableAscii c) : bs = asciiBytes (decodeLenient bs) := by
  refine eq_asciiBytes_of_pieces ?_ h
  rw [decodeLenient, List.map_map]
  refine (List.map_id (pieces bs)).symm.trans (List.map_congr_left fun piece hpiece => ?_)
  cases piece with
  | some c => rfl
  | none =>
    have hshown : '\ufffd' ∈ decodeLenient bs := List.mem_map_of_mem hpiece
    exact absurd (h _ hshown) (by decide)

theorem padRight_of_length_le {width : Nat} {cs : List Char} (h : width ≤ cs.length) (fill : Char) :
    padRight width fill cs = cs := by
  rw [padRight, Nat.sub_eq_zero_of_le h, List.replicate_zero, List.append_nil]

theorem padRight_dropTrailing (cs : List Char) :
    padRight cs.length ' ' (dropTrailing (· == ' ') cs) = cs := by
  induction cs using List.reverseRecOn with
  | nil => rfl
  | append_singleton cs c ih =>
    rw [dropTrailing_concat]
    split
    · next hblank =>
      have hle := length_dropTrailing_le (· == ' ') cs
      rw [padRight] at ih
      rw [eq_of_beq hblank, padRight, List.length_append, List.length_singleton,
        Nat.succ_sub hle, List.replicate_succ', ← List.append_assoc, ih]
    · exact padRight_of_length_le (Nat.le_refl _) ' '

theorem digitValue?_eq_some {c : Char} {d : Nat} (h : digitValue? c = some d) :
    c = digitChar d ∧ d < 10 := by
  unfold digitValue? at h
  split at h
  · next hc =>
    cases h
    have hlow : '0'.toNat ≤ c.toNat := hc.1
    have hhigh : c.toNat ≤ '9'.toNat := hc.2
    rw [digitChar, Nat.add_sub_cancel' hlow, Char.ofNat_toNat]
    exact ⟨rfl, Nat.sub_lt_left_of_lt_add hlow (Nat.lt_succ_of_le hhigh)⟩
  · cases h

theorem readDigits?_eq_some {cs : List Char} {n : Nat} (h : readDigits? cs = some n) :
    ∃ ds, cs = ds.map digitChar ∧ (∀ d ∈ ds, d < 10) ∧ ofDigits ds = n := by
  unfold readDigits? at h
  split at h
  · cases h
  · obtain ⟨ds, hds, rfl⟩ := Option.map_eq_some_iff.1 h
    obtain ⟨hcs, hlt⟩ := eq_map_of_mapM (fun _ _ => digitValue?_eq_some) hds
    exact ⟨ds, hcs, hlt, rfl⟩

theorem eq_of_ofDigits_eq {ds es : List Nat} (hlen : ds.length = es.length)
    (hd : ∀ d ∈ ds, d < 10) (he : ∀ e ∈ es, e < 10) (h : ofDigits ds = ofDigits es) : ds = es := by
  induction ds using List.reverseRecOn generalizing es with
  | nil => exact (List.eq_nil_of_length_eq_zero hlen.symm).symm
  | append_singleton ds d ih =>
    rcases List.eq_nil_or_concat es with rfl | ⟨es, e, rfl⟩
    · simp at hlen
    · rw [List.concat_eq_append] at he h hlen ⊢
      rw [List.length_append, List.length_append] at hlen
      simp only [List.forall_mem_append, List.forall_mem_singleton] at hd he
      rw [ofDigits_concat, ofDigits_concat] at h
      have hlast : d = e := by omega
      rw [ih (Nat.add_right_cancel hlen) hd.1 he.1 (by omega), hlast]

theorem padLeft_of_readDigits? {cs : List Char} {n : Nat} (h : readDigits? cs = some n)
    (hn : (digits n).length ≤ cs.length) : padLeft cs.length '0' (decimal n) = cs := by
  obtain ⟨ds, hcs, hlt, hvalue⟩ := readDigits?_eq_some h
  have hlen : cs.length = ds.length := by rw [hcs, List.length_map]
  have hds : List.replicate (ds.length - (digits n).length) 0 ++ digits n = ds := by
    refine eq_of_ofDigits_eq ?_ (fun _ => lt_ten_of_mem_zeros_append) hlt ?_
    · rw [List.length_append, List.length_replicate, Nat.sub_add_cancel (hlen ▸ hn)]
    · rw [ofDigits_zeros_append, ofDigits_digits, hvalue]
  rw [padLeft_zero_decimal, hlen, hds, hcs]

end Text

namespace Name

open Text

theorem check_eq_ok {s : String} {name : Name} (h : check s = .ok name) :
    name.val.toList = dropTrailing (· == ' ') s.toList ∧ ∀ c ∈ s.toList, isPrintableAscii c := by
  unfold check at h
  split at h
  · split at h
    · next hprint =>
      split at h
      · cases h
        exact ⟨String.toList_ofList, List.all_eq_true.1 hprint⟩
      · cases h
    · cases h
  · cases h

theorem padded_of_check {bs : Bytes} {cs : List Char} {name : Name} (hlen : bs.length = 8)
    (hbs : decodeUtf8? bs = some cs) (h : check (String.ofList cs) = .ok name) :
    bs = asciiBytes name.padded := by
  obtain ⟨hname, hprint⟩ := check_eq_ok h
  rw [String.toList_ofList] at hname hprint
  have hbytes := eq_asciiBytes_of_decodeUtf8? hbs hprint
  have hcs : cs.length = 8 := by rw [← hlen, hbytes, asciiBytes, List.length_map]
  rw [hbytes, padded, hname, ← hcs, padRight_dropTrailing]

end Name

namespace ElementType

open Text

theorem isPrintableAscii_of_mem_code {type : ElementType} {c : Char} (h : c ∈ type.code) :
    isPrintableAscii c := by
  cases type with
  | fixed width =>
    rcases List.mem_cons.1 h with rfl | h
    · rfl
    have hdigit : ∀ d < 10, isPrintableAscii (digitChar d) := by decide
    exact forall_mem_padLeft_decimal (P := (isPrintableAscii ·)) rfl hdigit _ _ c h
  | _ => exact List.all_eq_true.1 rfl c h

theorem code_of_ofCode? {code : List Char} {type : ElementType} (h : ofCode? code = some type) :
    type.code = code := by
  unfold ofCode? at h
  split at h
  case h_7 a b c _ =>
    obtain ⟨width, hwidth, h⟩ := Option.bind_eq_some_iff.1 h
    split at h
    · next hrange =>
      cases h
      have hlen : (digits width).length ≤ 3 :=
        length_digits_le (by decide) (Nat.lt_succ_of_le hrange.2)
      exact congrArg ('C' :: ·) (padLeft_of_readDigits? hwidth hlen)
    · cases h
  case h_8 => cases h
  all_goals
    cases h
    rfl

end ElementType

end Reservoir
