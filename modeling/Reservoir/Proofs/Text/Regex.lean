import Reservoir.Text.Regex

/-!
What regular expressions mean: which expressions are read as which parts, and where the parts match.
A library is lawful if it finds what the parts of an expression match; the one here is.
-/

namespace Reservoir.Regex

variable {parts : List Part} {atStart : Bool} {a : Atom} {c : Char} {text : List Char}

/-- Parts match at the front of a text, which may be at its start. -/
inductive Spans : Bool → List Part → List Char → Prop
  | nil {atStart : Bool} {text : List Char} : Spans atStart [] text
  | start {parts : List Part} {text : List Char} :
    Spans true parts text → Spans true (.start :: parts) text
  | stop {atStart : Bool} {parts : List Part} :
    Spans atStart parts [] → Spans atStart (.stop :: parts) []
  | once {atStart : Bool} {a : Atom} {c : Char} {parts : List Part} {text : List Char} :
    a.accepts c = true → Spans false parts text → Spans atStart (.once a :: parts) (c :: text)
  | none {atStart : Bool} {a : Atom} {parts : List Part} {text : List Char} :
    Spans atStart parts text → Spans atStart (.many a :: parts) text
  | more {atStart : Bool} {a : Atom} {c : Char} {parts : List Part} {text : List Char} :
    a.accepts c = true → Spans false (.many a :: parts) text →
      Spans atStart (.many a :: parts) (c :: text)

/-- Parts match somewhere in a text. -/
def Found (parts : List Part) (text : List Char) : Prop :=
  ∃ before rest, before ++ rest = text ∧ Spans before.isEmpty parts rest

inductive Atomic (escape : Char → String) : List Char → Atom → Prop
  | any : Atomic escape ['.'] .any
  | exactly (c : Char) : Atomic escape (escape c).toList (.exactly c)

/-- The parts that an expression is read as. -/
inductive Reads (escape : Char → String) : List Char → List Part → Prop
  | nil : Reads escape [] []
  | start {source : List Char} {parts : List Part} :
    Reads escape source parts → Reads escape ('^' :: source) (.start :: parts)
  | stop {source : List Char} {parts : List Part} :
    Reads escape source parts → Reads escape ('$' :: source) (.stop :: parts)
  | once {front source : List Char} {a : Atom} {parts : List Part} :
    Atomic escape front a → Reads escape source parts →
      Reads escape (front ++ source) (.once a :: parts)
  | many {front source : List Char} {a : Atom} {parts : List Part} :
    Atomic escape front a → Reads escape source parts →
      Reads escape (front ++ '*' :: source) (.many a :: parts)

/-- A library that compiles expressions of a size it accepts, and finds what their parts match. -/
structure Library.Lawful (library : Library) (accepted : String → Prop) : Prop where
  compiles : ∀ {source : String} {parts : List Part}, Reads library.escape source.toList parts →
    accepted source → ∃ isMatch, library.compile source = .ok isMatch ∧
      ∀ text : String, isMatch text = true ↔ Found parts text.toList

theorem spans_start :
    Spans atStart (.start :: parts) text ↔ atStart = true ∧ Spans true parts text := by
  constructor
  · rintro (_ | h)
    exact ⟨rfl, h⟩
  · rintro ⟨rfl, h⟩
    exact .start h

theorem not_spans_stop_cons : ¬Spans atStart (.stop :: parts) (c :: text) := nofun

theorem spans_stop_nil : Spans atStart (.stop :: parts) [] ↔ Spans atStart parts [] := by
  constructor
  · rintro (_ | _ | h)
    exact h
  · exact .stop

theorem not_spans_once_nil : ¬Spans atStart (.once a :: parts) [] := nofun

theorem spans_once_cons : Spans atStart (.once a :: parts) (c :: text) ↔
    a.accepts c = true ∧ Spans false parts text := by
  constructor
  · intro h
    cases h with
    | once hc h => exact ⟨hc, h⟩
  · exact fun ⟨hc, h⟩ => .once hc h

theorem spans_many_nil : Spans atStart (.many a :: parts) [] ↔ Spans atStart parts [] := by
  constructor
  · intro h
    cases h with
    | none h => exact h
  · exact .none

theorem spans_many_cons : Spans atStart (.many a :: parts) (c :: text) ↔
    Spans atStart parts (c :: text) ∨ a.accepts c = true ∧ Spans false (.many a :: parts) text := by
  constructor
  · intro h
    cases h with
    | none h => exact .inl h
    | more hc h => exact .inr ⟨hc, h⟩
  · rintro (h | ⟨hc, h⟩)
    · exact .none h
    · exact .more hc h

inductive FlagsFor (P : Bool → List Char → Prop) : Bool → List Char → List Bool → Prop
  | nil {atStart flag : Bool} : (flag = true ↔ P atStart []) → FlagsFor P atStart [] [flag]
  | cons {atStart flag : Bool} {c : Char} {text : List Char} {flags : List Bool} :
    (flag = true ↔ P atStart (c :: text)) → FlagsFor P false text flags →
      FlagsFor P atStart (c :: text) (flag :: flags)

namespace FlagsFor

variable {P : Bool → List Char → Prop} {flags : List Bool}

theorem headD (h : FlagsFor P atStart text flags) : flags.headD false = true ↔ P atStart text := by
  cases h with
  | nil hflag => exact hflag
  | cons hflag h => exact hflag

theorem all (hP : ∀ atStart text, P atStart text) (atStart : Bool) (text : List Char) :
    FlagsFor P atStart text (text.map (fun _ => true) ++ [true]) := by
  induction text generalizing atStart with
  | nil => exact .nil (iff_of_true rfl (hP _ _))
  | cons c text ih => exact .cons (iff_of_true rfl (hP _ _)) (ih false)

theorem once (h : FlagsFor (Spans · parts ·) atStart text flags) :
    FlagsFor (Spans · (.once a :: parts) ·) atStart text (flagsOnce a text flags) := by
  induction h with
  | nil hflag => exact .nil (iff_of_false nofun not_spans_once_nil)
  | cons hflag h ih =>
    refine .cons ?_ ih
    rw [Bool.and_eq_true, h.headD, spans_once_cons]

theorem many (h : FlagsFor (Spans · parts ·) atStart text flags) :
    FlagsFor (Spans · (.many a :: parts) ·) atStart text (flagsMany a text flags) := by
  induction h with
  | nil hflag => exact .nil (hflag.trans spans_many_nil.symm)
  | cons hflag h ih =>
    refine .cons ?_ ih
    rw [Bool.or_eq_true, Bool.and_eq_true, hflag, ih.headD, spans_many_cons]

theorem stop (h : FlagsFor (Spans · parts ·) atStart text flags) :
    FlagsFor (Spans · (.stop :: parts) ·) atStart text (flagsStop text flags) := by
  induction h with
  | nil hflag => exact .nil (hflag.trans spans_stop_nil.symm)
  | cons hflag h ih => exact .cons (iff_of_false nofun not_spans_stop_cons) ih

theorem none {Q : Bool → List Char → Prop} (hQ : ∀ text, ¬Q false text)
    (h : FlagsFor P atStart text flags) : FlagsFor Q false text (flags.map fun _ => false) := by
  induction h with
  | nil _ => exact .nil (iff_of_false nofun (hQ _))
  | cons _ _ ih => exact .cons (iff_of_false nofun (hQ _)) ih

theorem start (h : FlagsFor (Spans · parts ·) atStart text flags) :
    FlagsFor (Spans · (.start :: parts) ·) atStart text (flagsStart atStart flags) := by
  have hfront : ∀ {flag : Bool} {text}, (flag = true ↔ Spans atStart parts text) →
      ((atStart && flag) = true ↔ Spans atStart (.start :: parts) text) := by
    intro flag text hflag
    rw [Bool.and_eq_true, hflag, spans_start]
    exact and_congr_right fun h => by rw [h]
  cases h with
  | nil hflag => exact .nil (hfront hflag)
  | cons hflag h =>
    exact .cons (hfront hflag) (h.none fun text h => Bool.false_ne_true (spans_start.1 h).1)

end FlagsFor

/-- The flags of parts tell where they match. -/
theorem flagsFor_flags (parts : List Part) (atStart : Bool) (text : List Char) :
    FlagsFor (Spans · parts ·) atStart text (flags atStart text parts) := by
  induction parts with
  | nil => exact .all (fun _ _ => .nil) atStart text
  | cons part parts ih =>
    cases part with
    | start => exact ih.start
    | stop => exact ih.stop
    | once a => exact ih.once
    | many a => exact ih.many

theorem FlagsFor.any {P : Bool → List Char → Prop} {flags : List Bool}
    (h : FlagsFor P atStart text flags) :
    flags.any id = true ↔
      ∃ before rest, before ++ rest = text ∧ P (atStart && before.isEmpty) rest := by
  induction h with
  | @nil atStart flag hflag =>
    rw [List.any_cons, List.any_nil, Bool.or_false, id, hflag]
    constructor
    · exact fun h => ⟨[], [], rfl, by rwa [List.isEmpty_nil, Bool.and_true]⟩
    · rintro ⟨before, rest, htext, h⟩
      obtain ⟨rfl, rfl⟩ := List.append_eq_nil_iff.1 htext
      rwa [List.isEmpty_nil, Bool.and_true] at h
  | @cons atStart flag c text flags hflag _ ih =>
    rw [List.any_cons, Bool.or_eq_true, id, hflag, ih]
    constructor
    · rintro (h | ⟨before, rest, rfl, h⟩)
      · exact ⟨[], c :: text, rfl, by rwa [List.isEmpty_nil, Bool.and_true]⟩
      · exact ⟨c :: before, rest, rfl, by rwa [List.isEmpty_cons, Bool.and_false]⟩
    · rintro ⟨_ | ⟨d, before⟩, rest, htext, h⟩
      · rw [List.isEmpty_nil, Bool.and_true] at h
        exact .inl (htext ▸ h)
      · obtain ⟨rfl, rfl⟩ := List.cons.inj htext
        rw [List.isEmpty_cons, Bool.and_false] at h
        exact .inr ⟨before, rest, rfl, h⟩

theorem occurs_iff : occurs parts text = true ↔ Found parts text := by
  rw [occurs, (flagsFor_flags parts true text).any]
  rfl

theorem token?_of_not_isMeta (h : isMeta c = false) : token? c = some (.atom (.exactly c)) := by
  unfold token?
  split
  iterate 4 cases h
  rw [if_neg (by rw [h]; nofun)]

variable {source : List Char} {tokens : List Token} {t : Token}

theorem tokens?_cons (h : c ≠ '\\') (hc : token? c = some t)
    (hsource : tokens? source = some tokens) : tokens? (c :: source) = some (t :: tokens) := by
  rw [tokens?, hc, hsource]
  · rfl
  · exact fun _ _ hc => absurd hc h

theorem tokens?_escaped (h : isMeta c = true) (hsource : tokens? source = some tokens) :
    tokens? ('\\' :: c :: source) = some (.atom (.exactly c) :: tokens) := by
  rw [tokens?, if_pos h, hsource]
  rfl

theorem tokens?_atomic {front : List Char} (h : Atomic escape front a)
    (hsource : tokens? source = some tokens) :
    tokens? (front ++ source) = some (.atom a :: tokens) := by
  cases h with
  | any => exact tokens?_cons (by decide) rfl hsource
  | exactly c =>
    cases hmeta : isMeta c with
    | true =>
      rw [escape, if_pos hmeta, String.toList_ofList]
      exact tokens?_escaped hmeta hsource
    | false =>
      have hslash : c ≠ '\\' := by
        rintro rfl
        cases hmeta
      rw [escape, if_neg (by rw [hmeta]; nofun), String.toList_ofList]
      exact tokens?_cons hslash (token?_of_not_isMeta hmeta) hsource

theorem parts?_once (h : tokens.head? ≠ some .star) (hparts : parts? tokens = some parts) :
    parts? (.atom a :: tokens) = some (.once a :: parts) := by
  rw [parts?, hparts]
  · rfl
  · rintro rest rfl
    exact h rfl

theorem parts?_many (hparts : parts? tokens = some parts) :
    parts? (.atom a :: .star :: tokens) = some (.many a :: parts) := by
  rw [parts?, hparts]
  rfl

theorem parts?_start (hparts : parts? tokens = some parts) :
    parts? (.start :: tokens) = some (.start :: parts) := by
  rw [parts?, hparts]
  rfl

theorem parts?_stop (hparts : parts? tokens = some parts) :
    parts? (.stop :: tokens) = some (.stop :: parts) := by
  rw [parts?, hparts]
  rfl

theorem tokens?_of_reads (h : Reads escape source parts) :
    ∃ tokens, tokens? source = some tokens ∧ parts? tokens = some parts ∧
      tokens.head? ≠ some .star := by
  induction h with
  | nil => exact ⟨[], rfl, rfl, nofun⟩
  | start _ ih =>
    obtain ⟨tokens, htokens, hparts, -⟩ := ih
    exact ⟨.start :: tokens, tokens?_cons (by decide) rfl htokens, parts?_start hparts, nofun⟩
  | stop _ ih =>
    obtain ⟨tokens, htokens, hparts, -⟩ := ih
    exact ⟨.stop :: tokens, tokens?_cons (by decide) rfl htokens, parts?_stop hparts, nofun⟩
  | @once front source a parts hfront _ ih =>
    obtain ⟨tokens, htokens, hparts, hhead⟩ := ih
    exact ⟨.atom a :: tokens, tokens?_atomic hfront htokens, parts?_once hhead hparts, nofun⟩
  | @many front source a parts hfront _ ih =>
    obtain ⟨tokens, htokens, hparts, -⟩ := ih
    have hstar := tokens?_cons (c := '*') (by decide) rfl htokens
    exact ⟨.atom a :: .star :: tokens, tokens?_atomic hfront hstar, parts?_many hparts, nofun⟩

theorem compile_eq_ok {source : String} (htokens : tokens? source.toList = some tokens)
    (hparts : parts? tokens = some parts) :
    compile source = .ok fun text => occurs parts text.toList := by
  rw [compile, htokens, Option.bind_some, hparts]

/-- The library here accepts expressions of any size. -/
theorem lawful_library : library.Lawful fun _ => True where
  compiles := by
    intro source parts hreads _
    obtain ⟨tokens, htokens, hparts, -⟩ := tokens?_of_reads hreads
    exact ⟨_, compile_eq_ok htokens hparts, fun text => occurs_iff⟩

end Reservoir.Regex
