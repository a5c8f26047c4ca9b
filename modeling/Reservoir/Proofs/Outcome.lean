import Mathlib.Data.List.Forall2
import Reservoir.Fault

/-!
Steps in sequence: how a sequence can fail, and when two sequences go the same way or the second
one goes wherever the first one goes.
-/

namespace Reservoir.Outcome

variable {α β γ δ : Type}

def FailsIn (kinds : List FaultKind) (x : Outcome α) : Prop :=
  ∀ fault, x = Except.error fault → fault.kind ∈ kinds

theorem failsIn_ok {kinds : List FaultKind} (a : α) : FailsIn kinds (Except.ok a) := by
  intro fault h
  cases h

theorem failsIn_error {kinds : List FaultKind} {fault : Fault} (h : fault.kind ∈ kinds) :
    FailsIn kinds (Except.error fault : Outcome α) := by
  intro fault' h'
  cases h'
  exact h

theorem failsIn_reject {kinds : List FaultKind} {defect : Defect} (h : .format ∈ kinds) :
    FailsIn kinds (reject defect : Outcome α) :=
  failsIn_error h

theorem FailsIn.bind {kinds : List FaultKind} {x : Outcome α} {f : α → Outcome β}
    (hx : FailsIn kinds x) (hf : ∀ a, FailsIn kinds (f a)) : FailsIn kinds (x >>= f) := by
  cases x with
  | error fault => exact failsIn_error (hx fault rfl)
  | ok a => exact hf a

theorem FailsIn.bind_option {kinds : List FaultKind} {x : Outcome (Option α)}
    {f : Option α → Outcome β} (hx : FailsIn kinds x) (hnone : FailsIn kinds (f none))
    (hsome : ∀ a, FailsIn kinds (f (some a))) : FailsIn kinds (x >>= f) := by
  refine hx.bind fun found => ?_
  cases found with
  | none => exact hnone
  | some a => exact hsome a

theorem map_eq_ok {f : α → β} {x : Outcome α} {b : β} :
    x.map f = Except.ok b ↔ ∃ a, x = Except.ok a ∧ f a = b := by
  cases x with
  | error fault => simp [Except.map]
  | ok a => simp [Except.map]

theorem bind_eq_error {x : Outcome α} {f : α → Outcome β} {fault : Fault} :
    (x >>= f) = Except.error fault ↔
      x = Except.error fault ∨ ∃ a, x = Except.ok a ∧ f a = Except.error fault := by
  cases x with
  | error fault' => simp
  | ok a => simp

theorem none_of_bind {x : Outcome (Option α)} {f : Option α → Outcome (Option β)}
    (h : (x >>= f) = Except.ok none) (hsome : ∀ a, f (some a) ≠ Except.ok none) :
    x = Except.ok none := by
  obtain ⟨found, hx, hf⟩ := bind_eq_ok.1 h
  cases found with
  | none => exact hx
  | some a => exact absurd hf (hsome a)

theorem foldlM_invariant_mem {P : β → Prop} {f : β → α → Outcome β} {xs : List α}
    (hstep : ∀ a ∈ xs, ∀ b b', P b → f b a = Except.ok b' → P b') {b b' : β} (hb : P b)
    (h : xs.foldlM f b = Except.ok b') : P b' := by
  induction xs generalizing b with
  | nil =>
    cases h
    exact hb
  | cons x xs ih =>
    rw [List.foldlM_cons] at h
    obtain ⟨next, hnext, h⟩ := bind_eq_ok.1 h
    simp only [List.mem_cons, forall_eq_or_imp] at hstep
    exact ih hstep.2 (hstep.1 b next hb hnext) h

theorem foldlM_invariant {P : β → Prop} {f : β → α → Outcome β}
    (hstep : ∀ b a b', P b → f b a = Except.ok b' → P b') {xs : List α} {b b' : β} (hb : P b)
    (h : xs.foldlM f b = Except.ok b') : P b' :=
  foldlM_invariant_mem (fun a _ b b' => hstep b a b') hb h

/-- What every step keeps, of the elements so far and of what they stand for, holds at the end of a
loop that goes through. -/
theorem foldlM_invariant_related {R : α → γ → Prop} {P : List γ → β → Prop} {f : β → α → Outcome β}
    (hstep : ∀ seen a c b b', R a c → P seen b → f b a = Except.ok b' → P (seen ++ [c]) b')
    {xs : List α} {cs : List γ} (hxs : List.Forall₂ R xs cs) {seen : List γ} {b b' : β}
    (hb : P seen b) (h : xs.foldlM f b = Except.ok b') : P (seen ++ cs) b' := by
  induction hxs generalizing seen b with
  | nil =>
    cases h
    rwa [List.append_nil]
  | cons head tail ih =>
    rw [List.foldlM_cons] at h
    obtain ⟨next, hnext, h⟩ := bind_eq_ok.1 h
    have hrest := ih (hstep seen _ _ b next head hb hnext) h
    rwa [List.append_assoc] at hrest

theorem foldlM_congr {f g : β → α → Outcome β} {xs : List α}
    (h : ∀ a ∈ xs, ∀ b, f b a = g b a) (b : β) : xs.foldlM f b = xs.foldlM g b := by
  induction xs generalizing b with
  | nil => rfl
  | cons x xs ih =>
    simp only [List.mem_cons, forall_eq_or_imp] at h
    rw [List.foldlM_cons, List.foldlM_cons, h.1 b]
    exact congrArg _ (funext (ih h.2))

theorem mapM_eq_ok {f : α → Outcome β} {xs : List α} {ys : List β} :
    xs.mapM f = Except.ok ys ↔ List.Forall₂ (fun x y => f x = Except.ok y) xs ys := by
  induction xs generalizing ys with
  | nil =>
    rw [List.mapM_nil, pure_eq, List.forall₂_nil_left_iff, Except.ok.injEq, eq_comm]
  | cons x xs ih =>
    rw [List.mapM_cons, bind_eq_ok, List.forall₂_cons_left_iff]
    simp only [bind_eq_ok, pure_eq, Except.ok.injEq, ih]
    exact ⟨fun ⟨y, hy, ys', hys, h⟩ => ⟨y, ys', hy, hys, h.symm⟩,
      fun ⟨y, ys', hy, hys, h⟩ => ⟨y, hy, ys', hys, h.symm⟩⟩

theorem mapM_cases (f : α → Outcome β) (xs : List α) :
    (∃ ys, xs.mapM f = Except.ok ys) ∨
      ∃ front x back fault, xs = front ++ x :: back ∧ (∀ a ∈ front, ∃ b, f a = Except.ok b) ∧
        f x = Except.error fault ∧ xs.mapM f = Except.error fault := by
  induction xs with
  | nil => exact .inl ⟨[], rfl⟩
  | cons x xs ih =>
    rw [List.mapM_cons]
    cases hx : f x with
    | error fault => exact .inr ⟨[], x, xs, fault, rfl, List.forall_mem_nil _, hx, rfl⟩
    | ok y =>
      rcases ih with ⟨ys, hys⟩ | ⟨front, x', back, fault, rfl, hfront, hx', hxs⟩
      · exact .inl ⟨y :: ys, by rw [hys, ok_bind, ok_bind, pure_eq]⟩
      · refine .inr ⟨x :: front, x', back, fault, rfl, ?_, hx', by rw [hxs, ok_bind, error_bind]⟩
        exact List.forall_mem_cons.2 ⟨⟨y, hx⟩, hfront⟩

theorem mapM_eq_range {f : α → Outcome β} {xs : List α} {g : Nat → Outcome β}
    (h : ∀ (i : Nat) (hi : i < xs.length), g i = f xs[i]) :
    xs.mapM f = (List.range xs.length).mapM g := by
  induction xs generalizing g with
  | nil => rfl
  | cons x xs ih =>
    have hfront : g 0 = f x := h 0 (Nat.succ_pos _)
    have hback := @ih (g ∘ Nat.succ) fun i hi => h (i + 1) (Nat.succ_lt_succ hi)
    rw [List.length_cons, List.range_succ_eq_map, List.mapM_cons, List.mapM_cons, List.mapM_map,
      hfront, hback]

/-- Whatever the first gives the second gives too. -/
def Le (x y : Outcome α) : Prop := ∀ a, x = Except.ok a → y = Except.ok a

theorem Le.refl (x : Outcome α) : Le x x := fun _ h => h

theorem Le.bind {x y : Outcome α} {f g : α → Outcome β} (h : Le x y) (hf : ∀ a, Le (f a) (g a)) :
    Le (x >>= f) (y >>= g) := by
  intro b hb
  obtain ⟨a, hx, hfa⟩ := bind_eq_ok.1 hb
  exact bind_eq_ok.2 ⟨a, h a hx, hf a b hfa⟩

theorem Le.map {x y : Outcome α} (h : Le x y) (f : α → β) : Le (x.map f) (y.map f) := by
  intro b hb
  obtain ⟨a, hx, rfl⟩ := map_eq_ok.1 hb
  exact map_eq_ok.2 ⟨a, h a hx, rfl⟩

/-- Both succeed with related results, or both fail with faults of the same kind. -/
def Agree (R : α → β → Prop) : Outcome α → Outcome β → Prop
  | .ok a, .ok b => R a b
  | .error fault, .error fault' => fault.kind = fault'.kind
  | _, _ => False

theorem Agree.refl {R : α → α → Prop} (hR : ∀ a, R a a) (x : Outcome α) : Agree R x x := by
  cases x with
  | error fault => rfl
  | ok a => exact hR a

theorem Agree.bind {R : α → β → Prop} {S : γ → δ → Prop} {x : Outcome α} {y : Outcome β}
    {f : α → Outcome γ} {g : β → Outcome δ} (h : Agree R x y)
    (hf : ∀ a b, x = Except.ok a → R a b → Agree S (f a) (g b)) :
    Agree S (x >>= f) (y >>= g) := by
  cases x with
  | error fault =>
    cases y with
    | error fault' => exact h
    | ok b => exact h.elim
  | ok a =>
    cases y with
    | error fault' => exact h.elim
    | ok b => exact hf a b rfl h

theorem Agree.bind_left {R : α → β → Prop} {S : γ → β → Prop} {x : Outcome α} {y : Outcome β}
    {f : α → Outcome γ} (h : Agree R x y) (hf : ∀ a b, R a b → Agree S (f a) (Except.ok b)) :
    Agree S (x >>= f) y := by
  cases x with
  | error fault =>
    cases y with
    | error fault' => exact h
    | ok b => exact h.elim
  | ok a =>
    cases y with
    | error fault' => exact h.elim
    | ok b => exact hf a b h

/-- Two loops agree whose elements stand for the same list, if their steps do; what relates the
states may tell of the elements so far and of those to come. -/
theorem foldlM_agree {ε ι : Type} {R : α → ι → Prop} {S : β → ι → Prop}
    {I : List ι → List ι → γ → ε → Prop} {f : γ → α → Outcome γ} {g : ε → β → Outcome ε}
    (hstep : ∀ seen k rest a b s t, R a k → S b k → I seen (k :: rest) s t →
      Agree (I (seen ++ [k]) rest) (f s a) (g t b))
    {xs : List α} {ys : List β} {ks : List ι} (hxs : List.Forall₂ R xs ks)
    (hys : List.Forall₂ S ys ks) {seen rest : List ι} {s : γ} {t : ε}
    (h : I seen (ks ++ rest) s t) :
    Agree (I (seen ++ ks) rest) (xs.foldlM f s) (ys.foldlM g t) := by
  induction hxs generalizing ys seen s t with
  | nil =>
    cases hys
    rwa [List.append_nil]
  | @cons a k xs ks head tail ih =>
    cases hys with
    | cons head' tail' =>
      rw [List.foldlM_cons, List.foldlM_cons]
      refine (hstep seen k (ks ++ rest) _ _ s t head head' h).bind fun s' t' _ hnext => ?_
      have hrest := ih tail' hnext
      rwa [List.append_assoc] at hrest

theorem Agree.of_ok {R : α → β → Prop} {x : Outcome α} {y : Outcome β} {a : α}
    (h : Agree R x y) (hx : x = Except.ok a) : ∃ b, y = Except.ok b ∧ R a b := by
  subst hx
  cases y with
  | error fault => exact h.elim
  | ok b => exact ⟨b, rfl, h⟩

theorem Agree.of_ok_right {R : α → β → Prop} {x : Outcome α} {y : Outcome β} {b : β}
    (h : Agree R x y) (hy : y = Except.ok b) : ∃ a, x = Except.ok a ∧ R a b := by
  subst hy
  cases x with
  | error fault => exact h.elim
  | ok a => exact ⟨a, rfl, h⟩

theorem Agree.of_error {R : α → β → Prop} {x : Outcome α} {y : Outcome β} {fault : Fault}
    (h : Agree R x y) (hx : x = Except.error fault) :
    ∃ fault', y = Except.error fault' ∧ fault.kind = fault'.kind := by
  subst hx
  cases y with
  | error fault' => exact ⟨fault', rfl, h⟩
  | ok b => exact h.elim

end Reservoir.Outcome
