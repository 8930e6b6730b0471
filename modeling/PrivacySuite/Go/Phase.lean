import Mathlib

/-!
# Checks made of phases

A sequential check is a chain of phases. A phase either ends the whole check
with an outcome (`.error o`, the Go convention `return res, true`) or falls
through with a value for the phases after it (`.ok a`). The whole check is an
`Except ω ω`, run to its outcome by `Phase.run`.

`Phase.run_bind_cases` is the inversion rule every argument about such a check
uses: the outcome comes from the first phase, or from the rest of the chain.
-/

namespace Phase

variable {ω α β : Type}

def run : Except ω ω → ω
  | .error o => o
  | .ok o => o

@[simp] theorem run_error (o : ω) : run (.error o) = o := rfl

@[simp] theorem run_ok (o : ω) : run (.ok o : Except ω ω) = o := rfl

@[simp] theorem run_pure (o : ω) : run (pure o : Except ω ω) = o := rfl

variable {x : Except ω α} {f : α → Except ω β} {b : β} {a : α} {o : ω} {p : Prop} {ε : Type}
  {wrap : ε → ω}

theorem run_bind_cases {P : ω → Prop} {f : α → Except ω ω} (h : P (run (x >>= f))) :
    (∃ o, x = .error o ∧ P o) ∨ ∃ a, x = .ok a ∧ P (run (f a)) := by
  cases x with
  | error e => exact .inl ⟨e, rfl, h⟩
  | ok a => exact .inr ⟨a, rfl, h⟩

theorem bind_ok_cases (h : (x >>= f) = .ok b) : ∃ a, x = .ok a ∧ f a = .ok b := by
  cases x with
  | error e => cases h
  | ok a => exact ⟨a, rfl, h⟩

theorem pure_eq_ok {b : α} : (pure a : Except ω α) = .ok b ↔ a = b := by
  show (Except.ok a : Except ω α) = .ok b ↔ a = b
  rw [Except.ok.injEq]

theorem bind_eq_ok : (x >>= f) = .ok b ↔ ∃ a, x = .ok a ∧ f a = .ok b := by
  constructor
  · exact bind_ok_cases
  · rintro ⟨a, rfl, h⟩
    exact h

theorem exists_ok_of_any {q : α → Bool} (h : x.toOption.any q = true) :
    ∃ a, x = .ok a ∧ q a = true := by
  cases x with
  | error e => cases h
  | ok a => exact ⟨a, rfl, h⟩

theorem bind_error_cases (h : (x >>= f) = .error o) :
    x = .error o ∨ ∃ a, x = .ok a ∧ f a = .error o := by
  cases x with
  | error e => exact .inl (by cases h; rfl)
  | ok a => exact .inr ⟨a, rfl, h⟩

theorem forM_ok {f : α → Except ω Unit} {l : List α} (h : l.forM f = .ok ()) :
    ∀ a ∈ l, f a = .ok () := by
  induction l with
  | nil => simp
  | cons a rest ih =>
    obtain ⟨⟨⟩, hhead, htail⟩ := bind_ok_cases h
    intro b hb
    rcases List.mem_cons.mp hb with rfl | hb
    · exact hhead
    · exact ih htail b hb

/-! ## Loops that carry a state -/

section Fold

variable {σ : Type} {f : σ → α → Except ω σ}

variable {s s' : σ} {l : List α}

theorem foldlM_nil_eq_ok : [].foldlM f s = .ok s' ↔ s' = s := by
  rw [List.foldlM_nil, pure_eq_ok, eq_comm]

theorem foldlM_cons_eq_ok {a : α} :
    (a :: l).foldlM f s = .ok s' ↔ ∃ s₁, f s a = .ok s₁ ∧ l.foldlM f s₁ = .ok s' := by
  rw [List.foldlM_cons, bind_eq_ok]

theorem foldlM_append_eq_ok {l' : List α} :
    (l ++ l').foldlM f s = .ok s' ↔ ∃ s₁, l.foldlM f s = .ok s₁ ∧ l'.foldlM f s₁ = .ok s' := by
  rw [List.foldlM_append, bind_eq_ok]

theorem foldlM_ok_invariant_from {I : List α → σ → Prop}
    (hstep : ∀ done a s s', I done s → f s a = .ok s' → I (done ++ [a]) s') {done : List α}
    (h0 : I done s) (h : l.foldlM f s = .ok s') : I (done ++ l) s' := by
  induction l generalizing done s with
  | nil =>
    obtain rfl : s = s' := Except.ok.inj h
    simpa using h0
  | cons a rest ih =>
    obtain ⟨s1, hhead, htail⟩ := foldlM_cons_eq_ok.mp h
    have hnext := ih (hstep done a s s1 h0 hhead) htail
    rwa [List.append_assoc, List.singleton_append] at hnext

/-- The invariant rule: what holds before the loop and is kept by every step that
falls through holds after it. The invariant may speak of the elements done. -/
theorem foldlM_ok_invariant {I : List α → σ → Prop} (h0 : I [] s)
    (hstep : ∀ done a s s', I done s → f s a = .ok s' → I (done ++ [a]) s')
    (h : l.foldlM f s = .ok s') : I l s' :=
  foldlM_ok_invariant_from hstep h0 h

theorem foldlM_ok_split {pre post : List α} {a : α} (h : (pre ++ a :: post).foldlM f s = .ok s') :
    ∃ s1 s2, pre.foldlM f s = .ok s1 ∧ f s1 a = .ok s2 ∧ post.foldlM f s2 = .ok s' := by
  obtain ⟨s1, hpre, hrest⟩ := foldlM_append_eq_ok.mp h
  obtain ⟨s2, ha, hpost⟩ := foldlM_cons_eq_ok.mp hrest
  exact ⟨s1, s2, hpre, ha, hpost⟩

end Fold

def onlyIf (p : Prop) [Decidable p] (x : Except ω Unit) : Except ω Unit := if p then x else .ok ()

theorem onlyIf_ok [Decidable p] {x : Except ω Unit} {u : Unit} (h : onlyIf p x = .ok u) (hp : p) :
    x = .ok () := by
  unfold onlyIf at h
  rw [if_pos hp] at h
  exact h

theorem onlyIf_error [Decidable p] {x : Except ω Unit} (h : onlyIf p x = .error o) :
    p ∧ x = .error o := by
  unfold onlyIf at h
  split at h
  · exact ⟨by assumption, h⟩
  · cases h

/-- A check that refuses falls through exactly when its condition fails. -/
theorem onlyIf_error_bind_eq_ok [Decidable p] {f : Unit → Except ω β} :
    (onlyIf p (.error o) >>= f) = .ok b ↔ ¬ p ∧ f () = .ok b := by
  unfold onlyIf
  split
  · rename_i hp
    constructor
    · intro h
      cases h
    · rintro ⟨hn, -⟩
      exact absurd hp hn
  · rename_i hn
    constructor
    · exact fun h => ⟨hn, h⟩
    · exact And.right

/-- `fmt.Errorf` around a failed lookup: the error, passed through `wrap`. -/
def orFail {ε : Type} (x : Except ε α) (wrap : ε → ω) : Except ω α :=
  match x with
  | .error e => .error (wrap e)
  | .ok a => .ok a

theorem orFail_ok {x : Except ε α} (h : orFail x wrap = .ok a) : x = .ok a := by
  cases x with
  | error e => cases h
  | ok b => simpa [orFail] using h

theorem orFail_error {x : Except ε α} (h : orFail x wrap = .error o) : ∃ e, o = wrap e := by
  cases x with
  | error e => exact ⟨e, by simpa [orFail] using h.symm⟩
  | ok b => cases h

theorem orFail_eq_ok {x : Except ε α} : orFail x wrap = .ok a ↔ x = .ok a := by
  constructor
  · exact orFail_ok
  · rintro rfl
    rfl

/-! ## Two checks side by side -/

/-- Two checks end alike: both fail, or both succeed with related results. -/
def Alike {ε ε' : Type} (S : α → β → Prop) (x : Except ε α) (y : Except ε' β) : Prop :=
  (∃ a b, x = .ok a ∧ y = .ok b ∧ S a b) ∨ ∃ e e', x = .error e ∧ y = .error e'

section Alike

variable {ε ε' α' β' : Type} {S : α → β → Prop} {S' : α' → β' → Prop}

theorem alike_ok {a : α} {b : β} (h : S a b) :
    Alike S (.ok a : Except ε α) (.ok b : Except ε' β) :=
  .inl ⟨a, b, rfl, rfl, h⟩

theorem alike_error (e : ε) (e' : ε') : Alike S (.error e) (.error e') := .inr ⟨e, e', rfl, rfl⟩

theorem Alike.bind {x : Except ε α} {y : Except ε' β} (h : Alike S x y) {f : α → Except ε α'}
    {g : β → Except ε' β'} (hfg : ∀ a b, S a b → Alike S' (f a) (g b)) :
    Alike S' (x >>= f) (y >>= g) := by
  rcases h with ⟨a, b, rfl, rfl, hab⟩ | ⟨e, e', rfl, rfl⟩
  · exact hfg a b hab
  · exact alike_error e e'

end Alike

/-! ## How a phase may end the check -/

/-- Whenever the phase ends the check, its outcome satisfies `P`. -/
def EndsIn (P : ω → Prop) (x : Except ω α) : Prop := ∀ o, x = .error o → P o

section EndsIn

variable {P : ω → Prop}

theorem endsIn_ok (a : α) : EndsIn P (.ok a : Except ω α) := by
  intro o h
  cases h

theorem endsIn_error {o : ω} (h : P o) : EndsIn P (.error o : Except ω α) := by
  intro o' h'
  cases h'
  exact h

theorem endsIn_orFail {ε : Type} {x : Except ε α} {wrap : ε → ω} (h : ∀ e, P (wrap e)) :
    EndsIn P (orFail x wrap) := by
  intro o ho
  obtain ⟨e, rfl⟩ := orFail_error ho
  exact h e

variable {x : Except ω α}

theorem endsIn_bind {f : α → Except ω β} (hx : EndsIn P x) (hf : ∀ a, EndsIn P (f a)) :
    EndsIn P (x >>= f) := by
  intro o h
  rcases bind_error_cases h with hx' | ⟨a, -, ha⟩
  · exact hx o hx'
  · exact hf a o ha

theorem endsIn_onlyIf {p : Prop} [Decidable p] {x : Except ω Unit} (hx : EndsIn P x) :
    EndsIn P (onlyIf p x) :=
  fun o h => hx o (onlyIf_error h).2

theorem endsIn_ite {p : Prop} [Decidable p] {y : Except ω α} (hx : EndsIn P x) (hy : EndsIn P y) :
    EndsIn P (if p then x else y) := by
  split
  · exact hx
  · exact hy

theorem endsIn_forM {f : α → Except ω Unit} (hf : ∀ a, EndsIn P (f a)) {l : List α} :
    EndsIn P (l.forM f) := by
  induction l with
  | nil => exact endsIn_ok _
  | cons a rest ih => exact endsIn_bind (hf a) fun _ => ih

theorem endsIn_foldlM {σ : Type} {f : σ → α → Except ω σ} (hf : ∀ s a, EndsIn P (f s a))
    {l : List α} {s : σ} : EndsIn P (l.foldlM f s) := by
  induction l generalizing s with
  | nil => exact endsIn_ok _
  | cons a rest ih =>
    rw [List.foldlM_cons]
    exact endsIn_bind (hf s a) fun _ => ih

/-- Behind a phase that cannot end in `P`: an outcome in `P` is the rest's. -/
theorem run_bind_of_endsIn {f : α → Except ω ω} (hx : EndsIn (¬ P ·) x) (h : P (run (x >>= f))) :
    ∃ a, x = .ok a ∧ P (run (f a)) := by
  rcases run_bind_cases h with ⟨o, hx', ho⟩ | hrest
  · exact absurd ho (hx o hx')
  · exact hrest

end EndsIn

end Phase
