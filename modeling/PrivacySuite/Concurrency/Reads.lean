import Mathlib

/-!
# Computations made of separate reads

A computation over a store that other parties change meanwhile is a tree of
queries: it is done, or it asks one query and goes on from the answer. Nothing
ties the answers of two queries together, so the store may be another one at
each read.

`Returns` says what such a computation can come to under some answers, and
`answeredBy` runs it against answers that do not change.
-/

namespace Concurrency

/-- A computation that asks queries `Q` with answers `A q` and ends with an `α`. -/
inductive Reads (Q : Type) (A : Q → Type) (α : Type) where
  | done (a : α)
  | ask (q : Q) (next : A q → Reads Q A α)

namespace Reads

variable {Q : Type} {A : Q → Type} {α β : Type}

def bind : Reads Q A α → (α → Reads Q A β) → Reads Q A β
  | .done a, f => f a
  | .ask q next, f => .ask q fun answer => bind (next answer) f

instance : Monad (Reads Q A) where
  pure := .done
  bind := bind

@[simp] theorem pure_eq (a : α) : (pure a : Reads Q A α) = .done a := rfl

@[simp] theorem done_bind (a : α) (f : α → Reads Q A β) : (.done a : Reads Q A α) >>= f = f a := rfl

@[simp] theorem ask_bind (q : Q) (next : A q → Reads Q A α) (f : α → Reads Q A β) :
    (.ask q next : Reads Q A α) >>= f = .ask q fun answer => next answer >>= f := rfl

/-- The result under answers that stay the same for the whole computation. -/
def answeredBy (answers : (q : Q) → A q) : Reads Q A α → α
  | .done a => a
  | .ask q next => answeredBy answers (next (answers q))

/-- `m.Returns a`: under some answers, one for each query as it is asked, the
computation ends with `a`. -/
inductive Returns : Reads Q A α → α → Prop where
  | done (a : α) : Returns (.done a) a
  | ask {q : Q} {next : A q → Reads Q A α} {a : α} (answer : A q) (h : Returns (next answer) a) :
      Returns (.ask q next) a

variable {a b : α} {ε : Type} {m : ExceptT ε (Reads Q A) α} {f : α → ExceptT ε (Reads Q A) β}

@[simp] theorem returns_done : (.done a : Reads Q A α).Returns b ↔ b = a := by
  constructor
  · intro h
    cases h
    rfl
  · rintro rfl
    exact .done b

@[simp] theorem returns_ask {q : Q} {next : A q → Reads Q A α} :
    (Reads.ask q next).Returns a ↔ ∃ answer, (next answer).Returns a := by
  constructor
  · intro h
    cases h with
    | ask answer h => exact ⟨answer, h⟩
  · rintro ⟨answer, h⟩
    exact .ask answer h

theorem returns_bind {m : Reads Q A α} {f : α → Reads Q A β} {b : β} :
    (m >>= f).Returns b ↔ ∃ a, m.Returns a ∧ (f a).Returns b := by
  induction m with
  | done a => simp
  | ask q next ih =>
    simp only [ask_bind, returns_ask, ih]
    exact ⟨fun ⟨answer, a, hm, hf⟩ => ⟨a, ⟨answer, hm⟩, hf⟩,
      fun ⟨a, ⟨answer, hm⟩, hf⟩ => ⟨answer, a, hm, hf⟩⟩

/-- `returns_bind` for computations that may fail, of their proper results. -/
theorem returns_ok_bind {b : β} :
    (m >>= f).run.Returns (.ok b) ↔ ∃ a, m.run.Returns (.ok a) ∧ (f a).run.Returns (.ok b) := by
  rw [ExceptT.run_bind, returns_bind]
  constructor
  · rintro ⟨result, hm, hf⟩
    cases result with
    | ok a => exact ⟨a, hm, hf⟩
    | error e => simp at hf
  · rintro ⟨a, hm, hf⟩
    exact ⟨.ok a, hm, hf⟩

@[simp] theorem returns_ok_pure :
    (pure a : ExceptT ε (Reads Q A) α).run.Returns (.ok b) ↔ b = a := by
  simp

@[simp] theorem answeredBy_bind (answers : (q : Q) → A q) (m : Reads Q A α) (f : α → Reads Q A β) :
    (m >>= f).answeredBy answers = (f (m.answeredBy answers)).answeredBy answers := by
  induction m with
  | done a => rfl
  | ask q next ih => exact ih (answers q)

/-- A computation that may fail goes on from the proper result of its first part. -/
theorem answeredBy_ok_bind {answers : (q : Q) → A q} (h : m.run.answeredBy answers = .ok a) :
    (m >>= f).run.answeredBy answers = (f a).run.answeredBy answers := by
  rw [ExceptT.run_bind, answeredBy_bind, h]

theorem returns_answeredBy (answers : (q : Q) → A q) (m : Reads Q A α) :
    m.Returns (m.answeredBy answers) := by
  induction m with
  | done a => exact .done a
  | ask q next ih => exact .ask (answers q) (ih (answers q))

end Reads

end Concurrency
