import PrivacySuite.Data.Index

/-!
# Paths through a table of links

Every entry of a table names the next one. `Path` is the path from a name along the entries
it meets, and where it stops. Whatever the links lead to from its start is on the path or
behind its end.
-/

namespace Data

section Path

variable {N E : Type} [DecidableEq N] {next : E → N} {t t' : Table N E} {c stop : N}
  {visited : List N}

/-- The path from `c` over the entries of `visited`, in order, to `stop`. -/
inductive Path (next : E → N) (t : Table N E) : N → List N → N → Prop
  | stop (c : N) : Path next t c [] c
  | step {c : N} {e : E} {visited : List N} {stop : N} (h : t.lookup c = some e)
      (rest : Path next t (next e) visited stop) : Path next t c (c :: visited) stop

theorem Path.mono (h : Path next t c visited stop)
    (hsub : ∀ n e, t.lookup n = some e → t'.lookup n = some e) : Path next t' c visited stop := by
  induction h with
  | stop c => exact .stop c
  | step hlookup _ ih => exact .step (hsub _ _ hlookup) ih

theorem Path.start (h : Path next t c visited stop) : c ∈ visited ∨ c = stop := by
  cases h with
  | stop => exact .inr rfl
  | step => exact .inl List.mem_cons_self

/-- What an entry on the path names next is on the path, or its end. -/
theorem Path.next_mem (h : Path next t c visited stop) {n : N} (hn : n ∈ visited) :
    ∃ e, t.lookup n = some e ∧ (next e ∈ visited ∨ next e = stop) := by
  induction h with
  | stop => cases hn
  | step hlookup rest ih =>
    rcases List.mem_cons.mp hn with rfl | hn
    · refine ⟨_, hlookup, ?_⟩
      rcases rest.start with hmem | heq
      · exact .inl (List.mem_cons_of_mem _ hmem)
      · exact .inr heq
    · obtain ⟨e, he, hnext⟩ := ih hn
      exact ⟨e, he, hnext.imp_left (List.mem_cons_of_mem _)⟩

section Links

variable {link : N → N → Prop} {n : N}

theorem Path.reaches (h : Path next t c visited stop)
    (hlink : ∀ n e, t.lookup n = some e → link n (next e)) (hn : n ∈ visited) :
    Relation.ReflTransGen link c n := by
  induction h with
  | stop => cases hn
  | step hlookup _ ih =>
    rcases List.mem_cons.mp hn with rfl | hn
    · exact .refl
    · exact .head (hlink _ _ hlookup) (ih hn)

/-- What is reached from the start of a path is on it, or reached from its end. -/
theorem Path.mem_or_reaches (h : Path next t c visited stop)
    (hlink : ∀ n e m, t.lookup n = some e → link n m → m = next e)
    (hreach : Relation.ReflTransGen link c n) :
    n ∈ visited ∨ Relation.ReflTransGen link stop n := by
  induction hreach with
  | refl =>
    rcases h.start with hmem | rfl
    · exact .inl hmem
    · exact .inr .refl
  | tail _ hnm ih =>
    rcases ih with hmem | hreach
    · obtain ⟨e, he, hnext⟩ := h.next_mem hmem
      rw [hlink _ _ _ he hnm]
      rcases hnext with hnext | heq
      · exact .inl hnext
      · rw [heq]
        exact .inr .refl
    · exact .inr (hreach.tail hnm)

/-- A path that runs into itself holds all it reaches. -/
theorem Path.mem_of_cycle (h : Path next t c visited stop)
    (hlink : ∀ n e m, t.lookup n = some e → link n m → m = next e) (hstop : stop ∈ visited)
    (hreach : Relation.ReflTransGen link stop n) : n ∈ visited := by
  induction hreach with
  | refl => exact hstop
  | tail _ hnm ih =>
    obtain ⟨e, he, hnext⟩ := h.next_mem ih
    rw [hlink _ _ _ he hnm]
    rcases hnext with hnext | heq
    · exact hnext
    · rw [heq]
      exact hstop

end Links

end Path

end Data
