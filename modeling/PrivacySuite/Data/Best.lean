import Mathlib

/-!
# Keeping the greatest

What is held gives way only to something of greater rank. Whatever the order things are
offered in, what is held at the end is of the greatest rank; things of one rank are not
told apart, and of these the first one stays.
-/

namespace Data

open List

variable {α R : Type} [LinearOrder R] (rank : α → R)

def keepBest : Option α → α → Option α
  | none, a => some a
  | some held, a => if rank a ≤ rank held then some held else some a

variable {rank}

theorem keepBest_isSome (o : Option α) (a : α) : (keepBest rank o a).isSome = true := by
  cases o with
  | none => rfl
  | some held =>
    rw [keepBest]
    split <;> rfl

theorem keepBest_eq_some {o : Option α} {a b : α} (h : keepBest rank o a = some b) :
    (b = a ∨ o = some b) ∧ rank a ≤ rank b ∧
      ∀ held, o = some held → b = held ∨ rank held < rank b := by
  cases o with
  | none =>
    obtain rfl := Option.some.inj h
    exact ⟨.inl rfl, le_refl _, by simp⟩
  | some held =>
    rw [keepBest] at h
    split at h
    · rename_i hle
      obtain rfl := Option.some.inj h
      refine ⟨.inr rfl, hle, ?_⟩
      rintro _ ⟨⟩
      exact .inl rfl
    · rename_i hlt
      obtain rfl := Option.some.inj h
      refine ⟨.inl rfl, le_refl _, ?_⟩
      rintro _ ⟨⟩
      exact .inr (not_le.mp hlt)

theorem foldl_keepBest_isSome {o : Option α} {as : List α} (h : o.isSome = true ∨ as ≠ []) :
    (as.foldl (keepBest rank) o).isSome = true := by
  induction as generalizing o with
  | nil => exact h.resolve_right fun hne => hne rfl
  | cons a as ih => exact ih (.inl (keepBest_isSome o a))

/-- What is held after any offers is one of them or what was held; nothing offered is of
greater rank, and what was held has only given way to something of greater rank. -/
theorem foldl_keepBest {o : Option α} {as : List α} {b : α}
    (h : as.foldl (keepBest rank) o = some b) :
    (b ∈ as ∨ o = some b) ∧ (∀ a ∈ as, rank a ≤ rank b) ∧
      ∀ held, o = some held → b = held ∨ rank held < rank b := by
  induction as generalizing o with
  | nil =>
    refine ⟨.inr h, by simp, ?_⟩
    rintro held rfl
    exact .inl (Option.some.inj h).symm
  | cons a as ih =>
    obtain ⟨hmem, hrest, hheld⟩ := ih h
    have hsome : (keepBest rank o a).isSome = true := keepBest_isSome o a
    obtain ⟨c, hc⟩ := Option.isSome_iff_exists.mp hsome
    obtain ⟨hfrom, ha, hold⟩ := keepBest_eq_some hc
    have hcb : b = c ∨ rank c < rank b := hheld c hc
    have hle : rank c ≤ rank b := hcb.elim (fun heq => heq ▸ le_refl _) le_of_lt
    refine ⟨?_, ?_, ?_⟩
    · rcases hmem with hmem | hmem
      · exact .inl (mem_cons_of_mem a hmem)
      · obtain rfl := Option.some.inj (hc.symm.trans hmem)
        rcases hfrom with rfl | hfrom
        · exact .inl mem_cons_self
        · exact .inr hfrom
    · intro x hx
      rcases mem_cons.mp hx with rfl | hx
      · exact ha.trans hle
      · exact hrest x hx
    · intro held ho
      rcases hold held ho with rfl | hlt
      · exact hcb
      · exact .inr (lt_of_lt_of_le hlt hle)

/-- Offering one after the other is offering the best of them. -/
theorem foldl_keepBest_eq (o : Option α) (as : List α) :
    as.foldl (keepBest rank) o = (as.foldl (keepBest rank) none).elim o (keepBest rank o) := by
  induction as using List.reverseRecOn with
  | nil => rfl
  | append_singleton as a ih =>
    rw [foldl_concat, foldl_concat, ih]
    cases as.foldl (keepBest rank) none with
    | none => rfl
    | some b =>
      show keepBest rank (keepBest rank o b) a =
        (if rank a ≤ rank b then some b else some a).elim o (keepBest rank o)
      cases o with
      | none =>
        show (if rank a ≤ rank b then some b else some a) = _
        split <;> rfl
      | some held =>
        by_cases hab : rank a ≤ rank b
        · rw [if_pos hab]
          show keepBest rank (if rank b ≤ rank held then some held else some b) a =
            if rank b ≤ rank held then some held else some b
          split
          · rename_i hbh
            exact if_pos (hab.trans hbh)
          · exact if_pos hab
        · rw [if_neg hab]
          show keepBest rank (if rank b ≤ rank held then some held else some b) a =
            if rank a ≤ rank held then some held else some a
          split
          · rfl
          · rename_i hbh
            have hah : ¬ rank a ≤ rank held :=
              not_le.mpr (lt_trans (not_le.mp hbh) (not_le.mp hab))
            rw [if_neg hah]
            exact if_neg hab

theorem foldl_keepBest_of_le {held : α} {as : List α} (h : ∀ a ∈ as, rank a ≤ rank held) :
    as.foldl (keepBest rank) (some held) = some held := by
  induction as with
  | nil => rfl
  | cons a as ih =>
    have hkeep : keepBest rank (some held) a = some held := if_pos (h a mem_cons_self)
    rw [foldl_cons, hkeep]
    exact ih fun b hb => h b (mem_cons_of_mem a hb)

section Map

variable {β : Type} {rank' : β → R} {f : β → α}

theorem keepBest_map (hf : ∀ b, rank (f b) = rank' b) (o : Option β) (b : β) :
    keepBest rank (o.map f) (f b) = (keepBest rank' o b).map f := by
  cases o with
  | none => rfl
  | some held =>
    simp only [Option.map_some, keepBest, hf]
    split <;> rfl

theorem foldl_keepBest_map (hf : ∀ b, rank (f b) = rank' b) (o : Option β) (bs : List β) :
    (bs.map f).foldl (keepBest rank) (o.map f) = (bs.foldl (keepBest rank') o).map f := by
  induction bs generalizing o with
  | nil => rfl
  | cons b bs ih =>
    rw [map_cons, foldl_cons, foldl_cons, keepBest_map hf]
    exact ih _

end Map

end Data
