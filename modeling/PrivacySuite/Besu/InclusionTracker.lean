import PrivacySuite.Data.Path
import PrivacySuite.NodeApproval.SignedBatch

/-!
# Release on finality in the Besu plugin

`InclusionTracker` of the Besu plugin: which blocks hold approvals, linked by their parents.
A finalized head releases the transactions of its ancestors; expiry first takes away a
block's transactions and later its link. Times are milliseconds of the clock, far from
the bounds of a Java long. A block's number is recorded and never read, and is left out.
-/

namespace PrivacySuite.Besu.InclusionTracker

open NodeApproval Data List

/-! ## The tracker -/

structure Included where
  parent : Hash
  transactions : List Hash
  approvalsExpireAt : Int
  linkUntil : Int

structure State where
  blocks : Table Hash Included
  lastFinalized : Option Hash

def State.init : State := ⟨∅, none⟩

structure Recording where
  block : Hash
  parent : Hash
  transactions : List Hash
  approvalsExpireAt : Int
  now : Int

def recordIncluded (linkRetentionMs : Int) (s : State) (r : Recording) : State :=
  let included : Included :=
    ⟨r.parent, r.transactions, r.approvalsExpireAt, r.now + linkRetentionMs⟩
  { s with blocks := s.blocks.insert r.block included }

/-- The loop of `finalizedUpTo`, with the steps that are left: the blocks that stay and the
transactions released. -/
def walk (lastFinalized : Option Hash) : Nat → Hash → Table Hash Included →
    Table Hash Included × List Hash
  | 0, _, blocks => (blocks, [])
  | steps + 1, cursor, blocks =>
      if lastFinalized = some cursor then (blocks, [])
      else match blocks.lookup cursor with
        | none => (blocks, [])
        | some included =>
            let rest := walk lastFinalized steps included.parent (blocks.erase cursor)
            (rest.1, included.transactions ++ rest.2)

def finalizedUpTo (s : State) : Option Hash → State × List Hash
  | none => (s, [])
  | some finalizedBlock =>
      let limit := s.blocks.entries.length
      let done := walk s.lastFinalized (limit + 1) finalizedBlock s.blocks
      (⟨done.1, some finalizedBlock⟩, done.2)

/-- Without the transactions, when all their approvals have expired. -/
def Included.expire (now : Int) (b : Included) : Included :=
  if b.approvalsExpireAt ≤ now ∧ !b.transactions.isEmpty then { b with transactions := [] } else b

/-- The state behind the sweep and how many blocks it dropped. -/
def forgetExpired (s : State) (now : Int) : State × Nat :=
  let kept := s.blocks.retain fun b => !decide (b.linkUntil ≤ now)
  ({ s with blocks := kept.mapEntries (Included.expire now) },
    s.blocks.entries.length - kept.entries.length)

/-! ## Runs -/

/-- A call of the tracker, with the time it is made at. -/
inductive Op where
  | recordIncluded (r : Recording)
  | finalizedUpTo (finalizedBlock : Option Hash) (now : Int)
  | forgetExpired (now : Int)

def Op.time : Op → Int
  | .recordIncluded r => r.now
  | .finalizedUpTo _ now => now
  | .forgetExpired now => now

def apply (linkRetentionMs : Int) (s : State) : Op → State × List Hash
  | .recordIncluded r => (InclusionTracker.recordIncluded linkRetentionMs s r, [])
  | .finalizedUpTo finalizedBlock _ => InclusionTracker.finalizedUpTo s finalizedBlock
  | .forgetExpired now => ((InclusionTracker.forgetExpired s now).1, [])

/-- The state behind a run and all that its calls released. -/
def run (linkRetentionMs : Int) (ops : List Op) : State × List Hash :=
  ops.foldl (fun before op =>
    let after := apply linkRetentionMs before.1 op
    (after.1, before.2 ++ after.2)) (.init, [])

theorem run_concat (linkRetentionMs : Int) (ops : List Op) (op : Op) :
    run linkRetentionMs (ops ++ [op]) =
      ((apply linkRetentionMs (run linkRetentionMs ops).1 op).1,
        (run linkRetentionMs ops).2 ++
          (apply linkRetentionMs (run linkRetentionMs ops).1 op).2) := by
  rw [run, foldl_append]
  rfl

def recordings (ops : List Op) : List Recording :=
  ops.filterMap fun
    | .recordIncluded r => some r
    | _ => none

def heads (ops : List Op) : List Hash :=
  ops.filterMap fun
    | .finalizedUpTo finalizedBlock _ => finalizedBlock
    | _ => none

def Link (rs : List Recording) (block parent : Hash) : Prop :=
  ∃ r ∈ rs, r.block = block ∧ r.parent = parent

/-- An ancestor of a block or the block itself, connected to it through recorded blocks. -/
def Ancestor (rs : List Recording) (block ancestor : Hash) : Prop :=
  Relation.ReflTransGen (Link rs) block ancestor

/-- What the node and the plugin promise of a run: the clock does not go back, a block is
recorded once, not before its parent and before it can be finalized, and its approvals
expire before its link does. -/
structure Promised (linkRetentionMs : Int) (ops : List Op) : Prop where
  clock : ops.Pairwise fun op op' => op.time ≤ op'.time
  once : ((recordings ops).map Recording.block).Nodup
  parent_first : ∀ r ∈ recordings ops, ∀ p ∈ recordings ops, p.block = r.parent → p.now ≤ r.now
  not_final : ∀ before r after, ops = before ++ .recordIncluded r :: after →
    ∀ head ∈ heads before, ¬ Ancestor (recordings before) head r.block
  expiry : ∀ r ∈ recordings ops, r.approvalsExpireAt ≤ r.now + linkRetentionMs

/-! ## The walk -/

section Walk

variable {lastFinalized : Option Hash} {blocks : Table Hash Included}

/-- The walk follows a path from the finalized block to the last one finalized, to a block
that is not tracked or into itself; what is on the path goes and is released. -/
theorem walk_spec {steps : Nat} (cursor : Hash) (hsteps : blocks.entries.length < steps) :
    ∃ visited stop, Path Included.parent blocks cursor visited stop ∧
      (lastFinalized = some stop ∨ blocks.lookup stop = none ∨ stop ∈ visited) ∧
      (∀ block, (walk lastFinalized steps cursor blocks).1.lookup block =
        if block ∈ visited then none else blocks.lookup block) ∧
      ∀ tx, tx ∈ (walk lastFinalized steps cursor blocks).2 ↔
        ∃ block ∈ visited, ∃ b, blocks.lookup block = some b ∧ tx ∈ b.transactions := by
  induction steps generalizing cursor blocks with
  | zero => exact absurd hsteps (Nat.not_lt_zero _)
  | succ steps ih =>
    rw [walk]
    by_cases hlast : lastFinalized = some cursor
    · rw [if_pos hlast]
      exact ⟨[], cursor, .stop cursor, .inl hlast, by simp, by simp⟩
    · rw [if_neg hlast]
      cases hlookup : blocks.lookup cursor with
      | none => exact ⟨[], cursor, .stop cursor, .inr (.inl hlookup), by simp, by simp⟩
      | some included =>
        have hfew : (blocks.erase cursor).entries.length < steps := by
          have hone := length_erase_of_lookup hlookup
          omega
        obtain ⟨visited, stop, hpath, hstop, hblocks, hreleased⟩ := ih included.parent hfew
        have herased : ∀ block b, (blocks.erase cursor).lookup block = some b →
            block ≠ cursor ∧ blocks.lookup block = some b := by
          intro block b hb
          by_cases heq : block = cursor
          · rw [heq, AList.lookup_erase] at hb
            cases hb
          · rw [AList.lookup_erase_ne heq] at hb
            exact ⟨heq, hb⟩
        refine ⟨cursor :: visited, stop,
          .step hlookup (hpath.mono fun n b hb => (herased n b hb).2),
          ?_, ?_, ?_⟩
        · rcases hstop with hlast | hnone | hcycle
          · exact .inl hlast
          · by_cases heq : stop = cursor
            · exact .inr (.inr (heq ▸ mem_cons_self))
            · rw [AList.lookup_erase_ne heq] at hnone
              exact .inr (.inl hnone)
          · exact .inr (.inr (mem_cons_of_mem _ hcycle))
        · intro block
          rw [hblocks block]
          by_cases heq : block = cursor
          · rw [heq, AList.lookup_erase]
            simp
          · rw [AList.lookup_erase_ne heq]
            simp [heq]
        · intro tx
          rw [mem_append, hreleased tx]
          constructor
          · rintro (htx | ⟨block, hblock, b, hb, htx⟩)
            · exact ⟨cursor, mem_cons_self, included, hlookup, htx⟩
            · exact ⟨block, mem_cons_of_mem _ hblock, b, (herased block b hb).2, htx⟩
          · rintro ⟨block, hblock, b, hb, htx⟩
            by_cases heq : block = cursor
            · rw [heq, hlookup] at hb
              obtain rfl := Option.some.inj hb
              exact .inl htx
            · refine .inr ⟨block, (mem_cons.mp hblock).resolve_left heq, b, ?_, htx⟩
              rw [AList.lookup_erase_ne heq]
              exact hb

end Walk

/-! ## Runs by their last call -/

section Concat

variable {ops : List Op} {op : Op} {linkRetentionMs : Int}

theorem recordings_concat (ops : List Op) (r : Recording) :
    recordings (ops ++ [.recordIncluded r]) = recordings ops ++ [r] := by
  rw [recordings, filterMap_append]
  rfl

theorem recordings_concat_of_ne (h : ∀ r, op ≠ .recordIncluded r) :
    recordings (ops ++ [op]) = recordings ops := by
  rw [recordings, filterMap_append]
  cases op with
  | recordIncluded r => exact absurd rfl (h r)
  | finalizedUpTo finalizedBlock now | forgetExpired now => exact append_nil _

theorem heads_concat (ops : List Op) (finalizedBlock : Option Hash) (now : Int) :
    heads (ops ++ [.finalizedUpTo finalizedBlock now]) = heads ops ++ finalizedBlock.toList := by
  rw [heads, filterMap_append]
  cases finalizedBlock <;> rfl

theorem heads_concat_of_ne (h : ∀ finalizedBlock now, op ≠ .finalizedUpTo finalizedBlock now) :
    heads (ops ++ [op]) = heads ops := by
  rw [heads, filterMap_append]
  cases op with
  | recordIncluded r | forgetExpired now => exact append_nil _
  | finalizedUpTo finalizedBlock now => exact absurd rfl (h _ _)

theorem Promised.left {more : List Op} (h : Promised linkRetentionMs (ops ++ more)) :
    Promised linkRetentionMs ops := by
  have hsub : List.Sublist (recordings ops) (recordings (ops ++ more)) :=
    (sublist_append_left ops more).filterMap _
  refine ⟨h.clock.sublist (sublist_append_left ops more),
    h.once.sublist (hsub.map Recording.block), ?_, ?_, ?_⟩
  · intro r hr p hp
    exact h.parent_first r (hsub.subset hr) p (hsub.subset hp)
  · intro before r after hops
    apply h.not_final before r (after ++ more)
    rw [hops, append_assoc, cons_append]
  · intro r hr
    exact h.expiry r (hsub.subset hr)

end Concat

/-! ## Ancestors -/

section Ancestors

variable {linkRetentionMs : Int} {ops : List Op} {rs : List Recording} {block ancestor : Hash}

theorem Promised.unique (h : Promised linkRetentionMs ops) {r r' : Recording}
    (hr : r ∈ recordings ops) (hr' : r' ∈ recordings ops) (heq : r.block = r'.block) : r = r' :=
  inj_on_of_nodup_map h.once hr hr' heq

theorem Promised.ancestor_first (h : Promised linkRetentionMs ops) {r p : Recording}
    (hr : r ∈ recordings ops) (hp : p ∈ recordings ops)
    (hancestor : Ancestor (recordings ops) r.block p.block) : p.now ≤ r.now := by
  generalize hblock : p.block = ancestor at hancestor
  induction hancestor generalizing p with
  | refl => rw [h.unique hp hr hblock]
  | tail _ hlink ih =>
    obtain ⟨child, hchild, rfl, hparent⟩ := hlink
    exact (h.parent_first child hchild p hp (hblock.trans hparent.symm)).trans (ih hchild rfl)

theorem Ancestor.recorded {r : Recording} (h : Ancestor rs block r.block) (hr : r ∈ rs) :
    ∃ r' ∈ rs, r'.block = block := by
  rcases Relation.ReflTransGen.cases_head h with heq | ⟨parent, ⟨r', hr', hblock, -⟩, -⟩
  · exact ⟨r, hr, heq.symm⟩
  · exact ⟨r', hr', hblock⟩

theorem Ancestor.mono {rs' : List Recording} (h : Ancestor rs block ancestor)
    (hsub : ∀ r ∈ rs, r ∈ rs') : Ancestor rs' block ancestor := by
  induction h with
  | refl => exact .refl
  | tail _ hlink ih =>
    obtain ⟨r, hr, hblock, hparent⟩ := hlink
    exact ih.tail ⟨r, hsub r hr, hblock, hparent⟩

/-- A further recording adds nothing behind a block that does not reach it. -/
theorem Ancestor.of_concat {r : Recording} (hnot : ¬ Ancestor rs block r.block)
    (h : Ancestor (rs ++ [r]) block ancestor) : Ancestor rs block ancestor := by
  induction h with
  | refl => exact .refl
  | tail _ hlink ih =>
    obtain ⟨r', hr', rfl, hparent⟩ := hlink
    rcases mem_append.mp hr' with hr' | hr'
    · exact ih.tail ⟨r', hr', rfl, hparent⟩
    · rw [mem_singleton.mp hr'] at ih
      exact absurd ih hnot

end Ancestors

/-! ## The invariant -/

/-- A call was made at this time or later. -/
def Passed (ops : List Op) (time : Int) : Prop := ∃ op ∈ ops, time ≤ op.time

/-- The transactions of a block have all been released, or their approvals have expired. -/
def Settled (ops : List Op) (released : List Hash) (r : Recording) : Prop :=
  (∀ tx ∈ r.transactions, tx ∈ released) ∨ Passed ops r.approvalsExpireAt

/-- What is tracked is as it was recorded, or without its transactions once these have
expired. What is recorded and not tracked has lost its link to expiry, or is an ancestor of
a finalized head; and all ancestors of finalized heads are settled. -/
structure Tracks (linkRetentionMs : Int) (ops : List Op) (s : State) (released : List Hash) :
    Prop where
  tracked : ∀ block b, s.blocks.lookup block = some b → ∃ r ∈ recordings ops, r.block = block ∧
    r.parent = b.parent ∧ r.approvalsExpireAt = b.approvalsExpireAt ∧
    r.now + linkRetentionMs = b.linkUntil ∧
    (r.transactions = b.transactions ∨ b.transactions = [] ∧ Passed ops r.approvalsExpireAt)
  untracked : ∀ r ∈ recordings ops, s.blocks.lookup r.block = none →
    Passed ops (r.now + linkRetentionMs) ∨
      ∃ head ∈ heads ops, Ancestor (recordings ops) head r.block
  settled : ∀ head ∈ heads ops, ∀ r ∈ recordings ops, Ancestor (recordings ops) head r.block →
    Settled ops released r
  last : ∀ head, s.lastFinalized = some head → head ∈ heads ops

section Steps

variable {linkRetentionMs : Int} {ops : List Op} {op : Op} {s : State} {released : List Hash}

theorem Passed.concat {time : Int} (h : Passed ops time) (op : Op) : Passed (ops ++ [op]) time := by
  obtain ⟨op', hop', hle⟩ := h
  exact ⟨op', mem_append_left _ hop', hle⟩

theorem passed_last {time : Int} (h : time ≤ op.time) : Passed (ops ++ [op]) time :=
  ⟨op, mem_append_right _ mem_cons_self, h⟩

theorem Settled.concat {r : Recording} (h : Settled ops released r) (op : Op) (more : List Hash) :
    Settled (ops ++ [op]) (released ++ more) r := by
  rcases h with hall | hpassed
  · exact .inl fun tx htx => mem_append_left _ (hall tx htx)
  · exact .inr (hpassed.concat op)

theorem tracks_record (h : Tracks linkRetentionMs ops s released) {r : Recording}
    (hp : Promised linkRetentionMs (ops ++ [.recordIncluded r])) :
    Tracks linkRetentionMs (ops ++ [.recordIncluded r])
      (InclusionTracker.recordIncluded linkRetentionMs s r) released := by
  have hnot := hp.not_final ops r [] rfl
  have hheads : heads (ops ++ [.recordIncluded r]) = heads ops := heads_concat_of_ne (by simp)
  have hsub : ∀ r' ∈ recordings ops, r' ∈ recordings ops ++ [r] :=
    fun _ hr' => mem_append_left _ hr'
  constructor
  case tracked =>
    rw [recordings_concat]
    intro block b hb
    by_cases heq : block = r.block
    · subst heq
      obtain rfl := Option.some.inj ((AList.lookup_insert s.blocks).symm.trans hb)
      exact ⟨r, mem_append_right _ mem_cons_self, rfl, rfl, rfl, rfl, .inl rfl⟩
    · have hold : s.blocks.lookup block = some b := (AList.lookup_insert_ne heq).symm.trans hb
      obtain ⟨r', hr', hblock, hparent, hexpire, hlink, htxs⟩ := h.tracked block b hold
      exact ⟨r', hsub r' hr', hblock, hparent, hexpire, hlink,
        htxs.imp_right fun ⟨hnone, hpassed⟩ => ⟨hnone, hpassed.concat _⟩⟩
  case untracked =>
    rw [recordings_concat, hheads]
    intro r' hr' hnone
    have hne : r'.block ≠ r.block := by
      intro heq
      rw [heq] at hnone
      cases (AList.lookup_insert s.blocks).symm.trans hnone
    rcases mem_append.mp hr' with hr' | hr'
    · rcases h.untracked r' hr' ((AList.lookup_insert_ne hne).symm.trans hnone) with
        hpassed | ⟨head, hhead, hancestor⟩
      · exact .inl (hpassed.concat _)
      · exact .inr ⟨head, hhead, hancestor.mono hsub⟩
    · exact absurd (congrArg Recording.block (mem_singleton.mp hr')) hne
  case settled =>
    rw [recordings_concat, hheads]
    intro head hhead r' hr' hancestor
    have hold := Ancestor.of_concat (hnot head hhead) hancestor
    rcases mem_append.mp hr' with hr' | hr'
    · have hsettled := (h.settled head hhead r' hr' hold).concat (.recordIncluded r) []
      rwa [append_nil] at hsettled
    · rw [mem_singleton.mp hr'] at hold
      exact absurd hold (hnot head hhead)
  case last =>
    rw [hheads]
    exact h.last

/-- A call that records and finalizes nothing, and takes away only what has expired. -/
theorem Tracks.expire (h : Tracks linkRetentionMs ops s released)
    (hp : Promised linkRetentionMs ops) (hrecordings : recordings (ops ++ [op]) = recordings ops)
    (hheads : heads (ops ++ [op]) = heads ops) (s' : State)
    (hlast : s'.lastFinalized = s.lastFinalized)
    (hgone : ∀ block, s'.blocks.lookup block = none →
      ∀ b, s.blocks.lookup block = some b → b.linkUntil ≤ op.time)
    (hkept : ∀ block b', s'.blocks.lookup block = some b' → ∃ b, s.blocks.lookup block = some b ∧
      (b' = b ∨ b' = { b with transactions := [] } ∧ b.approvalsExpireAt ≤ op.time)) :
    Tracks linkRetentionMs (ops ++ [op]) s' released := by
  constructor
  case tracked =>
    rw [hrecordings]
    intro block b' hb'
    obtain ⟨b, hb, hsame⟩ := hkept block b' hb'
    obtain ⟨r, hr, hblock, hparent, hexpire, hlink, htxs⟩ := h.tracked block b hb
    refine ⟨r, hr, hblock, ?_⟩
    rcases hsame with rfl | ⟨rfl, hexpired⟩
    · exact ⟨hparent, hexpire, hlink, htxs.imp_right fun ⟨hnone, hpassed⟩ =>
        ⟨hnone, hpassed.concat op⟩⟩
    · exact ⟨hparent, hexpire, hlink, .inr ⟨rfl, passed_last (hexpire.le.trans hexpired)⟩⟩
  case untracked =>
    rw [hrecordings, hheads]
    intro r hr hnone
    cases hb : s.blocks.lookup r.block with
    | none => exact (h.untracked r hr hb).imp_left fun hpassed => hpassed.concat op
    | some b =>
      obtain ⟨r', hr', hblock, -, -, hlink, -⟩ := h.tracked r.block b hb
      rw [hp.unique hr' hr hblock] at hlink
      exact .inl (passed_last (hlink.le.trans (hgone r.block hnone b hb)))
  case settled =>
    rw [hrecordings, hheads]
    intro head hhead r hr hancestor
    have hsettled := (h.settled head hhead r hr hancestor).concat op []
    rwa [append_nil] at hsettled
  case last =>
    rw [hheads, hlast]
    exact h.last

theorem tracks_forget (h : Tracks linkRetentionMs ops s released)
    (hp : Promised linkRetentionMs ops) (now : Int) :
    Tracks linkRetentionMs (ops ++ [.forgetExpired now])
      (InclusionTracker.forgetExpired s now).1 released := by
  have hlookup : ∀ block, (InclusionTracker.forgetExpired s now).1.blocks.lookup block =
      ((s.blocks.lookup block).filter fun b => !decide (b.linkUntil ≤ now)).map
        (Included.expire now) := by
    intro block
    rw [← lookup_retain, ← lookup_mapEntries]
    rfl
  apply h.expire hp (recordings_concat_of_ne (by simp)) (heads_concat_of_ne (by simp))
    (InclusionTracker.forgetExpired s now).1 rfl
  · intro block hnone b hb
    rw [hlookup, hb, Option.map_eq_none_iff, Option.filter_some] at hnone
    by_contra hlink
    have hlive : ¬ b.linkUntil ≤ now := hlink
    simp [hlive] at hnone
  · intro block b' hb'
    rw [hlookup, Option.map_eq_some_iff] at hb'
    obtain ⟨b, hb, rfl⟩ := hb'
    refine ⟨b, (Option.filter_eq_some_iff.mp hb).1, ?_⟩
    unfold Included.expire
    split
    · rename_i hexpired
      exact .inr ⟨rfl, hexpired.1⟩
    · exact .inl rfl

/-- What a finalized head makes of the blocks: the path it walks goes and is released, and
every ancestor is on the path or behind its end. -/
theorem finalizedUpTo_spec (h : Tracks linkRetentionMs ops s released)
    (hp : Promised linkRetentionMs ops) (head : Hash) :
    ∃ (visited : List Hash) (stop : Hash),
      (s.lastFinalized = some stop ∨ s.blocks.lookup stop = none ∨ stop ∈ visited) ∧
      (∀ block ∈ visited, Ancestor (recordings ops) head block ∧
        ∃ b, s.blocks.lookup block = some b) ∧
      (∀ block, Ancestor (recordings ops) head block →
        block ∈ visited ∨ stop ∉ visited ∧ Ancestor (recordings ops) stop block) ∧
      (∀ block, (InclusionTracker.finalizedUpTo s (some head)).1.blocks.lookup block =
        if block ∈ visited then none else s.blocks.lookup block) ∧
      ∀ tx, tx ∈ (InclusionTracker.finalizedUpTo s (some head)).2 ↔
        ∃ block ∈ visited, ∃ b, s.blocks.lookup block = some b ∧ tx ∈ b.transactions := by
  obtain ⟨visited, stop, hpath, hstop, hblocks, hreleased⟩ :=
    walk_spec head (Nat.lt_succ_self s.blocks.entries.length)
  have hlink : ∀ block b, s.blocks.lookup block = some b →
      Link (recordings ops) block b.parent := by
    intro block b hb
    obtain ⟨r, hr, hblock, hparent, -⟩ := h.tracked block b hb
    exact ⟨r, hr, hblock, hparent⟩
  have honly : ∀ block b parent, s.blocks.lookup block = some b →
      Link (recordings ops) block parent → parent = b.parent := by
    rintro block b parent hb ⟨r, hr, hblock, hparent⟩
    obtain ⟨r', hr', hblock', hparent'⟩ := hlink block b hb
    rw [← hparent, ← hparent', hp.unique hr hr' (hblock.trans hblock'.symm)]
  refine ⟨visited, stop, hstop, ?_, ?_, hblocks, hreleased⟩
  · intro block hmem
    obtain ⟨b, hb, -⟩ := hpath.next_mem hmem
    exact ⟨hpath.reaches hlink hmem, b, hb⟩
  · intro block hancestor
    rcases hpath.mem_or_reaches honly hancestor with hmem | hreach
    · exact .inl hmem
    · by_cases hcycle : stop ∈ visited
      · exact .inl (hpath.mem_of_cycle honly hcycle hreach)
      · exact .inr ⟨hcycle, hreach⟩

/-- Where the walk stops, everything behind is settled: it was when an earlier head was
finalized, or it has expired before the link of the block that stopped the walk. -/
theorem settled_behind (h : Tracks linkRetentionMs ops s released)
    (hp : Promised linkRetentionMs ops) {stop : Hash} {r : Recording} (hr : r ∈ recordings ops)
    (hreach : Ancestor (recordings ops) stop r.block)
    (hstop : s.lastFinalized = some stop ∨ s.blocks.lookup stop = none) :
    Settled ops released r := by
  rcases hstop with hlast | hnone
  · exact h.settled stop (h.last stop hlast) r hr hreach
  · obtain ⟨child, hchild, rfl⟩ := hreach.recorded hr
    rcases h.untracked child hchild hnone with ⟨op, hop, hpassed⟩ | ⟨head, hhead, hancestor⟩
    · have hfirst := hp.ancestor_first hchild hr hreach
      have hexpiry := hp.expiry r hr
      exact .inr ⟨op, hop, by omega⟩
    · exact h.settled head hhead r hr (hancestor.trans hreach)

theorem tracks_finalized (h : Tracks linkRetentionMs ops s released)
    (hp : Promised linkRetentionMs ops) (head : Hash) (now : Int) :
    Tracks linkRetentionMs (ops ++ [.finalizedUpTo (some head) now])
      (InclusionTracker.finalizedUpTo s (some head)).1
      (released ++ (InclusionTracker.finalizedUpTo s (some head)).2) := by
  obtain ⟨visited, stop, hstop, hvisited, hbehind, hblocks, hreleased⟩ :=
    finalizedUpTo_spec h hp head
  have hrecordings : recordings (ops ++ [.finalizedUpTo (some head) now]) = recordings ops :=
    recordings_concat_of_ne (by simp)
  have hheads : heads (ops ++ [.finalizedUpTo (some head) now]) = heads ops ++ [head] :=
    heads_concat ops (some head) now
  constructor
  case tracked =>
    rw [hrecordings]
    intro block b hb
    rw [hblocks] at hb
    split at hb
    · cases hb
    · obtain ⟨r, hr, hblock, hparent, hexpire, hlink, htxs⟩ := h.tracked block b hb
      exact ⟨r, hr, hblock, hparent, hexpire, hlink,
        htxs.imp_right fun ⟨hnone, hpassed⟩ => ⟨hnone, hpassed.concat _⟩⟩
  case untracked =>
    rw [hrecordings, hheads]
    intro r hr hnone
    rw [hblocks] at hnone
    split at hnone
    · rename_i hmem
      exact .inr ⟨head, mem_append_right _ mem_cons_self, (hvisited _ hmem).1⟩
    · rcases h.untracked r hr hnone with hpassed | ⟨earlier, hearlier, hancestor⟩
      · exact .inl (hpassed.concat _)
      · exact .inr ⟨earlier, mem_append_left _ hearlier, hancestor⟩
  case settled =>
    rw [hrecordings, hheads]
    intro head' hhead' r hr hancestor
    rcases mem_append.mp hhead' with hhead' | hhead'
    · exact (h.settled head' hhead' r hr hancestor).concat _ _
    · rw [mem_singleton.mp hhead'] at hancestor
      rcases hbehind r.block hancestor with hmem | ⟨hnocycle, hreach⟩
      · obtain ⟨b, hb⟩ := (hvisited r.block hmem).2
        obtain ⟨r', hr', hblock, -, -, -, htxs⟩ := h.tracked r.block b hb
        rw [hp.unique hr' hr hblock] at htxs
        rcases htxs with hsame | ⟨-, hpassed⟩
        · refine .inl fun tx htx => mem_append_right _ ?_
          exact (hreleased tx).mpr ⟨r.block, hmem, b, hb, hsame ▸ htx⟩
        · exact .inr (hpassed.concat _)
      · exact (settled_behind h hp hr hreach
          (hstop.imp_right fun hstop => hstop.resolve_right hnocycle)).concat _ _
  case last =>
    rintro _ ⟨⟩
    rw [hheads]
    exact mem_append_right _ mem_cons_self

theorem tracks_run (ops : List Op) (hp : Promised linkRetentionMs ops) :
    Tracks linkRetentionMs ops (run linkRetentionMs ops).1 (run linkRetentionMs ops).2 := by
  induction ops using List.reverseRecOn with
  | nil =>
    constructor
    case tracked => nofun
    case untracked => nofun
    case settled => nofun
    case last => nofun
  | append_singleton ops op ih =>
    have hbefore := ih hp.left
    rw [run_concat]
    cases op with
    | recordIncluded r =>
      show Tracks _ _ _ (_ ++ [])
      rw [append_nil]
      exact tracks_record hbefore hp
    | finalizedUpTo finalizedBlock now =>
      cases finalizedBlock with
      | some head => exact tracks_finalized hbefore hp.left head now
      | none =>
        show Tracks _ _ _ (_ ++ [])
        rw [append_nil]
        have hheads : heads (ops ++ [.finalizedUpTo none now]) = heads ops :=
          (heads_concat ops none now).trans (append_nil _)
        apply hbefore.expire hp.left (recordings_concat_of_ne (by simp)) hheads _ rfl
        · intro block hnone b hb
          cases hb.symm.trans hnone
        · intro block b hb
          exact ⟨b, hb, .inl rfl⟩
    | forgetExpired now =>
      show Tracks _ _ _ (_ ++ [])
      rw [append_nil]
      exact tracks_forget hbefore hp.left now

end Steps

/-- Release on finality, in every run that keeps the promises: a finalized head releases only
transactions of recorded blocks that are the head or its ancestors; every transaction of such a
block that has an unexpired approval is released by this call or was by an earlier one; and
the blocks of other forks stay as they are. -/
theorem finality_releases (linkRetentionMs : Int) (ops : List Op)
    (hp : Promised linkRetentionMs ops) (before : List Op) (head : Hash) (now : Int)
    (after : List Op) (hops : ops = before ++ .finalizedUpTo (some head) now :: after) :
    let s := (run linkRetentionMs before).1
    let answer := finalizedUpTo s (some head)
    (∀ tx ∈ answer.2, ∃ r ∈ recordings before,
        Ancestor (recordings before) head r.block ∧ tx ∈ r.transactions) ∧
      (∀ r ∈ recordings before, Ancestor (recordings before) head r.block →
        now < r.approvalsExpireAt → ∀ tx ∈ r.transactions,
          tx ∈ (run linkRetentionMs before).2 ∨ tx ∈ answer.2) ∧
      ∀ block, ¬ Ancestor (recordings before) head block →
        answer.1.blocks.lookup block = s.blocks.lookup block := by
  intro s answer
  subst hops
  have hbefore := hp.left
  have htracks := tracks_run before hbefore
  obtain ⟨visited, stop, -, hvisited, -, hblocks, hreleased⟩ :=
    finalizedUpTo_spec htracks hbefore head
  refine ⟨?_, ?_, ?_⟩
  · intro tx htx
    obtain ⟨block, hmem, b, hb, htx⟩ := (hreleased tx).mp htx
    obtain ⟨r, hr, rfl, -, -, -, htxs⟩ := htracks.tracked block b hb
    refine ⟨r, hr, (hvisited r.block hmem).1, ?_⟩
    rcases htxs with hsame | ⟨hnone, -⟩
    · rw [hsame]
      exact htx
    · rw [hnone] at htx
      cases htx
  · intro r hr hancestor hlive tx htx
    have hafter := tracks_finalized htracks hbefore head now
    have hsettled : Settled (before ++ [.finalizedUpTo (some head) now])
        ((run linkRetentionMs before).2 ++ answer.2) r := by
      apply hafter.settled head
      · rw [heads_concat]
        exact mem_append_right _ mem_cons_self
      · rw [recordings_concat_of_ne (by simp)]
        exact hr
      · rw [recordings_concat_of_ne (by simp)]
        exact hancestor
    rcases hsettled with hall | ⟨op, hop, hpassed⟩
    · exact mem_append.mp (hall tx htx)
    · have hclock : op.time ≤ now := by
        rcases mem_append.mp hop with hop | hop
        · exact (pairwise_append.mp hp.clock).2.2 op hop _ mem_cons_self
        · rw [mem_singleton.mp hop]
          rfl
      omega
  · intro block hnot
    rw [hblocks, if_neg fun hmem => hnot (hvisited block hmem).1]

/-- A block and its parent, recorded one after the other. -/
def sampleBlock (number : UInt8) (now : Int) : Recording where
  block := List.Vector.replicate 32 number
  parent := List.Vector.replicate 32 (number - 1)
  transactions := [List.Vector.replicate 32 (100 + number)]
  approvalsExpireAt := now + 60000
  now := now

/-- The head is finalized and its parent's transaction released. -/
theorem parent_released :
    let before := [Op.recordIncluded (sampleBlock 1 1000), .recordIncluded (sampleBlock 2 2000)]
    List.Vector.replicate 32 101 ∈
      (finalizedUpTo (run 60000 before).1 (some (sampleBlock 2 2000).block)).2 := by
  intro before
  have hp : Promised 60000 (before ++ [.finalizedUpTo (some (sampleBlock 2 2000).block) 3000]) := by
    constructor
    case clock => decide
    case once => decide
    case parent_first => decide
    case not_final =>
      rintro (_ | ⟨_, _ | ⟨_, _ | ⟨_, rest⟩⟩⟩) r after hops head hhead
      · cases hhead
      · cases hops
        cases hhead
      · cases hops
      · cases rest <;> cases hops
    case expiry => decide
  obtain ⟨-, hreleases, -⟩ := finality_releases 60000 _ hp before _ 3000 [] rfl
  refine (hreleases (sampleBlock 1 1000) mem_cons_self ?_ (by decide) _
    mem_cons_self).resolve_left (by simp [before, run, apply])
  exact .single ⟨sampleBlock 2 2000, mem_cons_of_mem _ mem_cons_self, rfl, rfl⟩

end PrivacySuite.Besu.InclusionTracker
