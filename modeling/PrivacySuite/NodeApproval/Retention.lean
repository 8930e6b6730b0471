import PrivacySuite.Data.Feed
import PrivacySuite.NodeApproval.Batch

/-!
# The sender's retention buffer

`retention` of `internal/nodeapproval`: the signed batches, oldest first, that every lane
walks with a cursor of its own. Each method holds the mutex from end to end, so each call is
one step. The slice keeps the slots in front of `head` empty until it is compacted. Sequence
numbers count batches and are natural numbers here; times are nanoseconds since the epoch.
-/

namespace PrivacySuite.NodeApproval.Delivery

open Data List

/-- `dropEvicted` and `dropExpired`. -/
inductive Reason where
  | evicted
  | expired
  deriving DecidableEq

structure Entry where
  seq : Nat
  batch : Batch
  expires : Int

/-- A call of `lost`. The metric counts the approvals; `seq` says whose they are. -/
structure Loss where
  seq : Nat
  reason : Reason
  approvals : Nat

/-- What the buffer knows of a lane. -/
structure Lane where
  cursor : Nat
  losses : List Loss

def Lane.lost (l : Lane) (reason : Reason) (e : Entry) : Lane :=
  { l with losses := l.losses ++ [⟨e.seq, reason, e.batch.approvals.length⟩] }

/-- The batch goes before the lane has taken it. -/
def Lane.miss (reason : Reason) (e : Entry) (l : Lane) : Lane :=
  if e.seq > l.cursor then l.lost reason e else l

structure Retention where
  entries : List (Option Entry)
  head : Nat
  next : Nat
  approvals : Int
  max : Int
  finished : Bool
  lanes : List Lane

/-- `newRetention`, with the lanes that are registered before anything is added. -/
def newRetention (max : Int) (lanes : Nat) : Retention where
  entries := []
  head := 0
  next := 1
  approvals := 0
  max := max
  finished := false
  lanes := List.replicate lanes ⟨0, []⟩

namespace Retention

variable (r : Retention)

/-- What is retained, `entries[head:]`. -/
def retained : List Entry := (r.entries.drop r.head).filterMap id

/-- `entries[head]`, if the buffer is not empty. -/
def front : Option Entry := (r.entries[r.head]?).join

/-- The oldest batch goes. Its callers have checked that there is one. -/
def removeLocked (reason : Reason) : Retention :=
  match r.front with
  | none => r
  | some e =>
      let entries := r.entries.set r.head none
      let head := r.head + 1
      let r := { r with
        approvals := r.approvals - e.batch.approvals.length
        lanes := r.lanes.map (Lane.miss reason e) }
      if head * 2 ≥ entries.length then { r with entries := entries.drop head, head := 0 }
      else { r with entries := entries, head := head }

/-- The loop of `pruneLocked`, with the rounds that are left. -/
def pruneLoop : Nat → Retention → Int → Retention
  | 0, r, _ => r
  | rounds + 1, r, now =>
      match r.front with
      | none => r
      | some e => if now < e.expires then r else pruneLoop rounds (r.removeLocked .expired) now

def pruneLocked (now : Int) : Retention := pruneLoop r.entries.length r now

/-- The loop of `add` that keeps to the cap, with the rounds that are left. -/
def evictLoop : Nat → Retention → Retention
  | 0, r => r
  | rounds + 1, r =>
      if r.approvals > r.max ∧ r.entries.length - r.head > 1 then
        evictLoop rounds (r.removeLocked .evicted)
      else r

/-- `time.UnixMilli(int64(b.ExpiresAt))`. -/
def expiry (b : Batch) : Int := b.expiresAt.toInt64.toInt * millisecond

def add (b : Batch) (now : Int) : Retention :=
  let r := r.pruneLocked now
  let r := { r with
    entries := r.entries ++ [some ⟨r.next, b, expiry b⟩]
    next := r.next + 1
    approvals := r.approvals + b.approvals.length }
  evictLoop r.entries.length r

/-- The oldest retained batch newer than `seq`. -/
def afterLocked (seq : Nat) : Option Entry :=
  match r.front with
  | none => none
  | some front =>
      let i := if seq ≥ front.seq then seq - front.seq + 1 else 0
      (r.entries[r.head + i]?).join

def setLane (i : Nat) (change : Lane → Lane) : Retention :=
  { r with lanes := r.lanes.modify i change }

/-- The loop of `takeFresh`, with the rounds that are left. -/
def takeLoop (i : Nat) (now : Int) : Nat → Retention → Retention × Option Entry
  | 0, r => (r, none)
  | rounds + 1, r =>
      match (r.lanes[i]?).bind fun l => r.afterLocked l.cursor with
      | none => (r, none)
      | some e =>
          let r := r.setLane i fun l => { l with cursor := e.seq }
          if now < e.expires then (r, some e)
          else takeLoop i now rounds (r.setLane i fun l => l.lost .expired e)

/-- `takeFresh` for lane `i`: the batch it is handed, and whether nothing is left for it. -/
def takeFresh (i : Nat) (now : Int) : Retention × Option Entry × Bool :=
  let r := r.pruneLocked now
  let taken := takeLoop i now (r.entries.length + 1) r
  (taken.1, taken.2, taken.2.isNone && taken.1.finished)

/-- The range of a redelivery pass, from `next` down to `low`. -/
structure Redelivery where
  active : Bool
  next : Nat
  low : Nat
  deriving DecidableEq

def Redelivery.Covers (d : Redelivery) (seq : Nat) : Prop := d.active ∧ d.low ≤ seq ∧ seq ≤ d.next

def newest : Option Entry := r.entries.getLast?.join

/-- `redelivery` for a lane with this cursor. -/
def redelivery (cursor : Nat) (now : Int) : Retention × Redelivery :=
  let r := r.pruneLocked now
  match r.front, r.newest with
  | some front, some newest =>
      let high := min cursor newest.seq
      if high < front.seq then (r, ⟨false, 0, 0⟩) else (r, ⟨true, high, front.seq⟩)
  | _, _ => (r, ⟨false, 0, 0⟩)

/-- The retained batch with this number. -/
def atLocked (seq : Nat) : Option Entry :=
  match r.front with
  | none => none
  | some front =>
      if seq < front.seq ∨ seq - front.seq ≥ r.entries.length - r.head then none
      else (r.entries[r.head + (seq - front.seq)]?).join

/-- The loop of `redeliver`, down from `next`. -/
def redeliverLoop (low : Nat) (now : Int) : Nat → Redelivery × Option Entry
  | 0 => (⟨false, 0, low⟩, none)
  | next + 1 =>
      if next + 1 < low then (⟨false, next + 1, low⟩, none)
      else match r.atLocked (next + 1) with
        | some e =>
            if now < e.expires then (⟨true, next, low⟩, some e) else redeliverLoop low now next
        | none => redeliverLoop low now next

/-- What is left of the pass, and its next batch. -/
def redeliver (d : Redelivery) (now : Int) : Redelivery × Option Entry :=
  if d.active then r.redeliverLoop d.low now d.next else (d, none)

def finish : Retention := { r with finished := true }

end Retention

/-! ## What the slice holds -/

/-- Behind `head` the slice holds the batches `live`, numbered from `low` on. -/
structure Holds (r : Retention) (low : Nat) (live : List Entry) : Prop where
  entries : r.entries = List.replicate r.head none ++ live.map some
  seqs : live.map Entry.seq = List.range' low live.length
  next : low + live.length = r.next
  low_pos : 1 ≤ low

open Retention

namespace Holds

variable {r : Retention} {low : Nat} {e : Entry} {live : List Entry}

theorem getElem? (h : Holds r low live) (i : Nat) : (r.entries[r.head + i]?).join = live[i]? := by
  rw [h.entries, getElem?_append_right (by simp), length_replicate, Nat.add_sub_cancel_left,
    getElem?_map]
  cases live[i]? <;> rfl

theorem retained (h : Holds r low live) : r.retained = live := by
  rw [Retention.retained, h.entries, drop_left' (length_replicate ..), filterMap_map,
    Function.id_comp, filterMap_some]

theorem length (h : Holds r low live) : r.entries.length = r.head + live.length := by
  rw [h.entries, length_append, length_replicate, length_map]

theorem front (h : Holds r low live) : r.front = live.head? := by
  rw [Retention.front, ← Nat.add_zero r.head, h.getElem? 0, head?_eq_getElem?]

theorem seq_getElem? (h : Holds r low live) {i : Nat} (he : live[i]? = some e) :
    e.seq = low + i := by
  have hseq : (live.map Entry.seq)[i]? = some e.seq := by rw [getElem?_map, he]; rfl
  have hi : i < live.length := (List.getElem?_eq_some_iff.mp he).1
  rw [h.seqs, getElem?_range' hi] at hseq
  have := Option.some.inj hseq
  omega

/-- Removing the oldest batch: what remains is the rest, numbered on, and each lane that has
not taken it has lost it. -/
theorem remove (h : Holds r low (e :: live)) (reason : Reason) :
    Holds (r.removeLocked reason) (low + 1) live ∧
      (r.removeLocked reason).lanes = r.lanes.map (Lane.miss reason e) := by
  have hfront : r.front = some e := h.front
  have hset : r.entries.set r.head none = List.replicate (r.head + 1) none ++ live.map some := by
    rw [h.entries, set_append_right _ _ (by simp), length_replicate, Nat.sub_self,
      map_cons, set_cons_zero, replicate_succ', append_assoc]
    rfl
  have hseqs : live.map Entry.seq = List.range' (low + 1) live.length := by
    have hall := h.seqs
    rw [map_cons, length_cons, range'_succ] at hall
    exact (List.cons.inj hall).2
  have hnext : low + 1 + live.length = r.next := by
    rw [← h.next, length_cons]
    omega
  simp only [removeLocked, hfront, hset]
  split
  · refine ⟨⟨?_, hseqs, hnext, Nat.le_succ_of_le h.low_pos⟩, rfl⟩
    show List.drop (r.head + 1) _ = List.replicate 0 none ++ _
    rw [drop_left' (length_replicate ..)]
    rfl
  · exact ⟨⟨rfl, hseqs, hnext, Nat.le_succ_of_le h.low_pos⟩, rfl⟩

theorem after (h : Holds r low live) (seq : Nat) : r.afterLocked seq = live[seq + 1 - low]? := by
  rw [afterLocked, h.front]
  cases live with
  | nil => rfl
  | cons front live =>
    have hseq : front.seq = low := h.seq_getElem? (i := 0) rfl
    show (r.entries[r.head + _]?).join = _
    rw [h.getElem?, hseq]
    congr 1
    split <;> omega

end Holds

/-! ## Each lane reads a feed -/

/-- What lane `i` has of the buffer, once it has been handed `handed`. -/
def Serves (r : Retention) (i : Nat) (handed : List Nat) (f : Feed) : Prop :=
  ∃ live l, Holds r f.low live ∧ r.lanes[i]? = some l ∧ f.next = r.next ∧ f.cursor = l.cursor ∧
    f.handed = handed ∧ f.lost = l.losses.map Loss.seq

/-- A call that hands lane `i` the batches `more` is steps of the lane's feed. -/
def Feeds (i : Nat) (more : List Nat) (r r' : Retention) : Prop :=
  ∀ handed f, Serves r i handed f →
    ∃ f', Serves r' i (handed ++ more) f' ∧ Relation.ReflTransGen Feed.Step f f'

namespace Feeds

variable {i : Nat} {more more' : List Nat} {r r' r'' : Retention}

theorem refl (i : Nat) (r : Retention) : Feeds i [] r r := by
  intro handed f hf
  rw [append_nil]
  exact ⟨f, hf, .refl⟩

theorem trans (h : Feeds i more r r') (h' : Feeds i more' r' r'') :
    Feeds i (more ++ more') r r'' := by
  intro handed f hf
  obtain ⟨f', hf', hsteps⟩ := h handed f hf
  obtain ⟨f'', hf'', hsteps'⟩ := h' _ f' hf'
  rw [append_assoc] at hf''
  exact ⟨f'', hf'', hsteps.trans hsteps'⟩

end Feeds

section Lanes

variable {l : Lane} {e : Entry}

@[simp] theorem cursor_miss (reason : Reason) : (l.miss reason e).cursor = l.cursor := by
  unfold Lane.miss
  split <;> rfl

theorem losses_miss (reason : Reason) : (l.miss reason e).losses.map Loss.seq =
    if l.cursor < e.seq then l.losses.map Loss.seq ++ [e.seq] else l.losses.map Loss.seq := by
  unfold Lane.miss
  split
  · exact map_append
  · rfl

end Lanes

section Calls

variable {i : Nat} (r : Retention)

theorem feeds_remove (reason : Reason) : Feeds i [] r (r.removeLocked reason) := by
  rintro handed f ⟨live, l, hholds, hl, hnext, hcursor, hhanded, hlost⟩
  rw [append_nil]
  cases live with
  | nil =>
    have hnone : r.front = none := hholds.front
    refine ⟨f, ⟨[], l, ?_, ?_, ?_, hcursor, hhanded, hlost⟩, .refl⟩ <;>
      simp only [removeLocked, hnone] <;> assumption
  | cons e live =>
    obtain ⟨hafter, hlanes⟩ := hholds.remove reason
    have hseq : e.seq = f.low := hholds.seq_getElem? (i := 0) rfl
    have hbefore := hholds.next
    have hkept := hafter.next
    rw [length_cons] at hbefore
    refine ⟨_, ?_, .single (.drop f (by omega))⟩
    refine ⟨live, l.miss reason e, hafter, ?_, ?_, ?_, hhanded, ?_⟩
    · rw [hlanes, getElem?_map, hl]
      rfl
    · show f.next = _
      omega
    · rw [cursor_miss]
      exact hcursor
    · rw [losses_miss, hseq, ← hcursor, ← hlost]

theorem feeds_pruneLoop (rounds : Nat) (now : Int) :
    Feeds i [] r (pruneLoop rounds r now) := by
  induction rounds generalizing r with
  | zero => exact .refl i r
  | succ rounds ih =>
    rw [pruneLoop]
    split
    · exact .refl i r
    · split
      · exact .refl i r
      · exact (feeds_remove r .expired).trans (ih _)

theorem feeds_evictLoop (rounds : Nat) : Feeds i [] r (evictLoop rounds r) := by
  induction rounds generalizing r with
  | zero => exact .refl i r
  | succ rounds ih =>
    rw [evictLoop]
    split
    · exact (feeds_remove r .evicted).trans (ih _)
    · exact .refl i r

theorem feeds_append (b : Batch) (expires approvals : Int) :
    Feeds i [] r { r with
      entries := r.entries ++ [some ⟨r.next, b, expires⟩]
      next := r.next + 1
      approvals := approvals } := by
  rintro handed f ⟨live, l, hholds, hl, hnext, hcursor, hhanded, hlost⟩
  rw [append_nil]
  refine ⟨_, ?_, .single (.append f)⟩
  refine ⟨live ++ [⟨r.next, b, expires⟩], l, ⟨?_, ?_, ?_, hholds.low_pos⟩, hl,
    congrArg (· + 1) hnext, hcursor, hhanded, hlost⟩
  · show r.entries ++ _ = _
    rw [hholds.entries, map_append, append_assoc]
    rfl
  · rw [map_append, hholds.seqs, length_append, range'_append_1.symm, hholds.next]
    rfl
  · rw [length_append, ← Nat.add_assoc, hholds.next]
    rfl

theorem feeds_add (b : Batch) (now : Int) : Feeds i [] r (r.add b now) := by
  have hprune := feeds_pruneLoop r (i := i) r.entries.length now
  have happend := feeds_append (i := i) (r.pruneLocked now) b (expiry b)
    ((r.pruneLocked now).approvals + b.approvals.length)
  exact (hprune.trans happend).trans (feeds_evictLoop _ _)

theorem feeds_setLane_ne {j : Nat} (hne : j ≠ i) (change : Lane → Lane) :
    Feeds i [] r (r.setLane j change) := by
  rintro handed f ⟨live, l, hholds, hl, hrest⟩
  rw [append_nil]
  refine ⟨f, ⟨live, l, { hholds with }, ?_, hrest⟩, .refl⟩
  show (r.lanes.modify j change)[i]? = some l
  rw [getElem?_modify, hl]
  exact congrArg some (if_neg hne)

theorem feeds_takeLoop_ne {j : Nat} (hne : j ≠ i) (now : Int) (rounds : Nat) :
    Feeds i [] r (takeLoop j now rounds r).1 := by
  induction rounds generalizing r with
  | zero => exact .refl i r
  | succ rounds ih =>
    rw [takeLoop]
    split
    · exact .refl i r
    · split
      · exact feeds_setLane_ne r hne _
      · exact ((feeds_setLane_ne r hne _).trans (feeds_setLane_ne _ hne _)).trans (ih _)

theorem setLane_setLane (change change' : Lane → Lane) :
    (r.setLane i change).setLane i change' = r.setLane i (change' ∘ change) := by
  simp only [setLane, modify_modify_eq]

theorem lane_setLane {r : Retention} {l : Lane} (hl : r.lanes[i]? = some l)
    (change : Lane → Lane) : (r.setLane i change).lanes[i]? = some (change l) := by
  show (r.lanes.modify i change)[i]? = _
  rw [getElem?_modify, hl]
  exact congrArg some (if_pos rfl)

theorem serves_setLane {handed' : List Nat} {f f' : Feed} {l : Lane} {live : List Entry}
    {r : Retention} (change : Lane → Lane) (hholds : Holds r f.low live)
    (hl : r.lanes[i]? = some l) (hlow : f'.low = f.low) (hnext : f'.next = r.next)
    (hcursor : f'.cursor = (change l).cursor) (hhanded : f'.handed = handed')
    (hlost : f'.lost = (change l).losses.map Loss.seq) :
    Serves (r.setLane i change) i handed' f' := by
  refine ⟨live, change l, ?_, lane_setLane hl change, hnext, hcursor, hhanded, hlost⟩
  rw [hlow]
  exact { hholds with }

theorem feeds_takeLoop (now : Int) (rounds : Nat) :
    Feeds i ((takeLoop i now rounds r).2.toList.map Entry.seq) r
      (takeLoop i now rounds r).1 := by
  induction rounds generalizing r with
  | zero => exact .refl i r
  | succ rounds ih =>
    intro handed f hserves
    obtain ⟨live, l, hholds, hl, hnext, hcursor, hhanded, hlost⟩ := id hserves
    have hafter : ((r.lanes[i]?).bind fun l => r.afterLocked l.cursor) =
        live[l.cursor + 1 - f.low]? := by
      rw [hl]
      exact hholds.after l.cursor
    rw [takeLoop, hafter]
    cases he : live[l.cursor + 1 - f.low]? with
    | none =>
      rw [← append_nil handed] at hserves
      exact ⟨f, hserves, .refl⟩
    | some e =>
      have hseq := hholds.seq_getElem? he
      have hindex := (List.getElem?_eq_some_iff.mp he).1
      have hbound := hholds.next
      have holdest : e.seq = f.oldest := by
        simp only [Feed.oldest]
        omega
      have hroom : f.oldest < f.next := by omega
      by_cases hlive : now < e.expires
      · simp only [if_pos hlive]
        refine ⟨_, ?_, .single (.take f hroom)⟩
        exact serves_setLane _ hholds hl rfl hnext holdest.symm
          (by rw [hhanded, ← holdest]; rfl) hlost
      · simp only [if_neg hlive]
        have hskipped : Serves ((r.setLane i fun l => { l with cursor := e.seq }).setLane i
            fun l => l.lost .expired e) i handed
            { f with cursor := f.oldest, lost := f.lost ++ [f.oldest] } := by
          rw [setLane_setLane]
          refine serves_setLane _ hholds hl rfl hnext holdest.symm hhanded ?_
          show f.lost ++ [f.oldest] = (l.losses ++ [_]).map Loss.seq
          rw [map_append, hlost, ← holdest]
          rfl
        obtain ⟨f', hserved, hsteps⟩ := ih _ handed _ hskipped
        exact ⟨f', hserved, .head (.skip f hroom) hsteps⟩

theorem feeds_takeFresh (now : Int) :
    Feeds i ((r.takeFresh i now).2.1.toList.map Entry.seq) r (r.takeFresh i now).1 :=
  (feeds_pruneLoop r _ now).trans (feeds_takeLoop _ now _)

theorem feeds_takeFresh_ne {j : Nat} (hne : j ≠ i) (now : Int) :
    Feeds i [] r (r.takeFresh j now).1 :=
  (feeds_pruneLoop r _ now).trans (feeds_takeLoop_ne _ hne now _)

end Calls

/-! ## The loops run to their ends -/

section Ends

variable {r : Retention} {low : Nat} {live : List Entry} {now : Int}

theorem pruneLoop_ends {rounds : Nat} (h : Holds r low live) (hrounds : live.length ≤ rounds) :
    ∃ low' live', Holds (pruneLoop rounds r now) low' live' ∧
      ∀ e, live'.head? = some e → now < e.expires := by
  induction rounds generalizing r low live with
  | zero =>
    obtain rfl := eq_nil_of_length_eq_zero (Nat.le_zero.mp hrounds)
    exact ⟨low, [], h, by simp⟩
  | succ rounds ih =>
    rw [pruneLoop, h.front]
    cases live with
    | nil => exact ⟨low, [], h, by simp⟩
    | cons e live =>
      by_cases hlive : now < e.expires
      · simp only [head?_cons, if_pos hlive]
        refine ⟨low, e :: live, h, ?_⟩
        rintro _ ⟨⟩
        exact hlive
      · simp only [head?_cons, if_neg hlive]
        exact ih (h.remove .expired).1 (Nat.le_of_succ_le_succ hrounds)

theorem pruneLocked_ends (h : Holds r low live) (now : Int) :
    ∃ low' live', Holds (r.pruneLocked now) low' live' ∧
      ∀ e, live'.head? = some e → now < e.expires := by
  apply pruneLoop_ends h
  rw [h.length]
  omega

/-- The cap is kept, or one batch is left. -/
theorem evictLoop_ends {rounds : Nat} (h : Holds r low live) (hrounds : live.length ≤ rounds) :
    ¬ ((evictLoop rounds r).approvals > (evictLoop rounds r).max ∧
      (evictLoop rounds r).entries.length - (evictLoop rounds r).head > 1) := by
  induction rounds generalizing r low live with
  | zero =>
    have hlength := h.length
    rintro ⟨-, hmany⟩
    rw [evictLoop] at hmany
    omega
  | succ rounds ih =>
    rw [evictLoop]
    split
    · rename_i hfull
      cases live with
      | nil =>
        have hlength := h.length
        rw [length_nil] at hlength
        omega
      | cons e live => exact ih (h.remove .evicted).1 (Nat.le_of_succ_le_succ hrounds)
    · rename_i hfits
      exact hfits

theorem takeLoop_ends {i rounds : Nat} {l : Lane} (h : Holds r low live)
    (hl : r.lanes[i]? = some l) (hrounds : live.length < l.cursor + 1 - low + rounds)
    (hnone : (takeLoop i now rounds r).2 = none) :
    ∃ l', (takeLoop i now rounds r).1.lanes[i]? = some l' ∧
      (takeLoop i now rounds r).1.afterLocked l'.cursor = none := by
  induction rounds generalizing r l with
  | zero =>
    refine ⟨l, hl, ?_⟩
    rw [takeLoop, h.after]
    exact getElem?_eq_none (by omega)
  | succ rounds ih =>
    have hafter : ((r.lanes[i]?).bind fun l => r.afterLocked l.cursor) =
        live[l.cursor + 1 - low]? := by
      rw [hl]
      exact h.after l.cursor
    rw [takeLoop, hafter] at hnone ⊢
    cases he : live[l.cursor + 1 - low]? with
    | none =>
      refine ⟨l, hl, ?_⟩
      simp only [h.after, he]
    | some e =>
      rw [he] at hnone
      by_cases hlive : now < e.expires
      · simp only [if_pos hlive] at hnone
        cases hnone
      · simp only [if_neg hlive] at hnone ⊢
        have hseq := h.seq_getElem? he
        have hlane := lane_setLane (lane_setLane hl fun l => { l with cursor := e.seq })
          fun l => l.lost .expired e
        refine ih { h with } hlane ?_ hnone
        show live.length < e.seq + 1 - low + rounds
        omega

end Ends

/-! ## Redelivery -/

section Redelivery

variable {r : Retention} {low cursor : Nat} {e : Entry} {live : List Entry} {now : Int}

theorem Holds.mem_seq (h : Holds r low live) (he : e ∈ live) :
    low ≤ e.seq ∧ e.seq < low + live.length := by
  have hmem : e.seq ∈ live.map Entry.seq := mem_map_of_mem he
  rwa [h.seqs, mem_range'_1] at hmem

theorem Holds.seq_at (h : Holds r low live) {seq : Nat} (he : r.atLocked seq = some e) :
    e.seq = seq := by
  rw [atLocked, h.front] at he
  cases live with
  | nil => cases he
  | cons front live =>
    have hseq : front.seq = low := h.seq_getElem? (i := 0) rfl
    simp only [head?_cons, hseq] at he
    split at he
    · cases he
    · rw [h.getElem?] at he
      have := h.seq_getElem? he
      omega

theorem redeliverLoop_le (h : Holds r low live) (bottom next : Nat) :
    (r.redeliverLoop bottom now next).1.next ≤ next ∧
      ∀ e, (r.redeliverLoop bottom now next).2 = some e → e.seq ≤ next := by
  induction next with
  | zero => simp [redeliverLoop]
  | succ next ih =>
    have hdown := And.intro (Nat.le_succ_of_le ih.1) fun e he => Nat.le_succ_of_le (ih.2 e he)
    rw [redeliverLoop]
    split
    · simp
    · split
      · rename_i e he
        split
        · refine ⟨Nat.le_succ next, ?_⟩
          rintro _ ⟨⟩
          exact le_of_eq (h.seq_at he)
        · exact hdown
      · exact hdown

theorem redeliver_le (h : Holds r low live) (d : Retention.Redelivery) (now : Int) :
    (r.redeliver d now).1.next ≤ d.next ∧ ∀ e, (r.redeliver d now).2 = some e → e.seq ≤ d.next := by
  rw [redeliver]
  split
  · exact redeliverLoop_le h d.low d.next
  · simp

theorem mem_pruneLoop (rounds : Nat) (h : Holds r low live) (he : e ∈ live)
    (hvalid : now < e.expires) :
    ∃ low' live', Holds (pruneLoop rounds r now) low' live' ∧ e ∈ live' := by
  induction rounds generalizing r low live with
  | zero => exact ⟨low, live, h, he⟩
  | succ rounds ih =>
    rw [pruneLoop, h.front]
    cases live with
    | nil => cases he
    | cons front live =>
      by_cases hfront : now < front.expires
      · simp only [head?_cons, if_pos hfront]
        exact ⟨low, front :: live, h, he⟩
      · simp only [head?_cons, if_neg hfront]
        apply ih (h.remove .expired).1
        rcases mem_cons.mp he with rfl | he
        · exact absurd hvalid hfront
        · exact he

theorem redelivery_fst (r : Retention) (cursor : Nat) (now : Int) :
    (r.redelivery cursor now).1 = r.pruneLocked now := by
  simp only [redelivery]
  split
  · split <;> rfl
  · rfl

theorem redelivery_next_le (r : Retention) (cursor : Nat) (now : Int) :
    (r.redelivery cursor now).2.next ≤ cursor := by
  simp only [redelivery]
  split
  · split
    · exact Nat.zero_le cursor
    · exact min_le_left _ _
  · exact Nat.zero_le cursor

/-- The range covers every valid batch that is retained and was taken. -/
theorem redelivery_covers (h : Holds r low live) (he : e ∈ live) (hvalid : now < e.expires)
    (htaken : e.seq ≤ cursor) : (r.redelivery cursor now).2.Covers e.seq := by
  obtain ⟨low', live', hafter, hmem⟩ :
      ∃ low' live', Holds (r.pruneLocked now) low' live' ∧ e ∈ live' :=
    mem_pruneLoop r.entries.length h he hvalid
  obtain ⟨hlow, hhigh⟩ := hafter.mem_seq hmem
  obtain ⟨front, hfront⟩ : ∃ front, live'[0]? = some front :=
    ⟨_, getElem?_eq_getElem (length_pos_of_mem hmem)⟩
  obtain ⟨last, hlast⟩ : ∃ last, live'[live'.length - 1]? = some last :=
    ⟨_, getElem?_eq_getElem (Nat.sub_one_lt_of_lt (length_pos_of_mem hmem))⟩
  have hfirst : (r.pruneLocked now).front = some front := by
    rw [hafter.front, head?_eq_getElem?, hfront]
  have hnewest : (r.pruneLocked now).newest = some last := by
    have hpos := length_pos_of_mem hmem
    rw [newest, getLast?_eq_getElem?, hafter.length, Nat.add_sub_assoc hpos]
    exact (hafter.getElem? _).trans hlast
  have hbottom := hafter.seq_getElem? hfront
  have htop := hafter.seq_getElem? hlast
  have hrange : ¬ min cursor last.seq < front.seq := by omega
  simp only [redelivery, hfirst, hnewest, if_neg hrange]
  refine ⟨rfl, ?_, ?_⟩
  · show front.seq ≤ e.seq
    omega
  · show e.seq ≤ min cursor last.seq
    omega

end Redelivery

/-! ## Runs -/

/-- A call of the buffer; `redelivery` changes it as `prune` does. -/
inductive Op where
  | add (b : Batch) (now : Int)
  | prune (now : Int)
  | takeFresh (i : Nat) (now : Int)
  | finish

def Op.on (r : Retention) : Op → Retention
  | .add b now => r.add b now
  | .prune now => r.pruneLocked now
  | .takeFresh i now => (r.takeFresh i now).1
  | .finish => r.finish

def Op.hands (r : Retention) (i : Nat) : Op → List Nat
  | .takeFresh j now => if j = i then (r.takeFresh j now).2.1.toList.map Entry.seq else []
  | _ => []

/-- The buffer, and the numbers of the batches each lane was handed so far. -/
structure Run where
  buffer : Retention
  handed : Nat → List Nat

def Run.apply (s : Run) (op : Op) : Run where
  buffer := op.on s.buffer
  handed := fun i => s.handed i ++ op.hands s.buffer i

/-- The calls made one after the other on a buffer with so many lanes. -/
def Run.after (max : Int) (lanes : Nat) (ops : List Op) : Run :=
  ops.foldl Run.apply ⟨newRetention max lanes, fun _ => []⟩

/-- Every call is steps of each lane's feed. -/
theorem feeds_on (r : Retention) (i : Nat) (op : Op) : Feeds i (op.hands r i) r (op.on r) := by
  cases op with
  | add b now => exact feeds_add r b now
  | prune now => exact feeds_pruneLoop r _ now
  | takeFresh j now =>
    show Feeds i (if j = i then _ else []) r _
    by_cases heq : j = i
    · subst heq
      rw [if_pos rfl]
      exact feeds_takeFresh r now
    · rw [if_neg heq]
      exact feeds_takeFresh_ne r heq now
  | finish =>
    rintro handed f ⟨live, l, hholds, hrest⟩
    have hsame : Holds r.finish f.low live :=
      { hholds with }
    show ∃ f', Serves r.finish i (handed ++ []) f' ∧ _
    rw [append_nil]
    exact ⟨f, ⟨live, l, hsame, hrest⟩, .refl⟩

theorem serves_init (max : Int) {lanes : Nat} (i : Fin lanes) :
    Serves (newRetention max lanes) i [] ⟨1, 1, 0, [], []⟩ := by
  refine ⟨[], ⟨0, []⟩, ⟨rfl, rfl, rfl, le_refl 1⟩, ?_, rfl, rfl, rfl, rfl⟩
  exact getElem?_replicate_of_lt i.isLt

theorem serves_after (max : Int) {lanes : Nat} (i : Fin lanes) (ops : List Op) :
    ∃ f, Serves (Run.after max lanes ops).buffer i ((Run.after max lanes ops).handed i) f ∧
      f.Accounted := by
  induction ops using List.reverseRecOn with
  | nil => exact ⟨_, serves_init max i, Feed.accounted_init⟩
  | append_singleton ops op ih =>
    obtain ⟨f, hf, haccounted⟩ := ih
    obtain ⟨f', hf', hsteps⟩ := feeds_on _ i op _ f hf
    rw [Run.after, foldl_append]
    exact ⟨f', hf', haccounted.steps hsteps⟩

/-- After every run of calls, each batch added so far was handed to the lane once, was
counted as lost for it once, or is retained and not yet taken, and only one of the three; and
the lane is handed batches in increasing order. -/
theorem every_batch_accounted (max : Int) (lanes : Nat) (ops : List Op) (i : Fin lanes) :
    let s := Run.after max lanes ops
    ∃ l, s.buffer.lanes[i.val]? = some l ∧
      (∀ q, 1 ≤ q → q < s.buffer.next →
        let handed := (s.handed i).count q
        let lost := (l.losses.map Loss.seq).count q
        let waits := ∃ e ∈ s.buffer.retained, e.seq = q ∧ l.cursor < q
        (handed = 1 ∧ lost = 0 ∧ ¬ waits) ∨ (handed = 0 ∧ lost = 1 ∧ ¬ waits) ∨
          (handed = 0 ∧ lost = 0 ∧ waits)) ∧
      (s.handed i).Pairwise (· < ·) := by
  intro s
  obtain ⟨f, ⟨live, l, hholds, hl, hnext, hcursor, hhanded, hlost⟩, haccounted⟩ :=
    serves_after max i ops
  refine ⟨l, hl, ?_, hhanded ▸ haccounted.increasing⟩
  intro q hpos hlt handed lost waits
  have hwaits : waits ↔ f.Waits q := by
    have hmem : (∃ e ∈ s.buffer.retained, e.seq = q) ↔ f.low ≤ q ∧ q < f.next := by
      rw [hholds.retained, ← mem_map, hholds.seqs, mem_range'_1, hholds.next, hnext]
    constructor
    · rintro ⟨e, he, rfl, htaken⟩
      obtain ⟨hlow, hhigh⟩ := hmem.mp ⟨e, he, rfl⟩
      exact ⟨hlow, hhigh, hcursor ▸ htaken⟩
    · rintro ⟨hlow, hhigh, htaken⟩
      obtain ⟨e, he, hseq⟩ := hmem.mpr ⟨hlow, hhigh⟩
      exact ⟨e, he, hseq, hcursor ▸ htaken⟩
  have hgone : f.gone q = handed + lost := by rw [Feed.gone, hhanded, hlost]
  by_cases hq : f.Waits q
  · have := haccounted.counted.waiting q hq
    exact .inr (.inr ⟨by omega, by omega, hwaits.mpr hq⟩)
  · have hone := haccounted.counted.settled q hpos (hnext ▸ hlt) hq
    have hnot : ¬ waits := fun hw => hq (hwaits.mp hw)
    by_cases hzero : handed = 0
    · exact .inr (.inl ⟨hzero, by omega, hnot⟩)
    · exact .inl ⟨by omega, by omega, hnot⟩

end PrivacySuite.NodeApproval.Delivery
