import PrivacySuite.Concurrency.Runs
import PrivacySuite.NodeApproval.Retention

/-!
# A delivery lane and its producer's restarts

`lane` of `internal/nodeapproval`: goroutines that send batches to one producer, and one that
watches the connection and asks for its status. What happens under one of the locks is one
event; between events anything else may happen. The boot id on record is that of the last
answer accepted for the current connection, and when it changes the retained batches are sent
again. Readiness, metrics and the hop recorder are left out.
-/

namespace PrivacySuite.NodeApproval.Delivery

open Data Concurrency Retention List

/-! ## The lane -/

structure Job where
  e : Entry
  fresh : Bool
  probe : Bool

/-- `laneBackoff`. -/
structure Backoff where
  active : Bool
  probing : Bool
  attempt : Nat
  pausedUntil : Int

/-- How a call ends for its job. -/
inductive Outcome where
  | done
  | retry
  | expired
  | abandoned

/-- Who calls `observeBoot`: a goroutine of `send`, or the watcher's `status`. -/
inductive Caller where
  | send (j : Job)
  | status (gen : Nat)

inductive Pc where
  | idle
  /-- the job is picked, `send` has not begun -/
  | picked (j : Job)
  /-- `Deliver` is called; the generation was read before -/
  | called (j : Job) (gen : Nat)
  /-- the watcher between two calls of `status` -/
  | polling (gen : Nat)
  /-- `Status` is called -/
  | asked (gen : Nat)
  /-- before `observeBoot` -/
  | answered (c : Caller) (gen : Nat) (boot : String)
  /-- before the range of the redelivery is computed -/
  | restarted (c : Caller)
  /-- before the redelivery is installed -/
  | ranged (c : Caller) (d : Redelivery)
  | settling (j : Job) (o : Outcome)

/-- Where the caller of `observeBoot` goes on. -/
def Caller.resume : Caller → Pc
  | .send j => .settling j .done
  | .status gen => .polling gen

/-- The lane with the buffer it reads. Goroutine 0 is the watcher. -/
structure LaneState where
  buffer : Retention
  calls : Nat
  retries : List Job
  redo : Redelivery
  backoff : Backoff
  gen : Nat
  boot : String
  pcs : Nat → Pc

/-- The lane's place among the lanes, the buffer's cap and the lane's limit of calls. -/
structure LaneConfig where
  lanes : Nat
  index : Fin lanes
  max : Int
  maxInFlight : Nat

namespace LaneState

variable (cfg : LaneConfig) (s : LaneState)

def goto (t : Nat) (pc : Pc) : LaneState := { s with pcs := Function.update s.pcs t pc }

def cursor : Nat := ((s.buffer.lanes[cfg.index.val]?).map Lane.cursor).getD 0

/-- A fresh batch, else the oldest retry that is valid, else the redelivery's next. -/
def pickLocked (now : Int) : LaneState × Option Job :=
  let taken := s.buffer.takeFresh cfg.index now
  let s := { s with buffer := taken.1 }
  match taken.2.1 with
  | some e => (s, some ⟨e, true, false⟩)
  | none =>
      match s.retries.dropWhile fun j => !decide (now < j.e.expires) with
      | j :: retries => ({ s with retries := retries }, some j)
      | [] =>
          let redone := s.buffer.redeliver s.redo now
          ({ s with retries := [], redo := redone.1 }, redone.2.map fun e => ⟨e, false, false⟩)

/-- The job to send now, if there is one and the lane may send it. -/
def next (now : Int) : LaneState × Option Job :=
  if s.calls ≥ cfg.maxInFlight then (s, none)
  else
    let probe := s.backoff.active
    if probe ∧ (s.backoff.probing ∨ now < s.backoff.pausedUntil) then (s, none)
    else
      match s.pickLocked cfg now with
      | (s, none) => (s, none)
      | (s, some j) =>
          ({ s with calls := s.calls + 1, backoff := { s.backoff with probing := probe } },
            some { j with probe := probe })

/-- `settle`, with the delay `retryDelay` draws. -/
def settle (j : Job) (o : Outcome) (now delay : Int) : LaneState :=
  let s := { s with
    calls := s.calls - 1
    backoff := { s.backoff with probing := if j.probe then false else s.backoff.probing } }
  match o with
  | .retry =>
      let s := { s with retries := s.retries ++ [{ j with probe := false }] }
      if j.probe ∨ !s.backoff.active then
        { s with backoff := { s.backoff with
            active := true, pausedUntil := now + delay, attempt := s.backoff.attempt + 1 } }
      else s
  | .done => if j.probe then { s with backoff := ⟨false, false, 0, 0⟩ } else s
  | _ => s

def becameReady (now : Int) : LaneState :=
  { s with
    gen := s.gen + 1
    backoff := if s.backoff.active ∧ !s.backoff.probing then { s.backoff with pausedUntil := now }
      else s.backoff }

end LaneState

/-- How `Deliver` returns. -/
inductive Answer where
  | stored (boot : String)
  | permanent
  | refused
  | stopped

def Answer.pc (j : Job) (gen : Nat) : Answer → Pc
  | .stored boot => .answered (.send j) gen boot
  | .permanent => .settling j .done
  | .refused => .settling j .retry
  | .stopped => .settling j .abandoned

def Op.lane : Op → Option Nat
  | .takeFresh i _ => some i
  | _ => none

/-- An event of the lane, with the goroutine it happens in. -/
inductive Event where
  /-- the signer or another lane uses the buffer -/
  | buffer (op : Op)
  | next (t : Nat) (now : Int)
  /-- `send` reads the generation and calls `Deliver`, unless the batch has expired -/
  | send (t : Nat) (now : Int)
  | answer (t : Nat) (a : Answer)
  /-- the connection is ready: `becameReady`, and the watcher calls `Status` -/
  | ready (now : Int)
  /-- the connection is lost -/
  | disconnected
  /-- the watcher calls `Status` again -/
  | ask
  /-- `Status` is answered with a boot id, or fails -/
  | status (boot : Option String)
  | observeBoot (t : Nat)
  | redelivery (t : Nat) (now : Int)
  | install (t : Nat)
  | settle (t : Nat) (now delay : Int)

/-- One event, if it can happen. -/
def LaneState.step (cfg : LaneConfig) (s : LaneState) : Event → Option LaneState
  | .buffer op =>
      if op.lane = some cfg.index.val then none else some { s with buffer := op.on s.buffer }
  | .next t now =>
      match t, s.pcs t with
      | _ + 1, .idle =>
          match s.next cfg now with
          | (s, some j) => some (s.goto t (.picked j))
          | (s, none) => some s
      | _, _ => none
  | .send t now =>
      match s.pcs t with
      | .picked j =>
          some (s.goto t (if now < j.e.expires then .called j s.gen else .settling j .expired))
      | _ => none
  | .answer t a =>
      match s.pcs t with
      | .called j gen => some (s.goto t (a.pc j gen))
      | _ => none
  | .ready now =>
      match s.pcs 0 with
      | .idle => some ((s.becameReady now).goto 0 (.asked (s.gen + 1)))
      | _ => none
  | .disconnected =>
      match s.pcs 0 with
      | .polling _ => some (s.goto 0 .idle)
      | _ => none
  | .ask =>
      match s.pcs 0 with
      | .polling gen => some (s.goto 0 (.asked gen))
      | _ => none
  | .status boot =>
      match s.pcs 0, boot with
      | .asked gen, some boot =>
          some (s.goto 0 (if gen ≠ s.gen then .polling gen else .answered (.status gen) gen boot))
      | .asked gen, none => some (s.goto 0 (.polling gen))
      | _, _ => none
  | .observeBoot t =>
      match s.pcs t with
      | .answered c gen boot =>
          if boot = "" ∨ gen ≠ s.gen ∨ boot = s.boot then some (s.goto t c.resume)
          else
            let pc := if s.boot ≠ "" then .restarted c else c.resume
            some ({ s with boot := boot }.goto t pc)
      | _ => none
  | .redelivery t now =>
      match s.pcs t with
      | .restarted c =>
          let computed := s.buffer.redelivery (s.cursor cfg) now
          some ({ s with buffer := computed.1 }.goto t (.ranged c computed.2))
      | _ => none
  | .install t =>
      match s.pcs t with
      | .ranged c d => some ({ s with redo := d }.goto t c.resume)
      | _ => none
  | .settle t now delay =>
      match s.pcs t with
      | .settling j o => some ((s.settle j o now delay).goto t .idle)
      | _ => none

def LaneState.init (cfg : LaneConfig) : LaneState where
  buffer := newRetention cfg.max cfg.lanes
  calls := 0
  retries := []
  redo := ⟨false, 0, 0⟩
  backoff := ⟨false, false, 0, 0⟩
  gen := 0
  boot := ""
  pcs := fun _ => .idle

/-! ## What the lane works on it has taken -/

def Caller.top : Caller → Nat
  | .send j => j.e.seq
  | .status _ => 0

def Pc.top : Pc → Nat
  | .picked j | .called j _ | .settling j _ => j.e.seq
  | .answered c _ _ | .restarted c => c.top
  | .ranged c d => max c.top d.next
  | .idle | .polling _ | .asked _ => 0

/-- Nothing in the lane is newer than the cursor. -/
structure Behind (cursor : Nat) (s : LaneState) : Prop where
  pcs : ∀ t, (s.pcs t).top ≤ cursor
  retries : ∀ j ∈ s.retries, j.e.seq ≤ cursor
  redo : s.redo.next ≤ cursor

section Behind

variable {s : LaneState} {cursor : Nat}

@[simp] theorem top_resume (c : Caller) : c.resume.top = c.top := by cases c <;> rfl

theorem Behind.mono (h : Behind cursor s) {cursor' : Nat} (hle : cursor ≤ cursor') :
    Behind cursor' s :=
  ⟨fun t => (h.pcs t).trans hle, fun j hj => (h.retries j hj).trans hle, h.redo.trans hle⟩

theorem Behind.holds (h : Behind cursor s) {t : Nat} {pc : Pc} (hpc : s.pcs t = pc) :
    pc.top ≤ cursor := by
  rw [← hpc]
  exact h.pcs t

theorem Behind.goto (h : Behind cursor s) (t : Nat) {pc : Pc} (hpc : pc.top ≤ cursor) :
    Behind cursor (s.goto t pc) := by
  refine ⟨?_, h.retries, h.redo⟩
  intro t'
  show (Function.update s.pcs t pc t').top ≤ cursor
  rw [Function.update_apply]
  split
  · exact hpc
  · exact h.pcs t'

/-- The goroutine goes on with no newer batch than it had. -/
theorem Behind.resume (h : Behind cursor s) {t : Nat} {old pc : Pc} (hold : s.pcs t = old)
    (hpc : pc.top ≤ old.top) : Behind cursor (s.goto t pc) :=
  h.goto t (hpc.trans (h.holds hold))

theorem Behind.settle (h : Behind cursor s) {j : Job} (hj : j.e.seq ≤ cursor) (o : Outcome)
    (now delay : Int) : Behind cursor (s.settle j o now delay) := by
  have hretries : ∀ k ∈ s.retries ++ [{ j with probe := false }], k.e.seq ≤ cursor := by
    intro k hk
    rcases mem_append.mp hk with hk | hk
    · exact h.retries k hk
    · rw [mem_singleton.mp hk]
      exact hj
  cases o with
  | retry =>
    simp only [LaneState.settle]
    split <;> exact ⟨h.pcs, hretries, h.redo⟩
  | done =>
    simp only [LaneState.settle]
    split <;> exact ⟨h.pcs, h.retries, h.redo⟩
  | expired | abandoned => exact ⟨h.pcs, h.retries, h.redo⟩

end Behind

/-- The lane reads the buffer as a feed, works on nothing newer than its cursor, and its
cursor has come to `n`. -/
def Reads (cfg : LaneConfig) (n : Nat) (s : LaneState) : Prop :=
  ∃ handed f, Serves s.buffer cfg.index handed f ∧ f.Accounted ∧ Behind f.cursor s ∧ n ≤ f.cursor

open LaneState

section Reads

variable {cfg : LaneConfig} {n : Nat} {s s' : LaneState}

theorem cursor_eq {handed : List Nat} {f : Feed} (h : Serves s.buffer cfg.index handed f) :
    s.cursor cfg = f.cursor := by
  obtain ⟨live, l, -, hl, -, hcursor, -⟩ := h
  rw [cursor, hl]
  exact hcursor.symm

theorem reads_init (cfg : LaneConfig) : Reads cfg 0 (.init cfg) :=
  ⟨[], _, serves_init cfg.max cfg.index, Feed.accounted_init,
    ⟨fun _ => le_refl 0, by simp [init], le_refl 0⟩, le_refl 0⟩

/-- One change of the lane: its buffer moves on by calls that hand it `more`, and what it
works on afterwards it had, was handed or had taken. -/
theorem Reads.move (more : List Nat) (h : Reads cfg n s)
    (hfeeds : Feeds cfg.index more s.buffer s'.buffer)
    (hbehind : ∀ cursor, Behind cursor s → s.cursor cfg ≤ cursor → (∀ q ∈ more, q ≤ cursor) →
      (∃ low live, Holds s'.buffer low live) → Behind cursor s') : Reads cfg n s' := by
  obtain ⟨handed, f, hserves, haccounted, hold, hn⟩ := h
  obtain ⟨f', hserves', hsteps⟩ := hfeeds handed f hserves
  have haccounted' := haccounted.steps hsteps
  have hle := Feed.cursor_le_of_steps hsteps
  refine ⟨handed ++ more, f', hserves', haccounted', ?_, hn.trans hle⟩
  apply hbehind f'.cursor (hold.mono hle)
  · rw [cursor_eq hserves]
    exact hle
  · intro q hq
    apply haccounted'.taken
    obtain ⟨-, -, -, -, -, -, hhanded, -⟩ := hserves'
    rw [hhanded]
    exact mem_append_right handed hq
  · obtain ⟨live, -, hholds, -⟩ := hserves'
    exact ⟨f'.low, live, hholds⟩

theorem Reads.keep (h : Reads cfg n s) (hbuffer : s'.buffer = s.buffer)
    (hbehind : ∀ cursor, Behind cursor s → Behind cursor s') : Reads cfg n s' := by
  apply h.move []
  · rw [hbuffer]
    exact .refl _ _
  · intro cursor hold _ _ _
    exact hbehind cursor hold

theorem buffer_pick (now : Int) :
    (s.pickLocked cfg now).1.buffer = (s.buffer.takeFresh cfg.index now).1 := by
  simp only [pickLocked]
  split
  · rfl
  · split <;> rfl

theorem behind_pick {cursor low : Nat} {live : List Entry} {now : Int} (hold : Behind cursor s)
    (hfresh : ∀ q ∈ (s.buffer.takeFresh cfg.index now).2.1.toList.map Entry.seq, q ≤ cursor)
    (hholds : Holds (s.buffer.takeFresh cfg.index now).1 low live) :
    Behind cursor (s.pickLocked cfg now).1 ∧
      ∀ j, (s.pickLocked cfg now).2 = some j → j.e.seq ≤ cursor := by
  simp only [pickLocked]
  split
  · rename_i e he
    rw [he] at hfresh
    refine ⟨⟨hold.pcs, hold.retries, hold.redo⟩, ?_⟩
    rintro _ ⟨⟩
    exact hfresh e.seq mem_cons_self
  · split
    · -- a retry
      rename_i j retries hretries
      have hmem : ∀ k ∈ j :: retries, k.e.seq ≤ cursor := by
        intro k hk
        rw [← hretries] at hk
        exact hold.retries k ((dropWhile_sublist _).mem hk)
      refine ⟨⟨hold.pcs, fun k hk => hmem k (mem_cons_of_mem j hk), hold.redo⟩, ?_⟩
      rintro _ ⟨⟩
      exact hmem j mem_cons_self
    · -- the redelivery
      obtain ⟨hnext, hseq⟩ := redeliver_le hholds s.redo now
      refine ⟨⟨hold.pcs, by simp, hnext.trans hold.redo⟩, ?_⟩
      intro j hj
      obtain ⟨e, he, rfl⟩ := Option.map_eq_some_iff.mp hj
      exact (hseq e he).trans hold.redo

theorem next_cases (cfg : LaneConfig) (s : LaneState) (now : Int) :
    s.next cfg now = (s, none) ∨ ∃ calls backoff,
      (s.next cfg now).1 = { (s.pickLocked cfg now).1 with calls := calls, backoff := backoff } ∧
      ∀ j, (s.next cfg now).2 = some j → ∃ k, (s.pickLocked cfg now).2 = some k ∧ j.e = k.e := by
  simp only [LaneState.next]
  split
  · exact .inl rfl
  · split
    · exact .inl rfl
    · right
      split
      · rename_i picked hpicked
        rw [hpicked]
        exact ⟨_, _, rfl, by simp⟩
      · rename_i picked k hpicked
        rw [hpicked]
        refine ⟨_, _, rfl, ?_⟩
        rintro _ ⟨⟩
        exact ⟨k, rfl, rfl⟩

theorem Reads.next (h : Reads cfg n s) (now : Int) (t : Nat) :
    Reads cfg n (s.next cfg now).1 ∧
      ∀ j, (s.next cfg now).2 = some j → Reads cfg n ((s.next cfg now).1.goto t (.picked j)) := by
  rcases next_cases cfg s now with hnone | ⟨calls, backoff, hstate, hjob⟩
  · rw [hnone]
    exact ⟨h, by simp⟩
  · have hbuffer : (s.next cfg now).1.buffer = (s.buffer.takeFresh cfg.index now).1 := by
      rw [hstate]
      exact buffer_pick now
    have hfeeds := feeds_takeFresh s.buffer (i := cfg.index) now
    rw [← hbuffer] at hfeeds
    refine ⟨h.move _ hfeeds ?_, fun j hj => h.move _ hfeeds ?_⟩
    · rintro cursor hold - hfresh ⟨low, live, hholds⟩
      rw [hbuffer] at hholds
      have hpick := (behind_pick hold hfresh hholds).1
      rw [hstate]
      exact ⟨hpick.pcs, hpick.retries, hpick.redo⟩
    · rintro cursor hold - hfresh ⟨low, live, hholds⟩
      have hholds : Holds (s.next cfg now).1.buffer low live := hholds
      rw [hbuffer] at hholds
      obtain ⟨hpick, hseq⟩ := behind_pick hold hfresh hholds
      obtain ⟨k, hk, heq⟩ := hjob j hj
      rw [hstate]
      refine Behind.goto ?_ t ?_
      · exact ⟨hpick.pcs, hpick.retries, hpick.redo⟩
      · show j.e.seq ≤ cursor
        rw [heq]
        exact hseq k hk

theorem Reads.step (h : Reads cfg n s) {e : Event} (hstep : s.step cfg e = some s') :
    Reads cfg n s' := by
  cases e with simp only [LaneState.step] at hstep
  | buffer op =>
    split at hstep
    · cases hstep
    · cases hstep
      exact h.move _ (feeds_on s.buffer cfg.index op)
        fun cursor hold _ _ _ => ⟨hold.pcs, hold.retries, hold.redo⟩
  | next t now =>
    obtain ⟨hidle, hpicked⟩ := h.next now t
    split at hstep
    · split at hstep
      · rename_i hnext
        cases hstep
        rw [hnext] at hpicked
        exact hpicked _ rfl
      · rename_i hnext
        cases hstep
        rw [hnext] at hidle
        exact hidle
    · cases hstep
  | send t now =>
    split at hstep
    · rename_i j hpc
      cases hstep
      refine h.keep rfl fun cursor hold => hold.resume hpc ?_
      split <;> exact le_refl _
    · cases hstep
  | answer t a =>
    split at hstep
    · rename_i j gen hpc
      cases hstep
      refine h.keep rfl fun cursor hold => hold.resume hpc ?_
      cases a <;> exact le_refl _
    · cases hstep
  | ready now =>
    split at hstep
    · cases hstep
      refine h.keep rfl fun cursor hold => Behind.goto ?_ 0 (Nat.zero_le cursor)
      exact ⟨hold.pcs, hold.retries, hold.redo⟩
    · cases hstep
  | disconnected | ask =>
    split at hstep
    · cases hstep
      exact h.keep rfl fun cursor hold => hold.goto 0 (Nat.zero_le cursor)
    · cases hstep
  | status boot =>
    split at hstep
    · cases hstep
      refine h.keep rfl fun cursor hold => hold.goto 0 ?_
      split <;> exact Nat.zero_le cursor
    · cases hstep
      exact h.keep rfl fun cursor hold => hold.goto 0 (Nat.zero_le cursor)
    · cases hstep
  | observeBoot t =>
    split at hstep
    · rename_i c gen boot hpc
      have hresume : c.resume.top ≤ (Pc.answered c gen boot).top := le_of_eq (top_resume c)
      split at hstep
      · cases hstep
        exact h.keep rfl fun cursor hold => hold.resume hpc hresume
      · cases hstep
        refine h.keep rfl fun cursor hold => Behind.resume ?_ hpc ?_
        · exact ⟨hold.pcs, hold.retries, hold.redo⟩
        · split
          · exact le_refl _
          · exact hresume
    · cases hstep
  | redelivery t now =>
    split at hstep
    · rename_i c hpc
      cases hstep
      apply h.move []
      · show Feeds _ _ _ (s.buffer.redelivery (s.cursor cfg) now).1
        rw [redelivery_fst]
        exact feeds_pruneLoop s.buffer _ now
      · intro cursor hold hcursor _ _
        refine Behind.goto ?_ t ?_
        · exact ⟨hold.pcs, hold.retries, hold.redo⟩
        · exact max_le (hold.holds hpc) ((redelivery_next_le _ _ now).trans hcursor)
    · cases hstep
  | install t =>
    split at hstep
    · rename_i c d hpc
      cases hstep
      refine h.keep rfl fun cursor hold => ?_
      have htop := hold.holds hpc
      refine Behind.goto ?_ t ?_
      · exact ⟨hold.pcs, hold.retries, (le_max_right _ _).trans htop⟩
      · rw [top_resume]
        exact (le_max_left _ _).trans htop
    · cases hstep
  | settle t now delay =>
    split at hstep
    · rename_i j o hpc
      cases hstep
      refine h.keep ?_ fun cursor hold => ?_
      · cases o <;> simp only [settle, goto] <;> split <;> rfl
      · exact (hold.settle (hold.holds hpc) o now delay).goto t (Nat.zero_le cursor)
    · cases hstep

end Reads

/-! ## Boot ids -/

/-- The answer goroutine `t` holds carries a boot id and is for the current connection. -/
def LaneState.Accepts (s : LaneState) (t : Nat) (boot : String) : Prop :=
  ∃ c, s.pcs t = .answered c s.gen boot ∧ boot ≠ ""

section Boot

variable {cfg : LaneConfig} {s s' : LaneState} {t : Nat} {boot : String}

theorem boot_next (cfg : LaneConfig) (s : LaneState) (now : Int) :
    (s.next cfg now).1.boot = s.boot := by
  have hpick : (s.pickLocked cfg now).1.boot = s.boot := by
    simp only [pickLocked]
    split
    · rfl
    · split <;> rfl
  rcases next_cases cfg s now with hnone | ⟨calls, backoff, hstate, -⟩
  · rw [hnone]
  · rw [hstate]
    exact hpick

theorem boot_settle (j : Job) (o : Outcome) (now delay : Int) :
    (s.settle j o now delay).boot = s.boot := by
  cases o with
  | retry | done => simp only [settle]; split <;> rfl
  | expired | abandoned => rfl

theorem observeBoot_accepts (cfg : LaneConfig) (h : s.Accepts t boot) :
    ∃ s', s.step cfg (.observeBoot t) = some s' ∧ s'.boot = boot ∧
      ((∃ c, s'.pcs t = .restarted c) ↔ s.boot ≠ "" ∧ s.boot ≠ boot) := by
  obtain ⟨c, hpc, hboot⟩ := h
  have hresume : ∀ c', c.resume ≠ .restarted c' := by cases c <;> simp [Caller.resume]
  simp only [step, hpc]
  by_cases hsame : boot = s.boot
  · refine ⟨s.goto t c.resume, by simp [hsame], hsame.symm, ?_⟩
    simp [goto, hresume, hsame]
  · refine ⟨_, by rw [if_neg (by simp [hboot, hsame])], rfl, ?_⟩
    by_cases hfirst : s.boot = ""
    · simp [goto, hresume, hfirst]
    · simp [goto, hfirst, Ne.symm hsame]

theorem boot_step {e : Event} (hstep : s.step cfg e = some s') :
    s'.boot = s.boot ∨ ∃ t, e = .observeBoot t ∧ s.Accepts t s'.boot := by
  cases e with simp only [step] at hstep
  | observeBoot t =>
    split at hstep
    · rename_i c gen boot hpc
      split at hstep
      · cases hstep
        exact .inl rfl
      · rename_i hnew
        push Not at hnew
        cases hstep
        exact .inr ⟨t, rfl, c, hnew.2.1 ▸ hpc, hnew.1⟩
    · cases hstep
  | next t now =>
    have hkept := boot_next cfg s now
    split at hstep
    · split at hstep <;> rename_i hnext <;> cases hstep <;> rw [hnext] at hkept <;> exact .inl hkept
    · cases hstep
  | settle t now delay =>
    split at hstep
    · rename_i j o hpc
      cases hstep
      exact .inl (boot_settle j o now delay)
    · cases hstep
  | _ =>
    split at hstep <;> cases hstep <;> exact .inl rfl

/-- A range that is computed once the batch was taken covers it. -/
theorem Reads.covers {e : Entry} {now : Int} (h : Reads cfg e.seq s)
    (hstep : s.step cfg (.redelivery t now) = some s') (he : e ∈ s.buffer.retained)
    (hvalid : now < e.expires) : ∃ c d, s'.pcs t = .ranged c d ∧ d.Covers e.seq := by
  obtain ⟨handed, f, hserves, -, -, htaken⟩ := h
  rw [← cursor_eq hserves] at htaken
  obtain ⟨live, l, hholds, -⟩ := hserves
  rw [hholds.retained] at he
  simp only [LaneState.step] at hstep
  split at hstep
  · rename_i c hpc
    cases hstep
    exact ⟨c, _, Function.update_self .., redelivery_covers hholds he hvalid htaken⟩
  · cases hstep

end Boot

/-! ## Restarts -/

/-- A batch that one process of the producer confirms, and an answer of another one that is
accepted later. -/
structure Restart (cfg : LaneConfig) where
  /-- the goroutine that sends the batch -/
  t : Nat
  j : Job
  now : Int
  /-- the process that confirms it -/
  confirmed : String
  /-- the goroutine with the later answer -/
  w : Nat
  /-- the process that answer is from -/
  boot : String
  before : List Event
  during : List Event
  after : List Event
  start : LaneState
  called : LaneState
  last : LaneState
  reached : run (LaneState.step cfg) (.init cfg) before = some start
  picked : start.pcs t = .picked j
  sent : run (LaneState.step cfg) start (.send t now :: during) = some called
  unanswered : ∀ a, .answer t a ∉ during
  waits : ∃ gen, called.pcs t = .called j gen
  answered : run (LaneState.step cfg) called (.answer t (.stored confirmed) :: after) = some last
  accepted : last.Accepts w boot
  other : boot ≠ confirmed

namespace Restart

variable {cfg : LaneConfig} (x : Restart cfg)

/-- From the call until the later answer is observed. -/
def window : List Event :=
  .send x.t x.now :: x.during ++ .answer x.t (.stored x.confirmed) :: x.after

/-- From the call on, an answer of the later process starts a redelivery, and the range
computed for it covers the batch if that is still retained and valid. -/
def Redelivered : Prop :=
  ∃ first rest t mid s, x.window ++ [.observeBoot x.w] = first ++ .observeBoot t :: rest ∧
    run (LaneState.step cfg) x.start first = some mid ∧ mid.Accepts t x.boot ∧
    mid.step cfg (.observeBoot t) = some s ∧ (∃ c, s.pcs t = .restarted c) ∧
    ∀ events s₁ s₂ now, run (LaneState.step cfg) s events = some s₁ →
      s₁.step cfg (.redelivery t now) = some s₂ → x.j.e ∈ s₁.buffer.retained →
      now < x.j.e.expires → ∃ c d, s₂.pcs t = .ranged c d ∧ d.Covers x.j.e.seq

/-- At some moment between the call and the later answer another process is on record. -/
def Known : Prop :=
  ∃ first rest mid, x.window = first ++ rest ∧ run (LaneState.step cfg) x.start first = some mid ∧
    mid.boot ≠ "" ∧ mid.boot ≠ x.boot

theorem run_window : run (step cfg) x.start x.window = some x.last :=
  run_trans x.sent x.answered

theorem reads_start : Reads cfg x.j.e.seq x.start := by
  have hreads : Reads cfg 0 x.start :=
    run_invariant (I := Reads cfg 0) (fun _ _ _ h hstep => h.step hstep) (reads_init cfg) x.reached
  obtain ⟨handed, f, hserves, haccounted, hbehind, -⟩ := hreads
  exact ⟨handed, f, hserves, haccounted, hbehind, hbehind.holds x.picked⟩

theorem reads_of_run {events : List Event} {s : LaneState}
    (h : run (step cfg) x.start events = some s) : Reads cfg x.j.e.seq s :=
  run_invariant (I := Reads cfg x.j.e.seq) (fun _ _ _ h hstep => h.step hstep) x.reads_start h

theorem redelivered_of_known (h : x.Known) : x.Redelivered := by
  obtain ⟨first, rest, mid, hwindow, hfirst, hrecord⟩ := h
  obtain ⟨final, hobserve, hboot, -⟩ := observeBoot_accepts cfg x.accepted
  have hrest : run (step cfg) mid (rest ++ [.observeBoot x.w]) = some final := by
    have hall := x.run_window
    rw [hwindow] at hall
    obtain ⟨mid', hmid, hrest⟩ := run_append_split hall
    rw [hfirst] at hmid
    cases hmid
    exact run_step hrest hobserve
  -- the record of another process is undone by an accepted answer, and that is the later one's
  obtain ⟨first', e, rest', s₁, s₂, hsplit, hfirst', ⟨hsome, hother⟩, hstep, hundone⟩ :=
    run_undoes (P := fun s => s.boot ≠ "" ∧ s.boot ≠ x.boot) hrecord (by simp [hboot]) hrest
  rcases boot_step hstep with hsame | ⟨t, rfl, haccepts⟩
  · rw [hsame] at hundone
    exact absurd ⟨hsome, hother⟩ hundone
  · have hboot₂ : s₂.boot = x.boot := by
      by_contra hne
      obtain ⟨c, -, hnonempty⟩ := haccepts
      exact hundone ⟨hnonempty, hne⟩
    rw [hboot₂] at haccepts
    obtain ⟨s, hs, -, hrestarted⟩ := observeBoot_accepts cfg haccepts
    have hs₁ := run_trans hfirst hfirst'
    refine ⟨first ++ first', rest', t, s₁, s, ?_, hs₁, haccepts, hs,
      hrestarted.mpr ⟨hsome, hother⟩, ?_⟩
    · rw [hwindow, append_assoc, hsplit, append_assoc]
    · intro events s₃ s₄ now hrun hrange hretained hvalid
      exact (x.reads_of_run (run_trans (run_step hs₁ hs) hrun)).covers hrange hretained hvalid

theorem known_of_redelivered (h : x.Redelivered) : x.Known := by
  obtain ⟨first, rest, t, mid, s, hsplit, hfirst, haccepts, hs, hpass, -⟩ := h
  obtain ⟨s', hs', -, hrestarted⟩ := observeBoot_accepts cfg haccepts
  rw [hs] at hs'
  cases hs'
  -- what comes before an event of the window and its last event lies in the window
  have hprefix : first <+: x.window := by
    refine prefix_of_prefix_length_le ⟨_, hsplit.symm⟩ (prefix_append _ _) ?_
    have hlength := congrArg List.length hsplit
    simp only [length_append, length_cons, length_nil] at hlength
    omega
  obtain ⟨rest', hwindow⟩ := hprefix
  exact ⟨first, rest', mid, hwindow.symm, hfirst, hrestarted.mp hpass⟩

/-- A restarted producer gets a confirmed batch back exactly when some other process was on
record between the call and the answer that tells of the restart. -/
theorem redelivered_iff (cfg : LaneConfig) (x : Restart cfg) : x.Redelivered ↔ x.Known :=
  ⟨x.known_of_redelivered, x.redelivered_of_known⟩

/-- The second of two lanes, with the default limits. -/
def secondLane : LaneConfig := ⟨2, 1, 100000, 8⟩

def sampleBatch : Batch :=
  ⟨2, [107], 1000, 3000, [⟨0, 1, .replicate 32 1, .replicate 32 2, .replicate 32 3, ""⟩], "", []⟩

/-- The call is made before the lane's first connection is ready and waits for it, so its
answer counts for no connection; the process that confirmed goes before `Status` is answered. -/
def lostRestart : Restart secondLane where
  t := 1
  j := ⟨⟨1, sampleBatch, 3000 * millisecond⟩, true, false⟩
  now := 1000 * millisecond
  confirmed := "p"
  w := 0
  boot := "q"
  before := [.buffer (.add sampleBatch (1000 * millisecond)), .next 1 (1000 * millisecond)]
  during := [.ready (1000 * millisecond)]
  after := [.observeBoot 1, .settle 1 (1001 * millisecond) 0, .status none, .disconnected,
    .ready (1500 * millisecond), .status (some "q")]
  start := _
  called := _
  last := _
  reached := rfl
  picked := rfl
  sent := rfl
  unanswered := by simp
  waits := ⟨0, rfl⟩
  answered := rfl
  accepted := ⟨_, rfl, by decide⟩
  other := by decide

/-- The new process is accepted while the batch is retained and valid, and nothing is sent
again. -/
theorem restart_unnoticed :
    lostRestart.j.e ∈ lostRestart.last.buffer.retained ∧
      1500 * millisecond < lostRestart.j.e.expires ∧ ¬ lostRestart.Redelivered := by
  have hempty : ∀ n < 10, (run (step secondLane) lostRestart.start
      (lostRestart.window.take n)).map LaneState.boot = some "" := by decide
  refine ⟨mem_cons_self, by decide, fun hredelivered => ?_⟩
  obtain ⟨first, rest, mid, hwindow, hfirst, hsome, -⟩ :=
    lostRestart.known_of_redelivered hredelivered
  have hlength : first.length < 10 := by
    have hlength := congrArg List.length hwindow
    rw [length_append] at hlength
    have hwhole : lostRestart.window.length = 9 := rfl
    omega
  have hboot := hempty first.length hlength
  rw [hwindow, take_left, hfirst] at hboot
  exact hsome (Option.some.inj hboot)

end Restart

end PrivacySuite.NodeApproval.Delivery
