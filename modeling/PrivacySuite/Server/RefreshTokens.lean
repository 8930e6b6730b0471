import PrivacySuite.Concurrency.Runs
import PrivacySuite.Go.Values

/-!
# Refresh token rotation

`handleRefresh` and `handleRevoke` (`internal/server/auth.go`) over the
`refresh_tokens` table (`internal/db/db.go`), as requests that run side by side. Every
database operation is one atomic step, and each may fail.

The table is keyed by the hash of a token; the model keys it by the token. A new
token is drawn at the step that inserts it, since nobody but its own request can
name it before: it is one that no request has named and no row has. What the token
service has signed is the ledger `issued`; a token validates to the subject in it.

Three fields are history. `root` is the login a row descends from, `exchanges` lists
the successful exchanges of a token, and `late` says that a revoke request for the
token had returned success before the request started.
-/

namespace PrivacySuite.Server

open Go Concurrency Function List

/-- Seven days. -/
def refreshTokenTTL : Int := 7 * 24 * 60 * minute

structure TokenRow where
  subject : String
  expiresAt : Int
  revoked : Bool := false
  root : String

structure TokenClaims where
  subject : String
  expiresAt : Int

/-- The next atomic step of a request. The last three are those of `handleRevoke`,
`finished` apart. -/
inductive TokenPc where
  /-- `ValidateRefreshToken` -/
  | validate
  /-- `GetRefreshToken` and the checks on the row -/
  | check (subject : String)
  /-- `EnsureUserExists` -/
  | user (subject : String)
  /-- `IssueAccessToken` and `IssueRefreshToken` -/
  | issue (subject : String)
  /-- `RevokeRefreshToken` of the presented token -/
  | revoke (subject : String) (jwtExpiry : Int)
  /-- `SaveRefreshToken` of the new one -/
  | save (subject : String) (jwtExpiry : Int)
  /-- `RevokeRefreshToken` for a banned user -/
  | banned
  /-- `RevokeAccessToken` -/
  | revokeAccess
  /-- `RevokeRefreshToken` -/
  | revokeToken
  | finished (ok : Bool)
  deriving DecidableEq

structure TokenRequest where
  token : String
  pc : TokenPc
  late : Bool := false
  deriving DecidableEq

/-- One successful exchange: the request, and whether it was late. -/
structure Exchange where
  request : Nat
  late : Bool
  deriving DecidableEq

structure TokenState where
  rows : String → Option TokenRow := fun _ => none
  issued : String → Option TokenClaims := fun _ => none
  requests : Nat → Option TokenRequest := fun _ => none
  seen : List String := []
  exchanges : String → List Exchange := fun _ => []
  revokeReturned : List String := []

/-- What `EnsureUserExists` answers. -/
inductive UserLookup where
  | failed
  | absent
  | found (banned : Bool)

/-- What the environment decides about a step. -/
structure TokenChoice where
  now : Int := 0
  failure : Bool := false
  lookup : UserLookup := .found false
  fresh : String := ""

inductive TokenEvent where
  | login (token subject : String) (now : Int)
  | refresh (j : Nat) (token : String)
  | revoke (j : Nat) (token : String)
  | step (j : Nat) (choice : TokenChoice)

namespace TokenState

variable (s : TokenState)

def goto (j : Nat) (req : TokenRequest) (pc : TokenPc) : TokenState :=
  { s with requests := Function.update s.requests j (some { req with pc }) }

def revokeRow (token : String) : TokenState :=
  { s with
    rows := Function.update s.rows token
      ((s.rows token).map fun row => { row with revoked := true }) }

/-- `SaveRefreshToken`, for a token just signed. -/
def insert (token subject root : String) (expiresAt jwtExpiry : Int) : TokenState :=
  { s with
    rows := Function.update s.rows token (some { subject, expiresAt, root })
    issued := Function.update s.issued token (some ⟨subject, jwtExpiry⟩)
    seen := token :: s.seen }

/-- A token nobody has named yet. -/
def IsFresh (token : String) : Prop := token ∉ s.seen

instance (token : String) : Decidable (s.IsFresh token) :=
  inferInstanceAs (Decidable (token ∉ s.seen))

/-- The signature is checked, and the expiry. -/
def validateRefreshToken (token : String) (now : Int) : Option String :=
  match s.issued token with
  | none => none
  | some claims => if now < claims.expiresAt then some claims.subject else none

/-- The checks of `handleRefresh` on the stored row. -/
def rowAccepted (token : String) (now : Int) : Bool :=
  match s.rows token with
  | none => false
  | some row => !row.revoked && !decide (row.expiresAt < now)

/-- The login a row descends from. -/
def rootOf (token : String) : String := ((s.rows token).map (·.root)).getD ""

/-- The new token is stored: the exchange has succeeded. -/
def exchange (j : Nat) (req : TokenRequest) (subject : String) (jwtExpiry : Int)
    (choice : TokenChoice) : TokenState :=
  { s.insert choice.fresh subject (s.rootOf req.token) (choice.now + refreshTokenTTL) jwtExpiry with
    exchanges := Function.update s.exchanges req.token
      (⟨j, req.late⟩ :: s.exchanges req.token) }.goto j req (.finished true)

def stepRequest (j : Nat) (req : TokenRequest) (choice : TokenChoice) : Option TokenState :=
  match req.pc with
  | .validate =>
      some (s.goto j req
        ((s.validateRefreshToken req.token choice.now).elim (.finished false) .check))
  | .check subject =>
      some (s.goto j req
        (if !choice.failure && s.rowAccepted req.token choice.now then .user subject
          else .finished false))
  | .user subject =>
      -- a failed look-up goes on as if the user were in good standing
      match choice.lookup with
      | .found true => some (s.goto j req .banned)
      | _ => some (s.goto j req (.issue subject))
  | .issue subject =>
      some (s.goto j req
        (if choice.failure then .finished false
          else .revoke subject (choice.now + refreshTokenTTL)))
  | .revoke subject jwtExpiry =>
      -- a failure is logged and the request goes on
      if choice.failure then some (s.goto j req (.save subject jwtExpiry))
      else some ((s.revokeRow req.token).goto j req (.save subject jwtExpiry))
  | .save subject jwtExpiry =>
      if choice.failure then some (s.goto j req (.finished false))
      else if s.IsFresh choice.fresh then some (s.exchange j req subject jwtExpiry choice)
      else none
  | .banned =>
      if choice.failure then some (s.goto j req (.finished false))
      else some ((s.revokeRow req.token).goto j req (.finished false))
  | .revokeAccess => some (s.goto j req (if choice.failure then .finished false else .revokeToken))
  | .revokeToken =>
      if choice.failure then some (s.goto j req (.finished false))
      else some ({ s.revokeRow req.token with
          revokeReturned := req.token :: s.revokeReturned }.goto j req (.finished true))
  | .finished _ => none

def start (j : Nat) (token : String) (pc : TokenPc) : Option TokenState :=
  match s.requests j with
  | none => some { s with
      requests := Function.update s.requests j
        (some { token, pc, late := decide (token ∈ s.revokeReturned) })
      seen := token :: s.seen }
  | some _ => none

def step : TokenEvent → Option TokenState
  | .login token subject now =>
      if s.IsFresh token then
        some (s.insert token subject token (now + refreshTokenTTL) (now + refreshTokenTTL))
      else none
  | .refresh j token => s.start j token .validate
  | .revoke j token => s.start j token .revokeAccess
  | .step j choice => (s.requests j).bind fun req => s.stepRequest j req choice

/-! ## Schedules and the property -/

def Exchangeable (now : Int) (token : String) : Prop :=
  s.rowAccepted token now = true ∧ (s.validateRefreshToken token now).isSome

instance (now : Int) (token : String) : Decidable (s.Exchangeable now token) :=
  inferInstanceAs (Decidable (_ ∧ _))

/-- Single use: no token is exchanged twice, none by a late request, and no two tokens
of one login can both be exchanged. -/
structure SingleUse : Prop where
  once : ∀ token, (s.exchanges token).length ≤ 1
  notLate : ∀ token, ∀ x ∈ s.exchanges token, x.late = false
  oneLive : ∀ token token' now, s.rootOf token = s.rootOf token' → s.Exchangeable now token →
    s.Exchangeable now token' → token = token'

end TokenState

/-- Between its check of the row and its revocation of it. -/
def TokenPc.inWindow : TokenPc → Bool
  | .user _ => true
  | .issue _ => true
  | .revoke _ _ => true
  | _ => false

/-- What can go wrong: whether the revocation inside a refresh may fail, and whether
a refresh may pass its check while another one of the same token is between check and
revocation. -/
structure RefreshSchedule where
  revokeFails : Bool
  overlaps : Bool

/-- The schedule lets the event happen. -/
def RefreshSchedule.Allows (w : RefreshSchedule) (s : TokenState) : TokenEvent → Prop
  | .step j choice => ∀ req, s.requests j = some req →
      (∀ subject jwtExpiry, req.pc = .revoke subject jwtExpiry → choice.failure = true →
        w.revokeFails = true) ∧
      (∀ subject k req', req.pc = .check subject → choice.failure = false →
        s.rowAccepted req.token choice.now = true → k ≠ j → s.requests k = some req' →
        req'.token = req.token → req'.pc.inWindow = true → w.overlaps = true)
  | _ => True

/-- Past its check, with the new token not stored yet. -/
def TokenPc.holding : TokenPc → Bool
  | .save _ _ => true
  | pc => pc.inWindow

open TokenState

namespace TokenState

variable {s s' : TokenState} {e : TokenEvent}

/-! ## What an event can do -/

variable {j : Nat} {req : TokenRequest} {token subject : String} {jwtExpiry : Int} {pc : TokenPc}

/-- The four ways a step of a request goes: a step that touches nothing else, a
revocation that fails inside a refresh, one that succeeds, and the exchange. -/
theorem stepRequest_cases {choice : TokenChoice} (h : s.stepRequest j req choice = some s') :
    (∃ pc, s' = s.goto j req pc ∧ (pc.holding = true → pc.inWindow = true ∧
      (req.pc.inWindow = true ∨
        ∃ subject, req.pc = .check subject ∧ choice.failure = false ∧
          s.rowAccepted req.token choice.now = true))) ∨
    (∃ subject jwtExpiry, req.pc = .revoke subject jwtExpiry ∧ choice.failure = true ∧
      s' = s.goto j req (.save subject jwtExpiry)) ∨
    (∃ pc returned, s' = { s.revokeRow req.token with revokeReturned := returned }.goto j req pc ∧
      (returned = s.revokeReturned ∨ returned = req.token :: s.revokeReturned) ∧
      (pc.holding = true → req.pc.inWindow = true ∧ pc.inWindow = false)) ∨
    (∃ subject jwtExpiry, req.pc = .save subject jwtExpiry ∧ s.IsFresh choice.fresh ∧
      s' = s.exchange j req subject jwtExpiry choice) := by
  unfold stepRequest at h
  split at h
  · -- validate
    cases h
    refine .inl ⟨_, rfl, ?_⟩
    cases s.validateRefreshToken req.token choice.now <;> nofun
  · -- check
    rename_i subject hpc
    cases h
    refine .inl ⟨_, rfl, ?_⟩
    split
    · rename_i hcond
      simp only [Bool.and_eq_true, Bool.not_eq_true'] at hcond
      exact fun _ => ⟨rfl, .inr ⟨subject, hpc, hcond⟩⟩
    · nofun
  · -- user
    rename_i subject hpc
    split at h
    · cases h
      exact .inl ⟨_, rfl, nofun⟩
    · cases h
      exact .inl ⟨_, rfl, fun _ => ⟨rfl, .inl (by rw [hpc]; rfl)⟩⟩
  · -- issue
    rename_i subject hpc
    cases h
    refine .inl ⟨_, rfl, ?_⟩
    split
    · nofun
    · exact fun _ => ⟨rfl, .inl (by rw [hpc]; rfl)⟩
  · -- revoke
    rename_i subject jwtExpiry hpc
    split at h
    · rename_i hfailure
      cases h
      exact .inr (.inl ⟨subject, jwtExpiry, hpc, hfailure, rfl⟩)
    · cases h
      exact .inr (.inr (.inl ⟨_, _, rfl, .inl rfl, fun _ => ⟨by rw [hpc]; rfl, rfl⟩⟩))
  · -- save
    rename_i subject jwtExpiry hpc
    split at h
    · cases h
      exact .inl ⟨_, rfl, nofun⟩
    · split at h
      · rename_i hfresh
        cases h
        exact .inr (.inr (.inr ⟨subject, jwtExpiry, hpc, hfresh, rfl⟩))
      · cases h
  · -- banned
    split at h
    · cases h
      exact .inl ⟨_, rfl, nofun⟩
    · cases h
      exact .inr (.inr (.inl ⟨_, _, rfl, .inl rfl, nofun⟩))
  · -- revokeAccess
    cases h
    refine .inl ⟨_, rfl, ?_⟩
    split <;> nofun
  · -- revokeToken
    split at h
    · cases h
      exact .inl ⟨_, rfl, nofun⟩
    · cases h
      exact .inr (.inr (.inl ⟨_, _, rfl, .inr rfl, nofun⟩))
  · cases h

theorem start_eq_some (h : s.start j token pc = some s') :
    s.requests j = none ∧ s' = { s with
      requests := update s.requests j
        (some { token, pc, late := decide (token ∈ s.revokeReturned) })
      seen := token :: s.seen } := by
  unfold start at h
  split at h
  · rename_i hidle
    exact ⟨hidle, (Option.some.inj h).symm⟩
  · cases h

theorem step_cases (h : s.step e = some s') :
    (∃ token subject now, s.IsFresh token ∧
      s' = s.insert token subject token (now + refreshTokenTTL) (now + refreshTokenTTL)) ∨
    (∃ j token pc, (e = .refresh j token ∨ e = .revoke j token) ∧ s.requests j = none ∧
      pc.holding = false ∧ s' = { s with
      requests := update s.requests j
        (some { token, pc, late := decide (token ∈ s.revokeReturned) })
      seen := token :: s.seen }) ∨
    ∃ j req choice, e = .step j choice ∧ s.requests j = some req ∧
      s.stepRequest j req choice = some s' := by
  cases e with
  | login token subject now =>
    obtain ⟨hfresh, heq⟩ := Option.ite_none_right_eq_some.mp h
    cases heq
    exact .inl ⟨token, subject, now, hfresh, rfl⟩
  | refresh j token =>
    obtain ⟨hidle, rfl⟩ := start_eq_some h
    exact .inr (.inl ⟨j, token, .validate, .inl rfl, hidle, rfl, rfl⟩)
  | revoke j token =>
    obtain ⟨hidle, rfl⟩ := start_eq_some h
    exact .inr (.inl ⟨j, token, .revokeAccess, .inr rfl, hidle, rfl, rfl⟩)
  | step j choice =>
    obtain ⟨req, hreq, hstep⟩ := Option.bind_eq_some_iff.mp h
    exact .inr (.inr ⟨j, req, choice, rfl, hreq, hstep⟩)

theorem requests_update {requests : Nat → Option TokenRequest} {k : Nat} {req' : TokenRequest}
    (h : update requests j (some req) k = some req') :
    (k = j ∧ req' = req) ∨ (k ≠ j ∧ requests k = some req') := by
  by_cases hk : k = j
  · subst hk
    simp only [update_self, Option.some.injEq] at h
    exact .inl ⟨rfl, h.symm⟩
  · rw [update_of_ne hk] at h
    exact .inr ⟨hk, h⟩

def Revoked (s : TokenState) (token : String) : Prop :=
  ∀ row, s.rows token = some row → row.revoked = true

theorem not_revoked_iff :
    ¬ s.Revoked token ↔ ∃ row, s.rows token = some row ∧ row.revoked = false := by
  simp [Revoked]

variable {token' root : String} {expiresAt : Int}

theorem revoked_revokeRow_iff : (s.revokeRow token).Revoked token' ↔
    token' = token ∨ s.Revoked token' := by
  by_cases ht : token' = token
  · simp [Revoked, revokeRow, ht]
  · simp [Revoked, revokeRow, ht]

theorem exists_revokeRow_iff :
    (∃ row, (s.revokeRow token).rows token' = some row) ↔ ∃ row, s.rows token' = some row := by
  by_cases ht : token' = token
  · simp [revokeRow, ht]
  · simp [revokeRow, ht]

theorem rows_insert (hfresh : s.IsFresh token) (hseen : token' ∈ s.seen) :
    (s.insert token subject root expiresAt jwtExpiry).rows token' = s.rows token' := by
  have ht : token' ≠ token := fun heq => hfresh (heq ▸ hseen)
  simp [insert, update_of_ne ht]

theorem rootOf_revokeRow (token token' : String) :
    (s.revokeRow token).rootOf token' = s.rootOf token' := by
  by_cases ht : token' = token
  · simp [rootOf, revokeRow, ht, comp_def]
  · simp [rootOf, revokeRow, ht]

/-! ## What holds under every schedule -/

/-- Tokens with a row, their roots and the tokens of requests have been named; a
request past its check has a row; a token whose revocation has returned has no live
row; and a late request gets nowhere. -/
structure Known (s : TokenState) : Prop where
  rows : ∀ token row, s.rows token = some row → token ∈ s.seen ∧ row.root ∈ s.seen
  requests : ∀ j req, s.requests j = some req → req.token ∈ s.seen
  held : ∀ j req, s.requests j = some req → req.pc.holding = true →
    ∃ row, s.rows req.token = some row
  returned : ∀ token ∈ s.revokeReturned, token ∈ s.seen ∧
    ∀ row, s.rows token = some row → row.revoked = true
  late : ∀ j req, s.requests j = some req → req.late = true →
    req.token ∈ s.revokeReturned ∧ req.pc.holding = false
  exchanges : ∀ token, ∀ x ∈ s.exchanges token, token ∈ s.seen ∧ x.late = false

theorem known_init : Known {} where
  rows token row h := by cases h
  requests j req h := by cases h
  held j req h := by cases h
  returned token h := by cases h
  late j req h := by cases h
  exchanges token x h := by cases h

theorem rowAccepted_iff {now : Int} :
    s.rowAccepted token now = true ↔
      ∃ row, s.rows token = some row ∧ row.revoked = false ∧ now ≤ row.expiresAt := by
  unfold rowAccepted
  cases s.rows token with
  | none => simp
  | some row => simp

theorem Known.see (hs : Known s) (token : String) : Known { s with seen := token :: s.seen } where
  __ := hs
  rows _ row hrow := (hs.rows _ row hrow).imp (mem_cons_of_mem _) (mem_cons_of_mem _)
  requests j req hreq := mem_cons_of_mem _ (hs.requests j req hreq)
  returned token' ht' := (hs.returned token' ht').imp_left (mem_cons_of_mem _)
  exchanges token' x hx := (hs.exchanges token' x hx).imp_left (mem_cons_of_mem _)

theorem Known.insert (hs : Known s) (hfresh : s.IsFresh token)
    (hroot : root = token ∨ root ∈ s.seen) :
    Known (s.insert token subject root expiresAt jwtExpiry) where
  rows token' row hrow := by
    by_cases ht : token' = token
    · subst ht
      simp only [TokenState.insert, update_self, Option.some.injEq] at hrow
      subst hrow
      exact ⟨mem_cons_self, mem_cons.mpr hroot⟩
    · simp only [TokenState.insert, update_of_ne ht] at hrow
      exact (hs.see token).rows token' row hrow
  requests := (hs.see token).requests
  held j req hreq hpc := by
    rw [rows_insert hfresh (hs.requests j req hreq)]
    exact hs.held j req hreq hpc
  returned token' ht' := by
    obtain ⟨hseen, hrevoked⟩ := hs.returned token' ht'
    refine ⟨mem_cons_of_mem _ hseen, fun row hrow => ?_⟩
    rw [rows_insert hfresh hseen] at hrow
    exact hrevoked row hrow
  late := hs.late
  exchanges := (hs.see token).exchanges

theorem holding_of_inWindow (h : pc.inWindow = true) : pc.holding = true := by
  cases pc <;> first | rfl | cases h

theorem Known.revokeRow (hs : Known s) {returned : List String} (hseen : token ∈ s.seen)
    (hreturned : returned = s.revokeReturned ∨ returned = token :: s.revokeReturned) :
    Known { s.revokeRow token with revokeReturned := returned } where
  __ := hs
  rows token' row hrow := by
    by_cases ht : token' = token
    · simp only [ht, TokenState.revokeRow, update_self, Option.map_eq_some_iff] at hrow
      obtain ⟨row₀, hrow₀, rfl⟩ := hrow
      exact hs.rows token' row₀ (ht ▸ hrow₀)
    · exact hs.rows token' row (by simpa [TokenState.revokeRow, ht] using hrow)
  held j req hreq hpc := exists_revokeRow_iff.mpr (hs.held j req hreq hpc)
  returned token' ht' := by
    have hcases : token' = token ∨ token' ∈ s.revokeReturned := by
      rcases hreturned with rfl | rfl
      · exact .inr ht'
      · exact mem_cons.mp ht'
    refine ⟨?_, revoked_revokeRow_iff.mpr (hcases.imp_right fun h => (hs.returned token' h).2)⟩
    rcases hcases with rfl | hmem
    · exact hseen
    · exact (hs.returned token' hmem).1
  late j req hreq hlate := by
    obtain ⟨hmem, hpc⟩ := hs.late j req hreq hlate
    refine ⟨?_, hpc⟩
    rcases hreturned with rfl | rfl
    · exact hmem
    · exact mem_cons_of_mem _ hmem

/-- A request, new or gone on: past its check only with a row and not late. -/
theorem Known.put (hs : Known s) (hseen : req.token ∈ s.seen)
    (hheld : req.pc.holding = true → ∃ row, s.rows req.token = some row)
    (hlate : req.late = true → req.token ∈ s.revokeReturned ∧ req.pc.holding = false) :
    Known { s with requests := update s.requests j (some req) } where
  __ := hs
  requests k req' hreq' := by
    rcases requests_update hreq' with ⟨-, rfl⟩ | ⟨-, hold⟩
    · exact hseen
    · exact hs.requests k req' hold
  held k req' hreq' hholding := by
    rcases requests_update hreq' with ⟨-, rfl⟩ | ⟨-, hold⟩
    · exact hheld hholding
    · exact hs.held k req' hold hholding
  late k req' hreq' hlate' := by
    rcases requests_update hreq' with ⟨-, rfl⟩ | ⟨-, hold⟩
    · exact hlate hlate'
    · exact hs.late k req' hold hlate'

theorem Known.goto (hs : Known s) (hreq : s.requests j = some req)
    (hpc : pc.holding = true → (∃ row, s.rows req.token = some row) ∧ req.late = false) :
    Known (s.goto j req pc) := by
  refine hs.put (hs.requests j req hreq) (fun h => (hpc h).1) fun hlate => ?_
  refine ⟨(hs.late j req hreq hlate).1, ?_⟩
  by_contra hholding
  cases (hpc (by simpa using hholding)).2.symm.trans hlate

theorem Known.notLate (hs : Known s) (hreq : s.requests j = some req)
    (hpc : req.pc.holding = true) :
    req.late = false := by
  by_contra hlate
  cases hpc.symm.trans (hs.late j req hreq (by simpa using hlate)).2

theorem Known.record (hs : Known s) (hseen : token ∈ s.seen) {x : Exchange}
    (hlate : x.late = false) :
    Known { s with exchanges := update s.exchanges token (x :: s.exchanges token) } where
  __ := hs
  exchanges token' y hy := by
    by_cases ht : token' = token
    · simp only [ht, update_self, mem_cons] at hy
      rcases hy with rfl | hold
      · exact ⟨ht ▸ hseen, hlate⟩
      · exact ht ▸ hs.exchanges token y hold
    · simp only [update_of_ne ht] at hy
      exact hs.exchanges token' y hy

theorem Known.step (hs : Known s) (h : s.step e = some s') : Known s' := by
  obtain ⟨token, subject, now, hfresh, rfl⟩ | ⟨j, token, pc, -, hidle, hpc, rfl⟩ |
    ⟨j, req, choice, -, hreq, hstep⟩ := step_cases h
  · exact hs.insert hfresh (.inl rfl)
  · refine (hs.see token).put mem_cons_self (fun hholding => ?_) fun hlate =>
      ⟨of_decide_eq_true hlate, hpc⟩
    cases hpc.symm.trans hholding
  · obtain ⟨pc, rfl, hpc⟩ | ⟨subject, jwtExpiry, hreqpc, -, rfl⟩ |
      ⟨pc, returned, rfl, hreturned, hpc⟩ |
      ⟨subject, jwtExpiry, hreqpc, hfresh, rfl⟩ := stepRequest_cases hstep
    · refine hs.goto hreq fun hholding => ?_
      rcases (hpc hholding).2 with hwindow | ⟨subject, -, -, haccepted⟩
      · have hheld := holding_of_inWindow hwindow
        exact ⟨hs.held j req hreq hheld, hs.notLate hreq hheld⟩
      · obtain ⟨row, hrow, hlive, -⟩ := rowAccepted_iff.mp haccepted
        refine ⟨⟨row, hrow⟩, ?_⟩
        by_contra hlate
        -- the token of a late request has no live row
        have hmem := (hs.late j req hreq (by simpa using hlate)).1
        cases hlive.symm.trans ((hs.returned _ hmem).2 row hrow)
    · have hheld : req.pc.holding = true := by rw [hreqpc]; rfl
      exact hs.goto hreq fun _ => ⟨hs.held j req hreq hheld, hs.notLate hreq hheld⟩
    · refine (hs.revokeRow (hs.requests j req hreq) hreturned).goto hreq fun hholding => ?_
      have hheld := holding_of_inWindow (hpc hholding).1
      exact ⟨exists_revokeRow_iff.mpr (hs.held j req hreq hheld), hs.notLate hreq hheld⟩
    · have hheld : req.pc.holding = true := by rw [hreqpc]; rfl
      obtain ⟨row, hrow⟩ := hs.held j req hreq hheld
      have hroot : s.rootOf req.token ∈ s.seen := by
        simpa [rootOf, hrow] using (hs.rows _ _ hrow).2
      refine ((hs.insert hfresh (.inr hroot)).record (x := ⟨j, req.late⟩) ?_ ?_).goto hreq nofun
      · exact mem_cons_of_mem _ (hs.requests j req hreq)
      · exact hs.notLate hreq hheld

/-! ## What holds when nothing goes wrong -/

/-- The token has a live row, or a request past its check. -/
def Alive (s : TokenState) (token : String) : Prop :=
  (∃ row, s.rows token = some row ∧ row.revoked = false) ∨
  ∃ j req, s.requests j = some req ∧ req.token = token ∧ req.pc.holding = true

/-- One request at a time is past its check of a token, and the token's row is revoked
before the new one is stored; a token that has been exchanged stays revoked; and of
the tokens of one login one is alive. -/
structure Orderly (s : TokenState) : Prop where
  holder : ∀ j req, s.requests j = some req → req.pc.holding = true →
    s.exchanges req.token = [] ∧
    (req.pc.inWindow = false → ∀ row, s.rows req.token = some row → row.revoked = true) ∧
    ∀ k req', s.requests k = some req' → req'.token = req.token → req'.pc.holding = true → k = j
  spent : ∀ token, s.exchanges token ≠ [] → (s.exchanges token).length ≤ 1 ∧
    ∀ row, s.rows token = some row → row.revoked = true
  family : ∀ token token', s.rootOf token = s.rootOf token' → s.Alive token → s.Alive token' →
    token = token'

theorem orderly_init : Orderly {} where
  holder j req h := by cases h
  spent token h := absurd rfl h
  family token token' _ halive := by
    rcases halive with ⟨row, hrow, -⟩ | ⟨j, req, hreq, -⟩
    · cases hrow
    · cases hreq

theorem alive_put (hpc : req.pc.holding = true → s.Alive req.token)
    (h : Alive { s with requests := update s.requests j (some req) } token) :
    s.Alive token := by
  rcases h with hrow | ⟨k, req', hreq', rfl, hholding⟩
  · exact .inl hrow
  · rcases requests_update hreq' with ⟨-, rfl⟩ | ⟨-, hold⟩
    · exact hpc hholding
    · exact .inr ⟨k, req', hold, rfl, hholding⟩

theorem Orderly.insert (hs : Orderly s) (hknown : Known s) (hfresh : s.IsFresh token)
    (hroot : ∀ token', s.rootOf token' = root → ¬ s.Alive token') :
    Orderly (s.insert token subject root expiresAt jwtExpiry) := by
  have halive : ∀ token', (s.insert token subject root expiresAt jwtExpiry).Alive token' →
      token' = token ∨ s.Alive token' ∧ token' ∈ s.seen := by
    intro token' h
    rcases h with ⟨row, hrow, hlive⟩ | ⟨j, req, hreq, rfl, hholding⟩
    · by_cases ht : token' = token
      · exact .inl ht
      · simp only [TokenState.insert, update_of_ne ht] at hrow
        exact .inr ⟨.inl ⟨row, hrow, hlive⟩, (hknown.rows _ _ hrow).1⟩
    · exact .inr ⟨.inr ⟨j, req, hreq, rfl, hholding⟩, hknown.requests j req hreq⟩
  have hroots : ∀ token', token' ∈ s.seen →
      (s.insert token subject root expiresAt jwtExpiry).rootOf token' = s.rootOf token' := by
    intro token' hseen
    simp [rootOf, rows_insert hfresh hseen]
  have hrootNew : (s.insert token subject root expiresAt jwtExpiry).rootOf token = root := by
    simp [rootOf, TokenState.insert]
  refine ⟨?_, ?_, ?_⟩
  · intro j req hreq hholding
    obtain ⟨hnone, hrevoked, hunique⟩ := hs.holder j req hreq hholding
    refine ⟨hnone, fun hwindow row hrow => ?_, hunique⟩
    rw [rows_insert hfresh (hknown.requests j req hreq)] at hrow
    exact hrevoked hwindow row hrow
  · intro token' hspent
    obtain ⟨hlength, hrevoked⟩ := hs.spent token' hspent
    refine ⟨hlength, fun row hrow => ?_⟩
    obtain ⟨x, hx⟩ := exists_mem_of_ne_nil _ hspent
    rw [rows_insert hfresh (hknown.exchanges token' x hx).1] at hrow
    exact hrevoked row hrow
  · intro token₁ token₂ heq h₁ h₂
    rcases halive token₁ h₁ with rfl | ⟨hold₁, hseen₁⟩
    · rcases halive token₂ h₂ with rfl | ⟨hold₂, hseen₂⟩
      · rfl
      · rw [hrootNew, hroots _ hseen₂] at heq
        exact absurd hold₂ (hroot token₂ heq.symm)
    · rcases halive token₂ h₂ with rfl | ⟨hold₂, hseen₂⟩
      · rw [hrootNew, hroots _ hseen₁] at heq
        exact absurd hold₁ (hroot token₁ heq)
      · rw [hroots _ hseen₁, hroots _ hseen₂] at heq
        exact hs.family token₁ token₂ heq hold₁ hold₂

/-- A request, new or gone on. If it is past its check, nobody else is with the token. -/
theorem Orderly.put (hs : Orderly s)
    (hpc : req.pc.holding = true → s.Alive req.token ∧ s.exchanges req.token = [] ∧
      (req.pc.inWindow = false → ∀ row, s.rows req.token = some row → row.revoked = true) ∧
      ∀ k req', s.requests k = some req' → req'.token = req.token → req'.pc.holding = true →
        k = j) : Orderly { s with requests := update s.requests j (some req) } where
  holder k req' hreq' hholding := by
    rcases requests_update hreq' with ⟨rfl, rfl⟩ | ⟨hk, hold⟩
    · obtain ⟨-, hnone, hrevoked, hunique⟩ := hpc hholding
      refine ⟨hnone, hrevoked, fun k' req'' hreq'' htoken hholding'' => ?_⟩
      rcases requests_update hreq'' with ⟨rfl, -⟩ | ⟨-, hold'⟩
      · rfl
      · exact hunique k' req'' hold' htoken hholding''
    · obtain ⟨hnone, hrevoked, hunique⟩ := hs.holder k req' hold hholding
      refine ⟨hnone, hrevoked, fun k' req'' hreq'' htoken hholding'' => ?_⟩
      rcases requests_update hreq'' with ⟨rfl, rfl⟩ | ⟨-, hold'⟩
      · -- the one that moved is the only one with its token
        exact absurd ((hpc hholding'').2.2.2 k req' hold htoken.symm hholding) hk
      · exact hunique k' req'' hold' htoken hholding''
  spent := hs.spent
  family token token' hroot h₁ h₂ :=
    hs.family token token' hroot (alive_put (fun h => (hpc h).1) h₁)
      (alive_put (fun h => (hpc h).1) h₂)

theorem Orderly.revokeRow (hs : Orderly s) (token : String) (returned : List String) :
    Orderly { s.revokeRow token with revokeReturned := returned } := by
  have halive : ∀ token',
      TokenState.Alive { s.revokeRow token with revokeReturned := returned } token' →
        s.Alive token' := by
    intro token' h
    rcases h with hlive | hrequest
    · refine .inl (not_revoked_iff.mp fun hrevoked => ?_)
      exact not_revoked_iff.mpr hlive (revoked_revokeRow_iff.mpr (.inr hrevoked))
    · exact .inr hrequest
  refine ⟨?_, ?_, ?_⟩
  · intro j req hreq hholding
    obtain ⟨hnone, hrevoked, hunique⟩ := hs.holder j req hreq hholding
    exact ⟨hnone, fun hwindow => revoked_revokeRow_iff.mpr (.inr (hrevoked hwindow)), hunique⟩
  · intro token' hspent
    obtain ⟨hlength, hrevoked⟩ := hs.spent token' hspent
    exact ⟨hlength, revoked_revokeRow_iff.mpr (.inr hrevoked)⟩
  · intro token₁ token₂ hroot h₁ h₂
    refine hs.family token₁ token₂ ?_ (halive token₁ h₁) (halive token₂ h₂)
    rw [← rootOf_revokeRow token token₁, ← rootOf_revokeRow token token₂]
    exact hroot

/-- The exchange: the request is done with its token before the new one appears. -/
theorem Orderly.exchange (hs : Orderly s) (hknown : Known s) {choice : TokenChoice}
    (hreq : s.requests j = some req) (hpc : req.pc = .save subject jwtExpiry)
    (hfresh : s.IsFresh choice.fresh) : Orderly (s.exchange j req subject jwtExpiry choice) := by
  have hholding : req.pc.holding = true := by rw [hpc]; rfl
  have hwindow : req.pc.inWindow = false := by rw [hpc]; rfl
  obtain ⟨hnone, hrevoked, hunique⟩ := hs.holder j req hreq hholding
  have hdone : Orderly (s.goto j req (.finished true)) := hs.put fun h => by cases h
  have hnotAlive : ¬ (s.goto j req (.finished true)).Alive req.token := by
    rintro (⟨row, hrow, hlive⟩ | ⟨k, req', hreq', htoken, hholding'⟩)
    · cases hlive.symm.trans (hrevoked hwindow row hrow)
    · rcases requests_update hreq' with ⟨-, rfl⟩ | ⟨hk, hold⟩
      · cases hholding'
      · exact hk (hunique k req' hold htoken hholding')
  -- with the exchange on record
  have hrecorded : Orderly { s.goto j req (.finished true) with
      exchanges := update s.exchanges req.token
        (⟨j, req.late⟩ :: s.exchanges req.token) } := by
    refine ⟨?_, ?_, hdone.family⟩
    · intro k req' hreq' hholding'
      obtain ⟨hnone', hrevoked', hunique'⟩ := hdone.holder k req' hreq' hholding'
      refine ⟨?_, hrevoked', hunique'⟩
      have ht : req'.token ≠ req.token := fun heq =>
        hnotAlive (.inr ⟨k, req', hreq', heq, hholding'⟩)
      show update s.exchanges req.token _ req'.token = []
      rw [update_of_ne ht]
      exact hnone'
    · intro token hspent
      by_cases ht : token = req.token
      · subst ht
        exact ⟨by simp [hnone], hrevoked hwindow⟩
      · simp only [update_of_ne ht] at hspent ⊢
        exact hdone.spent token hspent
  have hgoto : Known (s.goto j req (.finished true)) := hknown.goto hreq nofun
  have hknown' := hgoto.record (x := ⟨j, req.late⟩) (hknown.requests j req hreq)
    (hknown.notLate hreq hholding)
  refine hrecorded.insert hknown' hfresh ?_
  intro token' hroot halive
  have halive' : s.Alive token' := alive_put (fun h => by cases h) halive
  have heq : token' = req.token :=
    hs.family token' req.token hroot halive' (.inr ⟨j, req, hreq, rfl, hholding⟩)
  exact hnotAlive (heq ▸ halive)

theorem Orderly.step (hs : Orderly s) (hknown : Known s)
    (hallows : RefreshSchedule.Allows ⟨false, false⟩ s e) (h : s.step e = some s') :
    Orderly s' := by
  obtain ⟨token, subject, now, hfresh, rfl⟩ | ⟨j, token, pc, -, hidle, hpc, rfl⟩ |
    ⟨j, req, choice, rfl, hreq, hstep⟩ := step_cases h
  · refine hs.insert hknown hfresh fun token' hroot halive => ?_
    -- the root of a live token has been named before
    have hrow : ∃ row, s.rows token' = some row := by
      rcases halive with ⟨row, hrow, -⟩ | ⟨j, req, hreq, rfl, hholding⟩
      · exact ⟨row, hrow⟩
      · exact hknown.held j req hreq hholding
    obtain ⟨row, hrow⟩ := hrow
    have hseen := (hknown.rows token' row hrow).2
    simp only [rootOf, hrow, Option.map_some, Option.getD_some] at hroot
    exact hfresh (hroot ▸ hseen)
  · exact Orderly.put (s := { s with seen := token :: s.seen }) ⟨hs.holder, hs.spent, hs.family⟩
      fun hholding => by cases hpc.symm.trans hholding
  · obtain ⟨hfails, hoverlaps⟩ := hallows req hreq
    obtain ⟨pc, rfl, hpc⟩ | ⟨subject, jwtExpiry, hreqpc, hfailure, -⟩ |
      ⟨pc, returned, rfl, -, hpc⟩ | ⟨subject, jwtExpiry, hreqpc, hfresh, rfl⟩ :=
        stepRequest_cases hstep
    · refine hs.put fun hholding => ?_
      obtain ⟨hwindow', hcases⟩ := hpc hholding
      rcases hcases with hwindow | ⟨subject, hcheck, hfailure, haccepted⟩
      · have hheld := holding_of_inWindow hwindow
        obtain ⟨hnone, -, hunique⟩ := hs.holder j req hreq hheld
        refine ⟨.inr ⟨j, req, hreq, rfl, hheld⟩, hnone, fun hnot => ?_, hunique⟩
        cases hwindow'.symm.trans hnot
      · -- the row is live, so nobody has exchanged the token or is about to
        obtain ⟨row, hrow, hlive, -⟩ := rowAccepted_iff.mp haccepted
        refine ⟨.inl ⟨row, hrow, hlive⟩, ?_, fun hnot => ?_, ?_⟩
        · by_contra hspent
          cases hlive.symm.trans ((hs.spent _ hspent).2 row hrow)
        · cases hwindow'.symm.trans hnot
        · intro k req' hreq' htoken hholding'
          by_contra hk
          by_cases hwindow : req'.pc.inWindow = true
          · have := hoverlaps subject k req' hcheck hfailure haccepted hk hreq' htoken hwindow
            cases this
          · have hrevoked := (hs.holder k req' hreq' hholding').2.1 (by simpa using hwindow) row
              (by rw [htoken, hrow])
            cases hlive.symm.trans hrevoked
    · have := hfails subject jwtExpiry hreqpc hfailure
      cases this
    · refine (hs.revokeRow req.token returned).put fun hholding => ?_
      obtain ⟨hwindow, -⟩ := hpc hholding
      have hheld := holding_of_inWindow hwindow
      obtain ⟨hnone, -, hunique⟩ := hs.holder j req hreq hheld
      exact ⟨.inr ⟨j, req, hreq, rfl, hheld⟩, hnone,
        fun _ => revoked_revokeRow_iff.mpr (.inl rfl), hunique⟩
    · exact hs.exchange hknown hreq hreqpc hfresh

theorem Orderly.singleUse (hs : Orderly s) (hknown : Known s) : s.SingleUse where
  once token := by
    by_cases hspent : s.exchanges token = []
    · simp [hspent]
    · exact (hs.spent token hspent).1
  notLate token x hx := (hknown.exchanges token x hx).2
  oneLive token token' now hroot h₁ h₂ := by
    obtain ⟨row₁, hrow₁, hlive₁, -⟩ := rowAccepted_iff.mp h₁.1
    obtain ⟨row₂, hrow₂, hlive₂, -⟩ := rowAccepted_iff.mp h₂.1
    exact hs.family token token' hroot (.inl ⟨row₁, hrow₁, hlive₁⟩) (.inl ⟨row₂, hrow₂, hlive₂⟩)

/-! ## Where it fails -/

/-- The steps of a refresh of `j` from its start to its revocation, that one left out. -/
def refreshToRevocation (j : Nat) : List TokenEvent :=
  [.step j {}, .step j {}, .step j {}, .step j {}]

/-- Two refreshes present one token side by side. Both pass the check of the row. -/
def overlappingRefreshes : List TokenEvent :=
  [.login "first" "alice" 0, .refresh 0 "first", .refresh 1 "first"] ++
    refreshToRevocation 0 ++ refreshToRevocation 1 ++
    [.step 0 {}, .step 1 {}, .step 0 { fresh := "second" }, .step 1 { fresh := "third" }]

/-- The revocation inside a refresh fails, and the new token is stored all the same. -/
def unrevokedRefresh : List TokenEvent :=
  [.login "first" "alice" 0, .refresh 0 "first"] ++ refreshToRevocation 0 ++
    [.step 0 { failure := true }, .step 0 { fresh := "second" }]

/-- No database operation of the event fails. -/
def NoFailure : TokenEvent → Prop
  | .step _ choice => choice.failure = false
  | _ => True

instance (e : TokenEvent) : Decidable (NoFailure e) := by
  cases e <;> unfold NoFailure <;> infer_instance

def Alone (s : TokenState) : Prop := ∀ k, k ≠ 0 → s.requests k = none

/-- The event is of request `0`, or of none. -/
def OfFirst : TokenEvent → Prop
  | .login _ _ _ => True
  | .refresh j _ => j = 0
  | .revoke j _ => j = 0
  | .step j _ => j = 0

instance (e : TokenEvent) : Decidable (OfFirst e) := by
  cases e <;> unfold OfFirst <;> infer_instance

theorem Alone.step (hs : Alone s) (he : OfFirst e) (h : s.step e = some s') : Alone s' := by
  have hupdate : ∀ (request : Option TokenRequest) k, k ≠ 0 →
      update s.requests 0 request k = none := by
    intro request k hk
    rw [update_of_ne hk]
    exact hs k hk
  obtain ⟨token, subject, now, -, rfl⟩ | ⟨j, token, pc, hstart, -, -, rfl⟩ |
    ⟨j, req, choice, rfl, hreq, hstep⟩ := step_cases h
  · exact hs
  · obtain rfl : j = 0 := by
      rcases hstart with rfl | rfl <;> exact he
    exact hupdate _
  · obtain rfl : j = 0 := he
    obtain ⟨pc, rfl, -⟩ | ⟨_, _, -, -, rfl⟩ | ⟨pc, returned, rfl, -, -⟩ | ⟨_, _, -, -, rfl⟩ :=
      stepRequest_cases hstep
    all_goals exact hupdate _

/-- Both overlapping refreshes succeed. -/
theorem overlapping_exchanged_twice :
    ∃ s, run step {} overlappingRefreshes = some s ∧
      s.exchanges "first" = [⟨1, false⟩, ⟨0, false⟩] := by
  have hrun : (run step {} overlappingRefreshes).map (fun s => s.exchanges "first") =
      some [⟨1, false⟩, ⟨0, false⟩] := by decide
  exact Option.map_eq_some_iff.mp hrun

/-- After the failed revocation two tokens of the login can be exchanged. -/
theorem unrevoked_both_live :
    ∃ s, run step {} unrevokedRefresh = some s ∧
      s.rootOf "first" = s.rootOf "second" ∧ s.Exchangeable 0 "first" ∧
      s.Exchangeable 0 "second" := by
  have hrun : (run step {} unrevokedRefresh).map (fun s =>
      decide (s.rootOf "first" = s.rootOf "second" ∧ s.Exchangeable 0 "first" ∧
        s.Exchangeable 0 "second")) = some true := by decide
  obtain ⟨s, hs, hboth⟩ := Option.map_eq_some_iff.mp hrun
  exact ⟨s, hs, of_decide_eq_true hboth⟩

/-- Every refresh token is exchanged at most once, along every run a schedule lets
happen, exactly if the schedule excludes failing revocations inside a refresh and
refreshes of one token that overlap. -/
theorem refresh_singleUse_iff (w : RefreshSchedule) :
    (∀ events s, RunsUnder w.Allows TokenState.step {} events s → s.SingleUse) ↔
      w.revokeFails = false ∧ w.overlaps = false := by
  constructor
  · intro hall
    constructor
    · by_contra hfails
      rw [Bool.not_eq_false] at hfails
      obtain ⟨s, hs, hroot, hfirst, hsecond⟩ := unrevoked_both_live
      have hruns : RunsUnder w.Allows step {} unrevokedRefresh s := by
        refine RunsUnder.of_run (I := Alone) (P := OfFirst) ?_ (fun _ _ => rfl) (by decide) hs
        intro s e s' hs he hstep
        refine ⟨?_, hs.step he hstep⟩
        cases e with
        | step j choice =>
          obtain rfl : j = 0 := he
          intro req _
          refine ⟨fun _ _ _ _ => hfails, fun _ k req' _ _ _ hk hreq' => ?_⟩
          rw [hs k hk] at hreq'
          cases hreq'
        | _ => trivial
      have hsame := (hall _ s hruns).oneLive "first" "second" 0 hroot hfirst hsecond
      revert hsame
      decide
    · by_contra hoverlaps
      rw [Bool.not_eq_false] at hoverlaps
      obtain ⟨s, hs, htwice⟩ := overlapping_exchanged_twice
      have hruns : RunsUnder w.Allows step {} overlappingRefreshes s := by
        refine RunsUnder.of_run (I := fun _ => True) (P := NoFailure) ?_ trivial (by decide) hs
        intro s e s' _ he _
        refine ⟨?_, trivial⟩
        cases e with
        | step j choice =>
          intro req _
          refine ⟨fun _ _ _ hfailure => ?_, fun _ _ _ _ _ _ _ _ _ _ => hoverlaps⟩
          rw [show choice.failure = false from he] at hfailure
          cases hfailure
        | _ => trivial
      have honce := (hall _ s hruns).once "first"
      rw [htwice] at honce
      revert honce
      decide
  · rintro ⟨hfails, hoverlaps⟩ events s hruns
    obtain rfl : w = ⟨false, false⟩ := by
      cases w
      simp_all
    obtain ⟨hknown, horderly⟩ : Known s ∧ Orderly s :=
      RunsUnder.invariant (I := fun s => Known s ∧ Orderly s)
        (fun _ _ _ hs hallows hstep => ⟨hs.1.step hstep, hs.2.step hs.1 hallows hstep⟩)
        ⟨known_init, orderly_init⟩ hruns
    exact horderly.singleUse hknown

/-- Two refreshes of one token that overlap between the check and the revocation: the
token is exchanged by both. -/
theorem refresh_token_used_twice :
    ∃ s, run TokenState.step {} overlappingRefreshes = some s ∧
      s.exchanges "first" = [⟨1, false⟩, ⟨0, false⟩] ∧ ¬ s.SingleUse := by
  obtain ⟨s, hs, htwice⟩ := overlapping_exchanged_twice
  refine ⟨s, hs, htwice, fun hsingle => ?_⟩
  have honce := hsingle.once "first"
  rw [htwice] at honce
  revert honce
  decide

end TokenState

end PrivacySuite.Server
