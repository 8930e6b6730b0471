import PrivacySuite.Concurrency.Runs
import PrivacySuite.Server.OAuthSession
import PrivacySuite.Server.RefreshTokens

/-!
# Bans and the tokens that are issued

The three endpoints that issue tokens, `verifyAndIssueTokens` and `handleRefresh`
(`internal/server/auth.go`) and `handleOAuthToken` (`internal/server/oauth.go`), with the
completions that mint authorization codes and the ban in `updateRBACUser`
(`internal/server/admin_rbac_user.go`). Requests run one after another, and a failure
record says which look-ups and writes of a request fail.

The endpoints treat a user look-up differently: the wallet sign-in refuses when it
fails, the refresh goes on without its ban check, and the code exchange looks nobody up.
-/

namespace PrivacySuite.Server

open Go Concurrency Function

def accessTokenTTL : Int := 5 * minute

structure LoginConfig where
  oauth : OAuthConfig
  autoKYCPrivado : Bool := false

/-- The columns of `users` that issuing tokens reads. -/
structure UserRow where
  banned : Bool := false
  kyc : Bool := false

structure AccessToken where
  subject : String
  kyc : Bool
  expiresAt : Int
  deriving DecidableEq

structure RefreshRow where
  subject : String
  expiresAt : Int
  revoked : Bool := false

/-- The users, the tokens and the OAuth sessions. `bannedSince` is history: when the
standing ban of a user was committed. -/
structure AuthState where
  users : String → Option UserRow := fun _ => none
  accessTokens : List AccessToken := []
  refreshClaims : String → Option TokenClaims := fun _ => none
  refreshRows : String → Option RefreshRow := fun _ => none
  sessions : String → Option OAuthSession := fun _ => none
  codeIndex : String → Option String := fun _ => none
  now : Int := 0
  bannedSince : String → Option Int := fun _ => none

/-- The operations of a request that fail. `refused` ends a request before it looks
anything up. -/
structure AuthFailures where
  refused : Bool := false
  lookup : Bool := false
  setCode : Bool := false
  issue : Bool := false
  revoke : Bool := false
  save : Bool := false
  update : Bool := false

/-- A request. The tokens, codes and session ids it makes come with it. -/
inductive AuthRequest where
  | signIn (verified : Option String) (fresh : String)
  | authorize (sessionID clientID redirectURI authSessionID initiatorDID : String)
  | callback (sessionID authSessionID : String) (verified : Option String) (code : String)
  | silent (sessionID caller code : String)
  | token (req : OAuthTokenRequest) (fresh : String)
  | refresh (presented fresh : String)
  | setBanned (userDID : String) (banned : Bool)
  | tick (d : Nat)

/-- The users of the access and the refresh token in a successful answer. -/
structure IssuedTokens where
  accessUser : String
  refreshUser : String
  deriving DecidableEq

namespace AuthState

variable (cfg : LoginConfig) (s : AuthState) (f : AuthFailures)

def isBanned (userDID : String) : Bool := (s.users userDID).any (·.banned)

/-- `EnsureUserExists`, when it does not fail. -/
def ensureUserExists (userDID : String) (kyc : Bool) : AuthState × UserRow :=
  match s.users userDID with
  | some row => (s, row)
  | none => ({ s with users := Function.update s.users userDID (some { kyc }) }, { kyc })

/-- `IssueAccessToken`, `IssueRefreshToken` and `SaveRefreshToken`. The tokens go out only
if all of them succeed. -/
def issueTokens (userDID : String) (kyc : Bool) (fresh : String) :
    AuthState × Option IssuedTokens :=
  if f.issue then (s, none)
  else if f.save then (s, none)
  else
    ({ s with
      accessTokens := ⟨userDID, kyc, s.now + accessTokenTTL⟩ :: s.accessTokens
      refreshClaims := Function.update s.refreshClaims fresh
        (some ⟨userDID, s.now + refreshTokenTTL⟩)
      refreshRows := Function.update s.refreshRows fresh
        (some { subject := userDID, expiresAt := s.now + refreshTokenTTL }) },
      some ⟨userDID, userDID⟩)

/-- A failed look-up refuses. -/
def verifyAndIssueTokens (verified : Option String) (fresh : String) :
    AuthState × Option IssuedTokens :=
  match verified with
  | none => (s, none)
  | some userDID =>
      if f.lookup then (s, none)
      else if (s.ensureUserExists userDID cfg.autoKYCPrivado).2.banned then
        ((s.ensureUserExists userDID cfg.autoKYCPrivado).1, none)
      else
        (s.ensureUserExists userDID cfg.autoKYCPrivado).1.issueTokens f userDID
          (s.ensureUserExists userDID cfg.autoKYCPrivado).2.kyc fresh

def getSession (sessionID : String) : Option OAuthSession :=
  (s.sessions sessionID).filter fun session => !decide (session.expiresAt < s.now)

def setCode (sessionID : String) (session : OAuthSession) (code userDID : String) (kyc : Bool) :
    AuthState :=
  if f.setCode then s
  else
    { s with
      sessions := Function.update s.sessions sessionID
        (some (session.setCode code userDID kyc s.now))
      codeIndex := Function.update s.codeIndex code (some sessionID) }

/-- A failed look-up skips the ban check. -/
def handleOAuthCallback (sessionID authSessionID : String) (verified : Option String)
    (code : String) : AuthState :=
  match s.getSession sessionID with
  | none => s
  | some session =>
      match callbackUser session authSessionID verified with
      | none => s
      | some userDID =>
          if f.lookup then s.setCode f sessionID session code userDID cfg.autoKYCPrivado
          else if (s.ensureUserExists userDID cfg.autoKYCPrivado).2.banned then
            (s.ensureUserExists userDID cfg.autoKYCPrivado).1
          else
            (s.ensureUserExists userDID cfg.autoKYCPrivado).1.setCode f sessionID session code
              userDID (s.ensureUserExists userDID cfg.autoKYCPrivado).2.kyc

/-- `JWTAuthMiddleware`: the caller has an access token that is still valid. -/
def authenticated (caller : String) : Bool :=
  s.accessTokens.any fun token => token.subject == caller && decide (s.now < token.expiresAt)

/-- The look-up is for the KYC flag only. -/
def handleOAuthSilentComplete (sessionID caller code : String) : AuthState :=
  match s.getSession sessionID with
  | none => s
  | some session =>
      if session.code != "" || !s.authenticated caller then s
      else
        match silentUser cfg.oauth session caller with
        | none => s
        | some userDID =>
            if f.lookup then s.setCode f sessionID session code userDID cfg.autoKYCPrivado
            else
              (s.ensureUserExists userDID cfg.autoKYCPrivado).1.setCode f sessionID session code
                userDID (s.ensureUserExists userDID cfg.autoKYCPrivado).2.kyc

/-- The session a token request redeems its code from, up to the failures after. -/
def redeemable (req : OAuthTokenRequest) : Option (String × OAuthSession) :=
  if !req.wellFormed then none
  else
    ((s.codeIndex req.code).bind fun sessionID =>
      (s.getSession sessionID).map fun session => (sessionID, session)).filter fun found =>
        req.matchesSession cfg.oauth found.2 && !decide (found.2.codeExpires < s.now) &&
          !found.2.codeUsed

/-- The token exchange looks no user up. -/
def handleOAuthToken (req : OAuthTokenRequest) (fresh : String) : AuthState × Option IssuedTokens :=
  match s.redeemable cfg req with
  | none => (s, none)
  | some (sessionID, session) =>
      { s with
        sessions := Function.update s.sessions sessionID (some session.markUsed) }.issueTokens f
        session.userDID session.kyc fresh

/-- The subject of a refresh token that validates and whose row is in order. -/
def refreshable (presented : String) : Option String :=
  match s.refreshClaims presented, s.refreshRows presented with
  | some claims, some row =>
      if s.now < claims.expiresAt && !row.revoked && !decide (row.expiresAt < s.now) then
        some claims.subject
      else none
  | _, _ => none

def revokeRefreshToken (presented : String) : AuthState :=
  if f.revoke then s
  else
    { s with
      refreshRows := Function.update s.refreshRows presented
        ((s.refreshRows presented).map fun row => { row with revoked := true }) }

/-- The rest of `handleRefresh` after the ban check. -/
def rotate (presented subject : String) (kyc : Bool) (fresh : String) :
    AuthState × Option IssuedTokens :=
  if f.issue then (s, none)
  else (s.revokeRefreshToken f presented).issueTokens f subject kyc fresh

/-- A failed look-up skips the ban check. -/
def handleRefresh (presented fresh : String) : AuthState × Option IssuedTokens :=
  match s.refreshable presented with
  | none => (s, none)
  | some subject =>
      if f.lookup then s.rotate f presented subject false fresh
      else if (s.ensureUserExists subject false).2.banned then
        ((s.ensureUserExists subject false).1.revokeRefreshToken f presented, none)
      else
        (s.ensureUserExists subject false).1.rotate f presented subject
          (s.ensureUserExists subject false).2.kyc fresh

def revokeRefreshTokensBySubject (userDID : String) : AuthState :=
  if f.revoke then s
  else
    { s with
      refreshRows := fun token => (s.refreshRows token).map fun row =>
        if row.subject = userDID then { row with revoked := true } else row }

/-- `updateRBACUser` with a `banned` field. -/
def setBanned (userDID : String) (banned : Bool) : AuthState :=
  match s.users userDID with
  | none => s
  | some row =>
      if f.update then s
      else if banned then
        { s with
          users := Function.update s.users userDID (some { row with banned := true })
          bannedSince := Function.update s.bannedSince userDID
            (some ((s.bannedSince userDID).getD s.now)) }.revokeRefreshTokensBySubject f userDID
      else
        { s with
          users := Function.update s.users userDID (some { row with banned := false })
          bannedSince := Function.update s.bannedSince userDID none }

/-- One request: the state after it, and the tokens it issues. -/
def handle : AuthRequest → AuthState × Option IssuedTokens
  | .signIn verified fresh =>
      if f.refused then (s, none) else s.verifyAndIssueTokens cfg f verified fresh
  | .authorize sessionID clientID redirectURI authSessionID initiatorDID =>
      if f.refused then (s, none)
      else
        ({ s with
          sessions := Function.update s.sessions sessionID
            (some { clientID, redirectURI, authSessionID, initiatorDID,
                    expiresAt := s.now + oauthSessionTTL }) }, none)
  | .callback sessionID authSessionID verified code =>
      if f.refused then (s, none)
      else (s.handleOAuthCallback cfg f sessionID authSessionID verified code, none)
  | .silent sessionID caller code =>
      if f.refused then (s, none)
      else (s.handleOAuthSilentComplete cfg f sessionID caller code, none)
  | .token req fresh => if f.refused then (s, none) else s.handleOAuthToken cfg f req fresh
  | .refresh presented fresh => if f.refused then (s, none) else s.handleRefresh f presented fresh
  | .setBanned userDID banned =>
      if f.refused then (s, none) else (s.setBanned f userDID banned, none)
  | .tick d => ({ s with now := s.now + d }, none)

/-- A step of a run: a request with what fails in it. -/
def step (e : AuthRequest × AuthFailures) : Option AuthState := some (s.handle cfg e.2 e.1).1

/-! ## The property and the condition -/

/-- The request issues no token for a user who is banned when it starts. -/
def NoTokenForBanned (e : AuthRequest × AuthFailures) : Prop :=
  ∀ issued, (s.handle cfg e.2 e.1).2 = some issued →
    s.isBanned issued.accessUser = false ∧ s.isBanned issued.refreshUser = false

/-- Whose tokens a request is about to issue, the ban check left aside. -/
def grantee (e : AuthRequest × AuthFailures) : Option String :=
  if e.2.refused || e.2.issue || e.2.save then none
  else
    match e.1 with
    | .signIn verified _ => if e.2.lookup then none else verified
    | .token req _ => (s.redeemable cfg req).map fun found => found.2.userDID
    | .refresh presented _ => s.refreshable presented
    | _ => none

/-- The request checks the ban of that user: a sign-in does, a refresh does when its
look-up succeeds, and a code exchange does not. -/
def checksBan (e : AuthRequest × AuthFailures) : Bool :=
  match e.1 with
  | .token _ _ => false
  | .refresh _ _ => !e.2.lookup
  | _ => true

/-- Every user the request is about to issue tokens for is in good standing, or checked. -/
def Covered (e : AuthRequest × AuthFailures) : Prop :=
  ∀ userDID, s.grantee cfg e = some userDID → s.isBanned userDID = true → checksBan e = true

/-- The access tokens of a banned user run out within one lifetime of the ban. -/
def BannedTokensExpire : Prop :=
  ∀ userDID since, s.bannedSince userDID = some since → ∀ token ∈ s.accessTokens,
    token.subject = userDID → token.expiresAt ≤ since + accessTokenTTL

variable {cfg s f}

variable {fresh : String} {issued : IssuedTokens} {answer : AuthState × Option IssuedTokens}

variable {userDID presented : String} {kyc : Bool} {s₁ s₂ s₃ s' : AuthState}

theorem issueTokens_some :
    (s.issueTokens f userDID kyc fresh).2 = some issued ↔
      f.issue = false ∧ f.save = false ∧ issued = ⟨userDID, userDID⟩ := by
  unfold issueTokens
  split
  · rename_i hissue
    simp [hissue]
  · split
    · rename_i hsave
      simp [hsave]
    · rename_i hissue hsave
      simp [hissue, hsave, eq_comm]

theorem ensureUserExists_banned (userDID : String) (kyc : Bool) :
    (s.ensureUserExists userDID kyc).2.banned = s.isBanned userDID := by
  unfold ensureUserExists isBanned
  cases s.users userDID with
  | none => rfl
  | some row => rfl

theorem verifyAndIssueTokens_some {verified : Option String} :
    (s.verifyAndIssueTokens cfg f verified fresh).2 = some issued ↔
      ∃ userDID, verified = some userDID ∧ f.lookup = false ∧ s.isBanned userDID = false ∧
        f.issue = false ∧ f.save = false ∧ issued = ⟨userDID, userDID⟩ := by
  unfold verifyAndIssueTokens
  cases verified with
  | none => simp
  | some userDID =>
    simp only [ensureUserExists_banned]
    split
    · rename_i hlookup
      simp [hlookup]
    · split
      · rename_i hbanned
        simp [hbanned]
      · rename_i hlookup hbanned
        simp [issueTokens_some, hlookup, hbanned]

theorem handleOAuthToken_some {req : OAuthTokenRequest} :
    (s.handleOAuthToken cfg f req fresh).2 = some issued ↔
      ∃ found, s.redeemable cfg req = some found ∧ f.issue = false ∧ f.save = false ∧
        issued = ⟨found.2.userDID, found.2.userDID⟩ := by
  unfold handleOAuthToken
  split
  · rename_i hnone
    simp [hnone]
  · rename_i sessionID session hsome
    simp [hsome, issueTokens_some]

theorem rotate_some {subject : String} :
    (s.rotate f presented subject kyc fresh).2 = some issued ↔
      f.issue = false ∧ f.save = false ∧ issued = ⟨subject, subject⟩ := by
  unfold rotate
  split
  · rename_i hissue
    simp [hissue]
  · exact issueTokens_some

theorem handleRefresh_some :
    (s.handleRefresh f presented fresh).2 = some issued ↔
      ∃ subject, s.refreshable presented = some subject ∧
        (f.lookup = true ∨ s.isBanned subject = false) ∧ f.issue = false ∧ f.save = false ∧
        issued = ⟨subject, subject⟩ := by
  unfold handleRefresh
  split
  · rename_i hnone
    simp [hnone]
  · rename_i subject hsome
    simp only [ensureUserExists_banned]
    split
    · rename_i hlookup
      simp [hsome, rotate_some, hlookup]
    · split
      · rename_i hlookup hbanned
        simp [hsome, hlookup, hbanned]
      · rename_i hlookup hbanned
        simp [hsome, rotate_some, hlookup, hbanned]

/-- What a request issues: tokens for its grantee, unless it checks the ban and the
grantee is banned. -/
theorem handle_some {e : AuthRequest × AuthFailures} :
    (s.handle cfg e.2 e.1).2 = some issued ↔
      ∃ userDID, s.grantee cfg e = some userDID ∧
        (s.isBanned userDID = true → checksBan e = false) ∧ issued = ⟨userDID, userDID⟩ := by
  obtain ⟨q, f⟩ := e
  by_cases hrefused : f.refused = true
  · cases q <;> simp [handle, grantee, hrefused]
  rw [Bool.not_eq_true] at hrefused
  cases q with
  | signIn verified fresh =>
    simp only [handle, hrefused, Bool.false_eq_true, if_false, verifyAndIssueTokens_some, grantee,
      checksBan]
    cases f.issue <;> cases f.save <;> cases f.lookup <;> simp
  | token req fresh =>
    simp only [handle, hrefused, Bool.false_eq_true, if_false, handleOAuthToken_some, grantee,
      checksBan]
    cases f.issue <;> cases f.save <;> simp
  | refresh presented fresh =>
    simp only [handle, hrefused, Bool.false_eq_true, if_false, handleRefresh_some, grantee,
      checksBan]
    cases f.issue <;> cases f.save <;> cases f.lookup <;> simp
  | authorize | callback | silent | setBanned => simp [handle, grantee, hrefused]
  | tick d => simp [handle, grantee]

/-- In every state, a request issues no token for a banned user exactly if it is covered. -/
theorem noTokenForBanned_iff (e : AuthRequest × AuthFailures) :
    s.NoTokenForBanned cfg e ↔ s.Covered cfg e := by
  constructor
  · intro hno userDID hgrantee hbanned
    by_contra hunchecked
    have hissued := handle_some.mpr ⟨userDID, hgrantee, fun _ => by simpa using hunchecked, rfl⟩
    rw [(hno _ hissued).1] at hbanned
    cases hbanned
  · intro hcovered issued hissued
    obtain ⟨userDID, hgrantee, hskips, rfl⟩ := handle_some.mp hissued
    have hstanding : s.isBanned userDID = false := by
      by_contra hbanned
      rw [Bool.not_eq_false] at hbanned
      have hchecks := hcovered userDID hgrantee hbanned
      rw [hskips hbanned] at hchecks
      cases hchecks
    exact ⟨hstanding, hstanding⟩

/-! ## The lifetime after a ban -/

structure KeepsBans (s s' : AuthState) : Prop where
  now : s'.now = s.now
  bannedSince : s'.bannedSince = s.bannedSince
  isBanned : ∀ userDID, s'.isBanned userDID = s.isBanned userDID

theorem KeepsBans.trans (h : KeepsBans s₁ s₂) (h' : KeepsBans s₂ s₃) : KeepsBans s₁ s₃ where
  now := h'.now.trans h.now
  bannedSince := h'.bannedSince.trans h.bannedSince
  isBanned userDID := (h'.isBanned userDID).trans (h.isBanned userDID)

/-- The bans, the clock and the access tokens are as before. -/
structure Quiet (s s' : AuthState) : Prop extends KeepsBans s s' where
  accessTokens : s'.accessTokens = s.accessTokens

theorem Quiet.refl (s : AuthState) : Quiet s s := ⟨⟨rfl, rfl, fun _ => rfl⟩, rfl⟩

theorem Quiet.trans (h : Quiet s₁ s₂) (h' : Quiet s₂ s₃) : Quiet s₁ s₃ :=
  ⟨h.toKeepsBans.trans h'.toKeepsBans, h'.accessTokens.trans h.accessTokens⟩

/-- A user the look-up creates is in good standing. -/
theorem quiet_ensureUserExists (s : AuthState) (userDID : String) (kyc : Bool) :
    Quiet s (s.ensureUserExists userDID kyc).1 := by
  unfold ensureUserExists
  cases hrow : s.users userDID with
  | some row => exact Quiet.refl s
  | none =>
    refine ⟨⟨rfl, rfl, fun userDID' => ?_⟩, rfl⟩
    by_cases heq : userDID' = userDID
    · subst heq
      simp [isBanned, hrow]
    · simp [isBanned, heq]

theorem quiet_setCode (s : AuthState) (sessionID : String) (session : OAuthSession)
    (code userDID : String) (kyc : Bool) :
    Quiet s (s.setCode f sessionID session code userDID kyc) := by
  unfold setCode
  split
  · exact Quiet.refl s
  · exact ⟨⟨rfl, rfl, fun _ => rfl⟩, rfl⟩

theorem quiet_revokeRefreshToken (s : AuthState) (presented : String) :
    Quiet s (s.revokeRefreshToken f presented) := by
  unfold revokeRefreshToken
  split
  · exact Quiet.refl s
  · exact ⟨⟨rfl, rfl, fun _ => rfl⟩, rfl⟩

theorem quiet_handleOAuthCallback (s : AuthState) (sessionID authSessionID : String)
    (verified : Option String) (code : String) :
    Quiet s (s.handleOAuthCallback cfg f sessionID authSessionID verified code) := by
  unfold handleOAuthCallback
  split
  · exact Quiet.refl s
  · split
    · exact Quiet.refl s
    · split
      · exact quiet_setCode ..
      · split
        · exact quiet_ensureUserExists ..
        · exact (quiet_ensureUserExists ..).trans (quiet_setCode ..)

theorem quiet_handleOAuthSilentComplete (s : AuthState) (sessionID caller code : String) :
    Quiet s (s.handleOAuthSilentComplete cfg f sessionID caller code) := by
  unfold handleOAuthSilentComplete
  split
  · exact Quiet.refl s
  · split
    · exact Quiet.refl s
    · split
      · exact Quiet.refl s
      · split
        · exact quiet_setCode ..
        · exact (quiet_ensureUserExists ..).trans (quiet_setCode ..)

/-- An answer with its state: the bans are as before, and the access tokens too but for
the one in the answer. -/
def Answers (s : AuthState) (answer : AuthState × Option IssuedTokens) : Prop :=
  KeepsBans s answer.1 ∧ (answer.1.accessTokens = s.accessTokens ∨
    ∃ issued kyc, answer.2 = some issued ∧
      answer.1.accessTokens = ⟨issued.accessUser, kyc, s.now + accessTokenTTL⟩ :: s.accessTokens)

theorem Quiet.answers (h : Quiet s s') : Answers s (s', none) :=
  ⟨h.toKeepsBans, .inl h.accessTokens⟩

theorem Quiet.trans_answers (h : Quiet s s') (h' : Answers s' answer) : Answers s answer := by
  obtain ⟨hkeeps, htokens⟩ := h'
  refine ⟨h.toKeepsBans.trans hkeeps, ?_⟩
  rw [h.accessTokens, h.now] at htokens
  exact htokens

theorem answers_issueTokens (s : AuthState) (userDID : String) (kyc : Bool) (fresh : String) :
    Answers s (s.issueTokens f userDID kyc fresh) := by
  unfold issueTokens
  split
  · exact (Quiet.refl s).answers
  · split
    · exact (Quiet.refl s).answers
    · exact ⟨⟨rfl, rfl, fun _ => rfl⟩, .inr ⟨_, kyc, rfl, rfl⟩⟩

theorem answers_verifyAndIssueTokens (s : AuthState) (verified : Option String) (fresh : String) :
    Answers s (s.verifyAndIssueTokens cfg f verified fresh) := by
  unfold verifyAndIssueTokens
  split
  · exact (Quiet.refl s).answers
  · split
    · exact (Quiet.refl s).answers
    · split
      · exact (quiet_ensureUserExists ..).answers
      · exact (quiet_ensureUserExists ..).trans_answers (answers_issueTokens ..)

theorem answers_handleOAuthToken (s : AuthState) (req : OAuthTokenRequest) (fresh : String) :
    Answers s (s.handleOAuthToken cfg f req fresh) := by
  unfold handleOAuthToken
  split
  · exact (Quiet.refl s).answers
  · rename_i sessionID session _
    have hmark : Quiet s { s with
        sessions := update s.sessions sessionID (some session.markUsed) } :=
      ⟨⟨rfl, rfl, fun _ => rfl⟩, rfl⟩
    exact hmark.trans_answers (answers_issueTokens ..)

theorem answers_rotate (s : AuthState) (presented subject : String) (kyc : Bool) (fresh : String) :
    Answers s (s.rotate f presented subject kyc fresh) := by
  unfold rotate
  split
  · exact (Quiet.refl s).answers
  · exact (quiet_revokeRefreshToken ..).trans_answers (answers_issueTokens ..)

theorem answers_handleRefresh (s : AuthState) (presented fresh : String) :
    Answers s (s.handleRefresh f presented fresh) := by
  unfold handleRefresh
  split
  · exact (Quiet.refl s).answers
  · split
    · exact answers_rotate ..
    · split
      · exact ((quiet_ensureUserExists ..).trans (quiet_revokeRefreshToken ..)).answers
      · exact (quiet_ensureUserExists ..).trans_answers (answers_rotate ..)

/-- The invariant: no access token outlives its lifetime, the history names the bans, and
the tokens of the banned run out in time. -/
structure Enforced (s : AuthState) : Prop where
  lifetime : ∀ token ∈ s.accessTokens, token.expiresAt ≤ s.now + accessTokenTTL
  standing : ∀ userDID, s.bannedSince userDID ≠ none → s.isBanned userDID = true
  expire : s.BannedTokensExpire

theorem enforced_init : Enforced {} where
  lifetime token h := by cases h
  standing userDID h := absurd rfl h
  expire userDID since h := by cases h

/-- An answer that issues nothing to a banned user keeps the invariant. -/
theorem Enforced.of_answers (hs : Enforced s) (h : Answers s answer)
    (hno : ∀ issued, answer.2 = some issued → s.isBanned issued.accessUser = false) :
    Enforced answer.1 := by
  obtain ⟨⟨hnow, hsince, hbanned⟩, htokens⟩ := h
  have hmem : ∀ token ∈ answer.1.accessTokens, token ∈ s.accessTokens ∨
      (token.expiresAt = s.now + accessTokenTTL ∧ s.isBanned token.subject = false) := by
    intro token htoken
    rcases htokens with htokens | ⟨issued, kyc, hissued, htokens⟩
    · exact .inl (htokens ▸ htoken)
    · rw [htokens] at htoken
      rcases List.mem_cons.mp htoken with rfl | hold
      · exact .inr ⟨rfl, hno issued hissued⟩
      · exact .inl hold
  refine ⟨?_, ?_, ?_⟩
  · intro token htoken
    rw [hnow]
    rcases hmem token htoken with hold | ⟨hexpires, -⟩
    · exact hs.lifetime token hold
    · exact hexpires.le
  · intro userDID h
    rw [hbanned]
    exact hs.standing userDID (hsince ▸ h)
  · intro userDID since h token htoken hsubject
    rw [hsince] at h
    rcases hmem token htoken with hold | ⟨-, hgood⟩
    · exact hs.expire userDID since h token hold hsubject
    · have hstanding := hs.standing userDID (by simp [h])
      rw [← hsubject, hgood] at hstanding
      cases hstanding

/-- A new standing of one user, with a ban that leaves their tokens no more than a lifetime. -/
theorem Enforced.setStanding (hs : Enforced s) {row : UserRow} {since : Option Int}
    (hrow : since ≠ none → row.banned = true)
    (hsince : ∀ t, since = some t → ∀ token ∈ s.accessTokens, token.subject = userDID →
      token.expiresAt ≤ t + accessTokenTTL) :
    Enforced { s with
      users := update s.users userDID (some row)
      bannedSince := update s.bannedSince userDID since } := by
  refine ⟨hs.lifetime, fun userDID' h => ?_, fun userDID' t h => ?_⟩
  · unfold isBanned
    by_cases heq : userDID' = userDID
    · subst heq
      simp only [update_self] at h ⊢
      exact hrow h
    · simp only [update_of_ne heq] at h ⊢
      exact hs.standing userDID' h
  · by_cases heq : userDID' = userDID
    · subst heq
      simp only [update_self] at h
      exact hsince t h
    · simp only [update_of_ne heq] at h
      exact hs.expire userDID' t h

/-- A ban, or its end. The tokens issued so far are younger than one lifetime. -/
theorem Enforced.setBanned (hs : Enforced s) (userDID : String) (banned : Bool) :
    Enforced (s.setBanned f userDID banned) := by
  have hrevoked : ∀ s₁ : AuthState, Quiet s₁ (s₁.revokeRefreshTokensBySubject f userDID) := by
    intro s₁
    unfold revokeRefreshTokensBySubject
    split
    · exact Quiet.refl s₁
    · exact ⟨⟨rfl, rfl, fun _ => rfl⟩, rfl⟩
  unfold AuthState.setBanned
  split
  · exact hs
  · split
    · exact hs
    · split
      · refine (hs.setStanding (fun _ => rfl) ?_).of_answers (hrevoked _).answers
          (fun _ h => by cases h)
        intro t h token htoken hsubject
        cases hold : s.bannedSince userDID with
        | none =>
          rw [hold] at h
          rw [← Option.some.inj h]
          exact hs.lifetime token htoken
        | some since =>
          rw [hold] at h
          exact hs.expire userDID t (hold.trans h) token htoken hsubject
      · exact hs.setStanding (fun h => absurd rfl h) (fun _ h => by cases h)

theorem Answers.unlessRefused (h : Answers s answer) :
    Answers s (if f.refused then (s, none) else answer) := by
  split
  · exact (Quiet.refl s).answers
  · exact h

/-- Every request but a ban and the clock answers; the rest is in `of_answers`. -/
theorem Enforced.step (hs : Enforced s) {e : AuthRequest × AuthFailures} {s' : AuthState}
    (hno : s.NoTokenForBanned cfg e) (h : s.step cfg e = some s') : Enforced s' := by
  obtain ⟨q, f⟩ := e
  obtain rfl : (s.handle cfg f q).1 = s' := Option.some.inj h
  have hanswers : Answers s (s.handle cfg f q) → Enforced (s.handle cfg f q).1 := fun h =>
    hs.of_answers h fun issued hissued => (hno issued hissued).1
  cases q with
  | signIn verified fresh => exact hanswers (answers_verifyAndIssueTokens ..).unlessRefused
  | token req fresh => exact hanswers (answers_handleOAuthToken ..).unlessRefused
  | refresh presented fresh => exact hanswers (answers_handleRefresh ..).unlessRefused
  | callback sessionID authSessionID verified code =>
    exact hanswers (quiet_handleOAuthCallback ..).answers.unlessRefused
  | silent sessionID caller code =>
    exact hanswers (quiet_handleOAuthSilentComplete ..).answers.unlessRefused
  | authorize sessionID clientID redirectURI authSessionID initiatorDID =>
    have hcreated : Quiet s { s with
        sessions := update s.sessions sessionID
          (some { clientID, redirectURI, authSessionID, initiatorDID,
                  expiresAt := s.now + oauthSessionTTL }) } := ⟨⟨rfl, rfl, fun _ => rfl⟩, rfl⟩
    exact hanswers hcreated.answers.unlessRefused
  | setBanned userDID banned =>
    show Enforced (if f.refused then (s, none) else (s.setBanned f userDID banned, none)).1
    split
    · exact hs
    · exact hs.setBanned userDID banned
  | tick d =>
    refine ⟨fun token htoken => ?_, hs.standing, hs.expire⟩
    have := hs.lifetime token htoken
    show token.expiresAt ≤ s.now + d + accessTokenTTL
    omega

/-- A request issues no token for a user who is banned when it starts exactly if it is
covered: the user it is about to issue tokens for is in good standing, or the request is
a sign-in, or a refresh whose look-up succeeds. Along every run in which no request
issues one, the access tokens of a banned user run out within a lifetime of the ban. -/
theorem banned_user_tokens_iff (cfg : LoginConfig) :
    (∀ s e, NoTokenForBanned cfg s e ↔ Covered cfg s e) ∧
    ∀ events s, RunsUnder (NoTokenForBanned cfg) (AuthState.step cfg) {} events s →
      s.BannedTokensExpire := by
  refine ⟨fun s e => noTokenForBanned_iff e, fun events s hrun => ?_⟩
  have henforced : Enforced s :=
    RunsUnder.invariant (I := Enforced) (fun _ _ _ hs hno h => hs.step hno h) enforced_init hrun
  exact henforced.expire

/-- Alice signs in and completes an OAuth session, and is banned before the code is
exchanged. -/
def banBeforeExchange : List (AuthRequest × AuthFailures) :=
  [(.signIn (some "alice") "r1", {}),
    (.authorize "session" "explorer" "https://app" "auth" "", {}),
    (.callback "session" "auth" (some "alice") "c0", {}),
    (.setBanned "alice" true, {})]

/-- The code exchange then issues tokens for the banned user. -/
theorem banned_user_exchanges_code :
    ∃ s, run (AuthState.step ⟨⟨fun _ => none, fun _ _ => false⟩, false⟩) {} banBeforeExchange =
      some s ∧ s.isBanned "alice" = true ∧
      (s.handle ⟨⟨fun _ => none, fun _ _ => false⟩, false⟩ {}
        (.token ⟨"authorization_code", "c0", "https://app", "explorer", "", none⟩ "r2")).2 =
        some ⟨"alice", "alice"⟩ := by
  have hrun : (run (AuthState.step ⟨⟨fun _ => none, fun _ _ => false⟩, false⟩) {}
      banBeforeExchange).map (fun s => decide (s.isBanned "alice" = true ∧
        (s.handle ⟨⟨fun _ => none, fun _ _ => false⟩, false⟩ {}
          (.token ⟨"authorization_code", "c0", "https://app", "explorer", "", none⟩ "r2")).2 =
          some ⟨"alice", "alice"⟩)) = some true := by decide
  obtain ⟨s, hs, hissued⟩ := Option.map_eq_some_iff.mp hrun
  exact ⟨s, hs, of_decide_eq_true hissued⟩

end AuthState

end PrivacySuite.Server
