import PrivacySuite.Go.Strings
import PrivacySuite.Go.Values

/-!
# OAuth sessions and authorization codes

`types.OAuthSession` and the checks that `handleOAuthCallback`,
`handleOAuthSilentComplete` and `handleOAuthToken` (`internal/server/oauth.go`) make on
one. They are the same whichever store holds the session; where the stores differ is
in how many atomic steps a handler takes, which `Server.OAuthMemory` and
`Server.OAuthRedis` model.

A workload is the traffic on one OAuth session: any number of requests, indexed by an
arbitrary type, and the code each completion would mint. The history records what
happened, and `CodeHistory.Safe` is what an authorization code promises.
-/

namespace PrivacySuite.Server

open Go

/-- `OAuthCodeTTL` of the server and `oauthCodeTTL` of the Redis store. -/
def oauthCodeTTL : Int := 5 * minute

def oauthSessionTTL : Int := 10 * minute

/-- `types.OAuthSession`. -/
structure OAuthSession where
  clientID : String
  redirectURI : String
  authSessionID : String
  initiatorDID : String
  code : String := ""
  codeUsed : Bool := false
  codeExpires : Int := 0
  userDID : String := ""
  kyc : Bool := false
  expiresAt : Int
  deriving DecidableEq

/-- What `SetCode` writes in both stores. It leaves `CodeUsed` as it is. -/
def OAuthSession.setCode (session : OAuthSession) (code userDID : String) (kyc : Bool) (now : Int) :
    OAuthSession :=
  { session with code, codeExpires := now + oauthCodeTTL, userDID, kyc }

/-- `MarkCodeUsed` on the record. -/
def OAuthSession.markUsed (session : OAuthSession) : OAuthSession :=
  { session with codeUsed := true }

/-- The fields no handler changes. -/
structure OAuthSession.SameParameters (session session' : OAuthSession) : Prop where
  clientID : session.clientID = session'.clientID
  redirectURI : session.redirectURI = session'.redirectURI
  authSessionID : session.authSessionID = session'.authSessionID
  initiatorDID : session.initiatorDID = session'.initiatorDID

/-- The registered first-party clients with the hash of their secret, and bcrypt. -/
structure OAuthConfig where
  firstPartyClients : String → Option String
  compareHashAndPassword : String → String → Bool

namespace OAuthConfig

variable (cfg : OAuthConfig)

def isFirstPartyOAuthClient (clientID : String) : Bool :=
  clientID != "" && (cfg.firstPartyClients clientID).isSome

def verifyFirstPartyClientSecret (clientID secret : String) : Bool :=
  if clientID = "" ∨ secret = "" then false
  else (cfg.firstPartyClients clientID).any fun hash => cfg.compareHashAndPassword hash secret

end OAuthConfig

/-- `apimodels.OAuthTokenRequest`, with the HTTP Basic credentials. -/
structure OAuthTokenRequest where
  grantType : String := "authorization_code"
  code : String
  redirectURI : String
  clientID : String
  clientSecret : String := ""
  basicAuth : Option (String × String) := none
  deriving DecidableEq

namespace OAuthTokenRequest

variable (req : OAuthTokenRequest)

/-- The request binds, its required fields present, and asks for the one grant. -/
def wellFormed : Bool :=
  req.grantType == "authorization_code" && req.code != "" && req.redirectURI != "" &&
    req.clientID != ""

def secret : String :=
  match req.basicAuth with
  | some (user, password) => if user = req.clientID then password else req.clientSecret
  | none => req.clientSecret

/-- The checks of `handleOAuthToken` on the session it has found: client, client
authentication, redirect URI. -/
def matchesSession (cfg : OAuthConfig) (session : OAuthSession) : Bool :=
  session.clientID == req.clientID &&
    (!cfg.isFirstPartyOAuthClient req.clientID ||
      cfg.verifyFirstPartyClientSecret req.clientID req.secret) &&
    session.redirectURI == req.redirectURI

end OAuthTokenRequest

/-- A request on the OAuth session. `verified` is the user the proof in a wallet
callback verifies to. -/
inductive OAuthRequest where
  | callback (authSessionID : String) (verified : Option String)
  | silent (caller : String)
  | token (req : OAuthTokenRequest)
  deriving DecidableEq

/-- The user `handleOAuthCallback` goes on with. -/
def callbackUser (session : OAuthSession) (authSessionID : String) (verified : Option String) :
    Option String :=
  if authSessionID = "" then none
  else if session.authSessionID != authSessionID then none
  else verified

/-- The gates of `handleOAuthSilentComplete` after its look at the code. -/
def silentUser (cfg : OAuthConfig) (session : OAuthSession) (caller : String) : Option String :=
  if caller = "" then none
  else if session.initiatorDID = "" ∨ equalFold session.initiatorDID caller = false then none
  else if cfg.isFirstPartyOAuthClient session.clientID then some caller
  else none

section

variable {session session' : OAuthSession}

theorem callbackUser_congr (h : session.SameParameters session') (authSessionID : String)
    (verified : Option String) :
    callbackUser session authSessionID verified = callbackUser session' authSessionID verified := by
  unfold callbackUser
  rw [h.authSessionID]

theorem silentUser_congr (h : session.SameParameters session') (cfg : OAuthConfig)
    (caller : String) : silentUser cfg session caller = silentUser cfg session' caller := by
  unfold silentUser
  rw [h.clientID, h.initiatorDID]

theorem OAuthTokenRequest.matchesSession_congr (h : session.SameParameters session')
    (cfg : OAuthConfig) (req : OAuthTokenRequest) :
    req.matchesSession cfg session = req.matchesSession cfg session' := by
  unfold OAuthTokenRequest.matchesSession
  rw [h.clientID, h.redirectURI]

theorem OAuthTokenRequest.of_matchesSession {cfg : OAuthConfig} {req : OAuthTokenRequest}
    (h : req.matchesSession cfg session = true) :
    req.clientID = session.clientID ∧ req.redirectURI = session.redirectURI := by
  simp only [OAuthTokenRequest.matchesSession, Bool.and_eq_true, beq_iff_eq] at h
  exact ⟨h.1.1.symm, h.2.symm⟩

theorem OAuthSession.SameParameters.setCode (h : session.SameParameters session')
    (code userDID : String) (kyc : Bool) (now : Int) :
    (session.setCode code userDID kyc now).SameParameters session' :=
  { h with }

theorem OAuthSession.SameParameters.markUsed (h : session.SameParameters session') :
    session.markUsed.SameParameters session' :=
  { h with }

end

/-! ## The traffic on one session -/

/-- The requests on one OAuth session, and the code each completion mints. Codes are
fresh: no two completions mint the same one. -/
structure OAuthWorkload (ι : Type) where
  config : OAuthConfig
  clientID : String
  redirectURI : String
  authSessionID : String
  initiatorDID : String
  request : ι → OAuthRequest
  code : ι → String
  code_injective : Function.Injective code
  code_ne_empty : ∀ i, code i ≠ ""

namespace OAuthWorkload

variable {ι : Type} (W : OAuthWorkload ι)

/-- The session as `CreateSession` stores it, at time zero. -/
def session : OAuthSession where
  clientID := W.clientID
  redirectURI := W.redirectURI
  authSessionID := W.authSessionID
  initiatorDID := W.initiatorDID
  expiresAt := oauthSessionTTL

/-- The user a completion authenticates, if it is one that can complete the session. -/
def completes (i : ι) : Option String :=
  match W.request i with
  | .callback authSessionID verified => callbackUser W.session authSessionID verified
  | .silent caller => silentUser W.config W.session caller
  | .token _ => none

/-- The code a token request names, if the session accepts the rest of it. -/
def redeems (r : ι) : Option String :=
  match W.request r with
  | .token req =>
      if req.wellFormed && req.matchesSession W.config W.session then some req.code else none
  | _ => none

theorem redeems_eq_some {W : OAuthWorkload ι} {r : ι} {code : String} :
    W.redeems r = some code ↔ ∃ req, W.request r = .token req ∧ req.wellFormed = true ∧
      req.matchesSession W.config W.session = true ∧ req.code = code := by
  unfold redeems
  constructor
  · intro h
    split at h
    · rename_i req hreq
      split at h
      · rename_i hcond
        cases h
        simp only [Bool.and_eq_true] at hcond
        exact ⟨req, hreq, hcond.1, hcond.2, rfl⟩
      · cases h
    · cases h
  · rintro ⟨req, hreq, hformed, hmatches, rfl⟩
    simp [hreq, hformed, hmatches]

theorem eq_of_redeems {W : OAuthWorkload ι} {r i k : ι} {req : OAuthTokenRequest}
    (hr : W.redeems r = some (W.code i)) (hreq : W.request r = .token req)
    (hcode : req.code = W.code k) : i = k := by
  obtain ⟨req', hreq', -, -, hcode'⟩ := redeems_eq_some.mp hr
  obtain rfl : req' = req := by simpa [hreq] using hreq'.symm
  exact W.code_injective (hcode'.symm.trans hcode)

theorem ne_of_completes_redeems {W : OAuthWorkload ι} {i r : ι} {user code : String}
    (hi : W.completes i = some user) (hr : W.redeems r = some code) : r ≠ i := by
  rintro rfl
  obtain ⟨req, hreq, -⟩ := redeems_eq_some.mp hr
  simp [completes, hreq] at hi

end OAuthWorkload

/-- A token request that succeeded: when it presented its code, and whom it issued the
access token and the refresh token for and saved the latter under. -/
structure TokenSuccess (ι : Type) where
  request : ι
  presentedAt : Int
  accessUser : String
  refreshUser : String
  savedUser : String
  deriving DecidableEq

/-- When each completion minted its code, and the token requests that succeeded. -/
structure CodeHistory (ι : Type) where
  minted : ι → Option Int := fun _ => none
  successes : List (TokenSuccess ι) := []

/-- An authorization code works once, for the client it was made for, in its lifetime,
and only for the user it was minted for. -/
structure CodeHistory.Safe {ι : Type} (W : OAuthWorkload ι) (history : CodeHistory ι) : Prop where
  once : history.successes.length ≤ 1
  bound : ∀ x ∈ history.successes, ∃ req i t user,
    W.request x.request = .token req ∧ req.clientID = W.clientID ∧
    req.redirectURI = W.redirectURI ∧ req.code = W.code i ∧ history.minted i = some t ∧
    x.presentedAt ≤ t + oauthCodeTTL ∧ W.completes i = some user ∧
    x.accessUser = user ∧ x.refreshUser = user ∧ x.savedUser = user

/-- In memory: where a token request can redeem the code of a completion, no other
request can complete the session. -/
def OAuthWorkload.OneCompletion {ι : Type} (W : OAuthWorkload ι) : Prop :=
  ∀ r i j, W.redeems r = some (W.code i) → W.completes i ≠ none → W.completes j ≠ none → j = i

/-- In Redis: at most one token request can redeem a code of a completion. -/
def OAuthWorkload.OneRedemption {ι : Type} (W : OAuthWorkload ι) : Prop :=
  ∀ r r' i i', W.redeems r = some (W.code i) → W.completes i ≠ none →
    W.redeems r' = some (W.code i') → W.completes i' ≠ none → r = r'

/-- In Redis: where a token request can redeem the code of a completion, the session is
completed for one user only. -/
def OAuthWorkload.OneUser {ι : Type} (W : OAuthWorkload ι) : Prop :=
  ∀ r i j user user', W.redeems r = some (W.code i) → W.completes i = some user →
    W.completes j = some user' → user = user'

end PrivacySuite.Server
