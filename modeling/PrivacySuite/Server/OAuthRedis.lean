import PrivacySuite.Server.OAuthMemory

/-!
# Authorization codes in the Redis store

The handlers over the Redis `OAuthSessionStore` (`internal/redis/oauth.go`). Every
command and every script is one step. Between them a handler works on the copy of the
session it has read: `SetCode` reads the session and writes all of it back, and
`MarkCodeUsed` reads in one script and writes in another.

A key that has run out of time is gone. The write script of `MarkCodeUsed` does not look
whether the session is still there, so it can put back one without a time to live.
-/

namespace PrivacySuite.Server

open Go Concurrency OAuthWorkload Function

/-- The next step of a request. -/
inductive RedisPc where
  | start
  /-- `SetCode`: the `GET`, then the script -/
  | setGet (userDID : String)
  | setScript (data : OAuthSession)
  /-- `GetSessionByCode` after the index -/
  | load (presentedAt : Int)
  /-- `MarkCodeUsed`: the read script, then the write script -/
  | markRead (presentedAt : Int) (session : OAuthSession)
  | markWrite (presentedAt : Int) (session data : OAuthSession)
  | issue (presentedAt : Int) (session : OAuthSession)
  | finished
  deriving DecidableEq

/-- The session key with its expiry, if it has one, and the expiry of each code key.
Every code key of the model names this session. -/
structure RedisState (ι : Type) where
  session : Option (OAuthSession × Option Int)
  codeKeys : String → Option Int := fun _ => none
  pc : ι → RedisPc := fun _ => .start
  now : Int := 0
  history : CodeHistory ι := {}

namespace RedisState

variable {ι : Type} [DecidableEq ι] (W : OAuthWorkload ι) (s : RedisState ι)

def init : RedisState ι := { session := some (W.session, some oauthSessionTTL) }

def goto (i : ι) (pc : RedisPc) : RedisState ι := { s with pc := Function.update s.pc i pc }

/-- The session key, if it has not run out. -/
def sessionKey : Option (OAuthSession × Option Int) :=
  s.session.filter fun key => key.2.all fun expiry => !decide (expiry < s.now)

def getSession : Option OAuthSession := s.sessionKey.map (·.1)

def hasCode (code : String) : Bool := (s.codeKeys code).any fun expiry => !decide (expiry < s.now)

def setCodeScript (i : ι) (data : OAuthSession) : RedisState ι :=
  match s.sessionKey with
  | none => s.goto i .finished
  | some (_, expiry) =>
      { s with
        session := some (data, expiry)
        codeKeys := Function.update s.codeKeys (W.code i) (some (s.now + oauthCodeTTL))
        history := { s.history with
          minted := Function.update s.history.minted i (some s.now) } }.goto i .finished

def markCodeUsedWriteScript (code : String) (data : OAuthSession) : RedisState ι :=
  { s with
    session := some (data, s.sessionKey.bind (·.2))
    codeKeys := Function.update s.codeKeys code none }

/-- The rest of a completion, the same in both handlers. -/
def stepSetCode (i : ι) (kyc : Bool) : Option (RedisState ι) :=
  match s.pc i with
  | .setGet userDID =>
      some (s.goto i (s.getSession.elim .finished fun session =>
        .setScript (session.setCode (W.code i) userDID kyc s.now)))
  | .setScript data => some (s.setCodeScript W i data)
  | _ => none

/-- `handleOAuthCallback`. -/
def stepCallback (i : ι) (kyc : Bool) (authSessionID : String) (verified : Option String) :
    Option (RedisState ι) :=
  match s.pc i with
  | .start =>
      some (s.goto i ((s.getSession.bind fun session =>
        callbackUser session authSessionID verified).elim .finished .setGet))
  | _ => s.stepSetCode W i kyc

/-- `handleOAuthSilentComplete`. -/
def stepSilent (i : ι) (kyc : Bool) (caller : String) : Option (RedisState ι) :=
  match s.pc i with
  | .start =>
      some (s.goto i ((s.getSession.bind fun session =>
        if session.code = "" then silentUser W.config session caller else none).elim
          .finished .setGet))
  | _ => s.stepSetCode W i kyc

/-- `handleOAuthToken`. -/
def stepToken (i : ι) (req : OAuthTokenRequest) : Option (RedisState ι) :=
  match s.pc i with
  | .start =>
      some (s.goto i (if req.wellFormed && s.hasCode req.code then .load s.now else .finished))
  | .load t =>
      some (s.goto i (s.getSession.elim .finished fun session =>
        if req.matchesSession W.config session && !decide (session.codeExpires < s.now) then
          .markRead t session
        else .finished))
  | .markRead t session =>
      some (s.goto i
        (if s.hasCode req.code then
          s.getSession.elim .finished fun current =>
            if current.codeUsed then .finished else .markWrite t session current.markUsed
        else .finished))
  | .markWrite t session data =>
      some ((s.markCodeUsedWriteScript req.code data).goto i (.issue t session))
  | .issue t session =>
      some ({ s with
        history := { s.history with
          successes := ⟨i, t, session.userDID, session.userDID, session.userDID⟩ ::
            s.history.successes } }.goto i .finished)
  | _ => none

/-- The store needs no `cleanup`. -/
def step : OAuthEvent ι → Option (RedisState ι)
  | .tick d => some { s with now := s.now + d }
  | .cleanup => none
  | .abort i => some (s.goto i .finished)
  | .step i kyc =>
      match W.request i with
      | .callback authSessionID verified => s.stepCallback W i kyc authSessionID verified
      | .silent caller => s.stepSilent W i kyc caller
      | .token req => s.stepToken W i req

end RedisState

/-! ## What every run keeps -/

/-- Completion `j` has minted its code, and the code was young enough at the time. -/
def CodeHistory.Within {ι : Type} (history : CodeHistory ι) (j : ι) (t : Int) : Prop :=
  ∃ t₀, history.minted j = some t₀ ∧ t ≤ t₀ + oauthCodeTTL

/-- The session is completed, by one of the requests that can. -/
def OAuthWorkload.UserOf {ι : Type} (W : OAuthWorkload ι) (session : OAuthSession) : Prop :=
  ∃ k, W.completes k = some session.userDID

open RedisState

namespace RedisState

variable {ι : Type} {W : OAuthWorkload ι} {s s' : RedisState ι}

/-- What a request knows when it has come to its step. -/
def PcSound (W : OAuthWorkload ι) (history : CodeHistory ι) (i : ι) : RedisPc → Prop
  | .start => True
  | .finished => True
  | .setGet userDID => W.completes i = some userDID
  | .setScript data => data.SameParameters W.session ∧ W.completes i = some data.userDID
  | .load t => ∃ req j, W.request i = .token req ∧ req.wellFormed = true ∧ req.code = W.code j ∧
      history.Within j t
  | .markRead t session => ∃ j, W.redeems i = some (W.code j) ∧ history.Within j t ∧
      W.UserOf session
  | .markWrite t session data => (∃ j, W.redeems i = some (W.code j) ∧ history.Within j t ∧
      W.UserOf session) ∧ data.SameParameters W.session ∧ W.UserOf data
  | .issue t session => ∃ j, W.redeems i = some (W.code j) ∧ history.Within j t ∧
      W.UserOf session

/-- The invariant of every run. -/
structure Sound (W : OAuthWorkload ι) (s : RedisState ι) : Prop where
  session : ∀ session expiry, s.session = some (session, expiry) →
    session.SameParameters W.session ∧ ((∃ j, s.history.minted j ≠ none) → W.UserOf session)
  index : ∀ code expiry, s.codeKeys code = some expiry → ∃ j t, code = W.code j ∧
    s.history.minted j = some t ∧ expiry = t + oauthCodeTTL
  minted : ∀ j t, s.history.minted j = some t → s.pc j = .finished ∧ W.completes j ≠ none
  pcs : ∀ i, PcSound W s.history i (s.pc i)
  users : ∀ x ∈ s.history.successes, s.pc x.request = .finished ∧
    (∃ j, W.redeems x.request = some (W.code j) ∧ s.history.Within j x.presentedAt) ∧
    (∃ k, W.completes k = some x.accessUser) ∧ x.refreshUser = x.accessUser ∧
    x.savedUser = x.accessUser
  distinct : (s.history.successes.map (·.request)).Nodup

variable {history : CodeHistory ι} {j i r : ι} {t : Int} {pc : RedisPc}
  {session data session₀ : OAuthSession} {code : String} {kyc : Bool}

variable {history' : CodeHistory ι} {userDID user user' : String}

theorem Within.mono (h : ∀ j t, history.minted j = some t → history'.minted j = some t)
    (hj : history.Within j t) : history'.Within j t := by
  obtain ⟨t₀, hminted, htime⟩ := hj
  exact ⟨t₀, h j t₀ hminted, htime⟩

theorem PcSound.mono (h : ∀ j t, history.minted j = some t → history'.minted j = some t)
    (hpc : PcSound W history i pc) : PcSound W history' i pc := by
  cases pc with
  | start | finished => trivial
  | setGet | setScript => exact hpc
  | load t =>
    obtain ⟨req, j, hreq, hformed, hcode, hj⟩ := hpc
    exact ⟨req, j, hreq, hformed, hcode, Within.mono h hj⟩
  | markWrite t session data =>
    obtain ⟨⟨j, hredeems, hj, huser⟩, hdata⟩ := hpc
    exact ⟨⟨j, hredeems, Within.mono h hj, huser⟩, hdata⟩
  | markRead | issue =>
    obtain ⟨j, hredeems, hj, huser⟩ := hpc
    exact ⟨j, hredeems, Within.mono h hj, huser⟩

theorem sound_init (W : OAuthWorkload ι) : Sound W (init W) where
  session session expiry h := by
    cases h
    exact ⟨⟨rfl, rfl, rfl, rfl⟩, fun ⟨_, h⟩ => absurd rfl h⟩
  index code expiry h := by cases h
  minted j t h := by cases h
  pcs i := trivial
  users x h := by cases h
  distinct := List.nodup_nil

theorem Sound.getSession (hs : Sound W s) (h : s.getSession = some session) :
    session.SameParameters W.session ∧
      ((∃ j, s.history.minted j ≠ none) → W.UserOf session) := by
  obtain ⟨⟨session', expiry⟩, hkey, rfl⟩ := Option.map_eq_some_iff.mp h
  exact hs.session session' expiry (Option.filter_eq_some_iff.mp hkey).1

theorem Sound.at_pc (hs : Sound W s) (hpc : s.pc i = pc) : PcSound W s.history i pc :=
  hpc ▸ hs.pcs i

theorem hasCode_iff :
    s.hasCode code = true ↔ ∃ expiry, s.codeKeys code = some expiry ∧ s.now ≤ expiry := by
  unfold hasCode
  cases s.codeKeys code with
  | none => simp
  | some expiry => simp

theorem sessionKey_eq_some {expiry : Int} :
    s.sessionKey = some (session, some expiry) ↔
      s.session = some (session, some expiry) ∧ s.now ≤ expiry := by
  unfold sessionKey
  rw [Option.filter_eq_some_iff]
  simp

/-- A code key that is there belongs to a code still in its lifetime. -/
theorem Sound.hasCode (hs : Sound W s) (h : s.hasCode code = true) :
    ∃ j, code = W.code j ∧ s.history.Within j s.now := by
  obtain ⟨expiry, hkey, htime⟩ := hasCode_iff.mp h
  obtain ⟨j, t, hcode, hminted, rfl⟩ := hs.index code expiry hkey
  exact ⟨j, hcode, t, hminted, htime⟩

/-- Along the invariant, at most one request that can redeem a code and one user a
session is completed for make the codes safe. -/
theorem Sound.safe (hs : Sound W s) (hone : W.OneRedemption) (huser : W.OneUser) :
    s.history.Safe W where
  once := by
    have hsame : ∀ x ∈ s.history.successes, ∀ y ∈ s.history.successes, x.request = y.request := by
      intro x hx y hy
      obtain ⟨-, ⟨i, hi, t, hmint, -⟩, -⟩ := hs.users x hx
      obtain ⟨-, ⟨j, hj, t', hmint', -⟩, -⟩ := hs.users y hy
      exact hone _ _ i j hi (hs.minted i t hmint).2 hj (hs.minted j t' hmint').2
    have hdistinct := hs.distinct
    match hlist : s.history.successes with
    | [] => simp
    | [x] => simp
    | x :: y :: rest =>
      rw [hlist] at hdistinct hsame
      simp [hsame x (by simp) y (by simp)] at hdistinct
  bound x hx := by
    obtain ⟨-, ⟨j, hredeems, t, hminted, hage⟩, ⟨k, hk⟩, hrefresh, hsaved⟩ := hs.users x hx
    obtain ⟨req, hreq, -, hmatches, hcode⟩ := redeems_eq_some.mp hredeems
    obtain ⟨hclient, hredirect⟩ := OAuthTokenRequest.of_matchesSession hmatches
    obtain ⟨user, hj⟩ := Option.ne_none_iff_exists'.mp (hs.minted j t hminted).2
    obtain rfl := huser x.request j k user x.accessUser hredeems hj hk
    exact ⟨req, j, t, x.accessUser, hreq, hclient, hredirect, hcode, hminted, hage, hj, rfl,
      hrefresh, hsaved⟩

theorem Sound.markCodeUsedWriteScript (hs : Sound W s) (code : String)
    (hparameters : data.SameParameters W.session) (huser : W.UserOf data) :
    Sound W (s.markCodeUsedWriteScript code data) where
  __ := hs
  session session expiry h := by
    cases h
    exact ⟨hparameters, fun _ => huser⟩
  index code' expiry h := by
    by_cases heq : code' = code
    · subst heq
      simp [RedisState.markCodeUsedWriteScript] at h
    · exact hs.index code' expiry (by simpa [RedisState.markCodeUsedWriteScript, heq] using h)

/-- The session is in the store, as created but for what completions write. -/
structure Live (W : OAuthWorkload ι) (s : RedisState ι) (session : OAuthSession) : Prop where
  key : s.sessionKey = some (session, some oauthSessionTTL)
  parameters : session.SameParameters W.session
  unused : session.codeUsed = false

theorem Live.getSession (hs : Live W s session) : s.getSession = some session := by
  simp [RedisState.getSession, hs.key]

theorem live_init (W : OAuthWorkload ι) : Live W (init W) W.session where
  key := sessionKey_eq_some.mpr ⟨rfl, by show 0 ≤ oauthSessionTTL; decide⟩
  parameters := ⟨rfl, rfl, rfl, rfl⟩
  unused := rfl

variable [DecidableEq ι]

@[simp] theorem goto_pc (s : RedisState ι) (i : ι) (pc : RedisPc) :
    (s.goto i pc).pc = update s.pc i pc := rfl

theorem finished_update {k : ι} (hk : s.pc k = .finished)
    (hfinished : s.pc i = .finished → pc = .finished) :
    update s.pc i pc k = .finished := by
  by_cases hki : k = i
  · subst hki
    simpa using hfinished hk
  · rwa [update_of_ne hki]

theorem Sound.goto (hs : Sound W s) (hpc : PcSound W s.history i pc)
    (hfinished : s.pc i = .finished → pc = .finished) : Sound W (s.goto i pc) where
  __ := hs
  minted j t hj := ⟨finished_update (hs.minted j t hj).1 hfinished, (hs.minted j t hj).2⟩
  pcs := (forall_update_iff _ (PcSound W _)).mpr ⟨hpc, fun k _ => hs.pcs k⟩
  users x hx := ⟨finished_update (hs.users x hx).1 hfinished, (hs.users x hx).2⟩

theorem Sound.setCodeScript (hs : Sound W s) (hpc : s.pc i = .setScript data) :
    Sound W (s.setCodeScript W i data) := by
  obtain ⟨hparameters, huser⟩ := hs.at_pc hpc
  unfold RedisState.setCodeScript
  split
  · exact hs.goto trivial (fun _ => rfl)
  · rename_i session expiry hkey
    have hminted : ∀ j t, s.history.minted j = some t →
        update s.history.minted i (some s.now) j = some t := by
      intro j t hj
      have hji : j ≠ i := by
        rintro rfl
        have := (hs.minted j t hj).1
        rw [hpc] at this
        cases this
      rwa [update_of_ne hji]
    refine ⟨?_, ?_, ?_, (forall_update_iff _ (PcSound W _)).mpr
      ⟨trivial, fun k _ => (hs.pcs k).mono hminted⟩, ?_, hs.distinct⟩
    · intro session' expiry' h
      cases h
      exact ⟨hparameters, fun _ => ⟨i, huser⟩⟩
    · intro code expiry' h
      by_cases heq : code = W.code i
      · subst heq
        obtain rfl : s.now + oauthCodeTTL = expiry' := by simpa [RedisState.goto] using h
        exact ⟨i, s.now, rfl, by simp [RedisState.goto], rfl⟩
      · obtain ⟨j, t, hcode, hj, hexpiry⟩ :=
          hs.index code expiry' (by simpa [RedisState.goto, heq] using h)
        exact ⟨j, t, hcode, hminted j t hj, hexpiry⟩
    · intro j t hj
      by_cases hji : j = i
      · subst hji
        exact ⟨by simp, by simp [huser]⟩
      · have hold : s.history.minted j = some t := by simpa [RedisState.goto, hji] using hj
        exact ⟨finished_update (hs.minted j t hold).1 (fun _ => rfl), (hs.minted j t hold).2⟩
    · intro x hx
      obtain ⟨hdone, ⟨j, hredeems, htime⟩, hrest⟩ := hs.users x hx
      exact ⟨finished_update hdone (fun _ => rfl), ⟨j, hredeems, Within.mono hminted htime⟩, hrest⟩

theorem Sound.success (hs : Sound W s) (hpc : s.pc i = .issue t session) :
    Sound W ({ s with
      history := { s.history with
        successes := ⟨i, t, session.userDID, session.userDID, session.userDID⟩ ::
          s.history.successes } }.goto i .finished) := by
  obtain ⟨j, hredeems, htime, k, hk⟩ := hs.at_pc hpc
  refine ⟨hs.session, hs.index, ?_, (forall_update_iff _ (PcSound W _)).mpr
    ⟨trivial, fun k _ => (hs.pcs k).mono fun _ _ h => h⟩, ?_, ?_⟩
  · exact fun j t hj => ⟨finished_update (hs.minted j t hj).1 (fun _ => rfl), (hs.minted j t hj).2⟩
  · intro x hx
    rcases List.mem_cons.mp hx with rfl | hold
    · exact ⟨by simp, ⟨j, hredeems, htime⟩, ⟨k, hk⟩, rfl, rfl⟩
    · exact ⟨finished_update (hs.users x hold).1 (fun _ => rfl), (hs.users x hold).2⟩
  · refine List.nodup_cons.mpr ⟨fun hmem => ?_, hs.distinct⟩
    -- a request that succeeded before is finished
    obtain ⟨x, hx, hxi⟩ := List.mem_map.mp hmem
    have hdone := (hs.users x hx).1
    rw [show x.request = i from hxi, hpc] at hdone
    cases hdone

theorem Sound.stepSetCode (hs : Sound W s) (h : s.stepSetCode W i kyc = some s') : Sound W s' := by
  unfold RedisState.stepSetCode at h
  split at h
  · rename_i userDID hpc
    cases h
    refine hs.goto ?_ (hpc ▸ nofun)
    cases hget : s.getSession with
    | none => trivial
    | some session => exact ⟨(hs.getSession hget).1.setCode _ _ _ _, hs.at_pc hpc⟩
  · rename_i data hpc
    cases h
    exact hs.setCodeScript hpc
  · cases h

/-- A completion that finds the session, and a user for it, comes to its `SetCode`. -/
theorem Sound.start (hs : Sound W s) (hpc : s.pc i = .start) {find : OAuthSession → Option String}
    (hfind : ∀ session userDID, session.SameParameters W.session → find session = some userDID →
      W.completes i = some userDID) :
    Sound W (s.goto i ((s.getSession.bind find).elim .finished .setGet)) := by
  refine hs.goto ?_ (hpc ▸ nofun)
  cases hbind : s.getSession.bind find with
  | none => trivial
  | some userDID =>
    obtain ⟨session, hget, huser⟩ := Option.bind_eq_some_iff.mp hbind
    exact hfind session userDID (hs.getSession hget).1 huser

theorem Sound.stepCallback (hs : Sound W s) {authSessionID : String} {verified : Option String}
    (hreq : W.request i = .callback authSessionID verified)
    (h : s.stepCallback W i kyc authSessionID verified = some s') : Sound W s' := by
  unfold RedisState.stepCallback at h
  split at h
  · rename_i hpc
    cases h
    refine hs.start hpc fun session userDID hparameters huser => ?_
    rw [callbackUser_congr hparameters] at huser
    simpa [completes, hreq] using huser
  · exact hs.stepSetCode h

theorem Sound.stepSilent (hs : Sound W s) {caller : String} (hreq : W.request i = .silent caller)
    (h : s.stepSilent W i kyc caller = some s') : Sound W s' := by
  unfold RedisState.stepSilent at h
  split at h
  · rename_i hpc
    cases h
    refine hs.start hpc fun session userDID hparameters huser => ?_
    split at huser
    · rw [silentUser_congr hparameters] at huser
      simpa [completes, hreq] using huser
    · cases huser
  · exact hs.stepSetCode h

theorem Sound.stepToken (hs : Sound W s) {req : OAuthTokenRequest} (hreq : W.request i = .token req)
    (h : s.stepToken W i req = some s') : Sound W s' := by
  -- once a code has been minted, the session is that of a completion
  have hcompleted : ∀ session, s.getSession = some session → (∃ j t, s.history.Within j t) →
      session.SameParameters W.session ∧ W.UserOf session := by
    rintro session hget ⟨j, t, t₀, hminted, -⟩
    obtain ⟨hparameters, huser⟩ := hs.getSession hget
    exact ⟨hparameters, huser ⟨j, by simp [hminted]⟩⟩
  unfold RedisState.stepToken at h
  split at h
  all_goals cases h
  · -- the index
    rename_i hpc
    refine hs.goto ?_ (hpc ▸ nofun)
    split
    · rename_i hcond
      rw [Bool.and_eq_true] at hcond
      obtain ⟨j, hcode, htime⟩ := hs.hasCode hcond.2
      exact ⟨req, j, hreq, hcond.1, hcode, htime⟩
    · trivial
  · -- the session, and the checks on it
    rename_i t hpc
    obtain ⟨req', j, hreq', hformed, hcode, htime⟩ := hs.at_pc hpc
    obtain rfl : req = req' := by simpa [hreq] using hreq'
    refine hs.goto ?_ (hpc ▸ nofun)
    cases hget : s.getSession with
    | none => trivial
    | some session =>
      obtain ⟨hparameters, huser⟩ := hcompleted session hget ⟨j, t, htime⟩
      rw [Option.elim_some]
      split
      · rename_i hcond
        rw [Bool.and_eq_true, OAuthTokenRequest.matchesSession_congr hparameters] at hcond
        exact ⟨j, redeems_eq_some.mpr ⟨req, hreq, hformed, hcond.1, hcode⟩, htime,
          huser⟩
      · trivial
  · -- the read script
    rename_i t session hpc
    refine hs.goto ?_ (hpc ▸ nofun)
    split
    · cases hget : s.getSession with
      | none => trivial
      | some current =>
        rw [Option.elim_some]
        split
        · trivial
        · obtain ⟨j, hredeems, htime, huser⟩ := hs.at_pc hpc
          obtain ⟨hparameters, huser'⟩ := hcompleted current hget ⟨j, t, htime⟩
          exact ⟨⟨j, hredeems, htime, huser⟩, hparameters.markUsed, huser'⟩
    · trivial
  · -- the write script
    rename_i t session data hpc
    obtain ⟨hissue, hparameters, huser⟩ := hs.at_pc hpc
    exact (hs.markCodeUsedWriteScript req.code hparameters huser).goto hissue
      (by show s.pc i = .finished → _; rw [hpc]; nofun)
  · rename_i t session hpc
    exact hs.success hpc

theorem Sound.step (hs : Sound W s) {e : OAuthEvent ι} (h : s.step W e = some s') : Sound W s' := by
  cases e with
  | tick d =>
    cases h
    exact { hs with }
  | cleanup => cases h
  | abort i =>
    cases h
    exact hs.goto trivial (fun _ => rfl)
  | step i kyc =>
    simp only [RedisState.step] at h
    split at h
    · rename_i hreq
      exact hs.stepCallback hreq h
    · rename_i hreq
      exact hs.stepSilent hreq h
    · rename_i hreq
      exact hs.stepToken hreq h

/-! ## The runs that break it -/

theorem Live.goto (hs : Live W s session) (i : ι) (pc : RedisPc) : Live W (s.goto i pc) session :=
  ⟨hs.key, hs.parameters, hs.unused⟩

theorem prepare_run (hs : Live W s session) (hcode : session.code = "")
    (hi : W.completes i = some userDID) (hpc : s.pc i = .start) :
    run (step W) s [.step i false] = some (s.goto i (.setGet userDID)) := by
  unfold completes at hi
  split at hi
  · rename_i authSessionID verified hreq
    rw [← callbackUser_congr hs.parameters] at hi
    simp [step, hreq, stepCallback, hpc, hs.getSession, hi]
  · rename_i caller hreq
    rw [← silentUser_congr hs.parameters] at hi
    simp [step, hreq, stepSilent, hpc, hs.getSession, hcode, hi]
  · cases hi

theorem exists_mint (hs : Live W s session) (hi : W.completes i = some userDID)
    (hpc : s.pc i = .setGet userDID) :
    ∃ s', run (step W) s [.step i false, .step i false] = some s' ∧
      Live W s' (session.setCode (W.code i) userDID false s.now) ∧ s'.hasCode (W.code i) = true ∧
      (∀ code, s.hasCode code = true → s'.hasCode code = true) ∧
      s'.pc = update s.pc i .finished ∧ s'.now = s.now := by
  have hyoung : s.now ≤ s.now + oauthCodeTTL := Int.le_add_of_nonneg_right (by decide)
  obtain ⟨data, hdata⟩ : ∃ data, data = session.setCode (W.code i) userDID false s.now := ⟨_, rfl⟩
  have hscript : ∀ pc, (s.goto i pc).setCodeScript W i data = { s with
      session := some (data, some oauthSessionTTL)
      codeKeys := update s.codeKeys (W.code i) (some (s.now + oauthCodeTTL))
      history := { s.history with
        minted := update s.history.minted i (some s.now) } }.goto i .finished := by
    intro pc
    unfold setCodeScript
    rw [show (s.goto i pc).sessionKey = some (session, some oauthSessionTTL) from hs.key]
    simp [goto]
  refine ⟨(s.goto i .finished).setCodeScript W i data, ?_⟩
  rw [hscript]
  refine ⟨?_, ?_, ?_, ?_, rfl, rfl⟩
  · unfold completes at hi
    split at hi
    · rename_i hreq
      simp [step, hreq, stepCallback, stepSetCode, hpc,
        hs.getSession, ← hdata, hscript]
    · rename_i hreq
      simp [step, hreq, stepSilent, stepSetCode, hpc,
        hs.getSession, ← hdata, hscript]
    · cases hi
  · refine ⟨?_, hdata ▸ hs.parameters.setCode _ _ _ _, hs.unused⟩
    rw [← hdata]
    exact sessionKey_eq_some.mpr ⟨rfl, (sessionKey_eq_some.mp hs.key).2⟩
  · exact hasCode_iff.mpr ⟨s.now + oauthCodeTTL, by simp [goto], hyoung⟩
  · intro code hcode
    obtain ⟨expiry, hkey, htime⟩ := hasCode_iff.mp hcode
    by_cases heq : code = W.code i
    · exact hasCode_iff.mpr ⟨s.now + oauthCodeTTL, by simp [goto, heq], hyoung⟩
    · exact hasCode_iff.mpr ⟨expiry, by simpa [goto, heq] using hkey, htime⟩

/-- Two completions, or one, and the session is left with the user of the later. -/
theorem exists_completed (hi : W.completes i = some user) (hj : W.completes j = some user') :
    ∃ events s session, run (step W) (init W) events = some s ∧ Live W s session ∧
      ¬ session.codeExpires < s.now ∧ session.userDID = user' ∧ s.hasCode (W.code i) = true ∧
      s.hasCode (W.code j) = true ∧ ∀ k, k ≠ i → k ≠ j → s.pc k = .start := by
  have hyoung : ∀ now : Int, ¬ (now + oauthCodeTTL < now) := by
    intro now
    have : (0 : Int) ≤ oauthCodeTTL := by decide
    omega
  have hlive := live_init W
  have hrun₀ := prepare_run hlive rfl hi rfl
  have hlive₁ := hlive.goto i (.setGet user)
  by_cases hij : j = i
  · subst hij
    obtain rfl : user = user' := Option.some.inj (hi.symm.trans hj)
    obtain ⟨s, hrun₁, hlive', hcode, -, hpc, hnow⟩ := exists_mint hlive₁ hi (by simp)
    refine ⟨_, s, _, run_trans hrun₀ hrun₁, hlive', ?_, rfl, hcode, hcode, ?_⟩
    · rw [hnow]
      exact hyoung _
    · intro k hk _
      rw [hpc, update_of_ne hk]
      simp [hk, init]
  · -- both look for the session before either writes, so that a silent one may be second
    have hrun₁ := prepare_run hlive₁ rfl hj (by simp [hij, init])
    have hlive₂ := hlive₁.goto j (.setGet user')
    obtain ⟨s, hrun₂, hlive₃, hcode, -, hpc, hnow⟩ :=
      exists_mint hlive₂ hi (by simp [Ne.symm hij])
    obtain ⟨s', hrun₃, hlive₄, hcode', hkeep, hpc', hnow'⟩ :=
      exists_mint hlive₃ hj (by rw [hpc, update_of_ne hij]; simp)
    refine ⟨_, s', _, run_trans hrun₀ (run_trans hrun₁ (run_trans hrun₂ hrun₃)), hlive₄, ?_, rfl,
      hkeep _ hcode, hcode', ?_⟩
    · rw [hnow']
      exact hyoung _
    · intro k hki hkj
      rw [hpc', update_of_ne hkj, hpc, update_of_ne hki]
      simp [hki, hkj, init]

theorem find_run (hs : Live W s session) (hr : W.redeems r = some code)
    (hcode : s.hasCode code = true) (hyoung : ¬ session.codeExpires < s.now)
    (hpc : s.pc r = .start) :
    run (step W) s [.step r false, .step r false] =
      some (s.goto r (.markRead s.now session)) := by
  obtain ⟨req, hreq, hformed, hmatches, rfl⟩ := redeems_eq_some.mp hr
  rw [← OAuthTokenRequest.matchesSession_congr hs.parameters] at hmatches
  have hget : (s.goto r (.load s.now)).getSession = some session := hs.getSession
  have hnow : (s.goto r (.load s.now)).now = s.now := rfl
  simp [step, hreq, stepToken, hpc, hformed, hcode, hget, hnow, hmatches]
  rw [if_pos (Int.not_lt.mp hyoung)]
  simp [goto]

theorem read_run (hs : Live W s session) (hr : W.redeems r = some code)
    (hcode : s.hasCode code = true) (hpc : s.pc r = .markRead t session₀) :
    run (step W) s [.step r false] =
      some (s.goto r (.markWrite t session₀ session.markUsed)) := by
  obtain ⟨req, hreq, -, -, rfl⟩ := redeems_eq_some.mp hr
  simp [step, hreq, stepToken, hpc, hcode, hs.getSession, hs.unused]

theorem write_run (hr : W.redeems r = some code) (hpc : s.pc r = .markWrite t session₀ data) :
    ∃ s', run (step W) s [.step r false] = some s' ∧
      s'.pc = update s.pc r (.issue t session₀) ∧ s'.history = s.history := by
  obtain ⟨req, hreq, -, -, rfl⟩ := redeems_eq_some.mp hr
  refine ⟨(s.markCodeUsedWriteScript req.code data).goto r (.issue t session₀), ?_, rfl, rfl⟩
  simp [step, hreq, stepToken, hpc]

theorem issue_run (hr : W.redeems r = some code) (hpc : s.pc r = .issue t session₀) :
    ∃ s', run (step W) s [.step r false] = some s' ∧
      s'.pc = update s.pc r .finished ∧ s'.history.successes =
        ⟨r, t, session₀.userDID, session₀.userDID, session₀.userDID⟩ :: s.history.successes := by
  obtain ⟨req, hreq, -, -, rfl⟩ := redeems_eq_some.mp hr
  exact ⟨_, by simp [step, hreq, stepToken, hpc]; rfl, rfl, rfl⟩

/-- A session completed for two users, and a token request with the code of the first:
it gets the tokens of the second. -/
theorem exists_wrong_user (hr : W.redeems r = some (W.code i)) (hi : W.completes i = some user)
    (hj : W.completes j = some user') (hne : user ≠ user') :
    ∃ events s, run (step W) (init W) events = some s ∧ ¬ s.history.Safe W := by
  have hri : r ≠ i := ne_of_completes_redeems hi hr
  have hrj : r ≠ j := ne_of_completes_redeems hj hr
  obtain ⟨events, s, session, hrun, hlive, hyoung, huser, hcode, -, hpc⟩ := exists_completed hi hj
  have hrun₁ := find_run hlive hr hcode hyoung (hpc r hri hrj)
  have hrun₂ := read_run (hlive.goto r (.markRead s.now session)) hr hcode
    (update_self r _ s.pc)
  obtain ⟨s₂, hs₂⟩ : ∃ s₂, s₂ = (s.goto r (.markRead s.now session)).goto r
    (.markWrite s.now session session.markUsed) := ⟨_, rfl⟩
  rw [← hs₂] at hrun₂
  obtain ⟨s₃, hrun₃, hpc₃, -⟩ := write_run hr
    (show s₂.pc r = .markWrite s.now session session.markUsed by simp [hs₂])
  obtain ⟨s₄, hrun₄, -, hsuccess⟩ := issue_run hr
    (show s₃.pc r = .issue s.now session by rw [hpc₃, update_self])
  refine ⟨_, s₄, run_trans hrun (run_trans hrun₁ (run_trans hrun₂ (run_trans hrun₃ hrun₄))), ?_⟩
  intro hsafe
  obtain ⟨req, k, -, user₀, hreq, -, -, hk, -, -, hcompletes, haccess, -⟩ := hsafe.bound
    ⟨r, s.now, session.userDID, session.userDID, session.userDID⟩ (by simp [hsuccess])
  -- the code presented is that of `i`
  obtain rfl : i = k := eq_of_redeems hr hreq hk
  rw [hi] at hcompletes
  apply hne
  rw [Option.some.inj hcompletes, ← haccess, ← huser]

/-- Two token requests that overlap between the scripts of `MarkCodeUsed`: both succeed. -/
theorem exists_two_successes {r' : ι} (hr : W.redeems r = some (W.code i))
    (hi : W.completes i ≠ none) (hr' : W.redeems r' = some (W.code j)) (hj : W.completes j ≠ none)
    (hne : r ≠ r') :
    ∃ events s, run (step W) (init W) events = some s ∧ ¬ s.history.Safe W := by
  obtain ⟨user, hi⟩ := Option.ne_none_iff_exists'.mp hi
  obtain ⟨user', hj⟩ := Option.ne_none_iff_exists'.mp hj
  obtain ⟨events, s, session, hrun, hlive, hyoung, -, hcode, hcode', hpc⟩ := exists_completed hi hj
  have hstart : s.pc r = .start :=
    hpc r (ne_of_completes_redeems hi hr)
      (ne_of_completes_redeems hj hr)
  have hstart' : s.pc r' = .start :=
    hpc r' (ne_of_completes_redeems hi hr')
      (ne_of_completes_redeems hj hr')
  -- both come to the read script, and both read before either writes
  have hrun₁ := find_run hlive hr hcode hyoung hstart
  have hlive₁ := hlive.goto r (.markRead s.now session)
  have hrun₂ := find_run hlive₁ hr' hcode' hyoung (by simpa [Ne.symm hne] using hstart')
  have hlive₂ := hlive₁.goto r' (.markRead s.now session)
  have hrun₃ := read_run hlive₂ hr hcode
    ((update_of_ne hne _ _).trans (update_self r _ s.pc))
  have hlive₃ := hlive₂.goto r (.markWrite s.now session session.markUsed)
  have hrun₄ := read_run hlive₃ hr' hcode'
    ((update_of_ne hne.symm _ _).trans (update_self r' _ _))
  -- each write finds nothing in its way, and each of them issues tokens
  obtain ⟨s₄, hs₄⟩ : ∃ s₄, s₄ = (((s.goto r (.markRead s.now session)).goto r'
    (.markRead s.now session)).goto r (.markWrite s.now session session.markUsed)).goto r'
    (.markWrite s.now session session.markUsed) := ⟨_, rfl⟩
  replace hrun₄ : _ = some s₄ := hs₄ ▸ hrun₄
  obtain ⟨s₅, hrun₅, hpc₅, -⟩ := write_run hr
    (show s₄.pc r = .markWrite s.now session session.markUsed by simp [hs₄, hne])
  obtain ⟨s₆, hrun₆, hpc₆, -⟩ := write_run hr'
    (show s₅.pc r' = .markWrite s.now session session.markUsed by
      rw [hpc₅, update_of_ne hne.symm, hs₄]
      simp)
  obtain ⟨s₇, hrun₇, hpc₇, hsuccess⟩ := issue_run hr
    (show s₆.pc r = .issue s.now session by
      rw [hpc₆, update_of_ne hne, hpc₅, update_self])
  obtain ⟨s₈, hrun₈, -, hsuccess'⟩ := issue_run hr'
    (show s₇.pc r' = .issue s.now session by
      rw [hpc₇, update_of_ne hne.symm, hpc₆, update_self])
  refine ⟨_, s₈, run_trans hrun (run_trans hrun₁ (run_trans hrun₂ (run_trans hrun₃ (run_trans hrun₄
    (run_trans hrun₅ (run_trans hrun₆ (run_trans hrun₇ hrun₈))))))), ?_⟩
  intro hsafe
  have honce := hsafe.once
  rw [hsuccess', hsuccess] at honce
  simp at honce

/-- In Redis, the authorization codes of a session are safe along every run exactly if at
most one token request can redeem one and the session is completed for one user. -/
theorem redis_safe_iff (W : OAuthWorkload ι) :
    (∀ events s, run (step W) (init W) events = some s → s.history.Safe W) ↔
      W.OneRedemption ∧ W.OneUser := by
  constructor
  · intro hall
    constructor
    · intro r r' i i' hr hi hr' hi'
      by_contra hne
      obtain ⟨events, s, hrun, hunsafe⟩ := exists_two_successes hr hi hr' hi' hne
      exact hunsafe (hall events s hrun)
    · intro r i j user user' hr hi hj
      by_contra hne
      obtain ⟨events, s, hrun, hunsafe⟩ := exists_wrong_user hr hi hj hne
      exact hunsafe (hall events s hrun)
  · rintro ⟨hone, huser⟩ events s hrun
    have hsound : Sound W s :=
      run_invariant (I := Sound W) (fun _ _ _ hs h => hs.step h) (sound_init W) hrun
    exact hsound.safe hone huser

end RedisState

/-! ## Both stores -/

/-- An authorization code works once and only for the user it was minted for, along
every interleaving of the requests on its session: in memory exactly if no second
request can complete a session one of whose codes can be redeemed, and in Redis exactly
if at most one token request can redeem one and the session is completed for one user. -/
theorem oauth_codes_safe_iff {ι : Type} [DecidableEq ι] (W : OAuthWorkload ι) :
    ((∀ events s, run (MemoryState.step W) (MemoryState.init W) events = some s →
      s.history.Safe W) ↔ W.OneCompletion) ∧
    ((∀ events s, run (RedisState.step W) (RedisState.init W) events = some s →
      s.history.Safe W) ↔ W.OneRedemption ∧ W.OneUser) :=
  ⟨MemoryState.memory_safe_iff W, redis_safe_iff W⟩

/-- A session that alice's wallet and mallory's wallet both complete, and two token
requests with alice's code. -/
def sampleWorkload : OAuthWorkload (Fin 4) where
  config := ⟨fun _ => none, fun _ _ => false⟩
  clientID := "explorer"
  redirectURI := "https://app"
  authSessionID := "auth"
  initiatorDID := ""
  request i := ([.callback "auth" (some "alice"), .callback "auth" (some "mallory"),
    .token ⟨"authorization_code", "c0", "https://app", "explorer", "", none⟩,
    .token ⟨"authorization_code", "c0", "https://app", "explorer", "", none⟩] :
      List OAuthRequest).getD i (.silent "")
  code i := ["c0", "c1", "c2", "c3"].getD i ""
  code_injective := by decide
  code_ne_empty := by decide

/-- Alice's wallet completes, then mallory's, then alice's code is redeemed. -/
def sampleMemoryRun : List (OAuthEvent (Fin 4)) :=
  List.replicate 3 (OAuthEvent.step 0 false) ++ List.replicate 3 (OAuthEvent.step 1 false) ++
    List.replicate 9 (OAuthEvent.step 2 false)

/-- Alice's wallet completes, and both token requests read before either writes. -/
def sampleRedisRun : List (OAuthEvent (Fin 4)) :=
  List.replicate 3 (OAuthEvent.step 0 false) ++ List.replicate 3 (OAuthEvent.step 2 false) ++
    List.replicate 3 (OAuthEvent.step 3 false) ++ List.replicate 2 (OAuthEvent.step 2 false) ++
    List.replicate 2 (OAuthEvent.step 3 false)

/-- In memory alice's code yields tokens for mallory, and in Redis it yields tokens
twice. -/
theorem oauth_code_misused :
    (∃ s, run (MemoryState.step sampleWorkload) (MemoryState.init sampleWorkload) sampleMemoryRun =
      some s ∧ s.history.successes = [⟨2, 0, "mallory", "mallory", "mallory"⟩] ∧
      ¬ s.history.Safe sampleWorkload) ∧
    ∃ s, run (RedisState.step sampleWorkload) (RedisState.init sampleWorkload) sampleRedisRun =
      some s ∧ s.history.successes = [⟨3, 0, "alice", "alice", "alice"⟩,
        ⟨2, 0, "alice", "alice", "alice"⟩] ∧ ¬ s.history.Safe sampleWorkload := by
  constructor
  · have hrun : (run (MemoryState.step sampleWorkload) (MemoryState.init sampleWorkload)
        sampleMemoryRun).map (·.history.successes) =
        some [⟨2, 0, "mallory", "mallory", "mallory"⟩] := by decide
    obtain ⟨s, hs, hsuccesses⟩ := Option.map_eq_some_iff.mp hrun
    refine ⟨s, hs, hsuccesses, fun hsafe => ?_⟩
    obtain ⟨req, i, -, user, hreq, -, -, hcode, -, -, huser, haccess, -⟩ := hsafe.bound
      ⟨2, 0, "mallory", "mallory", "mallory"⟩ (by simp [hsuccesses])
    cases hreq
    subst haccess
    -- the code is the one alice's wallet minted
    have hother : ∀ i : Fin 4, "c0" = sampleWorkload.code i →
        sampleWorkload.completes i ≠ some "mallory" := by decide
    exact hother i hcode huser
  · have hrun : (run (step sampleWorkload) (init sampleWorkload)
        sampleRedisRun).map (·.history.successes) =
        some [⟨3, 0, "alice", "alice", "alice"⟩, ⟨2, 0, "alice", "alice", "alice"⟩] := by
      decide
    obtain ⟨s, hs, hsuccesses⟩ := Option.map_eq_some_iff.mp hrun
    refine ⟨s, hs, hsuccesses, fun hsafe => ?_⟩
    have honce := hsafe.once
    rw [hsuccesses] at honce
    revert honce
    decide

end PrivacySuite.Server
