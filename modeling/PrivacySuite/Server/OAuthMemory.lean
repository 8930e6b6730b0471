import PrivacySuite.Concurrency.Runs
import PrivacySuite.Server.OAuthSession

/-!
# Authorization codes in the in-memory store

The handlers over `OAuthSessionStore` (`internal/server/oauth.go`). `GetSession` hands
out a pointer, so a handler reads the fields of the one shared record when it comes to
them: `handleOAuthToken` reads the expiry, marks the code and then reads the user three
times. Every map operation, every locked section and every such read is one step.

The record outlives its entry in the map for the requests that hold the pointer, so the
state has the record and, apart from it, whether the map still has it. `cleanup` is an
event of its own, and `abort` is every way a request ends early: a ban, a failed
look-up, a failed write, a closed connection.
-/

namespace PrivacySuite.Server

open Go Concurrency OAuthWorkload Function

/-- The next step of a request. -/
inductive MemoryPc where
  | start
  /-- the look at the code in `handleOAuthSilentComplete` -/
  | check
  /-- `SetCode`: the map, then the locked section -/
  | setLoad (userDID : String)
  | setWrite (userDID : String)
  /-- `GetSessionByCode` after the index -/
  | load (presentedAt : Int)
  | expiry (presentedAt : Int)
  /-- `MarkCodeUsed`: the index, the map, then the locked section -/
  | markIndex (presentedAt : Int)
  | markLoad (presentedAt : Int)
  | mark (presentedAt : Int)
  /-- `IssueAccessToken`, `IssueRefreshToken`, `SaveRefreshToken` -/
  | access (presentedAt : Int)
  | refresh (presentedAt : Int) (accessUser : String)
  | save (presentedAt : Int) (accessUser refreshUser : String)
  | finished
  deriving DecidableEq

structure MemoryState (ι : Type) where
  record : OAuthSession
  stored : Bool := true
  codeIndex : String → Bool := fun _ => false
  pc : ι → MemoryPc := fun _ => .start
  now : Int := 0
  history : CodeHistory ι := {}

inductive OAuthEvent (ι : Type) where
  | tick (d : Nat)
  | cleanup
  | abort (i : ι)
  /-- one step of request `i`; `kyc` is what a completion finds for its user -/
  | step (i : ι) (kyc : Bool)

namespace MemoryState

variable {ι : Type} [DecidableEq ι] (W : OAuthWorkload ι) (s : MemoryState ι)

def init : MemoryState ι := { record := W.session }

def goto (i : ι) (pc : MemoryPc) : MemoryState ι := { s with pc := Function.update s.pc i pc }

/-- Only the record's own code leaves the index. -/
def deleteSession : MemoryState ι :=
  if s.stored then
    { s with
      stored := false
      codeIndex := if s.record.code != "" then Function.update s.codeIndex s.record.code false
        else s.codeIndex }
  else s

/-- `GetSession`, and where the request goes when there is one. -/
def getSession (i : ι) (next : Option MemoryPc) : MemoryState ι :=
  if s.stored = false then s.goto i .finished
  else if s.record.expiresAt < s.now then s.deleteSession.goto i .finished
  else s.goto i (next.getD .finished)

/-- The locked section of `SetCode`. -/
def mint (i : ι) (userDID : String) (kyc : Bool) : MemoryState ι :=
  { s with
    record := s.record.setCode (W.code i) userDID kyc s.now
    codeIndex := Function.update s.codeIndex (W.code i) true
    history := { s.history with minted := Function.update s.history.minted i (some s.now) } }.goto
    i .finished

/-- The rest of a completion, the same in both handlers. -/
def stepSetCode (i : ι) (kyc : Bool) : Option (MemoryState ι) :=
  match s.pc i with
  | .setLoad userDID => some (s.goto i (if s.stored then .setWrite userDID else .finished))
  | .setWrite userDID => some (s.mint W i userDID kyc)
  | _ => none

/-- `handleOAuthCallback`. It does not look whether the session has a code. -/
def stepCallback (i : ι) (kyc : Bool) (authSessionID : String) (verified : Option String) :
    Option (MemoryState ι) :=
  match s.pc i with
  | .start => some (s.getSession i ((callbackUser s.record authSessionID verified).map .setLoad))
  | _ => s.stepSetCode W i kyc

/-- `handleOAuthSilentComplete`. -/
def stepSilent (i : ι) (kyc : Bool) (caller : String) : Option (MemoryState ι) :=
  match s.pc i with
  | .start => some (s.getSession i (some .check))
  | .check =>
      some (s.goto i
        (if s.record.code = "" then
          ((silentUser W.config s.record caller).map .setLoad).getD .finished
        else .finished))
  | _ => s.stepSetCode W i kyc

/-- `handleOAuthToken`. -/
def stepToken (i : ι) (req : OAuthTokenRequest) : Option (MemoryState ι) :=
  match s.pc i with
  | .start =>
      some (s.goto i
        (if req.wellFormed && s.codeIndex req.code then .load s.now else .finished))
  | .load t =>
      some (s.getSession i
        (if req.matchesSession W.config s.record then some (.expiry t) else none))
  | .expiry t =>
      some (s.goto i (if s.record.codeExpires < s.now then .finished else .markIndex t))
  | .markIndex t => some (s.goto i (if s.codeIndex req.code then .markLoad t else .finished))
  | .markLoad t => some (s.goto i (if s.stored then .mark t else .finished))
  | .mark t =>
      if s.record.codeUsed then some (s.goto i .finished)
      else some ({ s with record := s.record.markUsed }.goto i (.access t))
  | .access t => some (s.goto i (.refresh t s.record.userDID))
  | .refresh t accessUser => some (s.goto i (.save t accessUser s.record.userDID))
  | .save t accessUser refreshUser =>
      some ({ s with
        history := { s.history with
          successes := ⟨i, t, accessUser, refreshUser, s.record.userDID⟩ ::
            s.history.successes } }.goto i .finished)
  | _ => none

def step : OAuthEvent ι → Option (MemoryState ι)
  | .tick d => some { s with now := s.now + d }
  | .cleanup => if s.record.expiresAt < s.now then some s.deleteSession else none
  | .abort i => some (s.goto i .finished)
  | .step i kyc =>
      match W.request i with
      | .callback authSessionID verified => s.stepCallback W i kyc authSessionID verified
      | .silent caller => s.stepSilent W i kyc caller
      | .token req => s.stepToken W i req

end MemoryState

/-! ## What every run keeps -/

/-- Past `MarkCodeUsed`. -/
def MemoryPc.pastMark : MemoryPc → Bool
  | .access _ => true
  | .refresh _ _ => true
  | .save _ _ _ => true
  | _ => false

/-- No other request can complete the session. -/
def OAuthWorkload.Sole {ι : Type} (W : OAuthWorkload ι) (j : ι) : Prop :=
  ∀ k, W.completes k ≠ none → k = j

/-- Completion `j` has minted its code, and if it is the only one, the code was young
enough at the time. -/
def CodeHistory.InTime {ι : Type} (W : OAuthWorkload ι) (history : CodeHistory ι) (j : ι)
    (t : Int) : Prop :=
  ∃ t₀, history.minted j = some t₀ ∧ (W.Sole j → t ≤ t₀ + oauthCodeTTL)

open MemoryState

namespace MemoryState

variable {ι : Type} {W : OAuthWorkload ι} {s s' : MemoryState ι}

/-- What a request knows when it has come to its step. -/
def PcSound (W : OAuthWorkload ι) (now : Int) (history : CodeHistory ι) (i : ι) : MemoryPc → Prop
  | .start => True
  | .check => True
  | .finished => True
  | .setLoad userDID => W.completes i = some userDID
  | .setWrite userDID => W.completes i = some userDID
  | .load t => t ≤ now ∧ ∃ req j, W.request i = .token req ∧ req.wellFormed = true ∧
      req.code = W.code j ∧ history.minted j ≠ none
  | .expiry t => t ≤ now ∧ ∃ j, W.redeems i = some (W.code j) ∧ history.minted j ≠ none
  | .markIndex t => ∃ j, W.redeems i = some (W.code j) ∧ history.InTime W j t
  | .markLoad t => ∃ j, W.redeems i = some (W.code j) ∧ history.InTime W j t
  | .mark t => ∃ j, W.redeems i = some (W.code j) ∧ history.InTime W j t
  | .access t => ∃ j, W.redeems i = some (W.code j) ∧ history.InTime W j t
  | .refresh t accessUser => ∃ j, W.redeems i = some (W.code j) ∧ history.InTime W j t ∧
      (W.Sole j → W.completes j = some accessUser)
  | .save t accessUser refreshUser => ∃ j, W.redeems i = some (W.code j) ∧
      history.InTime W j t ∧
      (W.Sole j → W.completes j = some accessUser ∧ W.completes j = some refreshUser)

/-- The invariant of every run. -/
structure Sound (W : OAuthWorkload ι) (s : MemoryState ι) : Prop where
  parameters : s.record.SameParameters W.session
  index : ∀ code, s.codeIndex code = true → ∃ j, code = W.code j ∧ s.history.minted j ≠ none
  minted : ∀ j t, s.history.minted j = some t → s.pc j = .finished ∧
    (W.Sole j → W.completes j = some s.record.userDID ∧ s.record.codeExpires = t + oauthCodeTTL)
  completed : ∀ j, s.history.minted j ≠ none → W.completes j ≠ none
  pcs : ∀ i, PcSound W s.now s.history i (s.pc i)
  marked : ∀ i, (s.pc i).pastMark = true → s.record.codeUsed = true ∧ s.history.successes = [] ∧
    ∀ k, (s.pc k).pastMark = true → k = i
  succeeded : s.history.successes ≠ [] → s.record.codeUsed = true ∧
    s.history.successes.length ≤ 1 ∧ ∀ k, (s.pc k).pastMark = false
  users : ∀ x ∈ s.history.successes, ∃ j, W.redeems x.request = some (W.code j) ∧
    s.history.InTime W j x.presentedAt ∧
    (W.Sole j → W.completes j = some x.accessUser ∧ W.completes j = some x.refreshUser ∧
      W.completes j = some x.savedUser)

variable {history history' : CodeHistory ι} {j i : ι} {t : Int} {pc : MemoryPc} {userDID : String}
  {kyc : Bool}

theorem InTime.mono (h : ∀ j t, history.minted j = some t → history'.minted j = some t)
    (hj : history.InTime W j t) : history'.InTime W j t := by
  obtain ⟨t₀, hminted, htime⟩ := hj
  exact ⟨t₀, h j t₀ hminted, htime⟩

theorem minted_mono (h : ∀ j t, history.minted j = some t → history'.minted j = some t)
    (hj : history.minted j ≠ none) : history'.minted j ≠ none := by
  obtain ⟨t, ht⟩ := Option.ne_none_iff_exists'.mp hj
  rw [h j t ht]
  exact Option.some_ne_none t

/-- What a request knows stays true: nothing is unminted, and time goes on. -/
theorem PcSound.mono {now now' : Int}
    (hminted : ∀ j t, history.minted j = some t → history'.minted j = some t) (hnow : now ≤ now')
    (h : PcSound W now history i pc) : PcSound W now' history' i pc := by
  cases pc with
  | load t =>
    obtain ⟨ht, req, j, hreq, hformed, hcode, hj⟩ := h
    exact ⟨ht.trans hnow, req, j, hreq, hformed, hcode, minted_mono hminted hj⟩
  | expiry t =>
    obtain ⟨ht, j, hredeems, hj⟩ := h
    exact ⟨ht.trans hnow, j, hredeems, minted_mono hminted hj⟩
  | refresh | save =>
    obtain ⟨j, hredeems, hj, huser⟩ := h
    exact ⟨j, hredeems, InTime.mono hminted hj, huser⟩
  | start | check | finished => trivial
  | setLoad | setWrite => exact h
  | markIndex | markLoad | mark | access =>
    obtain ⟨j, hredeems, hj⟩ := h
    exact ⟨j, hredeems, InTime.mono hminted hj⟩

theorem sound_init (W : OAuthWorkload ι) : Sound W (init W) where
  parameters := ⟨rfl, rfl, rfl, rfl⟩
  index code h := by cases h
  minted j t h := by cases h
  completed j h := absurd rfl h
  pcs i := trivial
  marked i h := by cases h
  succeeded h := absurd rfl h
  users x h := by cases h

theorem Sound.tick (hs : Sound W s) (d : Nat) : Sound W { s with now := s.now + d } where
  __ := hs
  pcs i := (hs.pcs i).mono (fun _ _ h => h) (Int.le_add_of_nonneg_right (Int.natCast_nonneg d))

theorem Sound.deleteSession (hs : Sound W s) : Sound W s.deleteSession := by
  unfold MemoryState.deleteSession
  split
  · refine ⟨hs.parameters, fun code hcode => ?_, hs.minted, hs.completed, hs.pcs, hs.marked,
      hs.succeeded, hs.users⟩
    apply hs.index code
    simp only at hcode
    split at hcode
    · by_cases heq : code = s.record.code
      · subst heq
        simp at hcode
      · rwa [update_of_ne heq] at hcode
    · exact hcode
  · exact hs

/-- At most one token request of the session succeeds, whatever completes it. -/
theorem Sound.once (hs : Sound W s) : s.history.successes.length ≤ 1 := by
  by_cases hempty : s.history.successes = []
  · simp [hempty]
  · exact (hs.succeeded hempty).2.1

/-- Where the completion behind a code is the only one, the codes are safe. -/
theorem Sound.safe (hs : Sound W s) (hone : W.OneCompletion) : s.history.Safe W where
  once := hs.once
  bound x hx := by
    obtain ⟨j, hredeems, ⟨t₀, hminted, hage⟩, husers⟩ := hs.users x hx
    obtain ⟨req, hreq, hformed, hmatches, hcode⟩ := redeems_eq_some.mp hredeems
    obtain ⟨hclient, hredirect⟩ := OAuthTokenRequest.of_matchesSession hmatches
    have hcompletes := hs.completed j (by simp [hminted])
    have hsole : W.Sole j := fun k hk => hone x.request j k hredeems hcompletes hk
    obtain ⟨user, huser⟩ := Option.ne_none_iff_exists'.mp hcompletes
    obtain ⟨haccess, hrefresh, hsaved⟩ := husers hsole
    rw [huser] at haccess hrefresh hsaved
    cases haccess
    exact ⟨req, j, t₀, x.accessUser, hreq, hclient, hredirect, hcode, hminted, hage hsole, huser,
      rfl, (Option.some.inj hrefresh).symm, (Option.some.inj hsaved).symm⟩

theorem Sound.at_pc (hs : Sound W s) (hpc : s.pc i = pc) : PcSound W s.now s.history i pc :=
  hpc ▸ hs.pcs i

theorem Sound.ne_of_minted (hs : Sound W s) (hnot : s.pc i ≠ .finished)
    (hj : s.history.minted j = some t) : j ≠ i := by
  rintro rfl
  exact hnot (hs.minted j t hj).1

variable [DecidableEq ι]

@[simp] theorem goto_pc (s : MemoryState ι) (i : ι) (pc : MemoryPc) :
    (s.goto i pc).pc = update s.pc i pc := rfl

theorem Sound.minted_update (hs : Sound W s) (hnot : s.pc i ≠ .finished) (pc : MemoryPc)
    (hj : s.history.minted j = some t) : update s.pc i pc j = .finished := by
  rw [update_of_ne (hs.ne_of_minted hnot hj)]
  exact (hs.minted j t hj).1

theorem pastMark_update (hmark : pc.pastMark = true → (s.pc i).pastMark = true) {k : ι}
    (h : (update s.pc i pc k).pastMark = true) : (s.pc k).pastMark = true := by
  by_cases hki : k = i
  · subst hki
    exact hmark (by simpa using h)
  · rwa [update_of_ne hki] at h

theorem Sound.marked_update (hs : Sound W s)
    (hmark : pc.pastMark = true → (s.pc i).pastMark = true) (k : ι)
    (hk : (update s.pc i pc k).pastMark = true) :
    s.record.codeUsed = true ∧ s.history.successes = [] ∧
      ∀ k', (update s.pc i pc k').pastMark = true → k' = k := by
  obtain ⟨hused, hnone, hunique⟩ := hs.marked k (pastMark_update hmark hk)
  exact ⟨hused, hnone, fun k' hk' => hunique k' (pastMark_update hmark hk')⟩

theorem Sound.succeeded_update (hs : Sound W s)
    (hmark : pc.pastMark = true → (s.pc i).pastMark = true) (hne : s.history.successes ≠ []) :
    s.record.codeUsed = true ∧ s.history.successes.length ≤ 1 ∧
      ∀ k, (update s.pc i pc k).pastMark = false := by
  obtain ⟨hused, hlength, hpast⟩ := hs.succeeded hne
  refine ⟨hused, hlength, fun k => ?_⟩
  by_contra h
  cases (hpast k).symm.trans (pastMark_update hmark (Bool.not_eq_false _ |>.mp h))

/-- A request goes on to a step it is sound at. It has not marked a code by that. -/
theorem Sound.goto (hs : Sound W s) (hpc : PcSound W s.now s.history i pc)
    (hfinished : s.pc i = .finished → pc = .finished)
    (hmark : pc.pastMark = true → (s.pc i).pastMark = true) : Sound W (s.goto i pc) where
  __ := hs
  minted j t hj := by
    refine ⟨?_, (hs.minted j t hj).2⟩
    by_cases hij : j = i
    · subst hij
      simpa using hfinished (hs.minted j t hj).1
    · simpa [hij] using (hs.minted j t hj).1
  pcs := (forall_update_iff _ (PcSound W _ _)).mpr ⟨hpc, fun k _ => hs.pcs k⟩
  marked := hs.marked_update hmark
  succeeded := hs.succeeded_update hmark

theorem Sound.finish (hs : Sound W s) (i : ι) : Sound W (s.goto i .finished) :=
  hs.goto trivial (fun _ => rfl) nofun

/-- A request goes on if a check of it holds, and is over otherwise. -/
theorem Sound.check (hs : Sound W s) {p : Prop} [Decidable p] (hnot : s.pc i ≠ .finished)
    (hpc : p → PcSound W s.now s.history i pc) (hpast : pc.pastMark = false) :
    Sound W (s.goto i (if p then pc else .finished)) := by
  split
  · rename_i hp
    exact hs.goto (hpc hp) (fun h => absurd h hnot) fun h => by cases hpast.symm.trans h
  · exact hs.finish i

theorem Sound.mint (hs : Sound W s) (hpc : s.pc i = .setWrite userDID) (kyc : Bool) :
    Sound W (s.mint W i userDID kyc) := by
  have huser : W.completes i = some userDID := hs.at_pc hpc
  have hnot : s.pc i ≠ .finished := by rw [hpc]; nofun
  have hminted : ∀ j t, s.history.minted j = some t →
      update s.history.minted i (some s.now) j = some t := by
    intro j t hj
    rw [update_of_ne (hs.ne_of_minted hnot hj)]
    exact hj
  refine ⟨hs.parameters.setCode _ _ _ _, ?_, ?_, ?_, ?_, hs.marked_update nofun,
    hs.succeeded_update nofun, ?_⟩
  · intro code hcode
    by_cases heq : code = W.code i
    · refine ⟨i, heq, ?_⟩
      simp [MemoryState.mint, MemoryState.goto]
    · have hold : s.codeIndex code = true := by
        simpa [MemoryState.mint, MemoryState.goto, heq] using hcode
      obtain ⟨j, hj, hmint⟩ := hs.index code hold
      exact ⟨j, hj, minted_mono hminted hmint⟩
  · intro j t hj
    by_cases hji : j = i
    · subst hji
      obtain rfl : s.now = t := by simpa [MemoryState.mint, MemoryState.goto] using hj
      exact ⟨by simp [MemoryState.mint], fun _ => ⟨huser, rfl⟩⟩
    · have hold : s.history.minted j = some t := by
        simpa [MemoryState.mint, MemoryState.goto, hji] using hj
      refine ⟨hs.minted_update hnot .finished hold, fun hsole => ?_⟩
      exact absurd (hsole i (by simp [huser])).symm hji
  · intro j hj
    by_cases hji : j = i
    · subst hji
      simp [huser]
    · exact hs.completed j (by simpa [MemoryState.mint, MemoryState.goto, hji] using hj)
  · exact (forall_update_iff _ (PcSound W _ _)).mpr
      ⟨trivial, fun k _ => (hs.pcs k).mono hminted le_rfl⟩
  · intro x hx
    obtain ⟨j, hredeems, htime, hall⟩ := hs.users x hx
    exact ⟨j, hredeems, InTime.mono hminted htime, hall⟩

theorem Sound.mark (hs : Sound W s) (hpc : s.pc i = .mark t) (hunused : s.record.codeUsed = false) :
    Sound W ({ s with record := s.record.markUsed }.goto i (.access t)) := by
  have hnone : ∀ k, (s.pc k).pastMark = false := by
    intro k
    by_contra h
    have := (hs.marked k (by simpa using h)).1
    rw [hunused] at this
    cases this
  have hempty : s.history.successes = [] := by
    by_contra h
    have := (hs.succeeded h).1
    rw [hunused] at this
    cases this
  refine ⟨hs.parameters.markUsed, hs.index, ?_, hs.completed,
    (forall_update_iff _ (PcSound W _ _)).mpr ⟨(hs.at_pc hpc :), fun k _ => hs.pcs k⟩, ?_,
    ?_, hs.users⟩
  · intro j t' hj
    exact ⟨hs.minted_update (hpc ▸ nofun) _ hj, (hs.minted j t' hj).2⟩
  · intro k hk
    have hki : ∀ k, (update s.pc i (.access t) k).pastMark = true → k = i := by
      intro k hk
      by_contra hki
      rw [update_of_ne hki, hnone k] at hk
      cases hk
    refine ⟨rfl, hempty, fun k' hk' => ?_⟩
    rw [hki k hk, hki k' hk']
  · exact fun hne => absurd hempty hne

theorem Sound.success (hs : Sound W s) {accessUser refreshUser : String}
    (hpc : s.pc i = .save t accessUser refreshUser) :
    Sound W ({ s with
      history := { s.history with
        successes := ⟨i, t, accessUser, refreshUser, s.record.userDID⟩ ::
          s.history.successes } }.goto i .finished) := by
  have hpast : (s.pc i).pastMark = true := by rw [hpc]; rfl
  obtain ⟨hused, hnone, hunique⟩ := hs.marked i hpast
  have hothers : ∀ k, (update s.pc i .finished k).pastMark = false := by
    intro k
    by_cases hki : k = i
    · subst hki
      simp [MemoryPc.pastMark]
    · rw [update_of_ne hki]
      by_contra h
      exact hki (hunique k (by simpa using h))
  obtain ⟨j, hredeems, htime, huser⟩ := hs.at_pc hpc
  refine ⟨hs.parameters, hs.index, ?_, hs.completed,
    (forall_update_iff _ (PcSound W _ _)).mpr
      ⟨trivial, fun k _ => (hs.pcs k).mono (fun _ _ h => h) le_rfl⟩, ?_, ?_, ?_⟩
  · intro j t' hj
    exact ⟨hs.minted_update (hpc ▸ nofun) _ hj, (hs.minted j t' hj).2⟩
  · intro k hk
    exact absurd (hothers k) (by simpa using hk)
  · exact fun _ => ⟨hused, by simp [MemoryState.goto, hnone], hothers⟩
  · intro x hx
    rw [show (MemoryState.goto _ i .finished).history.successes =
      (⟨i, t, accessUser, refreshUser, s.record.userDID⟩ :: s.history.successes : List _) from rfl,
      hnone, List.mem_singleton] at hx
    subst hx
    obtain ⟨t₀, hminted, hage⟩ := htime
    refine ⟨j, hredeems, ⟨t₀, hminted, hage⟩, fun hsole => ?_⟩
    exact ⟨(huser hsole).1, (huser hsole).2, ((hs.minted j t₀ hminted).2 hsole).1⟩

theorem Sound.getSession (hs : Sound W s) {next : Option MemoryPc}
    (hnext : ∀ pc, next = some pc → PcSound W s.now s.history i pc) (hnot : s.pc i ≠ .finished)
    (hpast : ∀ pc, next = some pc → pc.pastMark = false) : Sound W (s.getSession i next) := by
  unfold MemoryState.getSession
  split
  · exact hs.finish i
  · split
    · exact hs.deleteSession.finish i
    · cases next with
      | none => exact hs.finish i
      | some pc =>
        refine hs.goto (hnext pc rfl) (fun h => absurd h hnot) (fun h => ?_)
        rw [Option.getD_some, hpast pc rfl] at h
        cases h

theorem Sound.stepSetCode (hs : Sound W s) (h : s.stepSetCode W i kyc = some s') : Sound W s' := by
  unfold MemoryState.stepSetCode at h
  split at h
  · rename_i userDID hpc
    cases h
    exact hs.check (hpc ▸ nofun) (fun _ => (hs.at_pc hpc :)) rfl
  · rename_i userDID hpc
    cases h
    exact hs.mint hpc kyc
  · cases h

theorem Sound.stepCallback (hs : Sound W s) {authSessionID : String} {verified : Option String}
    (hreq : W.request i = .callback authSessionID verified)
    (h : s.stepCallback W i kyc authSessionID verified = some s') : Sound W s' := by
  unfold MemoryState.stepCallback at h
  split at h
  · rename_i hpc
    cases h
    refine hs.getSession ?_ (hpc ▸ nofun) ?_
    · intro pc hnext
      obtain ⟨userDID, huser, rfl⟩ := Option.map_eq_some_iff.mp hnext
      show W.completes i = some userDID
      rw [callbackUser_congr hs.parameters] at huser
      simpa [completes, hreq] using huser
    · intro pc hnext
      obtain ⟨userDID, -, rfl⟩ := Option.map_eq_some_iff.mp hnext
      rfl
  · exact hs.stepSetCode h

theorem Sound.stepSilent (hs : Sound W s) {caller : String} (hreq : W.request i = .silent caller)
    (h : s.stepSilent W i kyc caller = some s') : Sound W s' := by
  unfold MemoryState.stepSilent at h
  split at h
  · rename_i hpc
    cases h
    refine hs.getSession ?_ (by simp [hpc]) ?_
    · intro pc hnext
      cases hnext
      trivial
    · intro pc hnext
      cases hnext
      rfl
  · rename_i hpc
    cases h
    -- the gates are those of the workload; the code that was looked at may be gone by now
    have hgates : ∀ userDID, silentUser W.config s.record caller = some userDID →
        W.completes i = some userDID := by
      intro userDID huser
      rw [silentUser_congr hs.parameters] at huser
      simpa [completes, hreq] using huser
    cases huser : silentUser W.config s.record caller with
    | none => exact hs.check (by simp [hpc]) (fun _ => trivial) rfl
    | some userDID => exact hs.check (by simp [hpc]) (fun _ => hgates userDID huser) rfl
  · exact hs.stepSetCode h

theorem Sound.stepToken (hs : Sound W s) {req : OAuthTokenRequest} (hreq : W.request i = .token req)
    (h : s.stepToken W i req = some s') : Sound W s' := by
  unfold MemoryState.stepToken at h
  split at h
  all_goals first | cases h | skip
  · -- the index
    rename_i hpc
    refine hs.check (hpc ▸ nofun) (fun hcond => ?_) rfl
    rw [Bool.and_eq_true] at hcond
    obtain ⟨j, hcode, hminted⟩ := hs.index req.code hcond.2
    exact ⟨le_rfl, req, j, hreq, hcond.1, hcode, hminted⟩
  · -- the session, and the checks on it
    rename_i t hpc
    obtain ⟨ht, req', j, hreq', hformed, hcode, hminted⟩ := hs.at_pc hpc
    obtain rfl : req = req' := by simpa [hreq] using hreq'
    refine hs.getSession ?_ (hpc ▸ nofun) ?_
    · intro pc hnext
      split at hnext
      · rename_i hmatches
        cases hnext
        rw [OAuthTokenRequest.matchesSession_congr hs.parameters] at hmatches
        have hredeems : W.redeems i = some (W.code j) :=
          redeems_eq_some.mpr ⟨req, hreq, hformed, hmatches, hcode⟩
        exact ⟨ht, j, hredeems, hminted⟩
      · cases hnext
    · intro pc hnext
      split at hnext <;> cases hnext
      rfl
  · -- the expiry of the record, which is that of the code if nobody else completes
    rename_i t hpc
    obtain ⟨ht, j, hredeems, hminted⟩ := hs.at_pc hpc
    rw [← ite_not]
    refine hs.check (hpc ▸ nofun) (fun hexpires => ?_) rfl
    obtain ⟨t₀, ht₀⟩ := Option.ne_none_iff_exists'.mp hminted
    refine ⟨j, hredeems, t₀, ht₀, fun hsole => ?_⟩
    have := ((hs.minted j t₀ ht₀).2 hsole).2
    omega
  · rename_i t hpc
    exact hs.check (hpc ▸ nofun) (fun _ => (hs.at_pc hpc :)) rfl
  · rename_i t hpc
    exact hs.check (hpc ▸ nofun) (fun _ => (hs.at_pc hpc :)) rfl
  · -- the mark
    rename_i t hpc
    split at h
    · cases h
      exact hs.finish i
    · rename_i hunused
      cases h
      exact hs.mark hpc (by simpa using hunused)
  · -- the reads of the user
    rename_i t hpc
    obtain ⟨j, hredeems, t₀, hminted, hage⟩ := hs.at_pc hpc
    refine hs.goto ?_ (hpc ▸ nofun) (fun _ => by rw [hpc]; rfl)
    exact ⟨j, hredeems, ⟨t₀, hminted, hage⟩, fun hsole => ((hs.minted j t₀ hminted).2 hsole).1⟩
  · rename_i t accessUser hpc
    obtain ⟨j, hredeems, ⟨t₀, hminted, hage⟩, huser⟩ := hs.at_pc hpc
    refine hs.goto ?_ (hpc ▸ nofun) (fun _ => by rw [hpc]; rfl)
    exact ⟨j, hredeems, ⟨t₀, hminted, hage⟩,
      fun hsole => ⟨huser hsole, ((hs.minted j t₀ hminted).2 hsole).1⟩⟩
  · rename_i t accessUser refreshUser hpc
    exact hs.success hpc

theorem Sound.step (hs : Sound W s) {e : OAuthEvent ι} (h : s.step W e = some s') : Sound W s' := by
  cases e with
  | tick d =>
    cases h
    exact hs.tick d
  | cleanup =>
    simp only [MemoryState.step] at h
    split at h
    · cases h
      exact hs.deleteSession
    · cases h
  | abort i =>
    cases h
    exact hs.finish i
  | step i kyc =>
    simp only [MemoryState.step] at h
    split at h
    · rename_i hreq
      exact hs.stepCallback hreq h
    · rename_i hreq
      exact hs.stepSilent hreq h
    · rename_i hreq
      exact hs.stepToken hreq h

/-! ## The run that breaks it -/

theorem goto_goto (s : MemoryState ι) (i : ι) (pc pc' : MemoryPc) :
    (s.goto i pc).goto i pc' = s.goto i pc' := by
  simp [goto]

/-- The steps of a completion up to `SetCode`. -/
def prepare (W : OAuthWorkload ι) (i : ι) : List (OAuthEvent ι) :=
  match W.request i with
  | .silent _ => [.step i false, .step i false]
  | _ => [.step i false]

/-- The session is in the store and not expired. -/
structure Live (W : OAuthWorkload ι) (s : MemoryState ι) : Prop where
  parameters : s.record.SameParameters W.session
  stored : s.stored = true
  unexpired : ¬ s.record.expiresAt < s.now

theorem Live.getSession (hs : Live W s) (i : ι) (pc : MemoryPc) :
    s.getSession i (some pc) = s.goto i pc := by
  simp [MemoryState.getSession, hs.stored, hs.unexpired]

theorem Live.goto (hs : Live W s) (i : ι) (pc : MemoryPc) : Live W (s.goto i pc) :=
  ⟨hs.parameters, hs.stored, hs.unexpired⟩

/-- A completion does not extend the session, so it is live as long as it was. -/
theorem Live.mint (hs : Live W s) (i : ι) (userDID : String) {d : Nat}
    (hd : s.now + d ≤ s.record.expiresAt) :
    Live W { s.mint W i userDID false with now := s.now + d } :=
  ⟨hs.parameters.setCode _ _ _ _, hs.stored, Int.not_lt.mpr hd⟩

/-- A completion that finds no code yet comes to its `SetCode`. -/
theorem prepare_run (hs : Live W s) (hcode : s.record.code = "") (hi : W.completes i = some userDID)
    (hpc : s.pc i = .start) :
    run (step W) s (prepare W i) = some (s.goto i (.setLoad userDID)) := by
  unfold completes at hi
  unfold prepare
  split at hi
  · rename_i authSessionID verified hreq
    rw [← callbackUser_congr hs.parameters] at hi
    simp [step, hreq, stepCallback, hpc, hi, hs.getSession]
  · rename_i caller hreq
    rw [← silentUser_congr hs.parameters] at hi
    have hrecord : (s.goto i .check).record = s.record := rfl
    simp [step, hreq, stepSilent, hpc, hs.getSession, hrecord, hcode, hi,
      goto_goto]
  · cases hi

theorem mint_run (hs : Live W s) (hi : W.completes i = some userDID)
    (hpc : s.pc i = .setLoad userDID) (d : Nat) :
    run (step W) s [.step i false, .step i false, .tick d] =
      some { s.mint W i userDID false with now := s.now + d } := by
  unfold completes at hi
  split at hi
  · rename_i hreq
    simp [step, hreq, stepCallback, stepSetCode, hpc, hs.stored,
      mint, goto]
  · rename_i hreq
    simp [step, hreq, stepSilent, stepSetCode, hpc, hs.stored,
      mint, goto]
  · cases hi

/-- A token request that runs alone succeeds, for the user of the record. -/
theorem redeem_run (hs : Live W s) {r : ι} {code : String} (hr : W.redeems r = some code)
    (hindex : s.codeIndex code = true) (hexpires : ¬ s.record.codeExpires < s.now)
    (hunused : s.record.codeUsed = false) (hpc : s.pc r = .start) :
    ∃ s', run (step W) s (List.replicate 9 (.step r false)) = some s' ∧
      s'.history = { s.history with
        successes := ⟨r, s.now, s.record.userDID, s.record.userDID, s.record.userDID⟩ ::
          s.history.successes } := by
  obtain ⟨req, hreq, hformed, hmatches, rfl⟩ := redeems_eq_some.mp hr
  obtain ⟨hparameters, hstored, hunexpired⟩ := hs
  rw [← OAuthTokenRequest.matchesSession_congr hparameters] at hmatches
  apply Option.map_eq_some_iff.mp
  simp [List.replicate, step, hreq, stepToken, getSession,
    goto, OAuthSession.markUsed, hpc, hformed, hindex, hmatches, hstored, hunexpired,
    hexpires, hunused]

/-- Two completions, and a token request with the code of the first: it presents the
code after its lifetime, and the second completion has extended that. -/
theorem exists_unsafe_run {r : ι} (hr : W.redeems r = some (W.code i)) (hi : W.completes i ≠ none)
    (hj : W.completes j ≠ none) (hij : j ≠ i) :
    ∃ events s, run (step W) (init W) events = some s ∧ ¬ s.history.Safe W := by
  obtain ⟨user, huser⟩ := Option.ne_none_iff_exists'.mp hi
  obtain ⟨user', huser'⟩ := Option.ne_none_iff_exists'.mp hj
  have hri : r ≠ i := ne_of_completes_redeems huser hr
  have hrj : r ≠ j := ne_of_completes_redeems huser' hr
  -- both completions look for the session before either of them writes
  have hlive₀ : Live W (init W) :=
    ⟨⟨rfl, rfl, rfl, rfl⟩, rfl, by show ¬ oauthSessionTTL < 0; decide⟩
  have hrun₀ := prepare_run hlive₀ rfl huser rfl
  obtain ⟨s₁, hs₁⟩ : ∃ s₁, s₁ = (init W).goto i (.setLoad user) := ⟨_, rfl⟩
  have hlive₁ : Live W s₁ := hs₁ ▸ hlive₀.goto i _
  have hrun₁ := prepare_run hlive₁ (by rw [hs₁]; rfl) huser' (by simp [hs₁, hij, init])
  obtain ⟨s₂, hs₂⟩ : ∃ s₂, s₂ = s₁.goto j (.setLoad user') := ⟨_, rfl⟩
  have hlive₂ : Live W s₂ := hs₂ ▸ hlive₁.goto j _
  have hrun₂ := mint_run hlive₂ huser (by simp [hs₂, hs₁, Ne.symm hij]) 300000000
  -- the first code is minted, and its lifetime passes before the second is
  obtain ⟨s₃, hs₃⟩ : ∃ s₃ : MemoryState ι, s₃ = { s₂.mint W i user false with
    now := s₂.now + (300000000 : Nat) } := ⟨_, rfl⟩
  have hlive₃ : Live W s₃ := hs₃ ▸ hlive₂.mint i user <| by
    rw [hs₂, hs₁]
    show 0 + 300000000 ≤ oauthSessionTTL
    decide
  have hrun₃ := mint_run hlive₃ huser' (by simp [hs₃, hs₂, mint, hij]) 1
  obtain ⟨s₄, hs₄⟩ : ∃ s₄ : MemoryState ι, s₄ = { s₃.mint W j user' false with
    now := s₃.now + (1 : Nat) } := ⟨_, rfl⟩
  have hnow₄ : s₄.now = 300000001 := by rw [hs₄, hs₃, hs₂, hs₁]; rfl
  have hlive₄ : Live W s₄ := hs₄ ▸ hlive₃.mint j user' <| by
    rw [hs₃, hs₂, hs₁]
    show 0 + 300000000 + 1 ≤ oauthSessionTTL
    decide
  -- the first code is still in the index, and the record has the expiry of the second
  have hindex : s₄.codeIndex (W.code i) = true := by
    have hcode : W.code i ≠ W.code j := fun heq => hij (W.code_injective heq).symm
    simp [hs₄, hs₃, mint, goto, hcode]
  have hexpires : ¬ s₄.record.codeExpires < s₄.now := by
    rw [hnow₄, hs₄, hs₃, hs₂, hs₁]
    show ¬ (0 + 300000000 + oauthCodeTTL < 300000001)
    decide
  obtain ⟨s₅, hrun₄, hhistory⟩ := redeem_run hlive₄ hr hindex hexpires
    (by rw [hs₄, hs₃, hs₂, hs₁]; rfl)
    (by simp [hs₄, hs₃, hs₂, hs₁, mint, init, hri, hrj])
  refine ⟨_, s₅, run_trans (hs₁ ▸ hrun₀) (run_trans (hs₂ ▸ hrun₁) (run_trans (hs₃ ▸ hrun₂)
    (run_trans (hs₄ ▸ hrun₃) hrun₄))), ?_⟩
  · intro hsafe
    obtain ⟨req, k, t, -, hreq, -, -, hcode, hminted, hage, -⟩ := hsafe.bound
      ⟨r, s₄.now, s₄.record.userDID, s₄.record.userDID, s₄.record.userDID⟩ (by simp [hhistory])
    -- the code presented is that of `i`, which was minted at the start
    obtain rfl : i = k := eq_of_redeems hr hreq hcode
    have htime : s₅.history.minted i = some 0 := by
      simp [hhistory, hs₄, hs₃, hs₂, hs₁, mint, goto, Ne.symm hij, init]
    obtain rfl : (0 : Int) = t := by simpa [htime] using hminted
    have hlate : s₄.now ≤ 0 + oauthCodeTTL := hage
    rw [hnow₄] at hlate
    revert hlate
    decide

/-- In memory, the authorization codes of a session are safe along every run exactly if
no second request can complete a session one of whose codes can be redeemed. -/
theorem memory_safe_iff (W : OAuthWorkload ι) :
    (∀ events s, run (step W) (init W) events = some s → s.history.Safe W) ↔
      W.OneCompletion := by
  constructor
  · intro hall r i j hr hi hj
    by_contra hij
    obtain ⟨events, s, hrun, hunsafe⟩ := exists_unsafe_run hr hi hj hij
    exact hunsafe (hall events s hrun)
  · intro hone events s hrun
    have hsound : Sound W s :=
      run_invariant (I := Sound W) (fun _ _ _ hs h => hs.step h) (sound_init W) hrun
    exact hsound.safe hone

end MemoryState

end PrivacySuite.Server
