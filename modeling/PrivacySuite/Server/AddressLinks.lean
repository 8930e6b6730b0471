import PrivacySuite.Concurrency.Runs
import PrivacySuite.Server.SendAuthorization

/-!
# Links between users and Ethereum addresses

The two routes that write `eth_address_links`: the challenge handlers of
`internal/server/eth_link.go`, and `processRawTransaction`
(`internal/server/jsonrpc_processor.go`), which links the sender of a transaction it has
forwarded. Signature checking is on, and `recover` is the signature library: the address
that signed a message.

`EarnedBy` says what gives a user a link, in terms of the request and of the challenges
issued and named so far. `address_links_iff` says along which runs every active link has
been earned, and that an unlinked address stays so.
-/

namespace PrivacySuite.Server

open Go Concurrency List

/-! ## Addresses and signatures -/

def addressDigits (address : String) : List Char :=
  match address.toList with
  | '0' :: 'x' :: digits => digits
  | '0' :: 'X' :: digits => digits
  | digits => digits

/-- `auth.NormalizeAddress`, for a valid address. -/
def normalizeLinkAddress (address : String) : String :=
  toLower (String.ofList ('0' :: 'x' :: addressDigits address))

/-- `db.isValidEthAddress`. -/
def isValidEthAddress (address : String) : Bool :=
  match address.toList with
  | '0' :: 'x' :: digits => digits.length == 40 && isHexText digits
  | '0' :: 'X' :: digits => digits.length == 40 && isHexText digits
  | _ => false

/-- `auth.GenerateLinkMessage`. -/
def generateLinkMessage (did nonce : String) : String :=
  "Link Ethereum address to DID\n\nI authorize linking this Ethereum address to my " ++
    "decentralized identity.\n\nDID: " ++ did ++ "\nNonce: " ++ nonce ++
    "\n\nThis signature proves ownership of this Ethereum address."

/-- The signature library and the lifetime of a challenge. -/
structure LinkConfig where
  recover : (message signature : String) → Option String
  ttl : Int

/-- Addresses are compared up to case. -/
def LinkConfig.verifyAddressOwnership (cfg : LinkConfig) (claimed message signature : String) :
    Bool :=
  (cfg.recover message signature).any fun recovered => equalFold claimed recovered

/-! ## The table and the challenges -/

inductive LinkType where
  | user
  | system

structure LinkRow where
  linkType : LinkType
  signature : String := ""
  revoked : Bool := false

structure LinkChallenge where
  did : String
  nonce : String
  message : String
  createdAt : Int

/-- The rows by user and address, and the pending challenges by nonce. `issued` and
`named` are history: the challenges ever issued, and the nonces ever presented. -/
structure LinkState where
  links : String → String → Option LinkRow := fun _ _ => none
  challenges : String → Option LinkChallenge := fun _ => none
  now : Int := 0
  issued : List LinkChallenge := []
  named : List String := []

/-- What the node answered a forwarded transaction: whether forwarding failed, the HTTP
status, and the body if it is JSON. -/
structure NodeAnswer where
  failed : Bool := false
  status : Nat := 200
  body : Option Json

/-- Decoding the `error` member: a pointer to a struct with a `message`. -/
def intoErrorPointer (_current : Bool) : Json → Option Bool
  | .null => some false
  | .obj entries => (structField intoString "" entries "message").map fun _ => true
  | _ => none

/-- `nodeAccepted`: a result that is a text, and no error. -/
def NodeAnswer.accepted (answer : NodeAnswer) : Bool :=
  !answer.failed && answer.status == 200 &&
    match answer.body with
    | some (.obj entries) =>
        (structField intoString "" entries "result").any (· != "") &&
          (structField intoErrorPointer false entries "error").any (!·)
    | _ => false

/-- A request. `rawSend` comes with the processor as it is at the time. -/
inductive LinkEvent where
  | challenge (did nonce : String)
  | verify (did nonce address signature : String)
  | unlink (did address : String)
  | rawSend (p : Processor) (scope : Option String) (req : ProcessRequest) (answer : NodeAnswer)
  | tick (d : Nat)

/-- The sender `processRawTransaction` links: of a transaction that passed the gates, was
forwarded and answered with status 200. -/
def linkedSender (p : Processor) (scope : Option String) (req : ProcessRequest)
    (answer : NodeAnswer) : Option String :=
  match processRawTransaction p scope req, decodeRawRequest p req with
  | .ok _, .ok (_, _, tx) =>
      if !answer.failed && answer.status == 200 && tx.fromAddr != "" && req.userID != "" &&
          isValidEthAddress tx.fromAddr then
        some (toLower tx.fromAddr)
      else none
  | _, _ => none

namespace LinkState

variable (cfg : LinkConfig) (s : LinkState)

def setRow (did address : String) (row : LinkRow) : LinkState :=
  { s with links := Function.update s.links did (Function.update (s.links did) address (some row)) }

/-- A revoked row is left alone. -/
def linkEthAddress (did address signature : String) : LinkState :=
  match s.links did address with
  | none => s.setRow did address { linkType := .user, signature }
  | some row =>
      if row.revoked then s else s.setRow did address { row with linkType := .user, signature }

/-- The insert of `SystemLinkEthAddress`: any row is left alone. -/
def systemLinkEthAddress (did address : String) : LinkState :=
  match s.links did address with
  | none => s.setRow did address { linkType := .system }
  | some _ => s

def revokeEthAddressLink (did address : String) : LinkState :=
  match s.links did address with
  | none => s
  | some row => s.setRow did address { row with revoked := true }

/-- The challenge, if it is there and young enough. -/
def getChallenge (nonce : String) : Option LinkChallenge :=
  (s.challenges nonce).filter fun challenge => !decide (cfg.ttl < s.now - challenge.createdAt)

/-- The challenge is gone after it was looked up, whatever came of it. -/
def consume (nonce : String) : LinkState :=
  { s with
    challenges := Function.update s.challenges nonce none
    named := nonce :: s.named }

/-- `handleEthLinkVerify`, once the challenge has been taken. -/
def verify (did nonce address signature : String) : LinkState :=
  match s.getChallenge cfg nonce with
  | none => s.consume nonce
  | some challenge =>
      if challenge.did = did ∧ isHexAddress address = true ∧
          cfg.verifyAddressOwnership (normalizeLinkAddress address) challenge.message signature =
            true then
        (s.consume nonce).linkEthAddress did (normalizeLinkAddress address) signature
      else s.consume nonce

/-- A nonce nobody has issued or presented. -/
def IsFresh (nonce : String) : Prop :=
  nonce ∉ s.issued.map (·.nonce) ∧ nonce ∉ s.named

instance (nonce : String) : Decidable (s.IsFresh nonce) := inferInstanceAs (Decidable (_ ∧ _))

def challenge (did nonce : String) : LinkState :=
  { s with
    challenges := Function.update s.challenges nonce
      (some ⟨did, nonce, generateLinkMessage did nonce, s.now⟩)
    issued := ⟨did, nonce, generateLinkMessage did nonce, s.now⟩ :: s.issued }

/-- One request. The identity of a link request is not empty. -/
def step : LinkEvent → Option LinkState
  | .challenge did nonce =>
      if did = "" then some s else if s.IsFresh nonce then some (s.challenge did nonce) else none
  | .verify did nonce address signature =>
      if did = "" then some s else some (s.verify cfg did nonce address signature)
  | .unlink did address =>
      if did = "" ∨ address = "" then some s
      else some (s.revokeEthAddressLink did (toLower address))
  | .rawSend p scope req answer =>
      match linkedSender p scope req answer with
      | none => some s
      | some address => some (s.systemLinkEthAddress req.userID address)
  | .tick d => some { s with now := s.now + d }

/-! ## The property and the condition -/

def Active (did address : String) : Prop :=
  ∃ row, s.links did address = some row ∧ row.revoked = false

/-- The request earns the user the address: it presents a signature by the address over a
challenge issued to the user, unexpired and never presented before; or it is a raw
transaction signed by the address which the node answered with a hash and no error. -/
def EarnedBy (e : LinkEvent) (did address : String) : Prop :=
  match e with
  | .verify did' nonce address' signature =>
      did' = did ∧ isHexAddress address' = true ∧ normalizeLinkAddress address' = address ∧
      nonce ∉ s.named ∧
      ∃ challenge ∈ s.issued, challenge.nonce = nonce ∧ challenge.did = did ∧
        challenge.message = generateLinkMessage did nonce ∧
        s.now - challenge.createdAt ≤ cfg.ttl ∧
        ∃ signer, cfg.recover challenge.message signature = some signer ∧
          equalFold address signer = true
  | .rawSend p scope req answer =>
      req.userID = did ∧ linkedSender p scope req answer = some address ∧ answer.accepted = true
  | _ => False

/-- The raw send links nobody, or the node accepted the transaction, or there is a row
for user and address already. -/
def Clean (e : LinkEvent) : Prop :=
  match e with
  | .rawSend p scope req answer => ∀ address, linkedSender p scope req answer = some address →
      answer.accepted = true ∨ s.links req.userID address ≠ none
  | _ => True

end LinkState

/-- Some request of the run earned the user the address. -/
def EarnedAlong (cfg : LinkConfig) (events : List LinkEvent) (did address : String) : Prop :=
  ∃ before e after s, events = before ++ e :: after ∧
    run (LinkState.step cfg) {} before = some s ∧ s.EarnedBy cfg e did address

/-- At every moment of the run every active link has been earned. -/
def LinksEarned (cfg : LinkConfig) (events : List LinkEvent) : Prop :=
  ∀ before after s, events = before ++ after → run (LinkState.step cfg) {} before = some s →
    ∀ did address, s.Active did address → EarnedAlong cfg before did address

/-- Every request of the run is clean where it is made. -/
def AllClean (cfg : LinkConfig) (events : List LinkEvent) : Prop :=
  ∀ before e after s, events = before ++ e :: after →
    run (LinkState.step cfg) {} before = some s → s.Clean e

namespace LinkState

variable {cfg : LinkConfig} {s s' : LinkState} {e : LinkEvent}

/-! ## What a request does to the table -/

/-- Whether the row for user and address is revoked, if there is one. -/
def status (s : LinkState) (did address : String) : Option Bool :=
  (s.links did address).map (·.revoked)

variable {did address : String}

theorem active_iff : s.Active did address ↔ s.status did address = some false := by
  unfold Active status
  rw [Option.map_eq_some_iff]

theorem status_eq_none : s.status did address = none ↔ s.links did address = none := by
  unfold status
  rw [Option.map_eq_none_iff]

theorem status_setRow (s : LinkState) (did address : String) (row : LinkRow)
    (did' address' : String) :
    (s.setRow did address row).status did' address' =
      if did' = did ∧ address' = address then some row.revoked else s.status did' address' := by
  unfold setRow status
  by_cases hdid : did' = did
  · subst hdid
    by_cases haddress : address' = address
    · simp [haddress]
    · simp [haddress]
  · simp [hdid]

theorem status_eq_ite (s : LinkState) {did' address' : String} {revoked : Option Bool}
    (h : s.status did address = revoked) :
    s.status did' address' =
      if did' = did ∧ address' = address then revoked else s.status did' address' := by
  split
  · rename_i heq
    rw [heq.1, heq.2, h]
  · rfl

theorem status_of_row {s : LinkState} {did address : String} {row : LinkRow}
    (h : s.links did address = some row) : s.status did address = some row.revoked := by
  simp [status, h]

/-- Either kind of link makes a row that is not there, and keeps a revocation. -/
theorem status_linkEthAddress (s : LinkState) (did address signature did' address' : String) :
    (s.linkEthAddress did address signature).status did' address' =
      if did' = did ∧ address' = address then some ((s.status did address).getD false)
      else s.status did' address' := by
  unfold linkEthAddress
  cases hrow : s.links did address with
  | none => simp [status_setRow, status_eq_none.mpr hrow]
  | some row =>
    by_cases hrevoked : row.revoked = true
    · simp only [hrevoked, if_true]
      exact status_eq_ite s (by rw [status_of_row hrow, Option.getD_some])
    · simp [hrevoked, status_setRow, status_of_row hrow]

theorem status_systemLinkEthAddress (s : LinkState) (did address did' address' : String) :
    (s.systemLinkEthAddress did address).status did' address' =
      if did' = did ∧ address' = address then some ((s.status did address).getD false)
      else s.status did' address' := by
  unfold systemLinkEthAddress
  cases hrow : s.links did address with
  | none => simp [status_setRow, status_eq_none.mpr hrow]
  | some row => exact status_eq_ite s (by rw [status_of_row hrow, Option.getD_some])

theorem status_revokeEthAddressLink (s : LinkState) (did address did' address' : String) :
    (s.revokeEthAddressLink did address).status did' address' =
      if did' = did ∧ address' = address then (s.status did address).map fun _ => true
      else s.status did' address' := by
  unfold revokeEthAddressLink
  cases hrow : s.links did address with
  | none => exact status_eq_ite s (by rw [status_eq_none.mpr hrow, Option.map_none])
  | some row => simp [status_setRow, status_of_row hrow]

/-! ## Challenges -/

/-- What the pending challenges and the history say of each other. -/
structure Known (s : LinkState) : Prop where
  pending : ∀ nonce challenge, s.challenges nonce = some challenge →
    challenge ∈ s.issued ∧ challenge.nonce = nonce ∧ nonce ∉ s.named
  issued : ∀ challenge ∈ s.issued, challenge.did ≠ "" ∧
    challenge.message = generateLinkMessage challenge.did challenge.nonce ∧
    (challenge.nonce ∉ s.named → s.challenges challenge.nonce = some challenge)

theorem known_init : Known {} where
  pending nonce challenge h := by cases h
  issued challenge h := by cases h

theorem Known.congr (hs : Known s) (hchallenges : s'.challenges = s.challenges)
    (hissued : s'.issued = s.issued) (hnamed : s'.named = s.named) : Known s' := by
  refine ⟨?_, ?_⟩
  · rw [hchallenges, hissued, hnamed]
    exact hs.pending
  · rw [hchallenges, hissued, hnamed]
    exact hs.issued

theorem Known.consume (hs : Known s) (nonce : String) : Known (s.consume nonce) where
  pending nonce' challenge h := by
    by_cases heq : nonce' = nonce
    · simp [LinkState.consume, heq] at h
    · obtain ⟨hissued, hnonce, hnamed⟩ :=
        hs.pending nonce' challenge (by simpa [LinkState.consume, heq] using h)
      exact ⟨hissued, hnonce, by simp [LinkState.consume, heq, hnamed]⟩
  issued challenge h := by
    obtain ⟨hdid, hmessage, hpending⟩ := hs.issued challenge h
    refine ⟨hdid, hmessage, fun hnamed => ?_⟩
    simp only [LinkState.consume, mem_cons, not_or] at hnamed ⊢
    rw [Function.update_of_ne hnamed.1]
    exact hpending hnamed.2

theorem Known.challenge (hs : Known s) {nonce : String} (hdid : did ≠ "")
    (hfresh : s.IsFresh nonce) :
    Known (s.challenge did nonce) where
  pending nonce' challenge h := by
    by_cases heq : nonce' = nonce
    · subst heq
      simp only [LinkState.challenge, Function.update_self, Option.some.injEq] at h
      subst h
      exact ⟨mem_cons_self, rfl, hfresh.2⟩
    · obtain ⟨hissued, hnonce, hnamed⟩ :=
        hs.pending nonce' challenge (by simpa [LinkState.challenge, heq] using h)
      exact ⟨mem_cons_of_mem _ hissued, hnonce, hnamed⟩
  issued challenge h := by
    rcases mem_cons.mp h with rfl | hold
    · exact ⟨hdid, rfl, fun _ => by simp [LinkState.challenge]⟩
    · obtain ⟨hdid', hmessage, hpending⟩ := hs.issued challenge hold
      refine ⟨hdid', hmessage, fun hnamed => ?_⟩
      have hne : challenge.nonce ≠ nonce := fun heq =>
        hfresh.1 (heq ▸ mem_map_of_mem hold)
      simp only [LinkState.challenge, Function.update_of_ne hne]
      exact hpending hnamed

theorem linkEthAddress_history (s : LinkState) (did address signature : String) :
    (s.linkEthAddress did address signature).challenges = s.challenges ∧
      (s.linkEthAddress did address signature).issued = s.issued ∧
      (s.linkEthAddress did address signature).named = s.named := by
  unfold linkEthAddress
  split
  · exact ⟨rfl, rfl, rfl⟩
  · split
    · exact ⟨rfl, rfl, rfl⟩
    · exact ⟨rfl, rfl, rfl⟩

/-- The signature over a pending challenge that a verification links on is one that
earns the link. -/
theorem Known.verify_earned (hs : Known s) {nonce signature : String} :
    (∃ challenge, s.getChallenge cfg nonce = some challenge ∧ challenge.did = did ∧
      isHexAddress address = true ∧
      cfg.verifyAddressOwnership (normalizeLinkAddress address) challenge.message signature =
        true) ↔
    s.EarnedBy cfg (.verify did nonce address signature) did (normalizeLinkAddress address) := by
  have hage : ∀ challenge, s.getChallenge cfg nonce = some challenge ↔
      s.challenges nonce = some challenge ∧ s.now - challenge.createdAt ≤ cfg.ttl := by
    intro challenge
    unfold getChallenge
    rw [Option.filter_eq_some_iff]
    simp
  have hsigned : ∀ message, cfg.verifyAddressOwnership (normalizeLinkAddress address) message
      signature = true ↔ ∃ signer, cfg.recover message signature = some signer ∧
        equalFold (normalizeLinkAddress address) signer = true := by
    intro message
    unfold LinkConfig.verifyAddressOwnership
    cases cfg.recover message signature with
    | none => simp
    | some signer => simp
  constructor
  · rintro ⟨challenge, hget, rfl, haddress, hverify⟩
    obtain ⟨hpending, htime⟩ := (hage challenge).mp hget
    obtain ⟨hissued, rfl, hnamed⟩ := hs.pending nonce challenge hpending
    exact ⟨rfl, haddress, rfl, hnamed, challenge, hissued, rfl, rfl,
      (hs.issued challenge hissued).2.1, htime, (hsigned _).mp hverify⟩
  · rintro ⟨-, haddress, -, hnamed, challenge, hissued, rfl, rfl, -, htime, hsigner⟩
    exact ⟨challenge, (hage challenge).mpr ⟨(hs.issued challenge hissued).2.2 hnamed, htime⟩, rfl,
      haddress, (hsigned _).mpr hsigner⟩

/-- A verification links exactly when it earns the link; the challenge is gone either way. -/
theorem Known.verify_eq (hs : Known s) (did nonce address signature : String) :
    (s.EarnedBy cfg (.verify did nonce address signature) did (normalizeLinkAddress address) ∧
      s.verify cfg did nonce address signature =
        (s.consume nonce).linkEthAddress did (normalizeLinkAddress address) signature) ∨
    (¬ s.EarnedBy cfg (.verify did nonce address signature) did (normalizeLinkAddress address) ∧
      s.verify cfg did nonce address signature = s.consume nonce) := by
  rw [← hs.verify_earned]
  unfold LinkState.verify
  split
  · rename_i hnone
    refine .inr ⟨?_, rfl⟩
    rintro ⟨challenge, hsome, -⟩
    rw [hnone] at hsome
    cases hsome
  · rename_i challenge hsome
    split
    · rename_i hcond
      exact .inl ⟨⟨challenge, hsome, hcond⟩, rfl⟩
    · rename_i hcond
      refine .inr ⟨?_, rfl⟩
      rintro ⟨challenge', hsome', hcond'⟩
      obtain rfl : challenge = challenge' := Option.some.inj (hsome.symm.trans hsome')
      exact hcond hcond'

theorem Known.verify (hs : Known s) (did nonce address signature : String) :
    Known (s.verify cfg did nonce address signature) := by
  rcases hs.verify_eq did nonce address signature with ⟨-, heq⟩ | ⟨-, heq⟩
  · obtain ⟨hchallenges, hissued, hnamed⟩ :=
      linkEthAddress_history (s.consume nonce) did (normalizeLinkAddress address) signature
    rw [heq]
    exact (hs.consume nonce).congr hchallenges hissued hnamed
  · rw [heq]
    exact hs.consume nonce

theorem Known.step (hs : Known s) (h : s.step cfg e = some s') : Known s' := by
  cases e with simp only [LinkState.step] at h
  | challenge did nonce =>
    split at h
    · cases h
      exact hs
    · rename_i hdid
      split at h
      · rename_i hfresh
        cases h
        exact hs.challenge hdid hfresh
      · cases h
  | verify did nonce address signature =>
    split at h
    · cases h
      exact hs
    · cases h
      exact hs.verify did nonce address signature
  | unlink did address =>
    split at h
    · cases h
      exact hs
    · cases h
      unfold revokeEthAddressLink
      split
      · exact hs
      · exact hs.congr rfl rfl rfl
  | rawSend p scope req answer =>
    split at h
    · cases h
      exact hs
    · cases h
      unfold systemLinkEthAddress
      split
      · exact hs.congr rfl rfl rfl
      · exact hs
  | tick d =>
    cases h
    exact hs.congr rfl rfl rfl

/-! ## What a request does to a link -/

/-- The request links user and address, earned or not. -/
def Links (cfg : LinkConfig) (s : LinkState) (e : LinkEvent) (did address : String) : Prop :=
  match e with
  | .rawSend p scope req answer =>
      req.userID = did ∧ linkedSender p scope req answer = some address
  | e => s.EarnedBy cfg e did address

theorem EarnedBy.links (h : s.EarnedBy cfg e did address) : Links cfg s e did address := by
  cases e with
  | rawSend p scope req answer => exact ⟨h.1, h.2.1⟩
  | _ => exact h

/-- The rows before and after a request: one that links makes the row if there is none,
and any other leaves the row or revokes it. -/
theorem Known.step_status (hs : Known s) (h : s.step cfg e = some s') (did address : String) :
    (Links cfg s e did address ∧
      s'.status did address = some ((s.status did address).getD false)) ∨
    (¬ Links cfg s e did address ∧ (s'.status did address = s.status did address ∨
      s'.status did address = (s.status did address).map fun _ => true)) := by
  cases e with simp only [LinkState.step] at h
  | challenge did' nonce =>
    refine .inr ⟨fun hlinks => hlinks, .inl ?_⟩
    split at h
    · cases h
      rfl
    · split at h
      · cases h
        rfl
      · cases h
  | verify did' nonce address' signature =>
    split at h
    · -- an anonymous request was issued no challenge
      rename_i hdid
      cases h
      refine .inr ⟨?_, .inl rfl⟩
      rintro ⟨rfl, -, -, -, challenge, hissued, -, hchallenge, -⟩
      exact (hs.issued challenge hissued).1 (hchallenge.trans hdid)
    · cases h
      rcases hs.verify_eq did' nonce address' signature with ⟨hearned, heq⟩ | ⟨hearned, heq⟩
      · rw [heq, status_linkEthAddress]
        split
        · rename_i hsame
          rw [hsame.1, hsame.2]
          exact .inl ⟨hearned, rfl⟩
        · rename_i hne
          exact .inr ⟨fun hlinks => hne ⟨hlinks.1.symm, hlinks.2.2.1.symm⟩, .inl rfl⟩
      · rw [heq]
        refine .inr ⟨fun hlinks => hearned ?_, .inl rfl⟩
        obtain rfl := hlinks.1
        obtain rfl := hlinks.2.2.1
        exact hlinks
  | unlink did' address' =>
    refine .inr ⟨fun hlinks => hlinks, ?_⟩
    split at h
    · cases h
      exact .inl rfl
    · cases h
      rw [status_revokeEthAddressLink]
      split
      · rename_i heq
        rw [heq.1, heq.2]
        exact .inr rfl
      · exact .inl rfl
  | rawSend p scope req answer =>
    split at h
    · rename_i hnone
      cases h
      refine .inr ⟨fun hlinks => ?_, .inl rfl⟩
      rw [hlinks.2] at hnone
      cases hnone
    · rename_i address' hsome
      cases h
      rw [status_systemLinkEthAddress]
      split
      · rename_i heq
        rw [heq.1, heq.2]
        exact .inl ⟨⟨rfl, hsome⟩, rfl⟩
      · rename_i hne
        refine .inr ⟨fun hlinks => hne ⟨hlinks.1.symm, ?_⟩, .inl rfl⟩
        exact Option.some.inj (hlinks.2.symm.trans hsome)
  | tick d =>
    cases h
    exact .inr ⟨fun hlinks => hlinks, .inl rfl⟩

theorem Known.step_row (hs : Known s) (h : s.step cfg e = some s')
    (hrow : s.status did address ≠ none) : s'.status did address ≠ none := by
  rcases hs.step_status h did address with ⟨-, heq⟩ | ⟨-, heq | heq⟩
  · simp [heq]
  · rwa [heq]
  · simpa [heq] using hrow

theorem Known.step_revoked (hs : Known s) (h : s.step cfg e = some s')
    (hrevoked : s.status did address = some true) : s'.status did address = some true := by
  rcases hs.step_status h did address with ⟨-, heq⟩ | ⟨-, heq | heq⟩
  · rw [heq, hrevoked, Option.getD_some]
  · rw [heq, hrevoked]
  · rw [heq, hrevoked, Option.map_some]

/-- A link that is active after a clean request was active, or is earned by it. -/
theorem Known.step_active (hs : Known s) (h : s.step cfg e = some s') (hclean : s.Clean e)
    (hactive : s'.Active did address) : s.Active did address ∨ s.EarnedBy cfg e did address := by
  rw [active_iff] at hactive ⊢
  rcases hs.step_status h did address with ⟨hlinks, heq⟩ | ⟨-, heq | heq⟩
  · cases hstatus : s.status did address with
    | some revoked =>
      rw [heq, hstatus] at hactive
      exact .inl hactive
    | none =>
      -- a new row: only a raw send makes one without earning it, and this one is clean
      right
      cases e with
      | rawSend p scope req answer =>
        obtain ⟨rfl, hsender⟩ := hlinks
        rcases hclean address hsender with haccepted | hrow
        · exact ⟨rfl, hsender, haccepted⟩
        · exact absurd (status_eq_none.mp hstatus) hrow
      | _ => exact hlinks
  · exact .inl (heq ▸ hactive)
  · rw [heq, Option.map_eq_some_iff] at hactive
    obtain ⟨_, -, hfalse⟩ := hactive
    cases hfalse

theorem known_of_run {events : List LinkEvent} (h : run (LinkState.step cfg) {} events = some s) :
    Known s :=
  run_invariant (I := Known) (fun _ _ _ hs hstep => hs.step hstep) known_init h

end LinkState

open LinkState

variable {cfg : LinkConfig}

variable {events : List LinkEvent} {did address : String} {s : LinkState}

theorem EarnedAlong.of_concat {e : LinkEvent} (h : EarnedAlong cfg (events ++ [e]) did address)
    (hrun : run (LinkState.step cfg) {} events = some s) :
    EarnedAlong cfg events did address ∨ s.EarnedBy cfg e did address := by
  obtain ⟨before, e', after, s', heq, hbefore, hearned⟩ := h
  cases after using List.reverseRecOn with
  | nil =>
    obtain ⟨rfl, he⟩ := append_inj' heq rfl
    obtain rfl : e = e' := singleton_inj.mp he
    obtain rfl : s = s' := Option.some.inj (hrun.symm.trans hbefore)
    exact .inr hearned
  | append_singleton after last _ =>
    rw [← cons_append, ← append_assoc] at heq
    obtain ⟨hevents, -⟩ := append_inj' heq rfl
    exact .inl ⟨before, e', after, s', hevents, hbefore, hearned⟩

theorem EarnedAlong.row {events : List LinkEvent} {s : LinkState} {did address : String}
    (h : EarnedAlong cfg events did address)
    (hrun : run (LinkState.step cfg) {} events = some s) : s.status did address ≠ none := by
  obtain ⟨before, e, after, s₀, rfl, hbefore, hearned⟩ := h
  obtain ⟨s₁, s₂, hrun₁, hstep, hafter⟩ := run_cons_split hrun
  obtain rfl : s₀ = s₁ := Option.some.inj (hbefore.symm.trans hrun₁)
  have hknown := known_of_run hrun₁
  have hrow : s₂.status did address ≠ none := by
    rcases hknown.step_status hstep did address with ⟨-, heq⟩ | ⟨hnot, -⟩
    · simp [heq]
    · exact absurd hearned.links hnot
  exact (run_invariant (I := fun s => Known s ∧ s.status did address ≠ none)
    (fun _ _ _ hs hstep => ⟨hs.1.step hstep, hs.1.step_row hstep hs.2⟩)
    ⟨hknown.step hstep, hrow⟩ hafter).2

/-- A raw send that links a sender makes the link active if there was no row. -/
theorem active_of_rawSend {p : Processor} {scope : Option String} {req : ProcessRequest}
    {answer : NodeAnswer} (hsender : linkedSender p scope req answer = some address)
    (hnone : s.links req.userID address = none) :
    ∃ s', s.step cfg (.rawSend p scope req answer) = some s' ∧ s'.Active req.userID address := by
  refine ⟨s.systemLinkEthAddress req.userID address, by simp [LinkState.step, hsender], ?_⟩
  rw [active_iff, status_systemLinkEthAddress, if_pos ⟨rfl, rfl⟩, status_eq_none.mpr hnone,
    Option.getD_none]

/-- A raw send that is not clean makes a link nobody earned. -/
theorem LinksEarned.clean (hearned : LinksEarned cfg events) : AllClean cfg events := by
  intro before e after s heq hrun
  cases e with
  | rawSend p scope req answer =>
    intro address hsender
    by_contra hunclean
    rw [not_or, not_not] at hunclean
    obtain ⟨hrefused, hnone⟩ := hunclean
    obtain ⟨s', hstep, hactive⟩ : ∃ s', s.step cfg (.rawSend p scope req answer) = some s' ∧
        s'.Active req.userID address := active_of_rawSend hsender hnone
    have halong : EarnedAlong cfg (before ++ [.rawSend p scope req answer]) req.userID address :=
      hearned _ after s' (by rw [heq]; simp) (run_step hrun hstep) _ _ hactive
    -- earned before, there would be a row; earned by this send, the node took it
    rcases halong.of_concat hrun with hbefore | hnow
    · exact hbefore.row hrun (status_eq_none.mpr hnone)
    · exact hrefused hnow.2.2
  | _ => trivial

/-- Along a clean run every active link is earned: the request that made it, made it new. -/
theorem AllClean.linksEarned (hclean : AllClean cfg events) : LinksEarned cfg events := by
  intro before after s heq hrun did address hactive
  have hstart : ¬ LinkState.Active {} did address := by
    rintro ⟨row, hrow, -⟩
    cases hrow
  obtain ⟨first, e, rest, s₁, s₂, rfl, hfirst, hinactive, hstep, hmade⟩ :=
    run_undoes (P := fun s => ¬ s.Active did address) hstart (not_not.mpr hactive) hrun
  have hcleanHere : s₁.Clean e := hclean first e (rest ++ after) s₁ (by rw [heq]; simp) hfirst
  rcases (known_of_run hfirst).step_active hstep hcleanHere (not_not.mp hmade) with hold | hnew
  · exact absurd hold hinactive
  · exact ⟨first, e, rest, s₁, rfl, hfirst, hnew⟩

theorem status_of_unlink {s₁ : LinkState} (hdid : did ≠ "") (haddress : address ≠ "")
    (hrow : s.links did (toLower address) ≠ none)
    (hstep : s.step cfg (.unlink did address) = some s₁) :
    s₁.status did (toLower address) = some true := by
  have heq : s₁ = s.revokeEthAddressLink did (toLower address) := by
    simpa [LinkState.step, hdid, haddress] using hstep.symm
  have hstatus : s.status did (toLower address) ≠ none :=
    fun hnone => hrow (status_eq_none.mp hnone)
  obtain ⟨revoked, hstatus⟩ := Option.ne_none_iff_exists'.mp hstatus
  rw [heq, status_revokeEthAddressLink, if_pos ⟨rfl, rfl⟩, hstatus, Option.map_some]

/-- Address links are earned at every moment of a run exactly if every raw send in it
that links a sender was accepted by the node or found a row for user and address; and
along every run an address the user has unlinked is never an active link of theirs
again. -/
theorem address_links_iff (cfg : LinkConfig) :
    (∀ events, LinksEarned cfg events ↔ AllClean cfg events) ∧
    ∀ before s did address s₁ after s₂, run (LinkState.step cfg) {} before = some s →
      did ≠ "" → address ≠ "" → s.links did (toLower address) ≠ none →
      s.step cfg (.unlink did address) = some s₁ →
      run (LinkState.step cfg) s₁ after = some s₂ → ¬ s₂.Active did (toLower address) := by
  refine ⟨fun events => ⟨LinksEarned.clean, AllClean.linksEarned⟩, ?_⟩
  intro before s did address s₁ after s₂ hbefore hdid haddress hrow hstep hafter hactive
  have hrevoked := status_of_unlink hdid haddress hrow hstep
  have hfinal := (run_invariant (I := fun s => Known s ∧ s.status did (toLower address) = some true)
    (fun _ _ _ hs hstep => ⟨hs.1.step hstep, hs.1.step_revoked hstep hs.2⟩)
    ⟨(known_of_run hbefore).step hstep, hrevoked⟩ hafter).2
  rw [active_iff, hfinal] at hactive
  cases hactive

/-! ## A refused transaction links its sender -/

/-- A transaction of somebody else's address to the granted contract. -/
def minedTx : SignedTx where
  nonce := 7
  toAddr := some "0xA1"
  sender := .ok "0xBbBbBbBbBbBbBbBbBbBbBbBbBbBbBbBbBbBbBbBb"

def resubmitProcessor : Processor :=
  { deployProcessor with unmarshalBinary := fun _ => .ok minedTx }

/-- The signed bytes again, under the resubmitter's own identity. -/
def resubmission : ProcessRequest where
  userID := "did:dana"
  method := "eth_sendRawTransaction"
  params := [.str "0x02"]

/-- The node refuses: an HTTP answer 200 with a JSON-RPC error. -/
def nonceTooLow : NodeAnswer where
  body := some (.obj [("error", .obj [("message", .str "nonce too low")])])

def resubmitConfig : LinkConfig where
  recover _ _ := none
  ttl := 300

/-- The node takes the transaction: an answer with its hash. -/
def minedHash : NodeAnswer where
  body := some (.obj [("result", .str "0x5c50")])

/-- Signatures that name their signers. -/
def walletConfig : LinkConfig where
  recover _ signature := some signature
  ttl := 300

def wallet : String := "0xBbBbBbBbBbBbBbBbBbBbBbBbBbBbBbBbBbBbBbBb"

/-- What the user tries after unlinking the address: a signed challenge, and the transaction
again. -/
def relinking : List LinkEvent :=
  [.challenge "did:dana" "n1", .verify "did:dana" "n1" wallet wallet,
    .rawSend resubmitProcessor none resubmission nonceTooLow]

/-- An address that a transaction has linked is unlinked, and nothing links it again. -/
theorem unlinked_for_good :
    ∃ s s₁ s₂, run (LinkState.step walletConfig) {}
        [.rawSend resubmitProcessor none resubmission minedHash] = some s ∧
      s.Active "did:dana" (toLower wallet) ∧
      s.step walletConfig (.unlink "did:dana" wallet) = some s₁ ∧
      run (LinkState.step walletConfig) s₁ relinking = some s₂ ∧
      ¬ s₂.Active "did:dana" (toLower wallet) := by
  obtain ⟨-, hfinal⟩ := address_links_iff walletConfig
  have hlinked : ∃ s, LinkState.step walletConfig {}
        (.rawSend resubmitProcessor none resubmission minedHash) = some s ∧
      s.Active "did:dana" (toLower wallet) :=
    active_of_rawSend (by decide +kernel) rfl
  obtain ⟨s, hlink, hactive⟩ := hlinked
  have hbefore : run (LinkState.step walletConfig) {}
      [.rawSend resubmitProcessor none resubmission minedHash] = some s := by
    rw [run_cons, hlink]
    rfl
  have hruns : (run (LinkState.step walletConfig) {}
      ([.rawSend resubmitProcessor none resubmission minedHash] ++
        .unlink "did:dana" wallet :: relinking)).isSome = true := by
    decide +kernel
  obtain ⟨s₂, hrun⟩ := Option.isSome_iff_exists.mp hruns
  obtain ⟨s', s₁, hbefore', hunlink, hafter⟩ := run_cons_split hrun
  obtain rfl := Option.some.inj (hbefore.symm.trans hbefore')
  refine ⟨s, s₁, s₂, hbefore, hactive, hunlink, hafter, ?_⟩
  refine hfinal _ s "did:dana" wallet s₁ relinking s₂ hbefore (by decide) (by decide) ?_ hunlink
    hafter
  obtain ⟨row, hrow, -⟩ := hactive
  intro hnone
  rw [show s.links "did:dana" (toLower wallet) = some row from hrow] at hnone
  cases hnone

/-- The node refuses a resubmitted transaction, and its sender's address is an active
link of the resubmitter, who never signed anything with it. -/
theorem refused_resubmission_links :
    nonceTooLow.accepted = false ∧
    ¬ LinksEarned resubmitConfig [.rawSend resubmitProcessor none resubmission nonceTooLow] ∧
    ∃ s, LinkState.step resubmitConfig {}
        (.rawSend resubmitProcessor none resubmission nonceTooLow) = some s ∧
      s.Active "did:dana" "0xbbbbbbbbbbbbbbbbbbbbbbbbbbbbbbbbbbbbbbbb" := by
  have hsender : linkedSender resubmitProcessor none resubmission nonceTooLow =
      some "0xbbbbbbbbbbbbbbbbbbbbbbbbbbbbbbbbbbbbbbbb" := by
    decide +kernel
  have hrefused : nonceTooLow.accepted = false := by
    decide +kernel
  refine ⟨hrefused, fun hearned => ?_, active_of_rawSend hsender rfl⟩
  rcases hearned.clean [] _ [] {} rfl rfl _ hsender with haccepted | hrow
  · rw [hrefused] at haccepted
    cases haccepted
  · exact hrow rfl

end PrivacySuite.Server
