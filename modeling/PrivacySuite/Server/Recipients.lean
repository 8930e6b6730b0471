import PrivacySuite.Server.SendAuthorization

/-!
# The recipients of a private send

What goes to the visibility outbox is the union of the recipients in the parameters and of
those beside them. All but one of the extractors apply the DID check and drop duplicates;
`extractAndStripRawTxVisibleTo` takes the texts as they are, so a raw transaction may record
anything (`recipients_wellFormed_iff`, `unchecked_recipient`).
-/

namespace PrivacySuite.Server

open Go Phase Rbac List

/-- A recipient list that may be recorded. -/
structure WellFormedRecipients (recipients : List String) : Prop where
  valid : ∀ did ∈ recipients, isValidDID did = true
  nodup : recipients.Nodup
  short : recipients.length ≤ visibleToMaxSize

/-- The address resolver returns well-formed DIDs. -/
def ResolvesDIDs (resolver : Option (String → Except String String)) : Prop :=
  ∀ resolve, resolver = some resolve → ∀ address did, resolve address = .ok did → did ≠ "" →
    isValidDID did = true

/-- A recipient stands beside the parameters: a DID, or an address with a linked one. -/
def NamedBeside (p : Processor) (req : ProcessRequest) : Prop :=
  ∃ did, ∃ entry ∈ topLevelVisibleTo req, resolveVisibleToEntry p.didByEthAddress entry = some did

/-- The texts in the options of a raw send are DIDs, and none stands there twice unless a
recipient stands beside the parameters. -/
def CheckedOptions (p : Processor) (req : ProcessRequest) : Prop :=
  ∀ opts, req.params[1]? = some (.obj opts) → ∀ v, opts.lookup "visibleTo" = some v →
    (∀ text ∈ stringItems v, text ≠ "" → isValidDID text = true) ∧
    (((stringItems v).filter (· ≠ "")).Nodup ∨ NamedBeside p req)

section Lists

variable {resolver : Option (String → Except String String)} {entries a b : List String}
  {did : String}

theorem nodup_eraseDups (xs : List String) : xs.eraseDups.Nodup := by
  induction hn : xs.length using Nat.strong_induction_on generalizing xs with
  | _ n ih =>
    cases xs with
    | nil => exact nodup_nil
    | cons x xs =>
      rw [eraseDups_cons, nodup_cons, mem_eraseDups]
      refine ⟨by simp, ih _ ?_ _ rfl⟩
      have hle := length_filter_le (fun y => !y == x) xs
      rw [length_cons] at hn
      omega

theorem mem_resolveVisibleToEntries :
    did ∈ resolveVisibleToEntries resolver entries ↔
      ∃ entry ∈ entries, resolveVisibleToEntry resolver entry = some did := by
  rw [resolveVisibleToEntries, mem_eraseDups, mem_filterMap]

theorem valid_of_resolved (h : ResolvesDIDs resolver) {entry : String}
    (hentry : resolveVisibleToEntry resolver entry = some did) : isValidDID did = true := by
  unfold resolveVisibleToEntry at hentry
  split at hentry
  · rename_i hvalid
    rwa [← Option.some.inj hentry]
  split at hentry
  case isFalse => cases hentry
  split at hentry
  case h_1 => cases hentry
  rename_i resolve
  split at hentry
  case h_1 => cases hentry
  rename_i found hfound
  split at hentry
  case isTrue => cases hentry
  rename_i hne
  obtain rfl := Option.some.inj hentry
  exact h resolve rfl _ _ hfound hne

/-- The second list is one of the kind that may be recorded; then so is the union exactly if the
first has no bad entry, and none twice unless the second has an entry at all. -/
theorem wellFormed_union_iff (hvalid : ∀ did ∈ b, isValidDID did = true) (hnodup : b.Nodup)
    (hshort : (unionVisibleToDIDs a b).length ≤ visibleToMaxSize) :
    WellFormedRecipients (unionVisibleToDIDs a b) ↔
      (∀ did ∈ a, isValidDID did = true) ∧ (a.Nodup ∨ ∃ did, did ∈ b) := by
  unfold unionVisibleToDIDs at hshort ⊢
  split at hshort
  · rename_i hb
    subst hb
    rw [if_pos rfl]
    constructor
    · exact fun h => ⟨h.valid, .inl h.nodup⟩
    · rintro ⟨ha, hdup | ⟨did, hdid⟩⟩
      · exact ⟨ha, hdup, hshort⟩
      · cases hdid
  rename_i hb
  rw [if_neg hb]
  split at hshort
  · rename_i ha
    subst ha
    rw [if_pos rfl]
    exact iff_of_true ⟨hvalid, hnodup, hshort⟩ ⟨nofun, .inl nodup_nil⟩
  rename_i ha
  rw [if_neg ha]
  constructor
  · intro h
    refine ⟨fun did hdid => h.valid did ?_, .inr (exists_mem_of_ne_nil b hb)⟩
    exact mem_eraseDups.mpr (mem_append_left b hdid)
  · rintro ⟨ha, -⟩
    refine ⟨fun did hdid => ?_, nodup_eraseDups _, hshort⟩
    exact (mem_append.mp (mem_eraseDups.mp hdid)).elim (ha did) (hvalid did)

theorem extractAndStripVisibleTo_recipients (params : List Json) :
    (∀ did ∈ (extractAndStripVisibleTo params).1, isValidDID did = true) ∧
      (extractAndStripVisibleTo params).1.Nodup := by
  unfold extractAndStripVisibleTo
  split
  · split
    · simp
    · refine ⟨fun did hdid => ?_, nodup_eraseDups _⟩
      exact (mem_filter.mp (mem_eraseDups.mp hdid)).2
  · simp

end Lists

section Gate

variable {p : Processor} {req : ProcessRequest}

theorem checkedOptions_iff : CheckedOptions p req ↔
    (∀ did ∈ (extractAndStripRawTxVisibleTo req.params).1, isValidDID did = true) ∧
      ((extractAndStripRawTxVisibleTo req.params).1.Nodup ∨ NamedBeside p req) := by
  unfold CheckedOptions extractAndStripRawTxVisibleTo
  generalize req.params = params
  split
  · rename_i opts _
    cases hv : opts.lookup "visibleTo" with
    | none => simp [hv]
    | some v => simp [hv]
  · rename_i hother
    refine iff_of_true (fun opts hopts => ?_) (by simp)
    match params with
    | [] | [_] => cases hopts
    | raw :: _ :: rest => exact (hother raw opts rest (by cases hopts; rfl)).elim

/-- What the gate lets through, with the recipients of the parameters as the caller read them. -/
theorem privateRecipients_wellFormed_iff {dids recipients : List String} {tx : TxParams}
    {noTarget : Bool} (hresolver : ResolvesDIDs p.didByEthAddress)
    (h : privateRecipients p req dids tx noTarget = .ok recipients) :
    WellFormedRecipients recipients ↔ (∀ did ∈ dids, isValidDID did = true) ∧
      (dids.Nodup ∨ NamedBeside p req) := by
  obtain ⟨resolved, hresolved, h⟩ := bind_ok_cases h
  obtain ⟨u, hshort, h⟩ := bind_ok_cases h
  obtain ⟨-, -, h⟩ := bind_ok_cases h
  obtain rfl := Except.ok.inj h
  unfold resolveTopLevelVisibleTo at hresolved
  split at hresolved
  · cases hresolved
  obtain rfl := Except.ok.inj hresolved
  simp only [NamedBeside, ← mem_resolveVisibleToEntries]
  refine wellFormed_union_iff (fun did hdid => ?_) (nodup_eraseDups _)
    (not_lt.mp (onlyIf_refused hshort))
  obtain ⟨entry, -, hentry⟩ := mem_resolveVisibleToEntries.mp hdid
  exact valid_of_resolved hresolver hentry

end Gate

/-- The recipients of a forwarded transaction are well formed exactly if it is not raw, or the
texts its options name are DIDs, and no two are the same unless a recipient stands beside the
parameters too. -/
theorem recipients_wellFormed_iff (p : Processor) (scope : Option String)
    (processDebugTrace : ProcessRequest → Except ProcessError Forward) (req : ProcessRequest)
    (f : Forward) (hresolver : ResolvesDIDs p.didByEthAddress)
    (hmethod : canonicalizeMethod req.method = "eth_sendTransaction" ∨
      canonicalizeMethod req.method = "eth_sendRawTransaction")
    (hforward : process p scope processDebugTrace req = .ok f) :
    WellFormedRecipients f.visibleTo ↔
      (canonicalizeMethod req.method = "eth_sendRawTransaction" → CheckedOptions p req) := by
  rcases hmethod with hsend | hraw
  · rw [process_standard (by simp [hsend]), hsend] at hforward
    obtain ⟨access, send, read, params, -, -, hgates, -⟩ := processStandard_ok hforward
    rw [sendGates, if_pos rfl] at hgates
    obtain ⟨-, -, hgates⟩ := bind_ok_cases hgates
    obtain ⟨recipients, hrecipients, hgates⟩ := bind_ok_cases hgates
    obtain ⟨rfl, -⟩ := Prod.mk.inj (Except.ok.inj hgates)
    obtain ⟨hvalid, hnodup⟩ := extractAndStripVisibleTo_recipients req.params
    rw [hsend]
    refine iff_of_true ?_ fun hraw => absurd hraw (by decide)
    exact (privateRecipients_wellFormed_iff hresolver hrecipients).mpr ⟨hvalid, .inl hnodup⟩
  · rw [process, if_pos hraw] at hforward
    obtain ⟨rt, raw, signed, tx, prepared, gate, -, -, -, -, -, hrecipients, -⟩ :=
      processRawTransaction_ok hforward
    rw [forall_prop_of_true hraw, checkedOptions_iff]
    exact privateRecipients_wellFormed_iff hresolver hrecipients

/-- The processor of the deployment, with a decoder of raw transactions, which are calls of the
granted contract, and one linked address. -/
def linkedProcessor : Processor :=
  { deployProcessor with
    unmarshalBinary := fun _ => .ok { toAddr := some "0xA1", data := [1], sender := .ok "0xF1" }
    didByEthAddress := some fun address =>
      if address = "0xb0b0b0b0b0b0b0b0b0b0b0b0b0b0b0b0b0b0b0b0" then .ok "did:key:bob"
      else .error "address is not linked" }

theorem linkedProcessor_resolvesDIDs : ResolvesDIDs linkedProcessor.didByEthAddress := by
  intro resolve hresolve address did hdid _
  cases hresolve
  dsimp only at hdid
  split at hdid
  · obtain rfl := Except.ok.inj hdid
    decide +kernel
  · cases hdid

/-- Recipients stand in the transaction and twice beside it, one by an address and one by no
DID at all. -/
def privateSend : ProcessRequest where
  userID := "did:dana"
  method := "eth_sendTransaction"
  params := [.obj [("from", .str "0xf1"), ("to", .str "0xA1"), ("data", .str "0x01"),
    ("visibleTo", .arr [.str "did:key:alice", .str "eve", .str "did:key:alice"])]]
  metadata := [
    ("visibleTo", .arr [.str "0xB0B0B0B0B0B0B0B0B0B0B0B0B0B0B0B0B0B0B0B0", .str "did:key:alice"]),
    ("privateFor", .arr [.str "did:key:carol"])]

/-- A raw transaction that names a recipient twice, beside which another one stands. -/
def privateRawSend : ProcessRequest where
  userID := "did:dana"
  method := "eth_sendRawTransaction"
  params := [.str "0x01", .obj [("visibleTo", .arr [.str "did:key:alice", .str "did:key:alice"])]]
  metadata := [("privateFor", .arr [.str "0xB0B0B0B0B0B0B0B0B0B0B0B0B0B0B0B0B0B0B0B0"])]

theorem private_sends_recipients :
    (∃ f, process linkedProcessor none noDebugTrace privateSend = .ok f ∧
      f.visibleTo = ["did:key:alice", "did:key:bob", "did:key:carol"] ∧
      WellFormedRecipients f.visibleTo) ∧
    ∃ f, process linkedProcessor none noDebugTrace privateRawSend = .ok f ∧
      f.visibleTo = ["did:key:alice", "did:key:bob"] ∧ WellFormedRecipients f.visibleTo := by
  constructor
  · obtain ⟨f, hforward, hrecipients⟩ :=
      exists_ok_of_any (x := process linkedProcessor none noDebugTrace privateSend)
        (q := (·.visibleTo == ["did:key:alice", "did:key:bob", "did:key:carol"]))
          (by decide +kernel)
    have hmethod : canonicalizeMethod privateSend.method = "eth_sendTransaction" := by
      decide +kernel
    refine ⟨f, hforward, beq_iff_eq.mp hrecipients, (recipients_wellFormed_iff linkedProcessor none
      noDebugTrace privateSend f linkedProcessor_resolvesDIDs (.inl hmethod) hforward).mpr ?_⟩
    intro hraw
    rw [hmethod] at hraw
    exact absurd hraw (by decide)
  · obtain ⟨f, hforward, hrecipients⟩ :=
      exists_ok_of_any (x := process linkedProcessor none noDebugTrace privateRawSend)
        (q := (·.visibleTo == ["did:key:alice", "did:key:bob"])) (by decide +kernel)
    have hmethod : canonicalizeMethod privateRawSend.method = "eth_sendRawTransaction" := by
      decide +kernel
    refine ⟨f, hforward, beq_iff_eq.mp hrecipients, (recipients_wellFormed_iff linkedProcessor none
      noDebugTrace privateRawSend f linkedProcessor_resolvesDIDs (.inr hmethod) hforward).mpr ?_⟩
    intro _
    refine checkedOptions_iff.mpr ⟨by decide +kernel, .inr ⟨"did:key:bob", ?_⟩⟩
    exact ⟨"0xB0B0B0B0B0B0B0B0B0B0B0B0B0B0B0B0B0B0B0B0", by decide +kernel, by decide +kernel⟩

def uncheckedSend : ProcessRequest where
  userID := "did:dana"
  method := "eth_sendRawTransaction"
  params := [.str "0x01", .obj [("visibleTo", .arr [.str "eve", .str "eve"])]]

theorem unchecked_recipient :
    ∃ f, process linkedProcessor none noDebugTrace uncheckedSend = .ok f ∧
      f.visibleTo = ["eve", "eve"] ∧ isValidDID "eve" = false := by
  obtain ⟨f, hforward, hrecipients⟩ :=
    exists_ok_of_any (x := process linkedProcessor none noDebugTrace uncheckedSend)
      (q := (·.visibleTo == ["eve", "eve"])) (by decide +kernel)
  exact ⟨f, hforward, beq_iff_eq.mp hrecipients, by decide +kernel⟩

end PrivacySuite.Server
