import PrivacySuite.Explorer.Rows
import PrivacySuite.Go.Phase

/-!
# What an explorer row shows

An address of a row should appear in the row, as the text of an address field or
as a key of its metadata, only if the viewer's effective level on it is full.

`redacted_rows_masked_iff` says exactly when it does. Rows of token transfers
under the strict profile name only fully visible addresses in their metadata.
Every other row names a pseudonymous address there, in clear text
(`pseudonymous_named_in_metadata`).
-/

namespace PrivacySuite.Explorer

open Go Phase List

/-! ## Shown addresses -/

def Metadata.keys (m : Metadata) : List String := m.map (·.1)

/-- Of the addresses `sides` only those whose effective level is full appear in
the fields or, in lower case, among the metadata keys. -/
def OnlyFullShown (sides fields keys : List String) (effective : String → Option VisibilityLevel) :
    Prop :=
  ∀ a ∈ sides, a ∈ fields ∨ toLower a ∈ keys → effective a = some .full

/-- The level of an address of a row: some addresses are always shown, and a
hidden or redacted one is shown where the row is revealed to the viewer. -/
def effectiveLevel (always revealed : Bool) (base : Option VisibilityLevel) :
    Option VisibilityLevel :=
  if always ∨ (revealed ∧ isNonIdentifiable base) then some .full else base

/-- No masked address is pseudonymous, is itself the mask, or stands in a field
that is never masked. -/
def MasksClean (sides unmasked : List String) (effective : String → Option VisibilityLevel) :
    Prop :=
  ∀ a ∈ sides, effective a = some .full ∨
    (effective a ≠ some .pseudonymous ∧ a ≠ privateText ∧ a ∉ unmasked)

/-- No masked address is the text that some address of the row is masked with, or
stands in a field that is never masked. -/
def TextsClean (key : List UInt8) (sides unmasked : List String)
    (level effective : String → Option VisibilityLevel) : Prop :=
  ∀ a ∈ sides, effective a = some .full ∨
    (a ∉ unmasked ∧ ∀ b ∈ sides, level b ≠ some .full → applyRedaction key b (level b) ≠ a)

section Rendering

variable {key : List UInt8} {sides fields keys unmasked : List String}
  {level effective : String → Option VisibilityLevel}

theorem applyRedaction_cases (key : List UInt8) (b : String) (l : Option VisibilityLevel) :
    (l = some .full ∧ applyRedaction key b l = b) ∨ l = some .pseudonymous ∨
      (l ≠ some .full ∧ applyRedaction key b l = privateText) := by
  match l with
  | some .full => exact .inl ⟨rfl, rfl⟩
  | some .pseudonymous => exact .inr (.inl rfl)
  | some .redacted | some .hidden | none => exact .inr (.inr ⟨by decide, rfl⟩)

/-- Hidden or redacted text is the mask, whichever branch writes it. -/
theorem applyRedaction_hidden {a : String} {l : Option VisibilityLevel}
    (h : isNonIdentifiable l = true) : applyRedaction key a l = privateText := by
  rcases applyRedaction_cases key a l with ⟨rfl, -⟩ | rfl | ⟨-, htext⟩
  · cases h
  · cases h
  · exact htext

/-- A masked address is shown where it stands in a field that is never masked, is what some
address is masked with, or is named. -/
theorem onlyFullShown_iff
    (hfields : ∀ a ∈ sides, a ∈ fields ↔
      a ∈ unmasked ∨ ∃ b ∈ sides, applyRedaction key b (level b) = a)
    (hfull : ∀ a ∈ sides, level a = some .full → effective a = some .full) :
    OnlyFullShown sides fields keys effective ↔ ∀ a ∈ sides, effective a = some .full ∨
      ((a ∉ unmasked ∧ ∀ b ∈ sides, level b ≠ some .full → applyRedaction key b (level b) ≠ a) ∧
        toLower a ∉ keys) := by
  refine forall₂_congr fun a ha => ?_
  by_cases hmasked : effective a = some .full
  · simp [hmasked]
  rw [hfields a ha]
  constructor
  · intro hshown
    have hnot := mt hshown hmasked
    rw [not_or, not_or] at hnot
    exact .inr ⟨⟨hnot.1.1, fun b hb _ htext => hnot.1.2 ⟨b, hb, htext⟩⟩, hnot.2⟩
  · intro hclean hshown
    obtain ⟨⟨hunmasked, htexts⟩, hkey⟩ := hclean.resolve_left hmasked
    obtain ⟨b, hb, htext⟩ := (hshown.resolve_right hkey).resolve_left hunmasked
    by_cases hb' : level b = some .full
    · rw [hb'] at htext
      obtain rfl : b = a := htext
      exact hfull b hb hb'
    · exact absurd htext (htexts b hb hb')

/-- A row that names pseudonymous addresses in its metadata shows only what it may
exactly when its masks are clean. -/
theorem onlyFullShown_iff_masksClean
    (hfields : ∀ a ∈ sides, a ∈ fields ↔
      a ∈ unmasked ∨ ∃ b ∈ sides, applyRedaction key b (level b) = a)
    (hkeys : ∀ a ∈ sides, level a ≠ some .full → (toLower a ∈ keys ↔ level a = some .pseudonymous))
    (hfull : ∀ a ∈ sides, level a = some .full → effective a = some .full)
    (hpseudo : ∀ a ∈ sides, level a = some .pseudonymous ↔ effective a = some .pseudonymous) :
    OnlyFullShown sides fields keys effective ↔ MasksClean sides unmasked effective := by
  rw [onlyFullShown_iff hfields hfull]
  -- a masked address is named exactly if it is pseudonymous
  have hnamed : ∀ a ∈ sides, effective a ≠ some .full →
      (toLower a ∈ keys ↔ effective a = some .pseudonymous) := fun a ha hmasked =>
    (hkeys a ha fun h => hmasked (hfull a ha h)).trans (hpseudo a ha)
  constructor
  · intro hclean a ha
    refine or_iff_not_imp_left.mpr fun hmasked => ?_
    obtain ⟨⟨hunmasked, htexts⟩, hkey⟩ := (hclean a ha).resolve_left hmasked
    rw [hnamed a ha hmasked] at hkey
    refine ⟨hkey, fun hprivate => ?_, hunmasked⟩
    rcases applyRedaction_cases key a (level a) with ⟨h, -⟩ | h | ⟨hlevel, h⟩
    · exact hmasked (hfull a ha h)
    · exact hkey ((hpseudo a ha).mp h)
    · exact htexts a ha hlevel (h.trans hprivate.symm)
  · intro hclean a ha
    refine or_iff_not_imp_left.mpr fun hmasked => ?_
    obtain ⟨hnot, hprivate, hunmasked⟩ := (hclean a ha).resolve_left hmasked
    refine ⟨⟨hunmasked, fun b hb hb' htext => ?_⟩, (hnamed a ha hmasked).not.mpr hnot⟩
    rcases applyRedaction_cases key b (level b) with ⟨h, -⟩ | h | ⟨-, h⟩
    · exact hb' h
    · -- a pseudonymous side is not clean, whatever its pseudonym is
      have heff := (hpseudo b hb).mp h
      rcases hclean b hb with hfullb | ⟨hnotb, -⟩
      · cases heff.symm.trans hfullb
      · exact hnotb heff
    · exact hprivate (htext.symm.trans h)

/-- A row that names only fully visible addresses in its metadata. -/
theorem onlyFullShown_iff_textsClean
    (hfields : ∀ a ∈ sides, a ∈ fields ↔
      a ∈ unmasked ∨ ∃ b ∈ sides, applyRedaction key b (level b) = a)
    (hkeys : ∀ a ∈ sides, toLower a ∈ keys → level a = some .full)
    (hfull : ∀ a ∈ sides, level a = some .full → effective a = some .full) :
    OnlyFullShown sides fields keys effective ↔ TextsClean key sides unmasked level effective := by
  rw [onlyFullShown_iff hfields hfull]
  refine forall₂_congr fun a ha => or_congr_right' fun hmasked => and_iff_left fun hkey => ?_
  exact hmasked (hfull a ha (hkeys a ha hkey))

end Rendering

/-! ## Levels -/

section Levels

variable {always revealed revealed' : Bool} {base : Option VisibilityLevel}

theorem effectiveLevel_cases (always revealed : Bool) (base : Option VisibilityLevel) :
    effectiveLevel always revealed base = some .full ∨
      effectiveLevel always revealed base = base := by
  unfold effectiveLevel
  split
  · exact .inl rfl
  · exact .inr rfl

theorem effectiveLevel_full_mono (hrevealed : revealed = true → revealed' = true)
    (h : effectiveLevel always revealed base = some .full) :
    effectiveLevel always revealed' base = some .full := by
  unfold effectiveLevel at h ⊢
  split at h
  · rename_i hshown
    rw [if_pos (hshown.imp_right (And.imp_left hrevealed))]
  · rw [h, ite_self]

/-- Revealing what is hidden does not touch a pseudonymous address. -/
theorem effectiveLevel_eq_pseudonymous :
    effectiveLevel always revealed base = some .pseudonymous ↔
      always = false ∧ base = some .pseudonymous := by
  unfold effectiveLevel
  split
  · rename_i hshown
    constructor
    · intro hfull
      cases hfull
    · rintro ⟨rfl, rfl⟩
      simp [isNonIdentifiable] at hshown
  · rename_i hshown
    rw [not_or, Bool.not_eq_true] at hshown
    simp [hshown.1]

end Levels

/-! ## Metadata keys -/

theorem mem_keys_set (m : Metadata) (k k' : String) (reason : VisibilityReason) :
    k' ∈ (m.set k reason).keys ↔ k' = k ∨ k' ∈ m.keys := by
  by_cases h : k' = k
  · simp [Metadata.set, Metadata.keys, h]
  · simp only [Metadata.set, Metadata.keys, map_cons, mem_cons, h, false_or, mem_map,
      mem_filter, decide_eq_true_eq]
    constructor
    · rintro ⟨entry, ⟨hmem, -⟩, hkey⟩
      exact ⟨entry, hmem, hkey⟩
    · rintro ⟨entry, hmem, hkey⟩
      exact ⟨entry, ⟨hmem, fun heq => h (hkey.symm.trans heq)⟩, hkey⟩

theorem mem_keys_setMeta (detailed : DetailedMap) (overrides : RowOverrides) (addr k : String)
    (base : Option VisibilityLevel) (m : Metadata) :
    k ∈ (setMeta detailed overrides addr base m).keys ↔
      (k = toLower addr ∧ (metaReason detailed overrides (toLower addr) base).isSome) ∨
        k ∈ m.keys := by
  unfold setMeta
  cases hreason : metaReason detailed overrides (toLower addr) base with
  | none => simp
  | some reason => simp [mem_keys_set]

variable {detailed : DetailedMap} {overrides : RowOverrides} {base : Option VisibilityLevel}
  {a : String}

theorem mem_keys_unless_hidden {k : String} {l : Option VisibilityLevel} {m : Metadata} :
    k ∈ (if isNonIdentifiable l then m else setMeta detailed overrides a base m).keys ↔
      (toLower a = k ∧ isNonIdentifiable l = false ∧
        (metaReason detailed overrides (toLower a) base).isSome = true) ∨ k ∈ m.keys := by
  cases isNonIdentifiable l with
  | true => simp
  | false => simp [mem_keys_setMeta, eq_comm (a := k)]

theorem metaReason_identifiable {k : String} (h : isNonIdentifiable base = false) :
    (metaReason detailed overrides k base).isSome = (detailed k).isSome := by
  simp [metaReason, h]

/-- The keys of a row, where every side that is not hidden is named if it has a
reason: of the masked sides those are the pseudonymous ones. -/
theorem mem_keys_iff_pseudonymous {sides keys : List String}
    {level : String → Option VisibilityLevel} (base : String → Option VisibilityLevel)
    (hmem : toLower a ∈ keys ↔ ∃ b ∈ sides, toLower b = toLower a ∧
      isNonIdentifiable (level b) = false ∧
      (metaReason detailed overrides (toLower b) (base b)).isSome = true)
    (hlevel : ∀ b, level b = some .full ∨
      (level b = base b ∧ base b = levelOf detailed (toLower b)))
    (hcongr : ∀ b, toLower b = toLower a → level b = level a) (ha : a ∈ sides)
    (hmasked : level a ≠ some .full) : toLower a ∈ keys ↔ level a = some .pseudonymous := by
  rw [hmem]
  constructor
  · rintro ⟨b, -, hlower, hshown, hreason⟩
    have hsame := hcongr b hlower
    rw [← hsame] at hmasked ⊢
    obtain ⟨hbase, hmap⟩ := (hlevel b).resolve_left hmasked
    rw [hbase] at hshown hmasked ⊢
    rw [metaReason_identifiable hshown] at hreason
    -- what is neither full, hidden, redacted nor missing is pseudonymous
    obtain ⟨visibility, hvisibility⟩ := Option.isSome_iff_exists.mp hreason
    rw [hmap, levelOf, hvisibility] at hshown hmasked ⊢
    cases hl : visibility.level <;> simp [isNonIdentifiable, hl] at hshown hmasked ⊢
  · intro hpseudo
    obtain ⟨hbase, hmap⟩ := (hlevel a).resolve_left hmasked
    have hshown : isNonIdentifiable (level a) = false := by
      rw [hpseudo]
      rfl
    refine ⟨a, ha, rfl, hshown, ?_⟩
    rw [metaReason_identifiable (hbase ▸ hshown)]
    rw [hbase, hmap, levelOf] at hpseudo
    obtain ⟨visibility, hvisibility, -⟩ := Option.map_eq_some_iff.mp hpseudo
    simp [hvisibility]

/-- A row whose sides are shown at the level that revealing it gives them, and whose
metadata names every side that is not hidden and has a reason. -/
theorem onlyFullShown_iff_revealed (overrides : RowOverrides)
    (base : String → Option VisibilityLevel) {key : List UInt8}
    {sides fields keys unmasked : List String} {level : String → Option VisibilityLevel}
    {always revealed revealed' : String → Bool}
    (hfields : ∀ a ∈ sides, a ∈ fields ↔
      a ∈ unmasked ∨ ∃ b ∈ sides, applyRedaction key b (level b) = a)
    (hmem : ∀ a ∈ sides, toLower a ∈ keys ↔ ∃ b ∈ sides, toLower b = toLower a ∧
      isNonIdentifiable (level b) = false ∧
      (metaReason detailed overrides (toLower b) (base b)).isSome = true)
    (hlevel : ∀ b, level b =
      effectiveLevel (always b) (revealed b) (levelOf detailed (toLower b)))
    (hbase : ∀ b, always b = false → base b = levelOf detailed (toLower b))
    (hcongr : ∀ a b, toLower b = toLower a → level b = level a)
    (hrevealed : ∀ b, revealed b = true → revealed' b = true) :
    OnlyFullShown sides fields keys
        (fun b => effectiveLevel (always b) (revealed' b) (levelOf detailed (toLower b))) ↔
      MasksClean sides unmasked
        (fun b => effectiveLevel (always b) (revealed' b) (levelOf detailed (toLower b))) := by
  refine onlyFullShown_iff_masksClean hfields ?_ ?_ ?_
  · intro a ha
    refine mem_keys_iff_pseudonymous base (hmem a ha) (fun b => ?_) (hcongr a) ha
    rw [hlevel]
    cases halways : always b with
    | true => exact .inl (if_pos (.inl rfl))
    | false =>
      rw [hbase b halways]
      exact (effectiveLevel_cases _ _ _).imp_right fun h => ⟨h, rfl⟩
  · intro a _ hfull
    exact effectiveLevel_full_mono (hrevealed a) (hlevel a ▸ hfull)
  · intro a _
    rw [hlevel, effectiveLevel_eq_pseudonymous, effectiveLevel_eq_pseudonymous]

/-! ## Transactions -/

def Transaction.addresses (tx : Transaction) : List String :=
  [some tx.fromAddr, tx.toAddr, tx.contractAddress].filterMap present

def Transaction.addressFields (row : Transaction) : List String :=
  [some row.fromAddr, row.toAddr, row.contractAddress].filterMap id

theorem present_eq_some {s : Option String} : present s = some a ↔ s = some a ∧ a ≠ "" := by
  simp [present, Option.filter_eq_some_iff]

/-- An address field: a present address is masked, an absent one stays. -/
def shownField (mask : String → String) (s : Option String) : Option String :=
  match present s with
  | some addr => some (mask addr)
  | none => s

theorem shownField_eq_some {mask : String → String} {s : Option String} (hne : a ≠ "") :
    shownField mask s = some a ↔ ∃ b, present s = some b ∧ mask b = a := by
  unfold shownField
  cases hpresent : present s with
  | some b => simp
  | none =>
    have habsent : s ≠ some a := fun h => by
      rw [present_eq_some.mpr ⟨h, hne⟩] at hpresent
      cases hpresent
    simp [habsent]

theorem mem_addresses {tx : Transaction} :
    a ∈ tx.addresses ↔
      a ≠ "" ∧ (tx.fromAddr = a ∨ tx.toAddr = some a ∨ tx.contractAddress = some a) := by
  simp only [Transaction.addresses, mem_filterMap, mem_cons, not_mem_nil, or_false,
    exists_eq_or_imp, exists_eq_left, present_eq_some, Option.some.injEq]
  tauto

theorem exists_mem_addresses {tx : Transaction} {p : String → Prop} :
    (∃ b ∈ tx.addresses, p b) ↔
      (∃ b, present (some tx.fromAddr) = some b ∧ p b) ∨ (∃ b, present tx.toAddr = some b ∧ p b) ∨
        ∃ b, present tx.contractAddress = some b ∧ p b := by
  simp only [Transaction.addresses, mem_filterMap, mem_cons, not_mem_nil, or_false,
    exists_eq_left, or_and_right, exists_or]

namespace TxPass

variable (pass : TxPass) (tx : Transaction)

/-- The level a transaction row shows an address at. -/
def level (addr : String) : Option VisibilityLevel :=
  pass.override tx (levelOf pass.detailed (toLower addr))

/-- The effective level: under the strict profile every address of a transaction
the viewer is a party of is full. `listed` is whether the sender listed the viewer. -/
def effective (listed : String → Bool) (addr : String) : Option VisibilityLevel :=
  effectiveLevel
    (pass.engine.strict &&
      (isViewers pass.viewerAddrs tx.fromAddr || isViewersOpt pass.viewerAddrs tx.toAddr))
    (pass.viewerIsParticipant tx || listed (toLower tx.hash))
    (levelOf pass.detailed (toLower addr))

def shown (addr : String) : String :=
  applyRedaction pass.engine.pseudonymKey addr (pass.level tx addr)

/-- The overrides of a row are those of the effective level; under the strict
profile only the parties take part. -/
theorem override_eq (l : Option VisibilityLevel) :
    pass.override tx l =
      effectiveLevel
        (pass.engine.strict &&
          (isViewers pass.viewerAddrs tx.fromAddr || isViewersOpt pass.viewerAddrs tx.toAddr))
        (pass.viewerIsParticipant tx || pass.txVisibleToViewer tx) l := by
  unfold override effectiveLevel viewerIsParticipant
  cases pass.engine.strict with
  | false => simp
  | true =>
    cases isViewers pass.viewerAddrs tx.fromAddr || isViewersOpt pass.viewerAddrs tx.toAddr <;> simp

theorem override_cases (l : Option VisibilityLevel) :
    pass.override tx l = some .full ∨ pass.override tx l = l := by
  rw [override_eq]
  exact effectiveLevel_cases _ _ _

theorem override_full : pass.override tx (some .full) = some .full := by
  rcases pass.override_cases tx (some .full) with h | h <;> exact h

theorem fromLevel_eq (h : tx.fromAddr ≠ "") : pass.fromLevel tx = pass.level tx tx.fromAddr := by
  simp [fromLevel, level, baseFromLevel, h]

theorem fromLevel_absent (h : tx.fromAddr = "") : pass.fromLevel tx = some .full := by
  rw [fromLevel, baseFromLevel, if_pos h, override_full]

theorem toLevel_eq {recipient : String} (h : tx.recipient = some recipient) :
    pass.toLevel tx = pass.level tx recipient := by
  simp [toLevel, level, baseToLevel, h]

theorem toLevel_absent (h : tx.recipient = none) : pass.toLevel tx = some .full := by
  rw [toLevel, baseToLevel, h]
  exact pass.override_full tx

/-! ### Rendered rows -/

def Names (addr : String) : Prop :=
  isNonIdentifiable (pass.level tx addr) = false ∧
    (metaReason pass.detailed (pass.overrides tx) (toLower addr)
      (levelOf pass.detailed (toLower addr))).isSome = true

/-- The metadata with an address field named, if the row shows it. -/
def nameField (s : Option String) (m : Metadata) : Metadata :=
  match present s with
  | none => m
  | some addr =>
      if isNonIdentifiable (pass.level tx addr) then m
      else setMeta pass.detailed (pass.overrides tx) addr (levelOf pass.detailed (toLower addr)) m

/-- The metadata with the sender named. An absent one is named where the recipient is hidden. -/
def nameSender (m : Metadata) : Metadata :=
  if isNonIdentifiable (pass.fromLevel tx) ∨ (pass.someHidden tx = false ∧ tx.fromAddr = "") then m
  else setMeta pass.detailed (pass.overrides tx) tx.fromAddr (pass.baseFromLevel tx) m

variable {row : Transaction} {k : String}

theorem setMeta_of_no_level {addr : String} {m : Metadata}
    (h : levelOf pass.detailed (toLower addr) = none) :
    setMeta pass.detailed (pass.overrides tx) addr none m = m := by
  have hentry : pass.detailed (toLower addr) = none := Option.map_eq_none_iff.mp h
  simp [setMeta, metaReason, isNonIdentifiable, hentry]

theorem renderContract_eq (row : Transaction) (hrow : row.contractAddress = tx.contractAddress) :
    pass.renderContract tx row = { row with
      contractAddress := shownField (pass.shown tx) tx.contractAddress
      addressMetadata := pass.nameField tx tx.contractAddress row.addressMetadata } := by
  unfold renderContract shownField nameField
  cases present tx.contractAddress with
  | none => simp [← hrow]
  | some contract =>
    have hlevel : pass.override tx (levelOf pass.detailed (toLower contract)) =
      pass.level tx contract := rfl
    simp only [hlevel, shown]
    match h : pass.level tx contract with
    | some .full | some .pseudonymous | some .redacted | some .hidden =>
      simp [isNonIdentifiable, applyRedaction]
    | none =>
      rcases pass.override_cases tx (levelOf pass.detailed (toLower contract)) with hfull | hbase
      · cases h.symm.trans hfull
      · have hnone := hbase.symm.trans h
        rw [hnone, pass.setMeta_of_no_level tx hnone]
        simp [applyRedaction]

theorem renderTo_eq (hrow : row.toAddr = tx.toAddr) :
    pass.renderTo tx row = { row with
      toAddr := shownField (pass.shown tx) tx.toAddr
      addressMetadata := pass.nameField tx tx.toAddr row.addressMetadata } := by
  unfold renderTo showTo shownField nameField
  cases hrecipient : tx.recipient with
  | none =>
    rw [pass.toLevel_absent tx hrecipient, show present tx.toAddr = none from hrecipient, ← hrow]
    rfl
  | some recipient =>
    rw [pass.toLevel_eq tx hrecipient, show present tx.toAddr = some recipient from hrecipient]
    simp only [shown, baseToLevel, hrecipient]
    split
    · rename_i hhidden
      rw [applyRedaction_hidden hhidden]
    · rfl

theorem renderFrom_eq (hhidden : pass.someHidden tx = true) :
    pass.renderFrom tx row = { row with
      fromAddr := applyRedaction pass.engine.pseudonymKey tx.fromAddr (pass.fromLevel tx)
      nonce := if isNonIdentifiable (pass.fromLevel tx) then none else row.nonce
      addressMetadata := pass.nameSender tx row.addressMetadata } := by
  unfold renderFrom nameSender
  cases hfrom : isNonIdentifiable (pass.fromLevel tx) with
  | true => simp [applyRedaction_hidden hfrom]
  | false => simp [hhidden, showFrom]

theorem render_eq : pass.render tx = { tx with
    fromAddr := applyRedaction pass.engine.pseudonymKey tx.fromAddr (pass.fromLevel tx)
    toAddr := shownField (pass.shown tx) tx.toAddr
    contractAddress := shownField (pass.shown tx) tx.contractAddress
    value := if pass.someHidden tx ∧ pass.opts.adminAuditView = false then "" else tx.value
    nonce := if isNonIdentifiable (pass.fromLevel tx) ∨ (pass.someHidden tx = false ∧
        pass.engine.strict = false ∧ pass.viewerIsParticipant tx ∧
        isNonIdentifiable (pass.baseFromLevel tx)) then none else tx.nonce
    inputData := if pass.someHidden tx then "" else tx.inputData
    error := if pass.someHidden tx then none else tx.error
    revertReason := if pass.someHidden tx then none else tx.revertReason
    addressMetadata := pass.nameField tx tx.toAddr (pass.nameSender tx
      (pass.nameField tx tx.contractAddress [])) } := by
  have hcontract := pass.renderContract_eq tx { tx with addressMetadata := [] } rfl
  unfold render
  cases hhidden : pass.someHidden tx with
  | true =>
    rw [if_pos rfl, hcontract, pass.renderFrom_eq tx hhidden, renderTo_eq]
    · cases haudit : pass.opts.adminAuditView <;> simp [stripHidden, haudit]
    · rfl
  | false =>
    -- with nothing hidden both ways of rendering a side agree
    obtain ⟨hfrom, hto⟩ := Bool.or_eq_false_iff.mp hhidden
    have hshowTo : ∀ row, pass.showTo tx row = pass.renderTo tx row := by
      intro row
      rw [renderTo, hto, if_neg Bool.false_ne_true]
    rw [if_neg Bool.false_ne_true, hshowTo, hshowTo, hcontract]
    by_cases hempty : tx.fromAddr = ""
    · rw [pass.fromLevel_absent tx hempty] at hfrom ⊢
      rw [if_pos hempty, renderTo_eq]
      · unfold stripNonce
        split <;> simp [*, nameSender, applyRedaction]
      · rfl
    · rw [if_neg hempty, renderTo_eq]
      · unfold stripNonce showFrom
        split <;> simp [*, nameSender]
      · rfl

/-! ### Fields and metadata -/

theorem mem_addressFields_render {a : String} (ha : a ∈ tx.addresses) :
    a ∈ (pass.render tx).addressFields ↔
      a ∈ ([] : List String) ∨ ∃ b ∈ tx.addresses,
        applyRedaction pass.engine.pseudonymKey b (pass.level tx b) = a := by
  have hne : a ≠ "" := (mem_addresses.mp ha).1
  have hfrom : some (applyRedaction pass.engine.pseudonymKey tx.fromAddr (pass.fromLevel tx)) =
      shownField (pass.shown tx) (some tx.fromAddr) := by
    by_cases hempty : tx.fromAddr = ""
    · rw [pass.fromLevel_absent tx hempty, hempty]
      rfl
    · rw [shownField, present_eq_some.mpr ⟨rfl, hempty⟩, pass.fromLevel_eq tx hempty]
      rfl
  rw [render_eq, exists_mem_addresses, Transaction.addressFields, hfrom]
  simp only [mem_filterMap, mem_cons, not_mem_nil, or_false, exists_eq_or_imp,
    exists_eq_left, id, shownField_eq_some hne, false_or]
  rfl

theorem mem_keys_nameField (s : Option String) (m : Metadata) :
    k ∈ (pass.nameField tx s m).keys ↔
      (∃ b, present s = some b ∧ toLower b = k ∧ pass.Names tx b) ∨ k ∈ m.keys := by
  unfold nameField
  cases present s with
  | none => simp
  | some addr => simp [Names, mem_keys_unless_hidden]

/-- The empty key is the only one an absent sender could write. -/
theorem mem_keys_nameSender (m : Metadata) (hk : k ≠ "") :
    k ∈ (pass.nameSender tx m).keys ↔
      (∃ b, present (some tx.fromAddr) = some b ∧ toLower b = k ∧ pass.Names tx b) ∨
        k ∈ m.keys := by
  by_cases hempty : tx.fromAddr = ""
  · have habsent : ∀ b, present (some "") ≠ some b := by simp [present_eq_some]
    unfold nameSender
    split
    · simp [hempty, habsent]
    · simp [hempty, habsent, mem_keys_setMeta, hk]
  · have hsender : pass.nameSender tx m = pass.nameField tx (some tx.fromAddr) m := by
      simp [nameSender, nameField, present_eq_some.mpr ⟨rfl, hempty⟩, hempty,
        pass.fromLevel_eq tx hempty, baseFromLevel]
    rw [hsender, mem_keys_nameField]

theorem mem_keys_render (hk : k ≠ "") :
    k ∈ (pass.render tx).addressMetadata.keys ↔
      ∃ b ∈ tx.addresses, toLower b = k ∧ pass.Names tx b := by
  rw [render_eq, mem_keys_nameField, pass.mem_keys_nameSender tx _ hk, mem_keys_nameField,
    exists_mem_addresses]
  simp only [Metadata.keys, map_nil, not_mem_nil, or_false]
  exact or_left_comm

/-- What a transaction row shows beyond full addresses. -/
theorem onlyFullShown_render_iff (listed : String → Bool)
    (hlisted : pass.opts.listedTxHashes = if pass.engine.strict then fun _ => false else listed) :
    OnlyFullShown tx.addresses (pass.render tx).addressFields
        (pass.render tx).addressMetadata.keys (pass.effective tx listed) ↔
      MasksClean tx.addresses [] (pass.effective tx listed) := by
  refine onlyFullShown_iff_revealed (pass.overrides tx) _
    (fun a ha => pass.mem_addressFields_render tx ha) ?_ (fun b => pass.override_eq tx _)
    (fun _ _ => rfl) ?_ ?_
  · intro a ha
    exact pass.mem_keys_render tx fun h => (mem_addresses.mp ha).1 (toLower_eq_empty h)
  · intro a b hlower
    rw [level, level, hlower]
  · intro _ hrevealed
    rw [Bool.or_eq_true, txVisibleToViewer, hlisted] at hrevealed
    rw [Bool.or_eq_true]
    refine hrevealed.imp_right fun h => ?_
    split at h
    · cases h
    · exact h

end TxPass

/-! ## Token transfers -/

def TokenTransfer.addresses (t : TokenTransfer) : List String := [t.fromAddr, t.toAddr]

/-- The address fields of a transfer row; the token is never masked. -/
def TokenTransfer.addressFields (row : TokenTransfer) : List String :=
  [row.fromAddr, row.toAddr, row.tokenAddress]

namespace TransferPass

variable (pass : TransferPass) (t : TokenTransfer)

/-- The effective level: the zero address is always full. -/
def effective (listed : String → Bool) (addr : String) : Option VisibilityLevel :=
  effectiveLevel (isZeroEVMAddress addr)
    (isViewers pass.viewerAddrs t.fromAddr || isViewers pass.viewerAddrs t.toAddr ||
      listed (toLower t.txHash))
    (levelOf pass.detailed (toLower addr))

variable {a : String}

theorem baseLevel_congr {b : String} (h : toLower b = toLower a) :
    pass.baseLevel b = pass.baseLevel a := by
  have hzero : isZeroEVMAddress b = isZeroEVMAddress a := by
    rw [isZeroEVMAddress, h]
    rfl
  rw [baseLevel, baseLevel, hzero, h]

theorem level_congr {a b : String} (h : toLower b = toLower a) :
    pass.level t b = pass.level t a := by
  rw [level, level, pass.baseLevel_congr h]

/-- Under the strict profile nothing is revealed, so a side is at its own level. -/
theorem level_strict (hstrict : pass.engine.strict = true)
    (hlisted : pass.opts.listedTxHashes = fun _ => false) (a : String) :
    pass.level t a = pass.baseLevel a := by
  simp [level, viewerIsParticipant, txVisibleToViewer, hstrict, hlisted]

/-- The zero address is always shown, and the others as the row is revealed. -/
theorem level_eq (a : String) :
    pass.level t a = effectiveLevel (isZeroEVMAddress a)
      (pass.viewerIsParticipant t || pass.txVisibleToViewer t)
      (levelOf pass.detailed (toLower a)) := by
  unfold level baseLevel effectiveLevel
  cases isZeroEVMAddress a <;> simp [isNonIdentifiable]

theorem revealed_of_level {listed : String → Bool}
    (hshare : pass.txVisibleToViewer t = true → listed (toLower t.txHash) = true)
    (h : (pass.viewerIsParticipant t || pass.txVisibleToViewer t) = true) :
    (isViewers pass.viewerAddrs t.fromAddr || isViewers pass.viewerAddrs t.toAddr ||
      listed (toLower t.txHash)) = true := by
  rw [Bool.or_eq_true] at h ⊢
  refine h.imp (fun hparty => ?_) hshare
  rw [viewerIsParticipant, Bool.and_eq_true] at hparty
  exact hparty.2

theorem mem_addressFields_iff (row : TokenTransfer) (l : String → Option VisibilityLevel)
    (hfrom : row.fromAddr = applyRedaction pass.engine.pseudonymKey t.fromAddr (l t.fromAddr))
    (hto : row.toAddr = applyRedaction pass.engine.pseudonymKey t.toAddr (l t.toAddr))
    (htoken : row.tokenAddress = t.tokenAddress) (a : String) :
    a ∈ row.addressFields ↔ a ∈ [t.tokenAddress] ∨
      ∃ b ∈ t.addresses, applyRedaction pass.engine.pseudonymKey b (l b) = a := by
  simp only [TokenTransfer.addressFields, TokenTransfer.addresses, hfrom, hto, htoken,
    mem_cons, not_mem_nil, or_false, exists_eq_or_imp, exists_eq_left]
  rw [eq_comm (a := a), eq_comm (a := a)]
  tauto

theorem onlyFullShown_renderStandard_iff (listed : String → Bool)
    (hshare : pass.txVisibleToViewer t = true → listed (toLower t.txHash) = true) :
    OnlyFullShown t.addresses (pass.renderStandard t).addressFields
        (pass.renderStandard t).addressMetadata.keys (pass.effective t listed) ↔
      MasksClean t.addresses [t.tokenAddress] (pass.effective t listed) := by
  refine onlyFullShown_iff_revealed (pass.overrides t) pass.baseLevel
    (fun a _ =>
      pass.mem_addressFields_iff t (pass.renderStandard t) (pass.level t) rfl rfl rfl a) ?_
    (pass.level_eq t) ?_ (fun _ _ => pass.level_congr t) (fun _ => pass.revealed_of_level t hshare)
  · intro a _
    have hnil : toLower a ∉ Metadata.keys [] := by simp [Metadata.keys]
    simp only [renderStandard, sideMeta, mem_keys_unless_hidden, TokenTransfer.addresses, mem_cons,
      not_mem_nil, or_false, exists_eq_or_imp, exists_eq_left, hnil]
    exact or_comm
  · intro b hzero
    rw [baseLevel, hzero, if_neg Bool.false_ne_true]

theorem mem_keys_strictMeta {addr k : String} {m : Metadata}
    (h : k ∈ (pass.strictMeta addr m).keys) :
    (k = toLower addr ∧ pass.baseLevel addr = some .full) ∨ k ∈ m.keys := by
  unfold strictMeta at h
  split at h
  · exact .inr h
  · rename_i hshown
    rw [not_or, not_not] at hshown
    split at h
    · rcases (mem_keys_set m _ _ _).mp h with hk | hk
      · exact .inl ⟨hk, hshown.2⟩
      · exact .inr hk
    · exact .inr h

theorem onlyFullShown_renderStrict_iff (listed : String → Bool)
    (hstrict : pass.engine.strict = true)
    (hlisted : pass.opts.listedTxHashes = fun _ => false) :
    OnlyFullShown t.addresses (pass.renderStrict t).addressFields
        (pass.renderStrict t).addressMetadata.keys (pass.effective t listed) ↔
      TextsClean pass.engine.pseudonymKey t.addresses [t.tokenAddress] pass.baseLevel
        (pass.effective t listed) := by
  refine onlyFullShown_iff_textsClean
    (fun a _ =>
      pass.mem_addressFields_iff t (pass.renderStrict t) pass.baseLevel rfl rfl rfl a) ?_ ?_
  · intro a _ hkey
    rcases pass.mem_keys_strictMeta hkey with ⟨hlower, hfull⟩ | hkey
    · rw [pass.baseLevel_congr hlower]
      exact hfull
    · rcases pass.mem_keys_strictMeta hkey with ⟨hlower, hfull⟩ | hkey
      · rw [pass.baseLevel_congr hlower]
        exact hfull
      · cases hkey
  · intro a _ hfull
    rw [← pass.level_strict t hstrict hlisted, level_eq] at hfull
    exact effectiveLevel_full_mono
      (pass.revealed_of_level t fun h => by simp [txVisibleToViewer, hlisted] at h) hfull

end TransferPass

/-! ## Internal transactions -/

def InternalTransaction.addresses (t : InternalTransaction) : List String :=
  t.fromAddr :: (present t.toAddr).toList

def InternalTransaction.addressFields (row : InternalTransaction) : List String :=
  row.fromAddr :: (present row.toAddr).toList

theorem generatePseudonym_ne_empty (a : String) (key : List UInt8) :
    generatePseudonym a key ≠ "" := by
  intro h
  have hlist := congrArg String.toList h
  unfold generatePseudonym at hlist
  split at hlist
  · exact absurd hlist (by decide)
  · rw [String.toList_append] at hlist
    exact absurd (append_eq_nil_iff.mp hlist).1 (by decide)

theorem applyRedaction_ne_empty (key : List UInt8) (h : a ≠ "") (l : Option VisibilityLevel) :
    applyRedaction key a l ≠ "" := by
  rcases applyRedaction_cases key a l with ⟨-, htext⟩ | rfl | ⟨-, htext⟩
  · rwa [htext]
  · exact generatePseudonym_ne_empty a key
  · rw [htext]
    decide

namespace InternalPass

variable (pass : InternalPass) (t : InternalTransaction)

def level (addr : String) : Option VisibilityLevel :=
  pass.override t addr (levelOf pass.detailed (toLower addr))

/-- The effective level: a party of a parent transaction the viewer took part in
is revealed as well. -/
def effective (listed : String → Bool) (addr : String) : Option VisibilityLevel :=
  effectiveLevel false
    (isViewers pass.viewerAddrs t.fromAddr || isViewersOpt pass.viewerAddrs t.toAddr ||
      listed (toLower t.txHash) || pass.isParentParty t (toLower addr))
    (levelOf pass.detailed (toLower addr))

theorem toLevel_eq {callee : String} (h : present t.toAddr = some callee) :
    pass.toLevel t = pass.level t callee := by
  obtain ⟨hsome, -⟩ := present_eq_some.mp h
  unfold toLevel level baseToLevel
  rw [h]
  simp only [hsome, Option.getD_some]

theorem toLevel_absent (h : present t.toAddr = none) : pass.toLevel t = some .full := by
  simp [toLevel, baseToLevel, h, override, isNonIdentifiable]

theorem level_eq (a : String) :
    pass.level t a = effectiveLevel false
      (pass.viewerIsParticipant t || pass.txVisibleToViewer t ||
        (decide (a ≠ "") && pass.isParentParty t (toLower a)))
      (levelOf pass.detailed (toLower a)) := by
  simp [level, override, effectiveLevel, and_comm, or_assoc]

theorem level_congr {a b : String} (h : toLower b = toLower a) :
    pass.level t b = pass.level t a := by
  have hempty : (b ≠ "") = (a ≠ "") := by
    refine propext (not_congr ⟨fun hb => ?_, fun ha => ?_⟩)
    · subst hb
      exact toLower_eq_empty (h.symm.trans toLower_empty)
    · subst ha
      exact toLower_eq_empty (h.trans toLower_empty)
  simp only [level, override, h, hempty]

def shown (addr : String) : String :=
  applyRedaction pass.engine.pseudonymKey addr (pass.level t addr)

theorem renderFrom_eq (row : InternalTransaction) :
    pass.renderFrom t row = { row with
      fromAddr := pass.shown t t.fromAddr
      addressMetadata :=
        if isNonIdentifiable (pass.level t t.fromAddr) then row.addressMetadata
        else setMeta pass.detailed (pass.overrides t) t.fromAddr
          (levelOf pass.detailed (toLower t.fromAddr)) row.addressMetadata } := by
  rw [renderFrom, show pass.fromLevel t = pass.level t t.fromAddr from rfl, shown]
  split
  · rename_i hhidden
    rw [applyRedaction_hidden hhidden]
  · rfl

theorem render_sides :
    (pass.render t).fromAddr = pass.shown t t.fromAddr ∧
      (pass.render t).toAddr = shownField (pass.shown t) t.toAddr ∧
      ∀ k, k ∈ (pass.render t).addressMetadata.keys ↔
        ∃ b ∈ t.addresses, toLower b = k ∧ isNonIdentifiable (pass.level t b) = false ∧
          (metaReason pass.detailed (pass.overrides t) (toLower b)
            (levelOf pass.detailed (toLower b))).isSome = true := by
  have hstrip : ∀ row, (pass.stripHidden t row).fromAddr = row.fromAddr ∧
      (pass.stripHidden t row).toAddr = row.toAddr ∧
      (pass.stripHidden t row).addressMetadata = row.addressMetadata := by
    intro row
    unfold stripHidden
    split <;> exact ⟨rfl, rfl, rfl⟩
  have hnil : ∀ k, k ∉ Metadata.keys [] := by simp [Metadata.keys]
  obtain ⟨hfrom, hto, hmeta⟩ :=
    hstrip (pass.renderTo t (pass.renderFrom t { t with addressMetadata := [] }))
  rw [render, hfrom, hto, hmeta, renderFrom_eq, renderTo]
  unfold shownField InternalTransaction.addresses
  cases hcallee : present t.toAddr with
  | none =>
    rw [pass.toLevel_absent t hcallee, if_neg (by decide)]
    refine ⟨rfl, rfl, fun k => ?_⟩
    rw [mem_keys_unless_hidden]
    simp [hnil]
  | some callee =>
    rw [pass.toLevel_eq t hcallee]
    cases hhidden : isNonIdentifiable (pass.level t callee) with
    | true =>
      rw [if_pos rfl]
      refine ⟨rfl, congrArg some (applyRedaction_hidden hhidden).symm, fun k => ?_⟩
      rw [mem_keys_unless_hidden]
      simp [hnil, hhidden]
    | false =>
      rw [if_neg Bool.false_ne_true]
      refine ⟨rfl, rfl, fun k => ?_⟩
      rw [mem_keys_setMeta, mem_keys_unless_hidden, eq_comm (a := k), baseToLevel, hcallee]
      simp [hnil, hhidden, or_comm]

theorem mem_addressFields_render (a : String) :
    a ∈ (pass.render t).addressFields ↔ a ∈ ([] : List String) ∨
      ∃ b ∈ t.addresses, applyRedaction pass.engine.pseudonymKey b (pass.level t b) = a := by
  obtain ⟨hfrom, hto, -⟩ := pass.render_sides t
  simp only [InternalTransaction.addressFields, InternalTransaction.addresses, hfrom, hto, shown,
    shownField]
  cases hcallee : present t.toAddr with
  | none => simp [hcallee, eq_comm]
  | some callee =>
    have hne := applyRedaction_ne_empty pass.engine.pseudonymKey (present_eq_some.mp hcallee).2
      (pass.level t callee)
    have hpresent := present_eq_some.mpr ⟨rfl, hne⟩
    simp [hpresent, eq_comm]

theorem onlyFullShown_render_iff (listed : String → Bool)
    (hshare : pass.txVisibleToViewer t = true → listed (toLower t.txHash) = true) :
    OnlyFullShown t.addresses (pass.render t).addressFields
        (pass.render t).addressMetadata.keys (pass.effective t listed) ↔
      MasksClean t.addresses [] (pass.effective t listed) := by
  refine onlyFullShown_iff_revealed (pass.overrides t) _
    (fun a _ => pass.mem_addressFields_render t a)
    (fun a _ => (pass.render_sides t).2.2 (toLower a))
    (pass.level_eq t) (fun _ _ => rfl) (fun _ _ => pass.level_congr t) ?_
  intro b hrevealed
  simp only [Bool.or_eq_true, Bool.and_eq_true] at hrevealed ⊢
  refine hrevealed.imp (Or.imp (fun hparty => ?_) hshare) And.right
  rw [viewerIsParticipant, Bool.and_eq_true, Bool.or_eq_true] at hparty
  exact hparty.1

end InternalPass

/-! ## Pages -/

section Pages

variable (e : RedactionEngine) (viewerDID : String) (opts : RedactOpts)

theorem under_listed (strict : Bool) :
    (opts.under strict).listedTxHashes =
      if strict then fun _ => false else opts.listedTxHashes := by
  cases strict <;> rfl

variable {txs : List Transaction} {redactLogs : List Log → Except String (List Log)}
  {transfers : List TokenTransfer} {itxs : List InternalTransaction}

/-- A row of a redacted page is the rendering of a kept transaction, up to its
token transfer count and categories. -/
theorem redactTransactions_row {page : Redacted Transaction}
    (h : redactTransactions e txs viewerDID opts = .ok page) {row : Transaction}
    (hrow : row ∈ page.rows) :
    ∃ pass tx, txPass e txs viewerDID opts = .ok pass ∧ tx ∈ txs.filter pass.keeps ∧
      row = { pass.render tx with txCategories := row.txCategories,
                                  tokenTransferCount := row.tokenTransferCount } := by
  unfold redactTransactions at h
  split at h
  · obtain rfl := Except.ok.inj h
    cases hrow
  · obtain ⟨pass, hpass, h⟩ := bind_ok_cases h
    obtain ⟨rows, hrows, h⟩ := bind_ok_cases h
    obtain rfl := Except.ok.inj h
    have hmap : ∃ g : Transaction → Transaction,
        (∀ r, g r = { r with txCategories := (g r).txCategories,
                             tokenTransferCount := (g r).tokenTransferCount }) ∧
        rows = ((txs.filter pass.keeps).map pass.render).map g := by
      unfold stripTokenRows at hrows
      split at hrows
      · exact ⟨_, fun r => rfl, (Except.ok.inj hrows).symm⟩
      · split at hrows
        · exact ⟨id, fun r => rfl, by rw [map_id]; exact (Except.ok.inj hrows).symm⟩
        · obtain ⟨eventAccess, -, hrows⟩ := bind_ok_cases hrows
          refine ⟨_, fun r => ?_, (Except.ok.inj hrows).symm⟩
          cases tokenTransfersOf r with
          | none => rfl
          | some token =>
            by_cases haccess : eventAccess token = true
            · simp only [if_pos haccess]
            · simp only [if_neg haccess]
              rfl
    obtain ⟨g, hg, rfl⟩ := hmap
    obtain ⟨r, hr, rfl⟩ := mem_map.mp hrow
    obtain ⟨tx, htx, rfl⟩ := mem_map.mp hr
    exact ⟨pass, tx, hpass, htx, hg _⟩

theorem redactTransfers_row {page : Redacted TokenTransfer}
    (h : redactTransfers e redactLogs transfers viewerDID opts = .ok page) {row : TokenTransfer}
    (hrow : row ∈ page.rows) :
    ∃ pass t, transferPass e redactLogs transfers viewerDID opts = .ok pass ∧
      t ∈ transfers.filter pass.keeps ∧ row = pass.render t := by
  unfold redactTransfers at h
  split at h
  · obtain rfl := Except.ok.inj h
    cases hrow
  · obtain ⟨pass, hpass, h⟩ := bind_ok_cases h
    obtain ⟨rows, hrows, h⟩ := bind_ok_cases h
    obtain rfl := Except.ok.inj h
    have hsub : row ∈ (transfers.filter pass.keeps).map pass.render := by
      unfold filterTokenRows at hrows
      split at hrows
      · obtain rfl := Except.ok.inj hrows
        exact hrow
      · obtain ⟨eventAccess, -, hrows⟩ := bind_ok_cases hrows
        obtain rfl := Except.ok.inj hrows
        exact (mem_filter.mp hrow).1
    obtain ⟨t, ht, rfl⟩ := mem_map.mp hsub
    exact ⟨pass, t, hpass, ht, rfl⟩

theorem redactInternalTransactions_row {page : Redacted InternalTransaction}
    (h : redactInternalTransactions e itxs viewerDID opts = .ok page) {row : InternalTransaction}
    (hrow : row ∈ page.rows) :
    ∃ pass t, internalPass e itxs viewerDID opts = .ok pass ∧ t ∈ itxs.filter pass.keeps ∧
      row = pass.render t := by
  unfold redactInternalTransactions at h
  split at h
  · obtain rfl := Except.ok.inj h
    cases hrow
  · obtain ⟨pass, hpass, h⟩ := bind_ok_cases h
    obtain rfl := Except.ok.inj h
    obtain ⟨t, ht, rfl⟩ := mem_map.mp hrow
    exact ⟨pass, t, hpass, ht, rfl⟩

theorem txPass_opts {pass : TxPass} (h : txPass e txs viewerDID opts = .ok pass) :
    pass.engine = e ∧ pass.opts = opts.under e.strict := by
  obtain ⟨detailed, -, h⟩ := bind_ok_cases h
  obtain ⟨viewerAddrs, -, h⟩ := bind_ok_cases h
  obtain rfl := Except.ok.inj h
  exact ⟨rfl, rfl⟩

theorem transferPass_opts {pass : TransferPass}
    (h : transferPass e redactLogs transfers viewerDID opts = .ok pass) :
    pass.engine = e ∧ pass.opts = opts.under e.strict := by
  obtain ⟨detailed, -, h⟩ := bind_ok_cases h
  obtain ⟨viewerAddrs, -, h⟩ := bind_ok_cases h
  obtain ⟨strictAdmitted, -, h⟩ := bind_ok_cases h
  obtain rfl := Except.ok.inj h
  exact ⟨rfl, rfl⟩

theorem internalPass_opts {pass : InternalPass}
    (h : internalPass e itxs viewerDID opts = .ok pass) :
    pass.engine = e ∧ pass.opts = opts.under e.strict := by
  obtain ⟨parents, -, h⟩ := bind_ok_cases h
  obtain ⟨detailed, -, h⟩ := bind_ok_cases h
  obtain ⟨viewerAddrs, -, h⟩ := bind_ok_cases h
  obtain rfl := Except.ok.inj h
  exact ⟨rfl, rfl⟩

end Pages

/-- **What the rows of the explorer show.** A returned row is the rendering of a
row of the page. It shows only addresses that are fully visible exactly when its
masks are clean: no address of it is pseudonymous, no masked address is itself the
mask, and none is the token of a transfer. A strict transfer row, which does not
name pseudonymous addresses in its metadata, does exactly when no masked address
is the text that another one is masked with. -/
theorem redacted_rows_masked_iff (e : RedactionEngine)
    (redactLogs : List Log → Except String (List Log)) (viewerDID : String) (opts : RedactOpts) :
    (∀ txs page, redactTransactions e txs viewerDID opts = .ok page → ∀ row ∈ page.rows,
      ∃ pass tx, txPass e txs viewerDID opts = .ok pass ∧ tx ∈ txs ∧
        row = { pass.render tx with txCategories := row.txCategories,
                                    tokenTransferCount := row.tokenTransferCount } ∧
        (OnlyFullShown tx.addresses row.addressFields row.addressMetadata.keys
            (pass.effective tx opts.listedTxHashes) ↔
          MasksClean tx.addresses [] (pass.effective tx opts.listedTxHashes))) ∧
    (∀ transfers page, redactTransfers e redactLogs transfers viewerDID opts = .ok page →
      ∀ row ∈ page.rows,
      ∃ pass t, transferPass e redactLogs transfers viewerDID opts = .ok pass ∧ t ∈ transfers ∧
        row = pass.render t ∧
        (OnlyFullShown t.addresses row.addressFields row.addressMetadata.keys
            (pass.effective t opts.listedTxHashes) ↔
          if e.strict then
            TextsClean e.pseudonymKey t.addresses [t.tokenAddress] pass.baseLevel
              (pass.effective t opts.listedTxHashes)
          else MasksClean t.addresses [t.tokenAddress] (pass.effective t opts.listedTxHashes))) ∧
    (∀ itxs page, redactInternalTransactions e itxs viewerDID opts = .ok page → ∀ row ∈ page.rows,
      ∃ pass t, internalPass e itxs viewerDID opts = .ok pass ∧ t ∈ itxs ∧ row = pass.render t ∧
        (OnlyFullShown t.addresses row.addressFields row.addressMetadata.keys
            (pass.effective t opts.listedTxHashes) ↔
          MasksClean t.addresses [] (pass.effective t opts.listedTxHashes))) := by
  refine ⟨?_, ?_, ?_⟩
  · intro txs page h row hrow
    obtain ⟨pass, tx, hpass, hmem, hrender⟩ := redactTransactions_row e viewerDID opts h hrow
    obtain ⟨rfl, hopts⟩ := txPass_opts e viewerDID opts hpass
    refine ⟨pass, tx, hpass, mem_of_mem_filter hmem, hrender, ?_⟩
    have hiff := pass.onlyFullShown_render_iff tx opts.listedTxHashes
      (by rw [hopts]; exact under_listed opts pass.engine.strict)
    rw [hrender]
    exact hiff
  · intro transfers page h row hrow
    obtain ⟨pass, t, hpass, hmem, rfl⟩ := redactTransfers_row e viewerDID opts h hrow
    obtain ⟨rfl, hopts⟩ := transferPass_opts e viewerDID opts hpass
    have hlisted := under_listed opts pass.engine.strict
    rw [← hopts] at hlisted
    refine ⟨pass, t, hpass, mem_of_mem_filter hmem, rfl, ?_⟩
    unfold TransferPass.render
    cases hstrict : pass.engine.strict with
    | true =>
      rw [hstrict, if_pos rfl] at hlisted
      exact pass.onlyFullShown_renderStrict_iff t opts.listedTxHashes hstrict hlisted
    | false =>
      rw [hstrict, if_neg Bool.false_ne_true] at hlisted
      exact pass.onlyFullShown_renderStandard_iff t opts.listedTxHashes
        (fun h => by rw [← hlisted]; exact h)
  · intro itxs page h row hrow
    obtain ⟨pass, t, hpass, hmem, rfl⟩ := redactInternalTransactions_row e viewerDID opts h hrow
    obtain ⟨rfl, hopts⟩ := internalPass_opts e viewerDID opts hpass
    have hlisted := under_listed opts pass.engine.strict
    rw [← hopts] at hlisted
    refine ⟨pass, t, hpass, mem_of_mem_filter hmem, rfl,
      pass.onlyFullShown_render_iff t opts.listedTxHashes ?_⟩
    intro hshare
    rw [InternalPass.txVisibleToViewer, hlisted] at hshare
    split at hshare
    · cases hshare
    · exact hshare

/-! ## A pseudonymous recipient -/

/-- A viewer without addresses, to whom one address is public and one pseudonymous. -/
def pseudonymousDatabase : Database where
  getBatchVisibilityDetailed _ _ :=
    .ok fun key =>
      if key = "0xaa" then some { level := .full, reason := .publicAddress }
      else if key = "0xbb" then some { level := .pseudonymous, reason := .noAccess }
      else none
  getLinkedAddresses _ := .ok []
  getBatchEventAccess _ _ := .ok fun _ => false

def pseudonymousEngine : RedactionEngine where
  readProfile := .standard
  db := pseudonymousDatabase

def pseudonymousRow : Transaction where
  hash := "0x1"
  fromAddr := "0xaa"
  toAddr := some "0xbb"

/-- What is returned for it: the pseudonym in the field, the address in the
metadata. -/
def pseudonymousRendered : Transaction where
  hash := "0x1"
  fromAddr := "0xaa"
  toAddr := some "Address-Unknown"
  addressMetadata := [("0xbb", .noAccess), ("0xaa", .publicAddress)]

/-- The recipient is rendered as a pseudonym, and the metadata names it. -/
theorem pseudonymous_named_in_metadata :
    (redactTransactions pseudonymousEngine [pseudonymousRow] "did:eve" {}).map (·.rows) =
        .ok [pseudonymousRendered] ∧
      ∃ pass, txPass pseudonymousEngine [pseudonymousRow] "did:eve" {} = .ok pass ∧
        pass.effective pseudonymousRow (fun _ => false) "0xbb" = some .pseudonymous ∧
        ¬ OnlyFullShown pseudonymousRow.addresses pseudonymousRendered.addressFields
          pseudonymousRendered.addressMetadata.keys
          (pass.effective pseudonymousRow fun _ => false) := by
  refine ⟨by decide +kernel, _, rfl, by decide +kernel, ?_⟩
  intro hshown
  have hkey : toLower "0xbb" ∈ pseudonymousRendered.addressMetadata.keys := by decide +kernel
  have hfull := hshown "0xbb" (by decide) (.inr hkey)
  exact absurd hfull (by decide +kernel)

end PrivacySuite.Explorer
