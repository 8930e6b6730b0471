import PrivacySuite.Rbac.TraceValidator

/-!
# Soundness of trace validation

An allowed trace holds only frames that one of the rules admits, whatever options
are set: `validateTrace_sound`. Each pass is a loop, so each has a lemma that
says what one step can do, and an invariant that carries it over the whole run.
The denials that are put off to the end do not weaken the invariants: a run that
ends with no frame out of scope met none on the way.
-/

namespace PrivacySuite.Rbac

open Go Phase Tracer List

/-! ## What an allowed trace guarantees -/

section Statement

variable (v : TraceValidator) (userOrgIDs : List String) (userHasDeploy : Bool) (o : TraceOptions)

/-- The store knows the owner, and it is nobody or one of the caller's
organizations. -/
def OwnerInside (addr : String) : Prop :=
  ∃ owner, v.store.getContractOwnerOrgID addr = .ok owner ∧ (owner = "" ∨ owner ∈ userOrgIDs)

/-- Created by an error-free creation among `earlier`, when created contracts
count as own. -/
def CreatedBy (earlier : List CallTarget) (addr : String) : Prop :=
  o.createdAsOwn = true ∧
    ∃ t ∈ earlier, t.kind.isCreate = true ∧ t.error = "" ∧ targetAddr t = addr

/-- Listed as a fresh pre-flight creation, and created in the trace. -/
def FreshIn (targets : List CallTarget) (addr : String) : Prop :=
  o.freshCreations addr = true ∧ ∃ t ∈ targets, t.kind.isCreate = true ∧ targetAddr t = addr

/-- The code hash pin of a tagged row, when it has one and code can be fetched,
is the hash of the current code. -/
def PinHolds (row : SharedInfrastructure) (addr : String) : Prop :=
  ∀ pin getCodeHash, row.codehash = some pin → pin ≠ "" → v.codeFetcher = some getCodeHash →
    ∃ currentHash, getCodeHash addr = .ok currentHash ∧ equalFold currentHash pin = true

/-- The grant scoping condition on a frame of the caller's organization. -/
def GrantHolds (t : CallTarget) : Prop :=
  o.intraOrgGrantScoping = true →
    o.grantedContracts (grantAddress o t) = true ∨
      (userHasDeploy = true ∧ ∃ orgID ∈ userOrgIDs,
        v.store.isAddressPreregistered orgID (grantAddress o t) = .ok true)

/-- The ways a call frame is admitted. `created` and `fresh` say which addresses
count as created by the trace. -/
inductive FrameAllowed (created fresh : String → Prop) (t : CallTarget) : Prop
  | precompile (h : isPrecompileAddress (targetAddr t) = true)
  | createdInTrace (h : created (targetAddr t))
  | sharedInfrastructure (row : SharedInfrastructure)
      (hrow : v.store.getSharedInfrastructure (targetAddr t) = .ok (some row))
      (hdelegate : t.kind ≠ .delegateCall) (hcallCode : t.kind ≠ .callCode)
      (hpin : PinHolds v row (targetAddr t))
  | freshCreation (h : fresh (targetAddr t))
  | owned (orgID : String) (horg : orgID ∈ userOrgIDs)
      (howned : v.store.isAddressOwnedByOrg (targetAddr t) orgID = .ok true)
      (hgrant : GrantHolds v userOrgIDs userHasDeploy o t)
  | valueRecipient (h : o.noCodeRecipients (targetAddr t) = true)
      (hkind : t.kind = .call ∨ t.kind = .selfDestruct)
      (howner : v.store.getContractOwnerOrgID (targetAddr t) = .ok "")

/-- Creations need the deploy claim and no foreign owner; every other frame that
names an account is admitted by a rule. -/
structure TraceSound (trace : TraceResult) : Prop where
  deploy : (∃ t ∈ trace.callTargets, t.kind.isCreate = true) → userHasDeploy = true
  creations : ∀ t ∈ trace.callTargets, t.kind.isCreate = true →
    isBlankAddr (targetAddr t) = false → OwnerInside v userOrgIDs (targetAddr t)
  frames : ∀ earlier t later, trace.callTargets = earlier ++ t :: later →
    t.kind.isCreate = false → isBlankAddr (targetAddr t) = false →
    FrameAllowed v userOrgIDs userHasDeploy o (CreatedBy o earlier)
      (FreshIn o trace.callTargets) t

end Statement

section Proof

variable {v : TraceValidator} {userOrgIDs : List String} {userHasDeploy : Bool} {o : TraceOptions}
  {t : CallTarget}

variable {created fresh : String → Prop} {α : Type} {done targets : List CallTarget}
  {opts : List TraceOption}

theorem FrameAllowed.mono {created' fresh' : String → Prop} (hcreated : ∀ a, created a → created' a)
    (hfresh : ∀ a, fresh a → fresh' a)
    (h : FrameAllowed v userOrgIDs userHasDeploy o created fresh t) :
    FrameAllowed v userOrgIDs userHasDeploy o created' fresh' t := by
  cases h with
  | precompile h => exact .precompile h
  | createdInTrace h => exact .createdInTrace (hcreated _ h)
  | sharedInfrastructure row hrow hd hc hpin => exact .sharedInfrastructure row hrow hd hc hpin
  | freshCreation h => exact .freshCreation (hfresh _ h)
  | owned orgID horg howned hgrant => exact .owned orgID horg howned hgrant
  | valueRecipient h hkind howner => exact .valueRecipient h hkind howner

/-! ## A pass never ends in an allow -/

/-- The step never ends the validation with an allow. -/
abbrev TraceDenyOnly {α : Type} (x : Except TraceOutcome α) : Prop :=
  EndsIn (¬ TraceOutcome.Allows ·) x

theorem denyOnly_denyTrace (reason : String) (kind : DenialKind) (target : String) :
    TraceDenyOnly (denyTrace reason kind target : Except TraceOutcome α) := by
  refine endsIn_error ?_
  rintro ⟨r, hr, hallowed⟩
  obtain rfl := Except.ok.inj hr
  cases hallowed

theorem denyOnly_failTrace (x : Except String α) (text : String) :
    TraceDenyOnly (orFail x (failTrace text)) := by
  refine endsIn_orFail fun e => ?_
  rintro ⟨r, hr, -⟩
  cases hr

theorem denyOnly_validateCreateTarget (s : CreatePass) :
    TraceDenyOnly (validateCreateTarget v userOrgIDs o s t) := by
  unfold validateCreateTarget judgeCreated
  refine endsIn_ite (endsIn_ok _) (endsIn_ite (endsIn_ok _) ?_)
  refine endsIn_bind (denyOnly_failTrace _ _) fun owner => ?_
  exact endsIn_ite (endsIn_ok _) (endsIn_ite (denyOnly_denyTrace _ _ _)
    (endsIn_ite (denyOnly_denyTrace _ _ _) (endsIn_ok _)))

theorem denyOnly_validateCreations (trace : TraceResult) :
    TraceDenyOnly (validateCreations v userOrgIDs userHasDeploy o trace) :=
  endsIn_ite (endsIn_ok _) (endsIn_ite (denyOnly_denyTrace _ _ _)
    (endsIn_foldlM fun s _ => denyOnly_validateCreateTarget s))

theorem denyOnly_checkSharedInfrastructure : TraceDenyOnly (checkSharedInfrastructure v t) := by
  refine endsIn_bind (denyOnly_failTrace _ _) fun row => ?_
  unfold judgeShared
  split
  · exact endsIn_ok _
  · refine endsIn_ite (denyOnly_denyTrace _ _ _) ?_
    split
    · split
      · exact endsIn_ok _
      · exact endsIn_ite (endsIn_ok _) (denyOnly_denyTrace _ _ _)
    · exact endsIn_ok _

theorem denyOnly_validateByOwner (s : CallPass) :
    TraceDenyOnly (validateByOwner v userOrgIDs userHasDeploy o s t) := by
  refine endsIn_bind (denyOnly_failTrace _ _) fun owned => endsIn_ite ?_ ?_
  · refine endsIn_ite (endsIn_bind (denyOnly_failTrace _ _) fun _ => ?_)
      (endsIn_ite (endsIn_ok _) (endsIn_ok _))
    exact endsIn_ite (endsIn_ok _) (denyOnly_denyTrace _ _ _)
  · refine endsIn_bind (denyOnly_failTrace _ _) fun owner => ?_
    exact endsIn_ite (endsIn_ok _) (endsIn_ite (denyOnly_denyTrace _ _ _)
      (endsIn_ite (endsIn_ok _) (denyOnly_denyTrace _ _ _)))

theorem denyOnly_validateCallTarget (fresh : List String) (s : CallPass) :
    TraceDenyOnly (validateCallTarget v userOrgIDs userHasDeploy o fresh s t) := by
  unfold validateCallTarget
  refine endsIn_ite (endsIn_ok _) (endsIn_ite (endsIn_ok _) (endsIn_ite (endsIn_ok _)
    (endsIn_ite (endsIn_ok _) ?_)))
  exact endsIn_bind denyOnly_checkSharedInfrastructure fun _ =>
    endsIn_ite (endsIn_ok _) (denyOnly_validateByOwner s)

/-! ## The creation pass -/

theorem validateCreateTarget_cases {s s' : CreatePass}
    (h : validateCreateTarget v userOrgIDs o s t = .ok s') :
    (s' = s ∧ (t.kind.isCreate = true → isBlankAddr (targetAddr t) = true)) ∨
      s'.outOfScope.address ≠ "" ∧ s'.freshCreated = s.freshCreated ∨
      (OwnerInside v userOrgIDs (targetAddr t) ∧ t.kind.isCreate = true ∧
        s'.outOfScope = s.outOfScope ∧
        ∀ a ∈ s'.freshCreated,
          a ∈ s.freshCreated ∨ (a = targetAddr t ∧ o.freshCreations a = true)) := by
  unfold validateCreateTarget at h
  split at h
  · rename_i hkind
    obtain rfl := Except.ok.inj h
    exact .inl ⟨rfl, fun hcreate => by rw [hkind] at hcreate; cases hcreate⟩
  split at h
  · rename_i hblank
    obtain rfl := Except.ok.inj h
    exact .inl ⟨rfl, fun _ => hblank⟩
  rename_i hkind hblank
  obtain ⟨owner, howner, hjudge⟩ := bind_ok_cases h
  unfold judgeCreated at hjudge
  split at hjudge
  · obtain rfl := Except.ok.inj hjudge
    have hne := ne_empty_of_not_blank (Bool.eq_false_iff.mpr hblank)
    exact .inr (.inl ⟨OutOfScopeFrame.first_ne hne, rfl⟩)
  split at hjudge
  · cases hjudge
  rename_i hforeign
  split at hjudge
  · cases hjudge
  obtain rfl := Except.ok.inj hjudge
  have hinside : owner = "" ∨ owner ∈ userOrgIDs := by
    by_contra hcon
    rw [not_or] at hcon
    exact hforeign hcon
  refine .inr (.inr ⟨⟨owner, orFail_ok howner, hinside⟩, Bool.not_eq_false _ ▸ hkind, rfl, ?_⟩)
  intro a ha
  simp only at ha
  split at ha
  · rename_i hfresh
    rcases mem_cons.mp ha with rfl | ha
    · exact .inr ⟨rfl, hfresh⟩
    · exact .inl ha
  · exact .inl ha

/-- The invariant of the creation pass, over the frames done. -/
structure CreateInvariant (v : TraceValidator) (userOrgIDs : List String) (o : TraceOptions)
    (done : List CallTarget) (s : CreatePass) : Prop where
  fresh : ∀ a ∈ s.freshCreated, FreshIn o done a
  owners : s.outOfScope.address = "" → ∀ t ∈ done, t.kind.isCreate = true →
    isBlankAddr (targetAddr t) = false → OwnerInside v userOrgIDs (targetAddr t)

theorem FreshIn.append {a : String} (h : FreshIn o done a) (more : List CallTarget) :
    FreshIn o (done ++ more) a := by
  obtain ⟨hlisted, t, ht, hcreate, haddr⟩ := h
  exact ⟨hlisted, t, mem_append_left _ ht, hcreate, haddr⟩

theorem createInvariant_step {s s' : CreatePass} (hs : CreateInvariant v userOrgIDs o done s)
    (h : validateCreateTarget v userOrgIDs o s t = .ok s') :
    CreateInvariant v userOrgIDs o (done ++ [t]) s' := by
  rcases validateCreateTarget_cases h with
    ⟨rfl, hblank⟩ | ⟨hscope, hsame⟩ | ⟨hinside, hcreate, hscope, hfresh⟩
  · refine ⟨fun a ha => (hs.fresh a ha).append _, fun hscope t' ht' hkind hnamed => ?_⟩
    rcases mem_append.mp ht' with ht' | ht'
    · exact hs.owners hscope t' ht' hkind hnamed
    · obtain rfl := mem_singleton.mp ht'
      rw [hblank hkind] at hnamed
      cases hnamed
  · exact ⟨fun a ha => (hs.fresh a (hsame ▸ ha)).append _, fun hempty => absurd hempty hscope⟩
  · refine ⟨fun a ha => ?_, fun hempty t' ht' hkind hnamed => ?_⟩
    · rcases hfresh a ha with ha | ⟨rfl, hlisted⟩
      · exact (hs.fresh a ha).append _
      · exact ⟨hlisted, t, by simp, hcreate, rfl⟩
    · rcases mem_append.mp ht' with ht' | ht'
      · exact hs.owners (hscope ▸ hempty) t' ht' hkind hnamed
      · obtain rfl := mem_singleton.mp ht'
        exact hinside

variable {trace : TraceResult} {s s' : CallPass} {freshCreated : List String}

theorem validateCreations_ok {creations : CreatePass} (hflags : trace.FlagsAgree)
    (h : validateCreations v userOrgIDs userHasDeploy o trace = .ok creations) :
    ((∃ t ∈ trace.callTargets, t.kind.isCreate = true) → userHasDeploy = true) ∧
      CreateInvariant v userOrgIDs o trace.callTargets creations := by
  unfold validateCreations at h
  split at h
  · -- no flag is up, so there is no creation
    rename_i hnone
    obtain rfl := Except.ok.inj h
    have hno : ∀ t ∈ trace.callTargets, t.kind.isCreate ≠ true := by
      intro t ht hcreate
      rw [hflags.isCreate ht hcreate] at hnone
      cases hnone
    refine ⟨fun ⟨t, ht, hcreate⟩ => absurd hcreate (hno t ht), ?_⟩
    exact ⟨fun a ha => absurd ha not_mem_nil,
      fun _ t ht hcreate => absurd hcreate (hno t ht)⟩
  split at h
  · cases h
  · rename_i hdeploy
    refine ⟨fun _ => Bool.not_eq_false _ ▸ hdeploy, ?_⟩
    have hinit : CreateInvariant v userOrgIDs o [] {} := by
      constructor <;> simp
    exact foldlM_ok_invariant hinit (fun _ _ _ _ hs hstep => createInvariant_step hs hstep) h

/-! ## The call pass -/

theorem anyOrg_true {ask : String → Except String Bool} {orgs : List String}
    (h : anyOrg ask orgs = .ok true) : ∃ orgID ∈ orgs, ask orgID = .ok true := by
  induction orgs with
  | nil => cases h
  | cons orgID rest ih =>
    unfold anyOrg at h
    split at h
    · cases h
    · rename_i hask
      exact ⟨orgID, mem_cons_self, hask⟩
    · obtain ⟨orgID', hmem, hask⟩ := ih h
      exact ⟨orgID', mem_cons_of_mem _ hmem, hask⟩

theorem ownedByUserOrg_true {addr : String} (h : ownedByUserOrg v userOrgIDs addr = .ok true) :
    ∃ orgID ∈ userOrgIDs, v.store.isAddressOwnedByOrg addr orgID = .ok true := by
  obtain ⟨orgID, hmem, hask⟩ := anyOrg_true h
  refine ⟨orgID, hmem, ?_⟩
  cases hlookup : v.store.isAddressOwnedByOrg addr orgID with
  | error e => rw [hlookup] at hask; cases hask
  | ok b => rw [hlookup] at hask; exact hask

theorem checkSharedInfrastructure_true (h : checkSharedInfrastructure v t = .ok true) :
    ∃ row, v.store.getSharedInfrastructure (targetAddr t) = .ok (some row) ∧
      t.kind ≠ .delegateCall ∧ t.kind ≠ .callCode ∧ PinHolds v row (targetAddr t) := by
  obtain ⟨found, hfound, hjudge⟩ := bind_ok_cases h
  have hfound := orFail_ok hfound
  cases found with
  | none => cases hjudge
  | some row =>
    simp only [judgeShared] at hjudge
    split at hjudge
    · cases hjudge
    rename_i hkind
    rw [not_or] at hkind
    refine ⟨row, hfound, hkind.1, hkind.2, ?_⟩
    intro pin getCodeHash hpin hne hfetch
    have hfilter : row.codehash.filter (· ≠ "") = some pin := by
      rw [hpin]
      simp [Option.filter, hne]
    rw [hfilter, hfetch] at hjudge
    simp only at hjudge
    split at hjudge
    · cases hjudge
    · rename_i currentHash hhash
      split at hjudge
      · rename_i heq
        exact ⟨currentHash, hhash, heq⟩
      · cases hjudge

/-- A frame of the caller's organization that passed: its grant holds, and the
pass is where it was. -/
theorem validateOwnedTarget_ok (h : validateOwnedTarget v userOrgIDs userHasDeploy o s t = .ok s') :
    GrantHolds v userOrgIDs userHasDeploy o t ∧ s'.outOfScope = s.outOfScope ∧
      s'.createdInTrace = s.createdInTrace := by
  unfold validateOwnedTarget at h
  split at h
  · obtain ⟨prereg, hprereg, hrest⟩ := bind_ok_cases h
    split at hrest
    · rename_i hyes
      obtain rfl := Except.ok.inj hrest
      refine ⟨fun _ => .inr ?_, rfl, rfl⟩
      have hprereg := orFail_ok hprereg
      rw [hyes] at hprereg
      split at hprereg
      · rename_i hdeploy
        exact ⟨hdeploy, anyOrg_true hprereg⟩
      · cases hprereg
    · cases hrest
  · rename_i hgrant
    have hholds : GrantHolds v userOrgIDs userHasDeploy o t := by
      intro hscoped
      refine .inl ?_
      by_contra hnot
      exact hgrant ⟨hscoped, Bool.not_eq_true _ ▸ hnot⟩
    split at h <;> obtain rfl := Except.ok.inj h
    · exact ⟨hholds, rfl, rfl⟩
    · exact ⟨hholds, rfl, rfl⟩

/-- A frame judged by its owner: it is out of scope, or a rule admits it. -/
theorem validateByOwner_ok (hnamed : isBlankAddr (targetAddr t) = false)
    (h : validateByOwner v userOrgIDs userHasDeploy o s t = .ok s') :
    s'.createdInTrace = s.createdInTrace ∧
      (s'.outOfScope.address ≠ "" ∨ s'.outOfScope = s.outOfScope ∧
        FrameAllowed v userOrgIDs userHasDeploy o created fresh t) := by
  obtain ⟨owned, howned, hrest⟩ := bind_ok_cases h
  split at hrest
  · rename_i hyes
    obtain ⟨hgrant, hscope, hcreated⟩ := validateOwnedTarget_ok hrest
    obtain ⟨orgID, horg, hstore⟩ := ownedByUserOrg_true (hyes ▸ orFail_ok howned)
    exact ⟨hcreated, .inr ⟨hscope, .owned orgID horg hstore hgrant⟩⟩
  obtain ⟨owner, howner, hjudge⟩ := bind_ok_cases hrest
  unfold judgeUnowned at hjudge
  split at hjudge
  · obtain rfl := Except.ok.inj hjudge
    exact ⟨rfl, .inl (OutOfScopeFrame.first_ne (ne_empty_of_not_blank hnamed))⟩
  split at hjudge
  · cases hjudge
  rename_i hunowned
  split at hjudge
  · rename_i hrecipient
    obtain rfl := Except.ok.inj hjudge
    have hnone : owner = "" := not_ne_iff.mp hunowned
    exact ⟨rfl, .inr ⟨rfl, .valueRecipient hrecipient.1 hrecipient.2 (hnone ▸ orFail_ok howner)⟩⟩
  · cases hjudge

theorem validateCallTarget_cases
    (h : validateCallTarget v userOrgIDs userHasDeploy o freshCreated s t = .ok s') :
    (t.kind.isCreate = true ∧ s' = s.recordCreation o t) ∨
      (t.kind.isCreate = false ∧ s'.createdInTrace = s.createdInTrace ∧
        (s'.outOfScope.address ≠ "" ∨ s'.outOfScope = s.outOfScope ∧
          (isBlankAddr (targetAddr t) = false →
            FrameAllowed v userOrgIDs userHasDeploy o (· ∈ s.createdInTrace)
              (· ∈ freshCreated) t))) := by
  unfold validateCallTarget at h
  split at h
  · rename_i hcreate
    exact .inl ⟨hcreate, (Except.ok.inj h).symm⟩
  rename_i hcreate
  refine .inr ⟨Bool.not_eq_true _ ▸ hcreate, ?_⟩
  split at h
  · rename_i hblank
    obtain rfl := Except.ok.inj h
    refine ⟨rfl, .inr ⟨rfl, fun hnamed => ?_⟩⟩
    rw [hblank] at hnamed
    cases hnamed
  rename_i hblank
  split at h
  · rename_i hpre
    obtain rfl := Except.ok.inj h
    exact ⟨rfl, .inr ⟨rfl, fun _ => .precompile hpre⟩⟩
  split at h
  · rename_i hown
    obtain rfl := Except.ok.inj h
    exact ⟨rfl, .inr ⟨rfl, fun _ => .createdInTrace hown⟩⟩
  obtain ⟨shared, hshared, hrest⟩ := bind_ok_cases h
  split at hrest
  · rename_i hskip
    obtain rfl := Except.ok.inj hrest
    refine ⟨rfl, .inr ⟨rfl, fun _ => ?_⟩⟩
    rcases hskip with rfl | hfresh
    · obtain ⟨row, hrow, hdelegate, hcallCode, hpin⟩ := checkSharedInfrastructure_true hshared
      exact .sharedInfrastructure row hrow hdelegate hcallCode hpin
    · exact .freshCreation hfresh
  · obtain ⟨hcreated, hscope⟩ := validateByOwner_ok (Bool.not_eq_true _ ▸ hblank) hrest
    refine ⟨hcreated, hscope.imp_right fun ⟨hsame, hallowed⟩ => ⟨hsame, fun _ => hallowed⟩⟩

theorem recordCreation_outOfScope (s : CallPass) :
    (s.recordCreation o t).outOfScope = s.outOfScope := by
  unfold CallPass.recordCreation
  split <;> rfl

theorem validateCallTarget_scope
    (h : validateCallTarget v userOrgIDs userHasDeploy o freshCreated s t = .ok s')
    (hempty : s'.outOfScope.address = "") : s.outOfScope.address = "" := by
  rcases validateCallTarget_cases h with ⟨-, rfl⟩ | ⟨-, -, hscope | ⟨hsame, -⟩⟩
  · rwa [recordCreation_outOfScope] at hempty
  · exact absurd hempty hscope
  · rwa [← hsame]

theorem callPass_scope
    (h : targets.foldlM (validateCallTarget v userOrgIDs userHasDeploy o freshCreated) s = .ok s')
    (hempty : s'.outOfScope.address = "") : s.outOfScope.address = "" :=
  foldlM_ok_invariant (I := fun _ s1 => s1.outOfScope.address = "" → s.outOfScope.address = "") id
    (fun _ _ _ _ hs hstep hlast => hs (validateCallTarget_scope hstep hlast)) h hempty

theorem callPass_created (hinit : s.createdInTrace = [])
    (h : targets.foldlM (validateCallTarget v userOrgIDs userHasDeploy o freshCreated) s = .ok s') :
    ∀ a ∈ s'.createdInTrace, CreatedBy o targets a := by
  refine foldlM_ok_invariant (I := fun done s1 => ∀ a ∈ s1.createdInTrace, CreatedBy o done a)
    (by simp [hinit]) ?_ h
  intro done t s1 s2 hs hstep a ha
  have hold : a ∈ s1.createdInTrace → CreatedBy o (done ++ [t]) a := by
    intro ha1
    obtain ⟨hopt, t', ht', hrest⟩ := hs a ha1
    exact ⟨hopt, t', mem_append_left _ ht', hrest⟩
  rcases validateCallTarget_cases hstep with ⟨hcreate, rfl⟩ | ⟨-, hsame, -⟩
  · unfold CallPass.recordCreation at ha
    split at ha
    · rename_i hrecord
      rcases mem_cons.mp ha with rfl | ha
      · exact ⟨hrecord.1, t, by simp, hcreate, hrecord.2.1, rfl⟩
      · exact hold ha
    · exact hold ha
  · exact hold (hsame ▸ ha)

/-! ## The whole validation -/

theorem validateTrace_allows
    (h : TraceOutcome.Allows (validateTrace v userOrgIDs userHasDeploy (some trace) opts)) :
    ∃ creations calls,
      validateCreations v userOrgIDs userHasDeploy (applyOptions opts) trace = .ok creations ∧
      trace.callTargets.foldlM (validateCallTarget v userOrgIDs userHasDeploy (applyOptions opts)
        creations.freshCreated) { outOfScope := creations.outOfScope } = .ok calls ∧
      calls.outOfScope.address = "" := by
  obtain ⟨creations, hcreations, hrest⟩ :=
    run_bind_of_endsIn (P := TraceOutcome.Allows) (denyOnly_validateCreations trace) h
  obtain ⟨calls, hcalls, hverdict⟩ :=
    run_bind_of_endsIn (P := TraceOutcome.Allows)
      (endsIn_foldlM fun s _ => denyOnly_validateCallTarget _ s) hrest
  refine ⟨creations, calls, hcreations, hcalls, ?_⟩
  obtain ⟨r, hr, hallowed⟩ := hverdict
  by_contra hscope
  obtain rfl := Except.ok.inj hr
  rw [traceVerdict, if_pos hscope] at hallowed
  cases hallowed

theorem traceSound_of_allows (hflags : trace.FlagsAgree)
    (h : TraceOutcome.Allows (validateTrace v userOrgIDs userHasDeploy (some trace) opts)) :
    TraceSound v userOrgIDs userHasDeploy (applyOptions opts) trace := by
  obtain ⟨creations, calls, hcreations, hcalls, hempty⟩ := validateTrace_allows h
  obtain ⟨hdeploy, hinv⟩ := validateCreations_ok hflags hcreations
  refine ⟨hdeploy, hinv.owners (callPass_scope hcalls hempty), ?_⟩
  intro earlier t later htargets hcreate hnamed
  -- the run reaches the frame in some state, steps over it and goes on
  rw [htargets] at hcalls
  obtain ⟨s1, s2, hbefore, hstep, hafter⟩ := foldlM_ok_split hcalls
  have hcreated := callPass_created rfl hbefore
  rcases validateCallTarget_cases hstep with ⟨hkind, -⟩ | ⟨-, -, hscope | ⟨-, hallowed⟩⟩
  · rw [hcreate] at hkind
    cases hkind
  · exact absurd (callPass_scope hafter hempty) hscope
  · exact (hallowed hnamed).mono hcreated hinv.fresh

end Proof

/-- **Soundness of trace validation.** For every store, caller, option list and
trace whose creation flags agree with its call targets: if the trace is allowed,
its creations and its frames are all admitted by a rule. -/
theorem validateTrace_sound (v : TraceValidator) (userOrgIDs : List String) (userHasDeploy : Bool)
    (trace : TraceResult) (opts : List TraceOption) (hflags : trace.FlagsAgree)
    (hallowed : TraceOutcome.Allows (validateTrace v userOrgIDs userHasDeploy (some trace) opts)) :
    TraceSound v userOrgIDs userHasDeploy (applyOptions opts) trace :=
  traceSound_of_allows hflags hallowed

/-- One owned contract, and one tagged contract with a pinned code hash. -/
def sampleValidator : TraceValidator where
  store :=
    { isAddressOwnedByOrg := fun addr orgID => .ok (addr == "0xa1" && orgID == "org-o")
      getContractOwnerOrgID := fun addr => .ok (if addr == "0xa1" then "org-o" else "")
      isAddressPreregistered := fun _ _ => .ok false
      getSharedInfrastructure := fun addr =>
        .ok (if addr == "0xb2" then some { address := addr, codehash := some "0xCD" } else none) }
  codeFetcher := some fun _ => .ok "0xcd"

/-- The owned contract creates a child, calls it, and reads the tagged contract. -/
def sampleTrace : TraceResult where
  callTargets :=
    [{ kind := .call, toAddr := "0xA1" },
     { kind := .create, fromAddr := "0xa1", toAddr := "0xc3", depth := 1 },
     { kind := .call, fromAddr := "0xa1", toAddr := "0xc3", depth := 1 },
     { kind := .staticCall, fromAddr := "0xc3", toAddr := "0xb2", depth := 2 }]
  hasCreate := true

theorem sampleTrace_sound :
    TraceSound sampleValidator ["org-o"] true
      (applyOptions [withCreatedContractsAsOwn, withIntraOrgGrantScoping (· == "0xa1")])
      sampleTrace :=
  validateTrace_sound sampleValidator ["org-o"] true sampleTrace
    [withCreatedContractsAsOwn, withIntraOrgGrantScoping (· == "0xa1")]
    ⟨by simp [sampleTrace], by simp [sampleTrace]⟩ (by decide +kernel)

/-- The flags of a parsed trace agree, so a validated node answer is sound as it
stands. -/
theorem parsedTrace_sound {frame : CallFrame} {trace : TraceResult}
    (hparse : parseCallTraceResult frame = .ok trace) (v : TraceValidator)
    (userOrgIDs : List String) (userHasDeploy : Bool) (opts : List TraceOption)
    (hallowed : TraceOutcome.Allows (validateTrace v userOrgIDs userHasDeploy (some trace) opts)) :
    TraceSound v userOrgIDs userHasDeploy (applyOptions opts) trace :=
  traceSound_of_allows (parseCallTrace_flagsAgree hparse) hallowed

def sampleFrame : CallFrame := .mk .create "0xee" "0xa1" "" [.mk .create2 "0xa1" "0xc3" "" []]

theorem sampleFrame_sound : ∃ trace, parseCallTraceResult sampleFrame = .ok trace ∧
    TraceSound sampleValidator ["org-o"] true (applyOptions []) trace := by
  have hparse : parseCallTraceResult sampleFrame = .ok _ := rfl
  exact ⟨_, hparse, parsedTrace_sound hparse _ _ _ _ (by decide +kernel)⟩

end PrivacySuite.Rbac
