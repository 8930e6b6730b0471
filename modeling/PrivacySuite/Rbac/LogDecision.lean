import Mathlib

/-!
# The verdict on a log

`internal/rbac/log_decision.go`: the facts both layers resolve about a viewer and a
log, and the one decision they share. A decision is `none` when the log is dropped,
and the payload policy it is rendered under when it is admitted.
-/

namespace PrivacySuite.Rbac

inductive ReadProfile where
  | unset
  | standard
  | strict
  deriving DecidableEq, Repr

/-- `Strict`: a profile that was never set is strict. -/
def ReadProfile.isStrict (p : ReadProfile) : Bool := p != .standard

inductive LogEventRuleMode where
  | deny
  | wildcard
  | allowlist
  deriving DecidableEq, Repr

structure LogEmitterFacts where
  isAdmin : Bool := false
  unlocked : Bool := false
  hasGrant : Bool := false
  abiResolvable : Bool := false
  dynamicPayloadDropped : Bool := false
  isParticipant : Bool := false
  inVisibleTo : Bool := false
  rules : LogEventRuleMode := .deny
  hasTopic0 : Bool := false
  eventAllowed : Bool := false
  topic0Allowlisted : Bool := false
  indexedSelf : Bool := false
  deriving DecidableEq, Repr

inductive LogPayloadPolicy where
  | masked
  | full
  deriving DecidableEq, Repr

def decideLogEmitterStrict (f : LogEmitterFacts) : Option LogPayloadPolicy :=
  if !f.indexedSelf || !f.abiResolvable || f.dynamicPayloadDropped || !f.hasGrant then none
  else if f.isAdmin then some .masked
  else
    match f.rules with
    | .wildcard => some .masked
    | .allowlist => if f.hasTopic0 && f.eventAllowed then some .masked else none
    | .deny => none

def decideLogEmitter (profile : ReadProfile) (f : LogEmitterFacts) : Option LogPayloadPolicy :=
  if profile.isStrict then decideLogEmitterStrict f
  else if f.unlocked then some .full
  else if f.isAdmin then some .masked
  else if !f.abiResolvable then none
  else if f.dynamicPayloadDropped then none
  else if f.isParticipant && f.hasGrant then some .masked
  else if !f.hasGrant then none
  else
    match f.rules with
    | .wildcard => some .masked
    | .allowlist =>
        if !f.hasTopic0 then none
        else if f.eventAllowed || (f.topic0Allowlisted && f.inVisibleTo) then some .masked
        else none
    | .deny => none

/-! ## Facts about the verdict -/

variable {profile : ReadProfile} {f : LogEmitterFacts}

/-- Without a grant, an admin claim or an unlock there is no way in. -/
theorem decideLogEmitter_of_no_path (hadmin : f.isAdmin = false) (hunlocked : f.unlocked = false)
    (hgrant : f.hasGrant = false) : decideLogEmitter profile f = none := by
  unfold decideLogEmitter decideLogEmitterStrict
  split
  · simp [hgrant]
  · simp [hadmin, hunlocked, hgrant]

theorem decideLogEmitter_of_admin (hadmin : f.isAdmin = true) (rules : LogEventRuleMode)
    (allowed listed : Bool) :
    decideLogEmitter profile
        { f with rules := rules, eventAllowed := allowed, topic0Allowlisted := listed } =
      decideLogEmitter profile f := by
  unfold decideLogEmitter decideLogEmitterStrict
  simp [hadmin]

/-- The verdict turns on the parameter rules of an allowlisted event: every other
condition for admission holds, and nothing else admits the log. -/
def LogEmitterFacts.decidedByParamRules (profile : ReadProfile) (f : LogEmitterFacts) : Bool :=
  f.hasGrant && f.abiResolvable && !f.dynamicPayloadDropped && !f.isAdmin &&
    f.rules == .allowlist && f.hasTopic0 &&
    (if profile.isStrict then f.indexedSelf
      else !f.unlocked && !f.isParticipant && !(f.topic0Allowlisted && f.inVisibleTo))

theorem LogEmitterFacts.hasGrant_of_decided (h : f.decidedByParamRules profile = true) :
    f.hasGrant = true := by
  simp only [LogEmitterFacts.decidedByParamRules, Bool.and_eq_true] at h
  exact h.1.1.1.1.1.1

theorem decideLogEmitter_of_decidedByParamRules (h : f.decidedByParamRules profile = true)
    (a : Bool) :
    decideLogEmitter profile { f with eventAllowed := a } = if a then some .masked else none := by
  simp only [LogEmitterFacts.decidedByParamRules, Bool.and_eq_true, Bool.not_eq_true',
    beq_iff_eq] at h
  obtain ⟨⟨⟨⟨⟨⟨hgrant, habi⟩, hdynamic⟩, hadmin⟩, hrules⟩, htopic0⟩, hrest⟩ := h
  unfold decideLogEmitter decideLogEmitterStrict
  cases hs : profile.isStrict with
  | true =>
    rw [hs, if_pos rfl] at hrest
    simp [hgrant, habi, hdynamic, hadmin, hrules, htopic0, hrest]
  | false =>
    rw [hs, if_neg Bool.false_ne_true] at hrest
    simp only [Bool.and_eq_true, Bool.not_eq_true'] at hrest
    obtain ⟨⟨hunlocked, hparticipant⟩, hlisted⟩ := hrest
    simp [hgrant, habi, hdynamic, hadmin, hrules, htopic0, hunlocked, hparticipant, hlisted]

theorem decideLogEmitter_of_not_decidedByParamRules (h : f.decidedByParamRules profile = false)
    (a b : Bool) :
    decideLogEmitter profile { f with eventAllowed := a } =
      decideLogEmitter profile { f with eventAllowed := b } := by
  unfold LogEmitterFacts.decidedByParamRules at h
  unfold decideLogEmitter decideLogEmitterStrict
  cases hs : profile.isStrict <;> cases hrules : f.rules <;> grind

/-- Two verdicts that differ in `eventAllowed` alone agree exactly when they do not
turn on it, or it is the same. -/
theorem decideLogEmitter_eventAllowed_iff (profile : ReadProfile) (f : LogEmitterFacts)
    (a b : Bool) :
    decideLogEmitter profile { f with eventAllowed := a } =
        decideLogEmitter profile { f with eventAllowed := b } ↔
      (f.decidedByParamRules profile = true → a = b) := by
  cases h : f.decidedByParamRules profile with
  | true =>
    rw [decideLogEmitter_of_decidedByParamRules h, decideLogEmitter_of_decidedByParamRules h]
    cases a <;> cases b <;> simp
  | false => simp [decideLogEmitter_of_not_decidedByParamRules h a b]

end PrivacySuite.Rbac
