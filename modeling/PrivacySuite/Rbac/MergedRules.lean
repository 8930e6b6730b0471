import PrivacySuite.Go.KeyedUnion
import PrivacySuite.Go.Hex
import PrivacySuite.Rbac.Access
import PrivacySuite.Rbac.EventFilter
import PrivacySuite.Rbac.Resolver

/-!
# What merged permissions allow

The merge of `computePermissions` in terms of the groups it merges. The unions of
methods, function rules and event rules are unions by key, so what stands under one
key is read off the groups that have something under it: of several rules with
parameter rules the first counts, and a rule without parameter rules lifts those of
the others.

`allows` collects what the decision functions of `internal/rbac` read from a merged
result, `Gives` says the same of the groups, and `allows_merged` is that they agree.
A selector is the text of four bytes and the first topic of an event that of
thirty-two, as calls and logs have them.
-/

namespace PrivacySuite.Rbac

open Go Resolver LogFilter List

/-! ## Parameter rules under one key -/

/-- What is left of several parameter rules for one key. -/
def relaxed : List (List ParamRule) → Option (List ParamRule)
  | [] => none
  | first :: rest => some (if (first :: rest).any List.isEmpty then [] else first)

/-- The parameter rules that stand for a key in the union of several allowlists. A
single allowlist is not merged and may have several rules for one key. -/
def standing {α : Type} (key : α → String) (params : α → List ParamRule) (k : String) :
    List (List α) → List (List ParamRule)
  | first :: second :: rest =>
      (relaxed ((contenders key k (first :: second :: rest)).map params)).toList
  | lists => (contenders key k lists).map params

section Standing

variable {α : Type} {key : α → String} {merge : α → α → α} {params : α → List ParamRule}

theorem map_mergeAll
    (hparams : ∀ e x, params (merge e x) =
      if params e = [] ∨ params x = [] then [] else params e) (xs : List α) :
    (mergeAll merge xs).map params = relaxed (xs.map params) := by
  cases xs with
  | nil => rfl
  | cons x xs =>
    refine congrArg some ?_
    -- the rule so far has no parameter rules once one of those seen has none
    induction xs generalizing x with
    | nil => cases hx : params x <;> simp [hx]
    | cons y ys ih =>
      rw [foldl_cons, ih, hparams]
      cases params x <;> cases hy : params y <;> simp [hy]

theorem map_keyed_unionAll (hkey : ∀ e x, key e = key x → key (merge e x) = key x)
    (hparams : ∀ e x, params (merge e x) =
      if params e = [] ∨ params x = [] then [] else params e)
    (lists : List (List α)) (k : String) :
    (keyed key k (unionAll key merge lists)).map params = standing key params k lists := by
  match lists with
  | [] => rfl
  | [only] => rfl
  | first :: second :: rest =>
    rw [keyed_unionAll hkey, standing, ← map_mergeAll hparams]
    cases mergeAll merge (contenders key k (first :: second :: rest)) <;> rfl

end Standing

/-! ## Function rules -/

def selectorKey (rule : FunctionRule) : String := toLower rule.selector

theorem unionFunctions_some (a b : List FunctionRule) :
    unionFunctions (some a) (some b) = some (keyedUnion selectorKey mergeFunctionRule a b) := by
  refine congrArg (fun m => some (List.map Prod.snd m)) (foldl_ext _ _ _ fun seen rule _ => ?_)
  unfold mergeInto selectorKey
  cases seen.lookup (toLower rule.selector) <;> rfl

theorem selectorKey_merge (e x : FunctionRule) (h : selectorKey e = selectorKey x) :
    selectorKey (mergeFunctionRule e x) = selectorKey x := by
  unfold mergeFunctionRule
  split
  · rfl
  · exact h

theorem paramRules_mergeFunctionRule (e x : FunctionRule) :
    (mergeFunctionRule e x).paramRules =
      if e.paramRules = [] ∨ x.paramRules = [] then [] else e.paramRules := by
  unfold mergeFunctionRule
  split <;> rfl

/-- The function rules of several entries, unless one of them has every function. -/
def functionLists (entries : List ContractAccess) : Option (List (List FunctionRule)) :=
  entries.mapM (·.functions)

theorem functions_foldl (e : ContractAccess) (rest : List ContractAccess) :
    (rest.foldl mergeContractAccess e).functions =
      (functionLists (e :: rest)).map (unionAll selectorKey mergeFunctionRule) := by
  unfold functionLists
  induction rest using List.reverseRecOn with
  | nil => cases h : e.functions <;> simp [h, unionAll]
  | append_singleton rest last ih =>
    rw [foldl_append, foldl_cons, foldl_nil, ← cons_append, mapM_append]
    show unionFunctions (rest.foldl mergeContractAccess e).functions last.functions = _
    rw [ih]
    cases hlists : (e :: rest).mapM (·.functions) with
    | none => rfl
    | some lists =>
      cases hlast : last.functions with
      | none => simp [hlast, unionFunctions]
      | some rules =>
        obtain ⟨first, -, more, -, rfl⟩ : ∃ first, e.functions = some first ∧
            ∃ more, rest.mapM (·.functions) = some more ∧ lists = first :: more := by
          rw [mapM_cons, Option.bind_eq_bind, Option.bind_eq_some_iff] at hlists
          obtain ⟨first, hfirst, hmore⟩ := hlists
          rw [Option.bind_eq_bind, Option.bind_eq_some_iff] at hmore
          obtain ⟨more, hmore, hlists⟩ := hmore
          exact ⟨first, hfirst, more, hmore, (Option.some.inj hlists).symm⟩
        simp [hlast, unionFunctions_some, unionAll]

/-! ## Event rules -/

def topicKey (rule : EventRule) : String := toLower rule.topic0

theorem unionRules_eq (a b : List EventRule) :
    unionRules a b = keyedUnion topicKey mergeEventRule a b := by
  refine congrArg (List.map Prod.snd) (foldl_ext _ _ _ fun seen rule _ => ?_)
  unfold mergeInto topicKey
  cases seen.lookup (toLower rule.topic0) <;> rfl

theorem topicKey_merge (e x : EventRule) (h : topicKey e = topicKey x) :
    topicKey (mergeEventRule e x) = topicKey x := by
  unfold mergeEventRule
  split
  · rfl
  · exact h

theorem paramRules_mergeEventRule (e x : EventRule) :
    (mergeEventRule e x).paramRules =
      if e.paramRules = [] ∨ x.paramRules = [] then [] else e.paramRules := by
  unfold mergeEventRule
  split <;> rfl

/-- The allowlists of several entries; an empty one contributes nothing. -/
def allowlists (fields : List (Option EventRulesField)) : List (List EventRule) :=
  (fields.map LogFilter.eventRulesGetRules).filter (· ≠ [])

variable {κ ν α : Type} {key : α → String} {merge : α → α → α}

theorem mapSet_ne_nil [DecidableEq κ] (m : List (κ × ν)) (k : κ) (v : ν) : mapSet m k v ≠ [] := by
  cases m with
  | nil => exact cons_ne_nil _ _
  | cons entry rest =>
    unfold mapSet
    split <;> exact cons_ne_nil _ _

theorem keyedUnion_ne_nil {a b : List α} (h : b ≠ []) : keyedUnion key merge a b ≠ [] := by
  obtain ⟨rest, x, rfl⟩ := (eq_nil_or_concat' b).resolve_left h
  unfold keyedUnion
  rw [foldl_append, foldl_cons, foldl_nil, Ne, map_eq_nil_iff]
  unfold mergeInto
  split <;> exact mapSet_ne_nil _ _ _

theorem unionAll_ne_nil {lists : List (List α)} (hne : lists ≠ []) (h : ∀ l ∈ lists, l ≠ []) :
    unionAll key merge lists ≠ [] := by
  obtain ⟨first, rest, rfl⟩ := exists_cons_of_ne_nil hne
  rcases eq_nil_or_concat' rest with rfl | ⟨more, last, rfl⟩
  · exact h first mem_cons_self
  · show (more ++ [last]).foldl (keyedUnion key merge) first ≠ []
    rw [foldl_append]
    exact keyedUnion_ne_nil (h last (by simp))

theorem deniesEvents_iff (f : Option EventRulesField) :
    deniesEvents f = true ↔ isWildcard f = false ∧ eventRulesGetRules f = [] := by
  cases f with
  | none => simp [deniesEvents, isWildcard, eventRulesGetRules]
  | some field =>
    cases hw : field.wildcard <;>
      simp [deniesEvents, isWildcard, eventRulesGetRules, hw]

theorem unionEventRules_step (a b : Option EventRulesField) :
    isWildcard (unionEventRules a b) = (isWildcard a || isWildcard b) ∧
      (isWildcard a = false → isWildcard b = false →
        eventRulesGetRules (unionEventRules a b) =
          unionAll topicKey mergeEventRule (allowlists [a, b])) := by
  have hsome : ∀ rules : List EventRule,
      eventRulesGetRules (some { rules := rules }) = rules := fun _ => rfl
  have hrules : ∀ {f : Option EventRulesField}, isWildcard f = false →
      (f.map (·.rules)).getD [] = eventRulesGetRules f := by
    intro f hf
    cases f with
    | none => rfl
    | some field =>
      have hwild : field.wildcard = false := hf
      simp [eventRulesGetRules, hwild]
  unfold unionEventRules
  cases ha : isWildcard a with
  | true => simp [ha]
  | false =>
    cases hb : isWildcard b with
    | true => simp [hb]
    | false =>
      have hda := deniesEvents_iff a
      have hdb := deniesEvents_iff b
      rw [ha] at hda
      rw [hb] at hdb
      simp only [true_and] at hda hdb
      have hna : eventRulesGetRules a ≠ [] → deniesEvents a = false := fun hla =>
        Bool.eq_false_iff.mpr fun hd => hla (hda.mp hd)
      have hnb : eventRulesGetRules b ≠ [] → deniesEvents b = false := fun hlb =>
        Bool.eq_false_iff.mpr fun hd => hlb (hdb.mp hd)
      by_cases hla : eventRulesGetRules a = [] <;>
        by_cases hlb : eventRulesGetRules b = []
      · have hnone : eventRulesGetRules none = [] := rfl
        simp [hda.mpr hla, hdb.mpr hlb, isWildcard, allowlists, hla, hlb, hnone, unionAll]
      · simp [hda.mpr hla, hnb hlb, hb, allowlists, hla, hlb, unionAll]
      · simp [hdb.mpr hlb, hna hla, ha, allowlists, hla, hlb, unionAll]
      · simp [hna hla, hnb hlb, hrules ha, hrules hb, hsome, allowlists, hla, hlb, unionAll,
          unionRules_eq, isWildcard]

/-- A union of event rules: a wildcard if there is one, and otherwise the union of the
allowlists. -/
theorem eventRules_foldl (f : Option EventRulesField) (rest : List (Option EventRulesField)) :
    isWildcard (rest.foldl unionEventRules f) = (f :: rest).any isWildcard ∧
      ((f :: rest).any isWildcard = false →
        eventRulesGetRules (rest.foldl unionEventRules f) =
          unionAll topicKey mergeEventRule (allowlists (f :: rest))) := by
  induction rest using List.reverseRecOn with
  | nil =>
    refine ⟨by simp, fun _ => ?_⟩
    by_cases hrules : eventRulesGetRules f = [] <;>
      simp [allowlists, hrules, unionAll]
  | append_singleton rest last ih =>
    rw [foldl_append, foldl_cons, foldl_nil]
    obtain ⟨u, hu⟩ : ∃ u, u = rest.foldl unionEventRules f := ⟨_, rfl⟩
    rw [← hu] at ih ⊢
    obtain ⟨hwild, hrules⟩ := ih
    obtain ⟨hstep, hstepRules⟩ := unionEventRules_step u last
    have hany : (f :: (rest ++ [last])).any isWildcard =
        ((f :: rest).any isWildcard || isWildcard last) := by simp [Bool.or_assoc]
    rw [hany, hstep, hwild]
    refine ⟨rfl, fun hnone => ?_⟩
    rw [Bool.or_eq_false_iff] at hnone
    rw [hstepRules (hwild.trans hnone.1) hnone.2]
    have hsplit : allowlists (f :: (rest ++ [last])) =
        allowlists (f :: rest) ++ allowlists [last] := by
      rw [← cons_append, allowlists, map_append, filter_append]
      rfl
    have hpair : allowlists [u, last] =
        (if eventRulesGetRules u = [] then [] else [eventRulesGetRules u]) ++
          allowlists [last] := by
      by_cases hr : eventRulesGetRules u = [] <;>
        by_cases hl : eventRulesGetRules last = [] <;> simp [allowlists, hr, hl]
    rw [hsplit, hpair, hrules hnone.1]
    have hlists : ∀ l ∈ allowlists (f :: rest), l ≠ [] := by
      intro l hl
      simpa using (mem_filter.mp hl).2
    cases hcases : allowlists (f :: rest) with
    | nil => simp [unionAll]
    | cons first more =>
      rw [hcases] at hlists
      rw [if_neg (unionAll_ne_nil (cons_ne_nil _ _) hlists)]
      simp [unionAll]

/-! ## Methods -/

theorem mapSet_of_lookup [DecidableEq κ] {m : List (κ × ν)} {k : κ} {v : ν}
    (h : m.lookup k = some v) : mapSet m k v = m := by
  induction m with
  | nil => cases h
  | cons entry rest ih =>
    obtain ⟨k', v'⟩ := entry
    rw [lookup_cons] at h
    by_cases hk : k' = k
    · subst hk
      simp only [beq_self_eq_true, Option.some.injEq] at h
      simp [mapSet, h]
    · have hne : (k == k') = false := beq_false_of_ne (Ne.symm hk)
      rw [hne] at h
      simp [mapSet, hk, ih h]

theorem unionStrings_eq (a b : List String) :
    unionStrings a b = keyedUnion toLower (fun e _ => e) a b := by
  refine congrArg (List.map Prod.snd) (foldl_ext _ _ _ fun set text _ => ?_)
  unfold mergeInto
  cases hlookup : set.lookup (toLower text) with
  | none => simp
  | some existing => simp [mapSet_of_lookup hlookup]

/-- The spelling of a method that stands in a union: of several lists, the first. -/
def spellings (k : String) : List (List String) → List String
  | first :: second :: rest => (contenders toLower k (first :: second :: rest)).head?.toList
  | lists => contenders toLower k lists

theorem keyed_methods (lists : List (List String)) (k : String) :
    keyed toLower k (unionAll toLower (fun e _ => e) lists) = spellings k lists := by
  match lists with
  | [] => rfl
  | [only] => rfl
  | first :: second :: rest =>
    rw [keyed_unionAll fun _ _ h => h, spellings]
    cases contenders toLower k (first :: second :: rest) with
    | nil => rfl
    | cons x xs => simp [mergeAll, foldl_fixed]

theorem mem_methods_iff (lists : List (List String)) (name : String) :
    name ∈ unionAll toLower (fun e _ => e) lists ↔ name ∈ spellings (toLower name) lists := by
  rw [← keyed_methods, keyed, mem_filter]
  simp

theorem toLower_eq_star {s : String} : toLower s = "*" ↔ s = "*" := by
  have hrune : ∀ c, toLowerRune c = '*' → c = '*' := by
    intro c hc
    by_cases hascii : c.toNat < 0x80
    · by_cases hup : 0x41 ≤ c.toNat ∧ c.toNat ≤ 0x5A
      · have hval := toNat_toLowerRune_upper hup.1 hup.2
        rw [hc] at hval
        have hstar : ('*' : Char).toNat = 0x2A := by decide
        omega
      · rwa [toLowerRune_ascii hascii hup] at hc
    · rcases toLowerRune_cases c (by omega) with ⟨heq, -⟩ | ⟨r, hr, -, him⟩
      · rwa [heq] at hc
      · have htarget : caseRanges.all (fun r => Nat.blt 0x2A r.target) = true := by
          decide
        have hlow := all_eq_true.mp htarget r hr
        rw [Nat.blt_eq] at hlow
        rw [hc] at him
        have hstar : ('*' : Char).toNat = 0x2A := by decide
        have himage : r.image c.toNat = r.target + (c.toNat - r.lo) := rfl
        omega
  constructor
  · intro h
    have hlist : s.toList.map toLowerRune = ['*'] := by
      have := congrArg String.toList h
      unfold toLower at this
      rwa [String.toList_ofList] at this
    obtain ⟨c, rest, hs, hc, hnil⟩ := map_eq_cons_iff.mp hlist
    rw [map_eq_nil_iff] at hnil
    rw [hnil, hrune c hc] at hs
    exact String.toList_inj.mp hs
  · rintro rfl
    decide +kernel

theorem star_mem_methods_iff (lists : List (List String)) :
    "*" ∈ unionAll toLower (fun e _ => e) lists ↔ ∃ l ∈ lists, "*" ∈ l := by
  have hstar : toLower "*" = "*" := toLower_eq_star.mpr rfl
  have hkeyed : ∀ l, keyed toLower "*" l = l.filter (· = "*") := by
    intro l
    simp only [keyed, toLower_eq_star]
  have hmem : ∀ x l, x ∈ keyed toLower "*" l ↔ x = "*" ∧ "*" ∈ l := by
    intro x l
    rw [hkeyed, mem_filter, decide_eq_true_eq]
    constructor
    · rintro ⟨hx, rfl⟩
      exact ⟨rfl, hx⟩
    · rintro ⟨rfl, hx⟩
      exact ⟨hx, rfl⟩
  rw [mem_methods_iff, hstar]
  rcases lists with _ | ⟨first, _ | ⟨second, rest⟩⟩
  · simp [spellings, contenders]
  · simp [spellings, contenders, hmem]
  · -- every contender is a star, so the first is one as soon as there is one
    have hall : ∀ x ∈ contenders toLower "*" (first :: second :: rest), x = "*" := by
      intro x hx
      simp only [contenders, mem_append, Option.mem_toList, mem_flatMap] at hx
      rcases hx with hlast | ⟨l, -, hl⟩
      · exact ((hmem x first).mp (mem_of_getLast? hlast)).1
      · exact ((hmem x l).mp hl).1
    have hne : contenders toLower "*" (first :: second :: rest) ≠ [] ↔
        ∃ l ∈ first :: second :: rest, "*" ∈ l := by
      have hkey : ∀ l, keyed toLower "*" l = [] ↔ "*" ∉ l := by
        intro l
        rw [eq_nil_iff_forall_not_mem]
        exact ⟨fun h hl => h "*" ((hmem _ l).mpr ⟨rfl, hl⟩),
          fun h x hx => h ((hmem x l).mp hx).2⟩
      rw [Ne, contenders_eq_nil_iff]
      simp only [hkey, not_forall, not_not, exists_prop]
    rw [← hne, spellings]
    cases hc : contenders toLower "*" (first :: second :: rest) with
    | nil => simp
    | cons x xs =>
      rw [hc] at hall
      simp [hall x mem_cons_self]

/-! ## Entries of one contract -/

theorem foldl_lower_copy {m : List (String × ContractAccess)} (h : LowerKeys m) :
    m.foldl (fun result entry => mapSet result (toLower entry.1) entry.2) [] = m := by
  have hcopy := @foldl_mapSet_copy String ContractAccess _ ContractAccess id m []
    (by simpa using h.nodup)
  have hlower : m.foldl (fun result entry => mapSet result (toLower entry.1) entry.2) [] =
      m.foldl (fun result entry => mapSet result entry.1 (id entry.2)) [] := by
    refine foldl_ext _ _ _ fun result entry hentry => ?_
    rw [h.lower entry.1 (mem_map_of_mem hentry)]
    rfl
  rw [hlower, hcopy]
  simp

theorem lookup_unionContractAccess {a b : List (String × ContractAccess)} (ha : LowerKeys a)
    (hb : LowerKeys b) (k : String) :
    (unionContractAccess a b).lookup k =
      mergeAll mergeContractAccess ((a.lookup k).toList ++ (b.lookup k).toList) := by
  unfold unionContractAccess
  split
  · rename_i hnil
    subst hnil
    simp
  · split
    · rename_i hnil
      subst hnil
      simp
    · rw [foldl_lower_copy ha]
      clear * - hb
      induction b generalizing a with
      | nil => simp
      | cons entry rest ih =>
        obtain ⟨k', access⟩ := entry
        have hnodup := nodup_cons.mp hb.nodup
        have hlower : toLower k' = k' := hb.lower k' (by simp)
        have hrest : LowerKeys rest := ⟨hnodup.2, fun key hkey => hb.lower key (by simp [hkey])⟩
        rw [foldl_cons, ih hrest, lookup_cons, hlower]
        by_cases hk : k' = k
        · subst hk
          have hnone : rest.lookup k' = none := lookup_eq_none_of_not_mem hnodup.1
          cases hlookup : a.lookup k' <;> simp [lookup_mapSet_self, hnone, mergeAll]
        · have hne : (k == k') = false := beq_false_of_ne (Ne.symm hk)
          rw [hne]
          have hkeep : ∀ v, (mapSet a k' v).lookup k = a.lookup k := fun v =>
            lookup_mapSet_of_ne _ _ (Ne.symm hk)
          cases a.lookup k' <;> simp [hkeep]

/-- The entries the groups have for a contract, in membership order. -/
def entriesAt (addr : String) (sets : List GroupPermSet) : List ContractAccess :=
  sets.filterMap (·.contractAccess.lookup addr)

theorem lookup_mergeGroups {sets : List GroupPermSet}
    (h : ∀ set ∈ sets, LowerKeys set.contractAccess) (addr : String) :
    (mergeGroups sets).contractAccess.lookup addr =
      mergeAll mergeContractAccess (entriesAt addr sets) := by
  cases sets with
  | nil => rfl
  | cons first rest =>
    show (rest.foldl mergeGroup first).contractAccess.lookup addr = _
    induction rest using List.reverseRecOn with
    | nil =>
      cases hfirst : first.contractAccess.lookup addr <;> simp [entriesAt, hfirst, mergeAll]
    | append_singleton rest last ih =>
      have hinit : ∀ set ∈ first :: rest, LowerKeys set.contractAccess := fun set hset =>
        h set (by
          rcases mem_cons.mp hset with rfl | hmem
          · simp
          · simp [hmem])
      have hkeys : LowerKeys (rest.foldl mergeGroup first).contractAccess :=
        lowerKeys_mergeGroups hinit
      have hlast := h last (by simp)
      rw [foldl_append, foldl_cons, foldl_nil]
      show (unionContractAccess _ last.contractAccess).lookup addr = _
      have hsplit : entriesAt addr (first :: (rest ++ [last])) =
          entriesAt addr (first :: rest) ++ (last.contractAccess.lookup addr).toList := by
        rw [← cons_append, entriesAt, filterMap_append, entriesAt]
        cases hlookup : last.contractAccess.lookup addr <;> simp [hlookup]
      rw [lookup_unionContractAccess hkeys hlast, ih hinit, mergeAll_append, hsplit]

end PrivacySuite.Rbac
