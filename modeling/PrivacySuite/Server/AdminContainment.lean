import PrivacySuite.Server.AdminHandlers

/-!
# What an organization admin can do

`Contained` is what a request of an organization admin may do to the database: nobody
becomes or ceases to be a full admin, only rows of organizations the caller administers
change, and no group is granted a passthrough method.

Every insert and update keeps to it, and so does the removal of a membership. Two kinds of
delete need not: the deletion of a user removes all of their memberships, and the deletion
of a group removes the groups below it. `org_admin_contained_iff` says exactly when they do.
-/

namespace PrivacySuite.Server

open Go Phase Rbac Relational RbacDb List

/-! ## The property -/

def AdminRequest.CallerAdmin (req : AdminRequest) (db : RbacDb) (orgID : String) : Prop :=
  ∃ user, db.getUserByExternalID req.subject = some user ∧ user.banned = false ∧
    db.FullAdminAt req.now user.id orgID

/-- What may become of the tables under an admin of some organizations. -/
structure Contained (reg : MethodRegistry) (Admin : String → Prop) (db db' : RbacDb) :
    Prop where
  /-- The full admins stay the same, at any time. -/
  sameAdmins : ∀ now userID orgID, db.FullAdminAt now userID orgID ↔
    db'.FullAdminAt now userID orgID
  groups : ∀ g, ¬ (g ∈ db.groups ↔ g ∈ db'.groups) → Admin g.orgID
  access : ∀ a, ¬ (a ∈ db.access ↔ a ∈ db'.access) →
    ∀ g, g ∈ db.groups ∨ g ∈ db'.groups → g.id = a.groupID → Admin g.orgID
  memberships : ∀ m, ¬ (m ∈ db.memberships ↔ m ∈ db'.memberships) →
    ∀ g, g ∈ db.groups ∨ g ∈ db'.groups → g.id = m.groupID → Admin g.orgID
  /-- A passthrough method in a group's list was there before. -/
  noPassthrough : ∀ a' ∈ db'.access, ∀ method ∈ a'.allowedMethods,
    method ∈ reg.passthroughMethods →
    ∃ a ∈ db.access, a.groupID = a'.groupID ∧ method ∈ a.allowedMethods

/-! ## Writes that keep to it -/

section Writes

variable {reg : MethodRegistry} {Admin : String → Prop} {db db' : RbacDb}

theorem Contained.of_memberships (hgroups : db'.groups = db.groups)
    (haccess : db'.access = db.access)
    (h : ∀ m, ¬ (m ∈ db.memberships ↔ m ∈ db'.memberships) → ∀ g ∈ db.groups,
      g.id = m.groupID → Admin g.orgID ∧ g.isOrgAdmin = false) :
    Contained reg Admin db db' := by
  -- a membership in an org-admin group is in both databases or in none
  have hadmin : ∀ m, ∀ g ∈ db.groups, g.id = m.groupID → g.isOrgAdmin = true →
      (m ∈ db.memberships ↔ m ∈ db'.memberships) := by
    intro m g hg hid hadmin
    by_contra hchanged
    rw [(h m hchanged g hg hid).2] at hadmin
    cases hadmin
  refine ⟨fun now userID orgID => ?_, ?_, ?_, ?_, ?_⟩
  · unfold RbacDb.FullAdminAt RbacDb.MemberAt
    rw [hgroups]
    refine exists_congr fun m => and_congr_left ?_
    rintro ⟨-, -, g, hg, hid, hkind, -⟩
    exact hadmin m g hg hid hkind
  · exact fun g hchanged => absurd (by rw [hgroups]) hchanged
  · exact fun a hchanged => absurd (by rw [haccess]) hchanged
  · intro m hchanged g hg hid
    rw [hgroups, or_self] at hg
    exact (h m hchanged g hg hid).1
  · intro a ha method hmethod _
    exact ⟨a, haccess ▸ ha, rfl, hmethod⟩

theorem Contained.of_eq (hgroups : db'.groups = db.groups) (haccess : db'.access = db.access)
    (hmemberships : db'.memberships = db.memberships) : Contained reg Admin db db' :=
  .of_memberships hgroups haccess fun _ hchanged => absurd (by rw [hmemberships]) hchanged

/-- Memberships and access rows are as they were, and the groups that differ are of the
organizations and no org-admin groups, or keep being one. -/
theorem Contained.of_groups (hmemberships : db'.memberships = db.memberships)
    (haccess : db'.access = db.access)
    (h : ∀ g, ¬ (g ∈ db.groups ↔ g ∈ db'.groups) → Admin g.orgID)
    (hadmins : ∀ id orgID, (∃ g ∈ db.groups, g.id = id ∧ g.isOrgAdmin = true ∧ g.orgID = orgID) ↔
      ∃ g ∈ db'.groups, g.id = id ∧ g.isOrgAdmin = true ∧ g.orgID = orgID) :
    Contained reg Admin db db' := by
  refine ⟨fun now userID orgID => ?_, h, ?_, ?_, ?_⟩
  · unfold RbacDb.FullAdminAt RbacDb.MemberAt
    simp only [hmemberships, hadmins]
  · exact fun a hchanged => absurd (by rw [haccess]) hchanged
  · exact fun m hchanged => absurd (by rw [hmemberships]) hchanged
  · intro a ha method hmethod _
    exact ⟨a, haccess ▸ ha, rfl, hmethod⟩

/-- An access row of a group of the organizations, with no passthrough method the group's
row did not have. -/
theorem Contained.of_access {access : AccessRow} (hgroups : db'.groups = db.groups)
    (hmemberships : db'.memberships = db.memberships)
    (haccess : ∀ a, a ∈ db'.access ↔ a = access ∨ a ∈ db.access ∧ a.groupID ≠ access.groupID)
    (hadmin : ∀ g ∈ db.groups, g.id = access.groupID → Admin g.orgID)
    (hmethods : ∀ method ∈ access.allowedMethods, method ∈ reg.passthroughMethods →
      ∃ a ∈ db.access, a.groupID = access.groupID ∧ method ∈ a.allowedMethods) :
    Contained reg Admin db db' := by
  refine ⟨fun now userID orgID => ?_, ?_, ?_, ?_, ?_⟩
  · unfold RbacDb.FullAdminAt RbacDb.MemberAt
    rw [hgroups, hmemberships]
  · exact fun g hchanged => absurd (by rw [hgroups]) hchanged
  · intro a hchanged g hg hid
    rw [hgroups, or_self] at hg
    -- a row of another group is not touched
    refine hadmin g hg (hid.trans ?_)
    by_contra hother
    refine hchanged ?_
    rw [haccess]
    constructor
    · exact fun ha => .inr ⟨ha, hother⟩
    · rintro (rfl | ⟨ha, -⟩)
      · exact absurd rfl hother
      · exact ha
  · exact fun m hchanged => absurd (by rw [hmemberships]) hchanged
  · intro a ha method hmethod hpassthrough
    rcases (haccess a).mp ha with rfl | ⟨ha, -⟩
    · exact hmethods method hmethod hpassthrough
    · exact ⟨a, ha, rfl, hmethod⟩

/-! ## Deletes -/

/-- The groups that go are of the organizations, and a full admin who loses a membership
keeps another one of the organization that lasts as long. -/
def GroupsDeletable (Admin : String → Prop) (db : RbacDb) (ids : List String) : Prop :=
  (∀ g ∈ db.groups, ¬ db.Stays ids g.id → Admin g.orgID) ∧
  ∀ m ∈ db.memberships, ∀ g ∈ db.groups, g.id = m.groupID → g.isOrgAdmin = true →
    ¬ db.Stays ids g.id → ∀ now, m.activeAt now = true →
    ∃ m' ∈ db.memberships, m'.userID = m.userID ∧ m'.activeAt now = true ∧
      ∃ g' ∈ db.groups, g'.id = m'.groupID ∧ g'.isOrgAdmin = true ∧ g'.orgID = g.orgID ∧
        db.Stays ids g'.id

/-- The user's memberships are of the organizations, and none in an org-admin group. -/
def UserDeletable (Admin : String → Prop) (db : RbacDb) (userID : String) : Prop :=
  ∀ m ∈ db.memberships, m.userID = userID → ∀ g ∈ db.groups, g.id = m.groupID →
    Admin g.orgID ∧ g.isOrgAdmin = false

theorem contained_deleteGroups_iff {ids : List String} :
    Contained reg Admin db (db.deleteGroups ids) ↔ GroupsDeletable Admin db ids := by
  constructor
  · intro h
    constructor
    · intro g hg hgone
      refine h.groups g fun hsame => hgone ?_
      exact (mem_groups_deleteGroups.mp (hsame.mp hg)).2
    · intro m hm g hg hid hadmin _ now hactive
      have hbefore : db.FullAdminAt now m.userID g.orgID :=
        ⟨m, hm, rfl, hactive, g, hg, hid, hadmin, rfl⟩
      obtain ⟨m', hm', huser, hactive', g', hg', hid', hadmin', horg⟩ :=
        (h.sameAdmins now m.userID g.orgID).mp hbefore
      obtain ⟨hm', -⟩ := mem_memberships_deleteGroups.mp hm'
      obtain ⟨hg', hstays⟩ := mem_groups_deleteGroups.mp hg'
      exact ⟨m', hm', huser, hactive', g', hg', hid', hadmin', horg, hstays⟩
  · rintro ⟨horgs, hkeeps⟩
    -- every row that goes hangs on a group that goes
    have hgone : ∀ ref, ¬ db.Stays ids ref → ∀ g, g ∈ db.groups ∨ g ∈ (db.deleteGroups ids).groups →
        g.id = ref → Admin g.orgID := by
      rintro _ hgone g hg rfl
      refine horgs g ?_ hgone
      rcases hg with hg | hg
      · exact hg
      · exact (mem_groups_deleteGroups.mp hg).1
    refine ⟨fun now userID orgID => ⟨?_, ?_⟩, ?_, ?_, ?_, ?_⟩
    · rintro ⟨m, hm, rfl, hactive, g, hg, hid, hadmin, rfl⟩
      by_cases hstays : db.Stays ids g.id
      · exact ⟨m, mem_memberships_deleteGroups.mpr ⟨hm, hid ▸ hstays⟩, rfl, hactive, g,
          mem_groups_deleteGroups.mpr ⟨hg, hstays⟩, hid, hadmin, rfl⟩
      · obtain ⟨m', hm', huser, hactive', g', hg', hid', hadmin', horg, hstays'⟩ :=
          hkeeps m hm g hg hid hadmin hstays now hactive
        exact ⟨m', mem_memberships_deleteGroups.mpr ⟨hm', hid' ▸ hstays'⟩, huser,
          hactive', g', mem_groups_deleteGroups.mpr ⟨hg', hstays'⟩, hid', hadmin', horg⟩
    · rintro ⟨m, hm, huser, hactive, g, hg, hid, hadmin, horg⟩
      exact ⟨m, (mem_memberships_deleteGroups.mp hm).1, huser, hactive, g,
        (mem_groups_deleteGroups.mp hg).1, hid, hadmin, horg⟩
    · intro g hchanged
      rw [mem_groups_deleteGroups] at hchanged
      obtain ⟨hg, hgone⟩ := of_removed hchanged
      exact horgs g hg hgone
    · intro a hchanged
      rw [mem_access_deleteGroups] at hchanged
      exact hgone a.groupID (of_removed hchanged).2
    · intro m hchanged
      rw [mem_memberships_deleteGroups] at hchanged
      exact hgone m.groupID (of_removed hchanged).2
    · intro a ha method hmethod _
      exact ⟨a, (mem_access_deleteGroups.mp ha).1, rfl, hmethod⟩

theorem deleteMemberships_fold (rows : List MembershipRow) (db : RbacDb) :
    (rows.foldl (fun db m => db.deleteMembership m.id) db).groups = db.groups ∧
    (rows.foldl (fun db m => db.deleteMembership m.id) db).access = db.access ∧
    ∀ m, m ∈ (rows.foldl (fun db m => db.deleteMembership m.id) db).memberships ↔
      m ∈ db.memberships ∧ ∀ row ∈ rows, m.id ≠ row.id := by
  induction rows generalizing db with
  | nil => simp
  | cons row rows ih =>
    obtain ⟨hgroups, haccess, hmem⟩ := ih (db.deleteMembership row.id)
    refine ⟨hgroups, haccess, fun m => ?_⟩
    rw [foldl_cons, hmem, forall_mem_cons, ← and_assoc]
    refine and_congr_left fun _ => ?_
    show m ∈ db.memberships.filter (·.id ≠ row.id) ↔ _
    rw [mem_filter, decide_eq_true_iff]

theorem deleteUserRows_tables (db : RbacDb) (userID : String) :
    (deleteUserRows db userID).groups = db.groups ∧
    (deleteUserRows db userID).access = db.access ∧
    ∀ m, m ∈ (deleteUserRows db userID).memberships ↔ m ∈ db.memberships ∧ m.userID ≠ userID := by
  obtain ⟨hgroups, haccess, hmem⟩ := deleteMemberships_fold (db.listUserMemberships userID) db
  refine ⟨hgroups, haccess, fun m => ?_⟩
  show m ∈ List.filter _ _ ↔ _
  rw [mem_filter, hmem, decide_eq_true_iff, and_assoc]
  refine and_congr_right fun hm => ⟨fun h => h.2, fun hother => ⟨?_, hother⟩⟩
  -- an id is of one membership, so no row of somebody else was named
  intro row hrow hid
  obtain ⟨hrow, huser⟩ := mem_filter.mp hrow
  rw [inj_on_of_nodup_map (db.valid .userMembershipsPkey) hm hrow hid] at hother
  exact hother (of_decide_eq_true huser)

theorem exists_activeAt (m : MembershipRow) : ∃ now, m.activeAt now = true := by
  cases hexpiry : m.expiresAt with
  | none => exact ⟨0, by simp [MembershipRow.activeAt, hexpiry]⟩
  | some expiry => exact ⟨expiry - 1, by simp [MembershipRow.activeAt, hexpiry]⟩

theorem contained_deleteUserRows_iff {userID : String} :
    Contained reg Admin db (deleteUserRows db userID) ↔ UserDeletable Admin db userID := by
  obtain ⟨hgroups, haccess, hmem⟩ := deleteUserRows_tables db userID
  constructor
  · intro h m hm huser g hg hid
    have hgone : m ∉ (deleteUserRows db userID).memberships := fun hmem' =>
      ((hmem m).mp hmem').2 huser
    refine ⟨h.memberships m (fun hsame => hgone (hsame.mp hm)) g (.inl hg) hid, ?_⟩
    by_contra hadmin
    rw [Bool.not_eq_false] at hadmin
    obtain ⟨now, hactive⟩ := exists_activeAt m
    obtain ⟨m', hm', huser', -⟩ := (h.sameAdmins now userID g.orgID).mp
      ⟨m, hm, huser, hactive, g, hg, hid, hadmin, rfl⟩
    exact ((hmem m').mp hm').2 huser'
  · intro h
    refine .of_memberships hgroups haccess fun m hchanged g hg hid => ?_
    rw [hmem] at hchanged
    obtain ⟨hm, huser⟩ := of_removed hchanged
    exact h m hm (not_not.mp huser) g hg hid

end Writes

/-! ## The handlers -/

section Handlers

variable {cfg : AdminConfig} {reg : MethodRegistry} {Admin : String → Prop} {c : Caller}
  {db : RbacDb} {reply : AdminReply}

/-- The caller is an organization admin: what the middlewares let through administers the
organization the route names, if any, and those it lists. -/
structure OrgAdminCaller (Admin : String → Prop) (c : Caller) (pathOrg : String) : Prop where
  jwt : c.authMethod = .jwtAdmin
  path : pathOrg ≠ "" → Admin pathOrg
  full : ∀ orgID ∈ c.adminOrgIDs, Admin orgID

/-- The group takes and loses members: it is of the organizations, and no org-admin group. -/
def MembersAllowed (Admin : String → Prop) (db : RbacDb) (groupID : String) : Prop :=
  ∀ g ∈ db.groups, g.id = groupID → Admin g.orgID ∧ g.isOrgAdmin = false

variable {groupID orgID newID : String} {group : GroupRow}

theorem membersAllowed_of_getGroup (h : db.getGroup groupID = some group)
    (hadmin : Admin group.orgID) (hregular : group.isOrgAdmin = false) :
    MembersAllowed Admin db groupID := by
  intro g hg hid
  obtain rfl := Option.some.inj (h.symm.trans (getGroup_eq_some.mpr ⟨hg, hid⟩))
  exact ⟨hadmin, hregular⟩

theorem contained_insertMembership {db' : RbacDb} {m : MembershipRow}
    (hgroups : db'.groups = db.groups) (haccess : db'.access = db.access)
    (hmemberships : db'.memberships = m :: db.memberships)
    (hallowed : MembersAllowed Admin db m.groupID) : Contained reg Admin db db' := by
  refine .of_memberships hgroups haccess fun m' hchanged g hg hid => ?_
  rw [hmemberships] at hchanged
  obtain rfl := eq_of_added hchanged
  exact hallowed g hg hid

theorem contained_deleteMembership {m : MembershipRow} (hm : m ∈ db.memberships)
    (hallowed : MembersAllowed Admin db m.groupID) :
    Contained reg Admin db (db.deleteMembership m.id) := by
  refine .of_memberships rfl rfl fun m' hchanged g hg hid => ?_
  have hmem : m' ∈ (db.deleteMembership m.id).memberships ↔ m' ∈ db.memberships ∧ m'.id ≠ m.id := by
    show m' ∈ List.filter _ _ ↔ _
    rw [mem_filter, decide_eq_true_iff]
  rw [hmem] at hchanged
  obtain ⟨hm', hsame⟩ := of_removed hchanged
  rw [inj_on_of_nodup_map (db.valid .userMembershipsPkey) hm' hm (not_not.mp hsame)] at hid
  exact hallowed g hg hid

theorem createGroup_contained {body : Option GroupCreateInput} (hc : OrgAdminCaller Admin c orgID)
    (h : createGroup c db orgID newID body = .ok reply) :
    Contained reg Admin db reply.db := by
  simp only [createGroup, bind_eq_ok, shouldBindJSON_eq_ok, onlyIf_deny, orFail_eq_ok, pure_eq_ok,
    exists_const] at h
  obtain ⟨input, -, -, -, hadmin, -, -, db', hcreate, rfl⟩ := h
  have hregular : input.isOrgAdmin = false := by
    simpa [hc.jwt] using hadmin
  obtain ⟨hgroups, haccess, hmemberships⟩ := createGroup_ok hcreate
  refine .of_groups hmemberships haccess ?_ ?_
  · intro g hchanged
    rw [hgroups] at hchanged
    obtain rfl := eq_of_added hchanged
    have hnew : _ ∈ db'.groups := hgroups ▸ mem_cons_self
    exact hc.path (orgID_ne_empty hnew)
  · intro id org
    rw [hgroups]
    simp [hregular]

/-- The columns an update by such an admin sets leave a group's organization and standing
as they are. -/
theorem setColumns_merge {input : GroupUpdateInput} {g : GroupRow} (hnone : input.isOrgAdmin = none)
    (hgroup : group ∈ db.groups) (hg : g ∈ db.groups) :
    (setColumns (input.merge group) g).id = g.id ∧
    (setColumns (input.merge group) g).isOrgAdmin = g.isOrgAdmin ∧
    (setColumns (input.merge group) g).orgID = g.orgID ∧
    (setColumns (input.merge group) g ≠ g → g = group) := by
  unfold setColumns
  split
  · rename_i hid
    obtain rfl := inj_on_of_nodup_map (db.valid .groupsPkey) hg hgroup hid
    exact ⟨rfl, by simp [GroupUpdateInput.merge, hnone], rfl, fun _ => rfl⟩
  · exact ⟨rfl, rfl, rfl, fun hne => absurd rfl hne⟩

theorem updateGroup_contained {body : Option GroupUpdateInput} (hc : OrgAdminCaller Admin c orgID)
    (h : updateGroup c db orgID groupID body = .ok reply) :
    Contained reg Admin db reply.db := by
  simp only [updateGroup, bind_eq_ok, shouldBindJSON_eq_ok, verifyGroup_eq_ok, onlyIf_deny,
    orFail_eq_ok, pure_eq_ok, exists_const] at h
  obtain ⟨group, ⟨hfound, hpath, horg⟩, -, input, -, hadmin, -, -, db', hupdate, rfl⟩ := h
  have hnone : input.isOrgAdmin = none := by
    simpa [hc.jwt] using hadmin
  obtain ⟨hgroup, -⟩ := getGroup_eq_some.mp hfound
  obtain ⟨hgroups, haccess, hmemberships⟩ := updateGroup_ok hupdate
  have hset := fun g (hg : g ∈ db.groups) => setColumns_merge hnone hgroup hg
  refine .of_groups hmemberships haccess ?_ ?_
  · -- the row before and the row after are of the organization of the path
    intro g hchanged
    suffices hpathOrg : g.orgID = orgID from hpathOrg ▸ hc.path hpath
    by_contra hother
    refine hchanged ?_
    rw [hgroups, mem_map]
    constructor
    · intro hg
      refine ⟨g, hg, ?_⟩
      by_contra hne
      exact hother ((hset g hg).2.2.2 hne ▸ horg)
    · rintro ⟨g₀, hg₀, rfl⟩
      rw [(hset g₀ hg₀).2.2.1] at hother
      by_cases hne : setColumns (input.merge group) g₀ = g₀
      · rwa [hne]
      · exact absurd ((hset g₀ hg₀).2.2.2 hne ▸ horg) hother
  · intro id org
    rw [hgroups]
    simp only [mem_map, exists_exists_and_eq_and]
    refine exists_congr fun g => and_congr_right fun hg => ?_
    rw [(hset g hg).1, (hset g hg).2.1, (hset g hg).2.2.1]

theorem setGroupAccess_contained {body : Option AccessInput} (hc : OrgAdminCaller Admin c orgID)
    (h : setGroupAccess cfg c db orgID groupID body = .ok reply) :
    Contained cfg.registry Admin db reply.db := by
  simp only [setGroupAccess, denyJWTAdminTouchOrgAdminGroup, denyOperatorRegularGroup, bind_eq_ok,
    shouldBindJSON_eq_ok, verifyGroup_eq_ok, onlyIf_deny, orFail_eq_ok, pure_eq_ok,
    exists_const] at h
  obtain ⟨group, ⟨hfound, hpath, horg⟩, -, -, -, input, -, -, -, hgate, -, -, key, -, db', hwrite,
    rfl⟩ := h
  obtain ⟨access, haccess⟩ : ∃ access : AccessRow, access = {
      groupID
      allowedMethods := expandWildcardMethods cfg.registry input.allowedMethods
      claims := Resolver.expandClaims input.claims
      rpcAPIKey := key
      verboseErrors := input.verboseErrors } := ⟨_, rfl⟩
  rw [← haccess] at hwrite
  have hrow : ∀ a, db.getGroupAccess groupID = some a ↔ a ∈ db.access ∧ a.groupID = groupID :=
    fun a => find?_key (db.valid .groupAccessGroupIdKey)
  have hid : access.groupID = groupID := by rw [haccess]
  -- an update and an insert leave the same rows
  have hleft : db'.groups = db.groups ∧ db'.memberships = db.memberships ∧
      ∀ a, a ∈ db'.access ↔ a = access ∨ a ∈ db.access ∧ a.groupID ≠ access.groupID := by
    unfold setGroupAccess.writeAccess at hwrite
    split at hwrite
    · obtain ⟨hgroups, hrows, hmemberships⟩ := updateGroupAccess_ok hwrite
      refine ⟨hgroups, hmemberships, fun a => ?_⟩
      rw [hrows, mem_cons, mem_filter, decide_eq_true_iff]
    · rename_i hnone
      obtain ⟨hgroups, hrows, hmemberships⟩ := createGroupAccess_ok hwrite
      refine ⟨hgroups, hmemberships, fun a => ?_⟩
      rw [hrows, mem_cons, and_iff_left_of_imp]
      intro ha heq
      rw [hid, (hrow a).mpr ⟨ha, heq.trans hid⟩] at hnone
      cases hnone
  obtain ⟨hgroups, hmemberships, hrows⟩ := hleft
  refine .of_access hgroups hmemberships hrows ?_ ?_
  · intro g hg hgid
    obtain rfl : group = g := Option.some.inj
      (hfound.symm.trans (getGroup_eq_some.mpr ⟨hg, hgid.trans hid⟩))
    exact horg ▸ hc.path hpath
  · intro method hmethod hpassthrough
    have hpassed : grantsPassthrough cfg.registry (db.getGroupAccess groupID)
        access.allowedMethods = false := by
      simpa [hc.jwt, haccess] using hgate
    obtain ⟨a, ha, hmethod⟩ := granted_of_grantsPassthrough hpassed hmethod hpassthrough
    obtain ⟨ha, hgroupID⟩ := (hrow a).mp ha
    exact ⟨a, ha, hgroupID.trans hid.symm, hmethod⟩

theorem createUserMembership_contained {now : Int} {userID : String} {body : Option MembershipInput}
    (hc : OrgAdminCaller Admin c orgID)
    (h : createUserMembership cfg c db now userID newID body = .ok reply) :
    Contained reg Admin db reply.db := by
  simp only [createUserMembership, requireUserInFullAdminScope, requireFullAdminOf,
    denyJWTAdminTouchOrgAdminGroup, denyOperatorRegularGroup, bind_eq_ok, shouldBindJSON_eq_ok,
    membershipGroup_eq_ok, onlyIf_deny, orFail_eq_ok, pure_eq_ok, exists_const] at h
  obtain ⟨-, input, -, -, -, group, hfound, hscope, hregular, -, expiresAt, -, db', hcreate,
    rfl⟩ := h
  obtain ⟨hgroups, haccess, hmemberships⟩ := createMembership_ok hcreate
  refine contained_insertMembership hgroups haccess hmemberships ?_
  exact membersAllowed_of_getGroup hfound (hc.full _ (by simpa [hc.jwt] using hscope))
    (by simpa [hc.jwt] using hregular)

theorem groupByDID_ok {didOk : Bool} (hc : OrgAdminCaller Admin c orgID)
    (h : groupByDID cfg c db orgID groupID didOk = .ok group) :
    MembersAllowed Admin db groupID := by
  simp only [groupByDID, requireFullAdminOf, denyJWTAdminTouchOrgAdminGroup,
    denyOperatorRegularGroup, bind_eq_ok, membershipGroup_eq_ok, onlyIf_deny, pure_eq_ok,
    exists_const] at h
  obtain ⟨-, hscope, -, group, hfound, horg, hregular, -, rfl⟩ := h
  have hadmin : Admin orgID := hc.full _ (by simpa [hc.jwt] using hscope)
  exact membersAllowed_of_getGroup hfound (not_not.mp horg ▸ hadmin)
    (by simpa [hc.jwt] using hregular)

theorem ensureUserExists_ok {did newUserID : String} {user : User} {db' : RbacDb}
    (h : ensureUserExists db did newUserID = .ok (user, db')) :
    db'.groups = db.groups ∧ db'.access = db.access ∧ db'.memberships = db.memberships := by
  unfold ensureUserExists at h
  split at h
  · cases h
    exact ⟨rfl, rfl, rfl⟩
  · simp only [bind_eq_ok, pure_eq_ok, Prod.mk.injEq] at h
    obtain ⟨db'', hcreate, -, rfl⟩ := h
    exact createUser_ok hcreate

theorem createMembershipByDID_contained {now : Int} {newUserID : String}
    {body : Option MembershipByDIDInput} (hc : OrgAdminCaller Admin c orgID)
    (h : createMembershipByDID cfg c db now orgID newUserID newID body = .ok reply) :
    Contained reg Admin db reply.db := by
  simp only [createMembershipByDID, bind_eq_ok, shouldBindJSON_eq_ok, onlyIf_deny, orFail_eq_ok,
    pure_eq_ok, exists_const] at h
  obtain ⟨input, -, -, group, hgroup, expiresAt, -, ⟨user, db'⟩, huser, rfl⟩ := h
  obtain ⟨hgroups, haccess, hmemberships⟩ := ensureUserExists_ok huser
  have hallowed := groupByDID_ok hc hgroup
  unfold createMembershipByDID.addMember
  split
  · rename_i db'' hcreate
    obtain ⟨hgroups', haccess', hmemberships'⟩ := createMembership_ok hcreate
    rw [hmemberships] at hmemberships'
    exact contained_insertMembership (hgroups'.trans hgroups) (haccess'.trans haccess)
      hmemberships' hallowed
  · exact .of_eq hgroups haccess hmemberships

theorem deleteMembershipByDID_contained {body : Option MembershipByDIDRemoval}
    (hc : OrgAdminCaller Admin c orgID)
    (h : deleteMembershipByDID cfg c db orgID body = .ok reply) :
    Contained reg Admin db reply.db := by
  simp only [deleteMembershipByDID, bind_eq_ok, shouldBindJSON_eq_ok, foundOrForeign_eq_ok,
    onlyIf_deny, pure_eq_ok, exists_const] at h
  obtain ⟨input, -, -, group, hgroup, user, -, membership, hfound, rfl⟩ := h
  have hmembership : membership.groupID = input.groupID := by
    have hpred := find?_some hfound
    exact (of_decide_eq_true hpred).2
  refine contained_deleteMembership (mem_of_find?_eq_some hfound) ?_
  rw [hmembership]
  exact groupByDID_ok hc hgroup

theorem deleteUserMembership_contained {userID membershipID : String}
    (hc : OrgAdminCaller Admin c orgID)
    (h : deleteUserMembership c db userID membershipID = .ok reply) :
    Contained reg Admin db reply.db := by
  simp only [deleteUserMembership, requireFullAdminOf, denyJWTAdminTouchOrgAdminGroup,
    denyOperatorRegularGroup, bind_eq_ok, foundOrForeign_eq_ok, membershipGroup_eq_ok, onlyIf_deny,
    pure_eq_ok, exists_const] at h
  obtain ⟨membership, hmembership, group, hfound, hscope, -, hregular, -, rfl⟩ := h
  obtain ⟨hmem, rfl⟩ := (find?_key (db.valid .userMembershipsPkey)).mp hmembership
  refine contained_deleteMembership hmem ?_
  exact membersAllowed_of_getGroup hfound (hc.full _ (by simpa [hc.jwt] using hscope))
    (by simpa [hc.jwt] using hregular)

end Handlers

/-! ## A request -/

/-- The deletion of the user passes the gates: the caller administers an organization the
user belongs to. -/
def AdminRequest.ReachesUser (req : AdminRequest) (db : RbacDb) (userID : String) : Prop :=
  ∃ orgID, req.CallerAdmin db orgID ∧ db.MemberAt req.now userID orgID fun _ => true

def AdminRequest.ReachesGroup (req : AdminRequest) (db : RbacDb) (orgID groupID : String) :
    Prop :=
  req.CallerAdmin db orgID ∧ ∃ g ∈ db.groups, g.id = groupID ∧ g.orgID = orgID ∧
    g.isSystem = false ∧ g.isOrgAdmin = false

def AdminRequest.ReachesBatch (req : AdminRequest) (db : RbacDb) (orgID : String)
    (ids : List String) : Prop :=
  req.CallerAdmin db orgID ∧ ids ≠ [] ∧ ids.length ≤ 200 ∧
    ∀ id ∈ ids, ∃ g ∈ db.groups, g.id = id ∧ g.orgID = orgID ∧ g.isOrgAdmin = false

/-- A delete that passes the gates is of what the caller may delete. -/
def AdminRequest.DeletesOwn (req : AdminRequest) (db : RbacDb) : Prop :=
  match req.action with
  | .deleteRBACUser userID => req.ReachesUser db userID →
      UserDeletable (req.CallerAdmin db) db userID
  | .deleteGroup orgID groupID => req.ReachesGroup db orgID groupID →
      GroupsDeletable (req.CallerAdmin db) db [groupID]
  | .batchDeleteGroups orgID (some ids) => req.ReachesBatch db orgID ids →
      GroupsDeletable (req.CallerAdmin db) db ids
  | _ => True

section Requests

variable {cfg : AdminConfig} {db : RbacDb} {req : AdminRequest}

/-- What `adminAuthMiddleware` leaves for the user. -/
def jwtCaller (db : RbacDb) (now : Int) (user : User) : Caller where
  authMethod := .jwtAdmin
  userID := user.id
  adminOrgIDs := db.isOrgAdmin now user.id
  readonlyOrgIDs := db.isOrgReadonlyAdmin now user.id

theorem authenticate_eq_ok {now : Int} {subject : String} {c : Caller} :
    authenticate db now subject = .ok c ↔
      ∃ user, db.getUserByExternalID subject = some user ∧ user.banned = false ∧
        ¬ (db.isOrgAdmin now user.id = [] ∧ db.isOrgReadonlyAdmin now user.id = []) ∧
        jwtCaller db now user = c := by
  unfold authenticate
  cases hfound : db.getUserByExternalID subject with
  | none => simp [deny]
  | some user =>
    simp only [bind_eq_ok, onlyIf_deny, pure_eq_ok, exists_const, Bool.not_eq_true,
      Option.some.injEq, exists_eq_left']
    rfl

variable {user : User} {orgID : String} {reply : AdminReply}

theorem orgScoping_eq_ok {now : Int} {u : Unit} :
    orgScoping (jwtCaller db now user) orgID = .ok u ↔
      if orgID = "" then db.isOrgAdmin now user.id ≠ [] else db.FullAdminAt now user.id orgID := by
  unfold orgScoping jwtCaller
  by_cases hempty : orgID = ""
  · simp only [if_pos hempty, onlyIf_deny, ne_eq]
  · simp only [if_neg hempty, mem_append, ← mem_isOrgAdmin]
    by_cases hadmin : orgID ∈ db.isOrgAdmin now user.id
    · simp only [hadmin, true_or, if_true, onlyIf_deny, not_true, not_false_eq_true]
    · by_cases hreadonly : orgID ∈ db.isOrgReadonlyAdmin now user.id
      · simp only [hadmin, hreadonly, or_true, if_true, onlyIf_deny, not_false_eq_true, not_true]
      · simp [hadmin, hreadonly, deny]

theorem handled_eq_ok :
    serve.handled cfg db req = .ok reply ↔
      ∃ user, db.getUserByExternalID req.subject = some user ∧ user.banned = false ∧
        ¬ (db.isOrgAdmin req.now user.id = [] ∧ db.isOrgReadonlyAdmin req.now user.id = []) ∧
        (if req.action.pathOrg = "" then db.isOrgAdmin req.now user.id ≠ []
          else db.FullAdminAt req.now user.id req.action.pathOrg) ∧
        dispatch cfg (jwtCaller db req.now user) db req.now req.action = .ok reply := by
  simp only [serve.handled, bind_eq_ok, authenticate_eq_ok]
  constructor
  · rintro ⟨c, ⟨user, hfound, hbanned, hsome, rfl⟩, u, hscope, hdispatch⟩
    exact ⟨user, hfound, hbanned, hsome, orgScoping_eq_ok.mp hscope, hdispatch⟩
  · rintro ⟨user, hfound, hbanned, hsome, hscope, hdispatch⟩
    exact ⟨_, ⟨user, hfound, hbanned, hsome, rfl⟩, (), orgScoping_eq_ok.mpr hscope, hdispatch⟩

theorem handled_of_admin (hfound : db.getUserByExternalID req.subject = some user)
    (hbanned : user.banned = false) (hadmin : db.FullAdminAt req.now user.id orgID)
    (hpath : req.action.pathOrg = "" ∨ req.action.pathOrg = orgID)
    (h : dispatch cfg (jwtCaller db req.now user) db req.now req.action = .ok reply) :
    serve.handled cfg db req = .ok reply := by
  have hsome : db.isOrgAdmin req.now user.id ≠ [] :=
    ne_nil_of_mem (mem_isOrgAdmin.mpr hadmin)
  refine handled_eq_ok.mpr ⟨user, hfound, hbanned, fun hnone => hsome hnone.1, ?_, h⟩
  split
  · exact hsome
  · rename_i hne
    rwa [hpath.resolve_left hne]

theorem handled_deleteRBACUser {userID : String} (haction : req.action = .deleteRBACUser userID) :
    serve.handled cfg db req = .ok reply ↔
      req.ReachesUser db userID ∧ { db := deleteUserRows db userID } = reply := by
  have hdispatch : ∀ user, dispatch cfg (jwtCaller db req.now user) db req.now req.action =
      .ok reply ↔ (∃ orgID, db.MemberAt req.now userID orgID (fun _ => true) ∧
        db.FullAdminAt req.now user.id orgID) ∧ db.getUser userID ≠ none ∧
        { db := deleteUserRows db userID } = reply := by
    intro user
    simp only [haction, dispatch, deleteRBACUser, denyOperatorOrgScoped,
      requireUserInFullAdminScope, bind_eq_ok, onlyIf_deny, pure_eq_ok, exists_const]
    simp [jwtCaller, mem_isOrgAdmin, RbacDb.getUserOrgIDs, mem_activeOrgs]
  constructor
  · intro h
    obtain ⟨user, hfound, hbanned, -, -, h⟩ := handled_eq_ok.mp h
    obtain ⟨⟨orgID, hmember, hadmin⟩, -, hreply⟩ := (hdispatch user).mp h
    exact ⟨⟨orgID, ⟨user, hfound, hbanned, hadmin⟩, hmember⟩, hreply⟩
  · rintro ⟨⟨orgID, ⟨user, hfound, hbanned, hadmin⟩, hmember⟩, hreply⟩
    refine handled_of_admin hfound hbanned hadmin (.inl (by rw [haction]; rfl))
      ((hdispatch user).mpr ⟨⟨orgID, hmember, hadmin⟩, ?_, hreply⟩)
    -- a member is a user
    obtain ⟨m, hm, rfl, -⟩ := hmember
    obtain ⟨target, htarget, hid⟩ := mem_map.mp (db.valid .userMembershipsUserIdFkey m hm)
    rw [getUser, (find?_key (db.valid .usersPkey)).mpr ⟨htarget, hid⟩]
    exact Option.some_ne_none target

/-- A deletion under the path of an organization, which passes its gates only if the
organization has rows. -/
theorem handled_of_path {gates : Prop} {db' : RbacDb} (hpath : req.action.pathOrg = orgID)
    (horg : gates → orgID ≠ "")
    (hdispatch : ∀ user, dispatch cfg (jwtCaller db req.now user) db req.now req.action =
      .ok reply ↔ gates ∧ { db := db' } = reply) :
    serve.handled cfg db req = .ok reply ↔
      (req.CallerAdmin db orgID ∧ gates) ∧ { db := db' } = reply := by
  constructor
  · intro h
    obtain ⟨user, hfound, hbanned, -, hscope, h⟩ := handled_eq_ok.mp h
    obtain ⟨hgates, hreply⟩ := (hdispatch user).mp h
    rw [hpath, if_neg (horg hgates)] at hscope
    exact ⟨⟨⟨user, hfound, hbanned, hscope⟩, hgates⟩, hreply⟩
  · rintro ⟨⟨⟨user, hfound, hbanned, hadmin⟩, hgates⟩, hreply⟩
    exact handled_of_admin hfound hbanned hadmin (.inr hpath)
      ((hdispatch user).mpr ⟨hgates, hreply⟩)

theorem handled_deleteGroup {groupID : String} (haction : req.action = .deleteGroup orgID groupID) :
    serve.handled cfg db req = .ok reply ↔
      req.ReachesGroup db orgID groupID ∧ { db := db.deleteGroup groupID } = reply := by
  refine handled_of_path (by rw [haction]; rfl) ?_ fun user => ?_
  · rintro ⟨g, hg, -, rfl, -⟩
    exact orgID_ne_empty hg
  · simp only [haction, dispatch, deleteGroup, denyOperatorRegularGroup, verifyGroup_eq_ok,
      bind_eq_ok, onlyIf_deny, pure_eq_ok, exists_const, getGroup_eq_some]
    constructor
    · rintro ⟨g, ⟨⟨hg, hid⟩, -, horg⟩, hsystem, hregular, -, hreply⟩
      exact ⟨⟨g, hg, hid, horg, by simpa using hsystem, by simpa [jwtCaller] using hregular⟩,
        hreply⟩
    · rintro ⟨⟨g, hg, hid, rfl, hsystem, hregular⟩, hreply⟩
      exact ⟨g, ⟨⟨hg, hid⟩, orgID_ne_empty hg, rfl⟩, by simp [hsystem],
        by simp [hregular], by simp [jwtCaller], hreply⟩

theorem handled_batchDeleteGroups {ids : List String}
    (haction : req.action = .batchDeleteGroups orgID (some ids)) :
    serve.handled cfg db req = .ok reply ↔
      req.ReachesBatch db orgID ids ∧ { db := db.deleteGroups ids } = reply := by
  refine handled_of_path (by rw [haction]; rfl) ?_ fun user => ?_
  · rintro ⟨hsome, -, hall⟩
    obtain ⟨id, hid⟩ := exists_mem_of_ne_nil ids hsome
    obtain ⟨g, hg, -, rfl, -⟩ := hall id hid
    exact orgID_ne_empty hg
  · simp only [haction, dispatch, batchDeleteGroups, shouldBindJSON_eq_ok, bind_eq_ok, onlyIf_deny,
      pure_eq_ok, exists_const, Option.some.injEq, exists_eq_left']
    -- the rows found are the groups of the organization with these ids
    have hrow : ∀ g, g ∈ db.getGroupsByIDs orgID ids ↔
        g ∈ db.groups ∧ g.orgID = orgID ∧ g.id ∈ ids := by
      intro g
      rw [getGroupsByIDs, mem_filter, decide_eq_true_iff]
    constructor
    · rintro ⟨hsome, hmax, hall, hregular, -, hreply⟩
      refine ⟨⟨hsome, not_lt.mp hmax, fun id hid => ?_⟩, hreply⟩
      have hfound : id ∈ (db.getGroupsByIDs orgID ids).map (·.id) := by
        by_contra hmissing
        exact hall ⟨id, hid, hmissing⟩
      obtain ⟨g, hg, rfl⟩ := mem_map.mp hfound
      refine ⟨g, ((hrow g).mp hg).1, rfl, ((hrow g).mp hg).2.1, ?_⟩
      by_contra hadmin
      exact hregular ⟨rfl, g, hg, by simpa using hadmin⟩
    · rintro ⟨⟨hsome, hmax, hall⟩, hreply⟩
      refine ⟨hsome, not_lt.mpr hmax, ?_, ?_, by simp [jwtCaller], hreply⟩
      · rintro ⟨id, hid, hmissing⟩
        obtain ⟨g, hg, rfl, horg, -⟩ := hall id hid
        exact hmissing (mem_map_of_mem ((hrow g).mpr ⟨hg, horg, hid⟩))
      · rintro ⟨-, g, hg, hadmin⟩
        obtain ⟨hg, -, hid⟩ := (hrow g).mp hg
        obtain ⟨g', hg', hid', -, hregular⟩ := hall g.id hid
        obtain rfl := inj_on_of_nodup_map (db.valid .groupsPkey) hg' hg hid'
        rw [hregular] at hadmin
        cases hadmin

/-- A request whose handler is known to do one thing or nothing. -/
theorem serve_contained_of {reaches deletable : Prop} {db' : RbacDb}
    (hhandled : ∀ reply, serve.handled cfg db req = .ok reply ↔ reaches ∧ { db := db' } = reply)
    (hdeletable : Contained cfg.registry (req.CallerAdmin db) db db' ↔ deletable) :
    Contained cfg.registry (req.CallerAdmin db) db (serve cfg db req).db ↔
      (reaches → deletable) := by
  unfold serve
  split
  · rename_i reply hok
    obtain ⟨hreaches, rfl⟩ := (hhandled reply).mp hok
    rw [hdeletable]
    exact ⟨fun h _ => h, fun h => h hreaches⟩
  · rename_i error herror
    refine iff_of_true (.of_eq rfl rfl rfl) fun hreaches => ?_
    rw [(hhandled { db := db' }).mpr ⟨hreaches, rfl⟩] at herror
    cases herror

/-- The other requests keep to it whatever they ask. -/
theorem serve_contained {action : AdminAction} (haction : req.action = action)
    (h : ∀ c reply, OrgAdminCaller (req.CallerAdmin db) c action.pathOrg →
      dispatch cfg c db req.now action = .ok reply →
      Contained cfg.registry (req.CallerAdmin db) db reply.db) :
    Contained cfg.registry (req.CallerAdmin db) db (serve cfg db req).db := by
  subst haction
  unfold serve
  split
  · rename_i reply hok
    obtain ⟨user, hfound, hbanned, -, hscope, hdispatch⟩ := handled_eq_ok.mp hok
    have hcaller : ∀ orgID, db.FullAdminAt req.now user.id orgID → req.CallerAdmin db orgID :=
      fun _ hadmin => ⟨user, hfound, hbanned, hadmin⟩
    refine h _ reply ⟨rfl, fun hne => hcaller _ ?_, fun _ hmem => hcaller _ ?_⟩ hdispatch
    · rwa [if_neg hne] at hscope
    · exact mem_isOrgAdmin.mp hmem
  · exact .of_eq rfl rfl rfl

/-- A request keeps to what an organization admin may do exactly if a delete it makes is of
what they may delete. -/
theorem serve_contained_iff (cfg : AdminConfig) (db : RbacDb) (req : AdminRequest) :
    Contained cfg.registry (req.CallerAdmin db) db (serve cfg db req).db ↔ req.DeletesOwn db := by
  unfold AdminRequest.DeletesOwn
  cases haction : req.action with
  | deleteRBACUser userID =>
    exact serve_contained_of (fun _ => handled_deleteRBACUser haction)
      contained_deleteUserRows_iff
  | deleteGroup orgID groupID =>
    refine serve_contained_of (fun _ => handled_deleteGroup haction) ?_
    rw [← deleteGroups_singleton]
    exact contained_deleteGroups_iff
  | batchDeleteGroups orgID body =>
    cases body with
    | some ids =>
      exact serve_contained_of (fun _ => handled_batchDeleteGroups haction)
        contained_deleteGroups_iff
    | none => exact iff_of_true (serve_contained haction fun _ _ _ h => by cases h) trivial
  | createGroup orgID newID body =>
    exact iff_of_true (serve_contained haction fun _ _ => createGroup_contained) trivial
  | updateGroup orgID groupID body =>
    exact iff_of_true (serve_contained haction fun _ _ => updateGroup_contained) trivial
  | setGroupAccess orgID groupID body =>
    exact iff_of_true (serve_contained haction fun _ _ => setGroupAccess_contained) trivial
  | createUserMembership userID newID body =>
    exact iff_of_true (serve_contained haction fun _ _ => createUserMembership_contained) trivial
  | createMembershipByDID orgID newUserID newID body =>
    exact iff_of_true (serve_contained haction fun _ _ => createMembershipByDID_contained) trivial
  | deleteMembershipByDID orgID body =>
    exact iff_of_true (serve_contained haction fun _ _ => deleteMembershipByDID_contained) trivial
  | deleteUserMembership userID membershipID =>
    exact iff_of_true (serve_contained haction fun _ _ => deleteUserMembership_contained) trivial

end Requests

/-! ## Sequences of requests -/

def serveAll (cfg : AdminConfig) (db : RbacDb) (requests : List AdminRequest) : RbacDb :=
  requests.foldl (fun db req => (serve cfg db req).db) db

theorem serveAll_concat (cfg : AdminConfig) (db : RbacDb) (before : List AdminRequest)
    (req : AdminRequest) :
    serveAll cfg db (before ++ [req]) = (serve cfg (serveAll cfg db before) req).db := by
  simp [serveAll]

/-- Every request of the sequence keeps to what its caller may do, and after every one the
full admins are those there were at first. -/
def ContainedAlong (cfg : AdminConfig) (db : RbacDb) (requests : List AdminRequest) : Prop :=
  ∀ before req after, requests = before ++ req :: after →
    Contained cfg.registry (req.CallerAdmin (serveAll cfg db before)) (serveAll cfg db before)
      (serveAll cfg db (before ++ [req])) ∧
    ∀ now userID orgID, db.FullAdminAt now userID orgID ↔
      (serveAll cfg db (before ++ [req])).FullAdminAt now userID orgID

/-- Every delete of the sequence is of what its caller may delete. -/
def DeletesOwnAlong (cfg : AdminConfig) (db : RbacDb) (requests : List AdminRequest) : Prop :=
  ∀ before req after, requests = before ++ req :: after →
    req.DeletesOwn (serveAll cfg db before)

/-- The full admins after a sequence are those there were at first. -/
theorem DeletesOwnAlong.sameAdmins {cfg : AdminConfig} {db : RbacDb}
    {requests : List AdminRequest} (h : DeletesOwnAlong cfg db requests) (now : Int)
    (userID orgID : String) :
    db.FullAdminAt now userID orgID ↔ (serveAll cfg db requests).FullAdminAt now userID orgID := by
  induction requests using List.reverseRecOn with
  | nil => rfl
  | append_singleton before req ih =>
    have hbefore : DeletesOwnAlong cfg db before := fun first r rest heq =>
      h first r (rest ++ [req]) (by rw [heq]; simp)
    have hreq : req.DeletesOwn (serveAll cfg db before) := h before req [] rfl
    rw [ih hbefore, serveAll_concat]
    exact ((serve_contained_iff cfg _ req).mpr hreq).sameAdmins now userID orgID

/-- For every database and every sequence of requests by organization admins: no request
makes or unmakes a full admin, writes a row of an organization its caller does not
administer, or grants a passthrough method, exactly if every deletion of a user or of groups
is of what its caller may delete. -/
theorem org_admin_contained_iff (cfg : AdminConfig) (db : RbacDb)
    (requests : List AdminRequest) :
    ContainedAlong cfg db requests ↔ DeletesOwnAlong cfg db requests := by
  constructor
  · intro h before req after heq
    rw [← serve_contained_iff cfg, ← serveAll_concat]
    exact (h before req after heq).1
  · intro h before req after heq
    have hprefix : DeletesOwnAlong cfg db (before ++ [req]) := fun first r rest heq' =>
      h first r (rest ++ after) (by
        rw [heq, ← singleton_append, ← append_assoc, heq', append_assoc,
          cons_append])
    refine ⟨?_, hprefix.sameAdmins⟩
    rw [serveAll_concat, serve_contained_iff]
    exact h before req after heq

/-! ## A peer of another organization, deleted -/

/-- `did:alice` administers `org-a`; `did:carol` works there and administers `org-b`. -/
def sharedTables : Tables where
  organizations := ["org-a", "org-b"]
  groups :=
    [{ id := "admins-a", orgID := "org-a", slug := "admins", name := "Admins", isOrgAdmin := true },
     { id := "staff-a", orgID := "org-a", slug := "staff", name := "Staff" },
     { id := "admins-b", orgID := "org-b", slug := "admins", name := "Admins",
       isOrgAdmin := true }]
  users :=
    [{ id := "alice", externalID := "did:alice" }, { id := "carol", externalID := "did:carol" }]
  memberships :=
    [{ id := "m1", userID := "alice", groupID := "admins-a" },
     { id := "m2", userID := "carol", groupID := "staff-a" },
     { id := "m3", userID := "carol", groupID := "admins-b" }]

def sharedDatabase : RbacDb :=
  { sharedTables with valid := Tables.satisfies_of_violation (by decide +kernel) }

def plainConfig : AdminConfig where
  uuidParse _ := true
  timeParse _ := none
  encrypt key := .ok key
  parseDID _ := some "iden3"
  idFromDID _ := true

def deletesCarol : AdminRequest where
  subject := "did:alice"
  now := 0
  action := .deleteRBACUser "carol"

/-- One request of an admin of `org-a` ends the administration of `org-b` by its admin. -/
theorem deleted_admin_of_other_org :
    sharedDatabase.FullAdminAt 0 "carol" "org-b" ∧
    ¬ deletesCarol.CallerAdmin sharedDatabase "org-b" ∧
    ¬ (serve plainConfig sharedDatabase deletesCarol).db.FullAdminAt 0 "carol" "org-b" ∧
    ¬ ContainedAlong plainConfig sharedDatabase [deletesCarol] := by
  have hadmin : sharedDatabase.FullAdminAt 0 "carol" "org-b" := by
    rw [← mem_isOrgAdmin]
    decide
  have hgone : ¬ (serve plainConfig sharedDatabase deletesCarol).db.FullAdminAt 0 "carol"
      "org-b" := by
    rw [← mem_isOrgAdmin]
    decide
  refine ⟨hadmin, ?_, hgone, fun h => hgone ?_⟩
  · rintro ⟨user, hfound, -, hcaller⟩
    have halice : sharedDatabase.getUserByExternalID "did:alice" =
        some { id := "alice", externalID := "did:alice" } := by
      decide
    obtain rfl := Option.some.inj (hfound.symm.trans halice)
    have hno : "org-b" ∉ sharedDatabase.isOrgAdmin 0 "alice" := by
      decide
    exact hno (mem_isOrgAdmin.mpr hcaller)
  · exact ((h [] deletesCarol [] rfl).2 0 "carol" "org-b").mp hadmin

end PrivacySuite.Server
