import PrivacySuite.Rbac.Resolver
import PrivacySuite.Relational.Rows

/-!
# The tables the administrators write

`groups`, `group_access`, `users` and `user_memberships` (`internal/db/migrations`), with
the statements of `internal/db` on them; of `organizations` the ids, which are UUIDs and so
not empty. A `RbacDb` carries the constraints of the
schema, so a row that breaks one cannot be in it: an insert or an update is refused with
the constraint (`commit`), and a delete takes the rows that refer to it along
(`ON DELETE CASCADE`). A group refers to its parent in the same table, so a delete of a
group removes every group that leads to it.

Columns that no handler reads back (depth, path, source, timestamps) are left out.
-/

namespace PrivacySuite.Rbac

open Go Relational List

/-! ## Rows -/

structure GroupRow extends Group where
  parentID : Option String := none
  slug : String
  name : String
  description : String := ""
  isOrgReadonlyAdmin : Bool := false
  deriving DecidableEq, Repr

structure AccessRow extends GroupAccessRow where
  groupID : String
  verboseErrors : Bool := false
  deriving DecidableEq, Repr

structure MembershipRow where
  id : String
  userID : String
  groupID : String
  expiresAt : Option Int := none
  deriving DecidableEq, Repr

/-- `expires_at IS NULL OR expires_at > NOW()`. -/
def MembershipRow.activeAt (m : MembershipRow) (now : Int) : Bool :=
  m.expiresAt.all fun expiry => decide (now < expiry)

structure Tables where
  organizations : List String := []
  groups : List GroupRow := []
  access : List AccessRow := []
  users : List User := []
  memberships : List MembershipRow := []

/-! ## Constraints -/

/-- The constraints of the schema, by the names the database reports them under. -/
inductive Constraint where
  | organizationsIdType
  | groupsAdminRoleExclusive
  | groupsPkey
  | groupsOrgIdSlugKey
  | idxGroupsOrgNameUnique
  | groupsOrgIdFkey
  | groupsParentIdFkey
  | groupAccessGroupIdKey
  | groupAccessGroupIdFkey
  | usersPkey
  | usersExternalIdKey
  | userMembershipsPkey
  | userMembershipsUserIdGroupIdKey
  | userMembershipsUserIdFkey
  | userMembershipsGroupIdFkey
  deriving DecidableEq, Repr

/-- Checks come first, then the indexes, then the references. -/
def Constraint.all : List Constraint :=
  [.organizationsIdType, .groupsAdminRoleExclusive, .groupsPkey, .groupsOrgIdSlugKey,
   .idxGroupsOrgNameUnique, .groupAccessGroupIdKey, .usersPkey, .usersExternalIdKey,
   .userMembershipsPkey, .userMembershipsUserIdGroupIdKey, .groupsOrgIdFkey,
   .groupsParentIdFkey, .groupAccessGroupIdFkey, .userMembershipsUserIdFkey,
   .userMembershipsGroupIdFkey]

/-- Whether the report of the violation says so. -/
def Constraint.isUniqueViolation : Constraint → Bool
  | .groupsPkey | .groupsOrgIdSlugKey | .idxGroupsOrgNameUnique | .groupAccessGroupIdKey
  | .usersPkey | .usersExternalIdKey | .userMembershipsPkey | .userMembershipsUserIdGroupIdKey =>
      true
  | _ => false

namespace Tables

variable (t : Tables)

def Satisfies : Constraint → Prop
  | .organizationsIdType => "" ∉ t.organizations
  | .groupsAdminRoleExclusive =>
      ∀ g ∈ t.groups, ¬ (g.isOrgAdmin = true ∧ g.isOrgReadonlyAdmin = true)
  | .groupsPkey => (t.groups.map (·.id)).Nodup
  | .groupsOrgIdSlugKey => (t.groups.map fun g => (g.orgID, g.slug)).Nodup
  | .idxGroupsOrgNameUnique => (t.groups.map fun g => (g.orgID, toLower g.name)).Nodup
  | .groupsOrgIdFkey => ∀ g ∈ t.groups, g.orgID ∈ t.organizations
  | .groupsParentIdFkey => ∀ g ∈ t.groups, ∀ p ∈ g.parentID, p ∈ t.groups.map (·.id)
  | .groupAccessGroupIdKey => (t.access.map (·.groupID)).Nodup
  | .groupAccessGroupIdFkey => ∀ a ∈ t.access, a.groupID ∈ t.groups.map (·.id)
  | .usersPkey => (t.users.map (·.id)).Nodup
  | .usersExternalIdKey => (t.users.map (·.externalID)).Nodup
  | .userMembershipsPkey => (t.memberships.map (·.id)).Nodup
  | .userMembershipsUserIdGroupIdKey => (t.memberships.map fun m => (m.userID, m.groupID)).Nodup
  | .userMembershipsUserIdFkey => ∀ m ∈ t.memberships, m.userID ∈ t.users.map (·.id)
  | .userMembershipsGroupIdFkey => ∀ m ∈ t.memberships, m.groupID ∈ t.groups.map (·.id)

instance : (c : Constraint) → Decidable (t.Satisfies c)
  | .organizationsIdType => inferInstanceAs (Decidable (_ ∉ t.organizations))
  | .groupsOrgIdFkey => inferInstanceAs (Decidable (∀ g ∈ t.groups, _))
  | .groupsAdminRoleExclusive => inferInstanceAs (Decidable (∀ g ∈ t.groups, _))
  | .groupsParentIdFkey => inferInstanceAs (Decidable (∀ g ∈ t.groups, _))
  | .groupAccessGroupIdFkey => inferInstanceAs (Decidable (∀ a ∈ t.access, _))
  | .userMembershipsUserIdFkey => inferInstanceAs (Decidable (∀ m ∈ t.memberships, _))
  | .userMembershipsGroupIdFkey => inferInstanceAs (Decidable (∀ m ∈ t.memberships, _))
  | .groupsPkey | .groupsOrgIdSlugKey | .idxGroupsOrgNameUnique | .groupAccessGroupIdKey
  | .usersPkey | .usersExternalIdKey | .userMembershipsPkey | .userMembershipsUserIdGroupIdKey =>
      inferInstanceAs (Decidable (List.Nodup _))

/-- The constraint the database reports, if one is broken. -/
def violation : Option Constraint := Constraint.all.find? fun c => !decide (t.Satisfies c)

variable {t}

theorem satisfies_of_violation (h : t.violation = none) (c : Constraint) : t.Satisfies c := by
  have hall : c ∈ Constraint.all := by
    cases c <;> decide
  simpa using find?_eq_none.mp h c hall

theorem satisfies_of_sublist {t' : Tables} (h : ∀ c, t.Satisfies c)
    (horgs : t'.organizations = t.organizations)
    (hgroups : t'.groups.Sublist t.groups) (haccess : t'.access.Sublist t.access)
    (husers : t'.users.Sublist t.users) (hmemberships : t'.memberships.Sublist t.memberships)
    (hparent : t'.Satisfies .groupsParentIdFkey)
    (haccessGroup : t'.Satisfies .groupAccessGroupIdFkey)
    (huser : t'.Satisfies .userMembershipsUserIdFkey)
    (hgroup : t'.Satisfies .userMembershipsGroupIdFkey) (c : Constraint) : t'.Satisfies c := by
  cases c with
  | organizationsIdType =>
    show "" ∉ t'.organizations
    rw [horgs]
    exact h .organizationsIdType
  | groupsOrgIdFkey =>
    intro g hg
    rw [horgs]
    exact h .groupsOrgIdFkey g (hgroups.subset hg)
  | groupsAdminRoleExclusive =>
    exact fun g hg => h .groupsAdminRoleExclusive g (hgroups.subset hg)
  | groupsPkey => exact (h .groupsPkey).sublist (hgroups.map _)
  | groupsOrgIdSlugKey => exact (h .groupsOrgIdSlugKey).sublist (hgroups.map _)
  | idxGroupsOrgNameUnique => exact (h .idxGroupsOrgNameUnique).sublist (hgroups.map _)
  | groupAccessGroupIdKey => exact (h .groupAccessGroupIdKey).sublist (haccess.map _)
  | usersPkey => exact (h .usersPkey).sublist (husers.map _)
  | usersExternalIdKey => exact (h .usersExternalIdKey).sublist (husers.map _)
  | userMembershipsPkey => exact (h .userMembershipsPkey).sublist (hmemberships.map _)
  | userMembershipsUserIdGroupIdKey =>
    exact (h .userMembershipsUserIdGroupIdKey).sublist (hmemberships.map _)
  | groupsParentIdFkey => exact hparent
  | groupAccessGroupIdFkey => exact haccessGroup
  | userMembershipsUserIdFkey => exact huser
  | userMembershipsGroupIdFkey => exact hgroup

end Tables

/-- Tables that meet every constraint. -/
structure RbacDb extends Tables where
  valid : ∀ c, toTables.Satisfies c

namespace RbacDb

/-- A statement that adds or changes rows: it goes through or names a constraint. -/
def commit (t : Tables) : Except Constraint RbacDb :=
  match h : t.violation with
  | none => .ok { t with valid := Tables.satisfies_of_violation h }
  | some c => .error c

theorem commit_ok {t : Tables} {db : RbacDb} (h : commit t = .ok db) : db.toTables = t := by
  unfold commit at h
  split at h
  · rw [← Except.ok.inj h]
  · cases h

variable (db : RbacDb)

/-! ## Reads -/

def getGroup (id : String) : Option GroupRow := db.groups.find? (·.id = id)

def getGroupsByIDs (orgID : String) (ids : List String) : List GroupRow :=
  db.groups.filter fun g => g.orgID = orgID ∧ g.id ∈ ids

def getGroupAccess (groupID : String) : Option AccessRow := db.access.find? (·.groupID = groupID)

def getUser (id : String) : Option User := db.users.find? (·.id = id)

def getUserByExternalID (externalID : String) : Option User :=
  db.users.find? (·.externalID = externalID)

def getMembership (id : String) : Option MembershipRow := db.memberships.find? (·.id = id)

def getMembershipByUserAndGroup (userID groupID : String) : Option MembershipRow :=
  db.memberships.find? fun m => m.userID = userID ∧ m.groupID = groupID

def listUserMemberships (userID : String) : List MembershipRow :=
  db.memberships.filter (·.userID = userID)

/-- The organizations of a user's active memberships in groups of a kind. -/
def activeOrgs (now : Int) (userID : String) (kind : GroupRow → Bool) : List String :=
  ((db.listUserMemberships userID).filter (·.activeAt now)).filterMap fun m =>
    ((db.getGroup m.groupID).filter kind).map (·.orgID)

/-- The organizations in which the user is a full admin. -/
def isOrgAdmin (now : Int) (userID : String) : List String :=
  db.activeOrgs now userID (·.isOrgAdmin)

def isOrgReadonlyAdmin (now : Int) (userID : String) : List String :=
  db.activeOrgs now userID (·.isOrgReadonlyAdmin)

def getUserOrgIDs (now : Int) (userID : String) : List String :=
  db.activeOrgs now userID fun _ => true

/-! ## Inserts and updates -/

def createGroup (group : GroupRow) : Except Constraint RbacDb :=
  commit { db.toTables with groups := group :: db.groups }

/-- The columns `UpdateGroup` sets, in the row with the id: organization, parent and
`is_system` are not written. -/
def setColumns (group g : GroupRow) : GroupRow :=
  if g.id = group.id then
    { g with
      slug := group.slug, name := group.name, description := group.description
      isOrgAdmin := group.isOrgAdmin, isOrgReadonlyAdmin := group.isOrgReadonlyAdmin }
  else g

def updateGroup (group : GroupRow) : Except Constraint RbacDb :=
  commit { db.toTables with groups := db.groups.map (setColumns group) }

def createGroupAccess (access : AccessRow) : Except Constraint RbacDb :=
  commit { db.toTables with access := access :: db.access }

/-- An upsert on the group. -/
def updateGroupAccess (access : AccessRow) : Except Constraint RbacDb :=
  commit { db.toTables with access := access :: db.access.filter (·.groupID ≠ access.groupID) }

def createUser (user : User) : Except Constraint RbacDb :=
  commit { db.toTables with users := user :: db.users }

def createMembership (membership : MembershipRow) : Except Constraint RbacDb :=
  commit { db.toTables with memberships := membership :: db.memberships }

/-! ### What they leave -/

section Writes

variable {db} {db' : RbacDb}

theorem commit_tables {t : Tables} (h : commit t = .ok db') :
    db'.groups = t.groups ∧ db'.access = t.access ∧ db'.memberships = t.memberships := by
  rw [commit_ok h]
  exact ⟨rfl, rfl, rfl⟩

theorem createGroup_ok {group : GroupRow} (h : db.createGroup group = .ok db') :
    db'.groups = group :: db.groups ∧ db'.access = db.access ∧
      db'.memberships = db.memberships :=
  commit_tables h

theorem updateGroup_ok {group : GroupRow} (h : db.updateGroup group = .ok db') :
    db'.groups = db.groups.map (setColumns group) ∧ db'.access = db.access ∧
      db'.memberships = db.memberships :=
  commit_tables h

variable {access : AccessRow}

theorem createGroupAccess_ok (h : db.createGroupAccess access = .ok db') :
    db'.groups = db.groups ∧ db'.access = access :: db.access ∧
      db'.memberships = db.memberships :=
  commit_tables h

theorem updateGroupAccess_ok (h : db.updateGroupAccess access = .ok db') :
    db'.groups = db.groups ∧
      db'.access = access :: db.access.filter (·.groupID ≠ access.groupID) ∧
      db'.memberships = db.memberships :=
  commit_tables h

theorem createUser_ok {user : User} (h : db.createUser user = .ok db') :
    db'.groups = db.groups ∧ db'.access = db.access ∧ db'.memberships = db.memberships := by
  have htables := commit_tables h
  exact htables

theorem createMembership_ok {membership : MembershipRow}
    (h : db.createMembership membership = .ok db') :
    db'.groups = db.groups ∧ db'.access = db.access ∧
      db'.memberships = membership :: db.memberships :=
  commit_tables h

end Writes

/-! ## Deletes -/

/-- The memberships that pass stay; nothing refers to a membership. -/
def keepMemberships (keep : MembershipRow → Bool) : RbacDb where
  toTables := { db.toTables with memberships := db.memberships.filter keep }
  valid := Tables.satisfies_of_sublist db.valid rfl (.refl _) (.refl _) (.refl _)
    List.filter_sublist (db.valid .groupsParentIdFkey) (db.valid .groupAccessGroupIdFkey)
    (fun m hm => db.valid .userMembershipsUserIdFkey m (List.mem_of_mem_filter hm))
    (fun m hm => db.valid .userMembershipsGroupIdFkey m (List.mem_of_mem_filter hm))

def deleteMembership (id : String) : RbacDb := db.keepMemberships (·.id ≠ id)

def deleteMembershipsByGroup (groupID : String) : RbacDb :=
  db.keepMemberships (·.groupID ≠ groupID)

def deleteGroupAccess (groupID : String) : RbacDb where
  toTables := { db.toTables with access := db.access.filter (·.groupID ≠ groupID) }
  valid := Tables.satisfies_of_sublist db.valid rfl (.refl _) List.filter_sublist (.refl _)
    (.refl _) (db.valid .groupsParentIdFkey)
    (fun a ha => db.valid .groupAccessGroupIdFkey a (List.mem_of_mem_filter ha))
    (db.valid .userMembershipsUserIdFkey) (db.valid .userMembershipsGroupIdFkey)

/-- `DeleteUser`, which takes the memberships of the user along. -/
def deleteUser (id : String) : RbacDb where
  toTables := { db.toTables with
    users := db.users.filter (·.id ≠ id)
    memberships := db.memberships.filter (·.userID ≠ id) }
  valid := by
    refine Tables.satisfies_of_sublist db.valid rfl (.refl _) (.refl _) List.filter_sublist
      List.filter_sublist (db.valid .groupsParentIdFkey) (db.valid .groupAccessGroupIdFkey) ?_
      (fun m hm => db.valid .userMembershipsGroupIdFkey m (List.mem_of_mem_filter hm))
    intro m hm
    obtain ⟨hm, hne⟩ := List.mem_filter.mp hm
    obtain ⟨user, huser, heq⟩ := List.mem_map.mp (db.valid .userMembershipsUserIdFkey m hm)
    refine List.mem_map.mpr ⟨user, List.mem_filter.mpr ⟨huser, ?_⟩, heq⟩
    rw [heq]
    exact hne

def parentOf (id : String) : Option String := (db.getGroup id).bind (·.parentID)

/-- The group is the deleted one, or a child of a group that is removed. -/
def removedWith (deleted id : String) : Bool :=
  decide (deleted ∈ trail db.parentOf (db.groups.map (·.id)).length id)

variable {db}

variable {id ref : String} {group : GroupRow} {ids : List String}

theorem getGroup_eq_some : db.getGroup id = some group ↔ group ∈ db.groups ∧ group.id = id :=
  find?_key (db.valid .groupsPkey)

theorem getGroup_of_mem (h : group ∈ db.groups) : db.getGroup group.id = some group :=
  getGroup_eq_some.mpr ⟨h, rfl⟩

theorem orgID_ne_empty (h : group ∈ db.groups) : group.orgID ≠ "" := by
  intro hempty
  refine db.valid .organizationsIdType ?_
  rw [← hempty]
  exact db.valid .groupsOrgIdFkey group h

variable {deleted userID orgID : String} {now : Int} {g : GroupRow} {a : AccessRow}
  {m : MembershipRow}

theorem removedWith_iff : db.removedWith deleted id = true ↔ Leads db.parentOf id deleted := by
  rw [removedWith, decide_eq_true_iff]
  refine mem_trail_iff fun id parent h => ?_
  obtain ⟨group, hgroup, -⟩ := Option.bind_eq_some_iff.mp h
  obtain ⟨hmem, rfl⟩ := getGroup_eq_some.mp hgroup
  exact mem_map_of_mem hmem

theorem removedWith_eq_false :
    (!db.removedWith deleted id) = true ↔ ¬ Leads db.parentOf id deleted := by
  rw [← removedWith_iff]
  simp

variable (db)

/-- `DeleteGroup`, with what the schema removes along: the descendants of the group and
the access rows and memberships of them all. -/
def deleteGroup (id : String) : RbacDb where
  toTables := { db.toTables with
    groups := db.groups.filter fun g => !db.removedWith id g.id
    access := db.access.filter fun a => !db.removedWith id a.groupID
    memberships := db.memberships.filter fun m => !db.removedWith id m.groupID }
  valid := by
    -- a row that stays refers to a group that stays
    have hstays : ∀ ref ∈ db.groups.map (·.id), (!db.removedWith id ref) = true →
        ref ∈ (db.groups.filter fun g => !db.removedWith id g.id).map (·.id) := by
      intro ref href hkept
      obtain ⟨group, hgroup, rfl⟩ := List.mem_map.mp href
      exact List.mem_map_of_mem (List.mem_filter.mpr ⟨hgroup, hkept⟩)
    refine Tables.satisfies_of_sublist db.valid rfl List.filter_sublist List.filter_sublist
      (.refl _) List.filter_sublist ?_ ?_ ?_ ?_
    · intro g hg parent hparent
      obtain ⟨hg, hkept⟩ := List.mem_filter.mp hg
      refine hstays parent (db.valid .groupsParentIdFkey g hg parent hparent) ?_
      rw [removedWith_eq_false] at hkept ⊢
      have hnext : db.parentOf g.id = some parent := by
        rw [parentOf, getGroup_of_mem hg, Option.bind_some, hparent]
      exact fun hleads => hkept (.head hnext hleads)
    · intro a ha
      obtain ⟨ha, hkept⟩ := List.mem_filter.mp ha
      exact hstays a.groupID (db.valid .groupAccessGroupIdFkey a ha) hkept
    · exact fun m hm => db.valid .userMembershipsUserIdFkey m (List.mem_of_mem_filter hm)
    · intro m hm
      obtain ⟨hm, hkept⟩ := List.mem_filter.mp hm
      exact hstays m.groupID (db.valid .userMembershipsGroupIdFkey m hm) hkept

/-- `DeleteGroupWithDependenciesTx`. -/
def deleteGroupWithDependencies (id : String) : RbacDb :=
  ((db.deleteMembershipsByGroup id).deleteGroupAccess id).deleteGroup id

/-! ## Who belongs where -/

/-- The user has, at that time, an active membership in a group of the kind in the
organization. -/
def MemberAt (now : Int) (userID orgID : String) (kind : GroupRow → Bool) : Prop :=
  ∃ m ∈ db.memberships, m.userID = userID ∧ m.activeAt now = true ∧
    ∃ g ∈ db.groups, g.id = m.groupID ∧ kind g = true ∧ g.orgID = orgID

/-- The user belongs to a full org-admin group of the organization. -/
def FullAdminAt (now : Int) (userID orgID : String) : Prop :=
  db.MemberAt now userID orgID (·.isOrgAdmin)

variable {db}

theorem mem_activeOrgs {kind : GroupRow → Bool} :
    orgID ∈ db.activeOrgs now userID kind ↔ db.MemberAt now userID orgID kind := by
  unfold activeOrgs MemberAt listUserMemberships
  simp only [mem_filterMap, mem_filter, decide_eq_true_eq, Option.map_eq_some_iff,
    Option.filter_eq_some_iff, getGroup_eq_some, and_assoc]

theorem mem_isOrgAdmin : orgID ∈ db.isOrgAdmin now userID ↔ db.FullAdminAt now userID orgID :=
  mem_activeOrgs

/-! ## What a delete of groups leaves -/

theorem mem_groups_deleteGroup :
    g ∈ (db.deleteGroup id).groups ↔ g ∈ db.groups ∧ ¬ Leads db.parentOf g.id id := by
  rw [← removedWith_eq_false]
  exact mem_filter

theorem mem_access_deleteGroup :
    a ∈ (db.deleteGroup id).access ↔ a ∈ db.access ∧ ¬ Leads db.parentOf a.groupID id := by
  rw [← removedWith_eq_false]
  exact mem_filter

theorem mem_memberships_deleteGroup :
    m ∈ (db.deleteGroup id).memberships ↔
      m ∈ db.memberships ∧ ¬ Leads db.parentOf m.groupID id := by
  rw [← removedWith_eq_false]
  exact mem_filter

theorem parentOf_deleteGroup (h : ¬ Leads db.parentOf ref id) :
    (db.deleteGroup id).parentOf ref = db.parentOf ref := by
  unfold parentOf
  congr 1
  refine Option.ext fun g => ?_
  rw [getGroup_eq_some, getGroup_eq_some, mem_groups_deleteGroup]
  constructor
  · rintro ⟨⟨hg, -⟩, hid⟩
    exact ⟨hg, hid⟩
  · rintro ⟨hg, rfl⟩
    exact ⟨⟨hg, h⟩, rfl⟩

theorem leads_deleteGroup {target : String} (h : ¬ Leads db.parentOf ref id) :
    Leads (db.deleteGroup id).parentOf ref target ↔ Leads db.parentOf ref target :=
  Leads.congr (P := fun ref => ¬ Leads db.parentOf ref id) h
    (fun _ _ hstays hnext hleads => hstays (.head hnext hleads))
    (fun _ hstays => parentOf_deleteGroup hstays)

/-- The explicit deletes are among those of the schema. -/
theorem deleteGroupWithDependencies_eq (db : RbacDb) (id : String) :
    db.deleteGroupWithDependencies id = db.deleteGroup id := by
  have hself : ∀ ref, (!db.removedWith id ref && decide (ref ≠ id)) = !db.removedWith id ref := by
    intro ref
    by_cases heq : ref = id
    · have hremoved : db.removedWith id id = true := removedWith_iff.mpr .refl
      simp [heq, hremoved]
    · simp [heq]
  have hsame : ((db.deleteMembershipsByGroup id).deleteGroupAccess id).removedWith id =
      db.removedWith id := rfl
  unfold deleteGroupWithDependencies deleteGroup
  simp only [hsame]
  congr 1
  simp only [deleteGroupAccess, deleteMembershipsByGroup, keepMemberships, filter_filter,
    hself]

def deleteGroups (db : RbacDb) (ids : List String) : RbacDb :=
  ids.foldl deleteGroupWithDependencies db

/-- The group leads to none of the deleted ones. -/
def Stays (db : RbacDb) (ids : List String) (ref : String) : Prop :=
  ∀ id ∈ ids, ¬ Leads db.parentOf ref id

/-- Deleting one group first takes nothing from what the others remove. -/
theorem stays_cons :
    db.Stays (id :: ids) ref ↔ ¬ Leads db.parentOf ref id ∧ (db.deleteGroup id).Stays ids ref := by
  unfold Stays
  rw [forall_mem_cons]
  refine and_congr_right fun hstays => forall₂_congr fun other _ => ?_
  rw [leads_deleteGroup hstays]

theorem deleteGroups_cons (db : RbacDb) (id : String) (ids : List String) :
    db.deleteGroups (id :: ids) = (db.deleteGroup id).deleteGroups ids := by
  rw [deleteGroups, foldl_cons, deleteGroupWithDependencies_eq, ← deleteGroups]

theorem deleteGroups_singleton (db : RbacDb) (id : String) :
    db.deleteGroups [id] = db.deleteGroup id := by
  rw [deleteGroups_cons]
  rfl

theorem mem_groups_deleteGroups :
    g ∈ (db.deleteGroups ids).groups ↔ g ∈ db.groups ∧ db.Stays ids g.id := by
  induction ids generalizing db with
  | nil => simp [deleteGroups, Stays]
  | cons id ids ih => rw [deleteGroups_cons, ih, mem_groups_deleteGroup, stays_cons, and_assoc]

theorem mem_access_deleteGroups :
    a ∈ (db.deleteGroups ids).access ↔ a ∈ db.access ∧ db.Stays ids a.groupID := by
  induction ids generalizing db with
  | nil => simp [deleteGroups, Stays]
  | cons id ids ih => rw [deleteGroups_cons, ih, mem_access_deleteGroup, stays_cons, and_assoc]

theorem mem_memberships_deleteGroups :
    m ∈ (db.deleteGroups ids).memberships ↔ m ∈ db.memberships ∧ db.Stays ids m.groupID := by
  induction ids generalizing db with
  | nil => simp [deleteGroups, Stays]
  | cons id ids ih =>
    rw [deleteGroups_cons, ih, mem_memberships_deleteGroup, stays_cons, and_assoc]

end RbacDb

end PrivacySuite.Rbac
