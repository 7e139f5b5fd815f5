import Mathlib.Data.List.Dedup
import Mathlib.Data.List.Sort
import NextDBM.Library.MD5
import NextDBM.Model.Rows

/-!
# Authorisation lookups

Three parts of the server decide whether a user may reach an asset. `AuthorisedService.getAuthorised`
computes the ids that a grant would have and looks for rows with those ids,
`WorkerService.checkPermission` lists the granted assets and searches the list, and
`AuthorisedRepository.findAllByAssetsIdUsersId` is one query with a sub-query.
-/

namespace NextDBM

/-- `utils.Sign`: the digest of the texts, sorted and joined. -/
def sign (a : List String) : String :=
  Digest.md5Hex (String.join (a.insertionSort (· ≤ ·)))

/-- `utils.Contains`. -/
def contains (s : List String) (str : String) : Bool := s.any fun v => v == str

@[simp] theorem contains_iff {s : List String} {str : String} :
    contains s str = true ↔ str ∈ s := by
  simp [contains]

namespace UserGroupMemberRepository

def findUserGroupIdsByUserId (db : Database) (userId : String) : List String :=
  (db.userGroupMembers.select fun m => m.userId == userId).map UserGroupMember.userGroupId

end UserGroupMemberRepository

namespace AuthorisedRepository

def findById (db : Database) (id : String) : Except Error Authorised :=
  firstOrNotFound (db.authorised.findById id)

def findByUserId (db : Database) (userId : String) : List Authorised :=
  db.authorised.select fun r => r.userId == userId

def findByUserGroupIdIn (db : Database) (userGroupIds : List String) : List Authorised :=
  db.authorised.select fun r => userGroupIds.contains r.userGroupId

/-- The rows of an asset for which there is a membership of the user in the row's group
(the `EXISTS` sub-query), or which name the user. -/
def findAllByAssetsIdUsersId (db : Database) (assetId userId : String) : List Authorised :=
  db.authorised.select fun r =>
    r.assetId == assetId &&
      (db.userGroupMembers.rows.any (fun m => m.userId == userId && m.userGroupId == r.userGroupId)
        || r.userId == userId)

end AuthorisedRepository

namespace AuthorisedService

/-- `GetAuthorised`: the row signed for the asset and the user; without it, the first row signed for
the asset and a group of the user, in the order of the memberships. -/
def getAuthorised (db : Database) (userId assetId : String) : Except Error (Option Authorised) :=
  match AuthorisedRepository.findById db (sign [assetId, userId, ""]) with
  | .ok authorised => .ok (some authorised)
  | .error .recordNotFound =>
    let groupIds := UserGroupMemberRepository.findUserGroupIdsByUserId db userId
    .ok (groupIds.findSome? fun groupId =>
      (AuthorisedRepository.findById db (sign [assetId, "", groupId])).toOption)
  | .error err => .error err

end AuthorisedService

namespace WorkerService

/-- `getAssetIdListByUserId`: the assets of the rows that name the user, and of the rows that name a
group of the user, without repetition. -/
def getAssetIdListByUserId (db : Database) (userId : String) : List String :=
  let authorisedByUser := AuthorisedRepository.findByUserId db userId
  let userGroupIds := UserGroupMemberRepository.findUserGroupIdsByUserId db userId
  let authorisedByUserGroup := AuthorisedRepository.findByUserGroupIdIn db userGroupIds
  ((authorisedByUser ++ authorisedByUserGroup).map Authorised.assetId).dedup

def checkPermission (db : Database) (assetId userId : String) : Bool :=
  contains (getAssetIdListByUserId db userId) assetId

/-- `FindMyAssetByName`: the first asset of the name and the protocol, if it is in the list. -/
def findMyAssetByName (db : Database) (name protocol userId : String) : Except Error Asset :=
  let assetIdList := getAssetIdListByUserId db userId
  match AssetRepository.findAssetByName db name protocol with
  | .error err => .error err
  | .ok item =>
    if assetIdList.any fun id => item.id == id then .ok item else .error (.text "资产不存在")

end WorkerService

/-! ## What the lookups are about -/

/-- The user is a member of the group. -/
def MemberOf (db : Database) (userId groupId : String) : Prop :=
  ∃ m ∈ db.userGroupMembers, m.userId = userId ∧ m.userGroupId = groupId

/-- A row of the table `authorised` reaches a user: it names the user, or carries the group id of one
of the user's memberships. -/
def Authorised.Reaches (db : Database) (r : Authorised) (userId : String) : Prop :=
  r.userId = userId ∨ MemberOf db userId r.userGroupId

/-- Some row of an asset reaches the user. -/
def Visible (db : Database) (userId assetId : String) : Prop :=
  ∃ r ∈ db.authorised, r.assetId = assetId ∧ r.Reaches db userId

/-- The grants: a row names the user, or names an existing group of which the user is a member. -/
def Granted (db : Database) (userId assetId : String) : Prop :=
  ∃ r ∈ db.authorised, r.assetId = assetId ∧
    (r.userId = userId ∨
      ∃ g ∈ db.userGroups, r.userGroupId = g.id ∧ MemberOf db userId g.id)

/-- The asset has the name and the protocol; an empty protocol stands for all of them. -/
def Asset.IsNamed (a : Asset) (name protocol : String) : Prop :=
  a.name = name ∧ (protocol = "" ∨ a.protocol = protocol)

/-- The lookup by name returns only assets of the name that the user may reach, and returns one if
there is one. -/
structure FindsAuthorised (db : Database) (name protocol userId : String) : Prop where
  sound : ∀ a, WorkerService.findMyAssetByName db name protocol userId = .ok a →
    a ∈ db.assets ∧ a.IsNamed name protocol ∧ Visible db userId a.id
  complete : ∀ a ∈ db.assets, a.IsNamed name protocol → Visible db userId a.id →
    ∃ b, WorkerService.findMyAssetByName db name protocol userId = .ok b

instance (db : Database) (userId groupId : String) : Decidable (MemberOf db userId groupId) :=
  inferInstanceAs (Decidable (∃ m ∈ db.userGroupMembers, m.userId = userId ∧ m.userGroupId = groupId))

instance (db : Database) (userId assetId : String) : Decidable (Granted db userId assetId) :=
  inferInstanceAs (Decidable (∃ r ∈ db.authorised, r.assetId = assetId ∧
    (r.userId = userId ∨ ∃ g ∈ db.userGroups, r.userGroupId = g.id ∧ MemberOf db userId g.id)))

end NextDBM
