import NextDBM.Assets.Services
import NextDBM.Library.Runs

/-!
# Attributes of assets

The attributes of a request are written by one list of names for each protocol and read over the defaults of
another one, which has the protocol `MySQL` in addition. The state changes by requests that write attributes
and by all others, which leave them and the protocols of the assets alone.
-/

namespace NextDBM

open Relational

namespace AssetRepository

def replaceValue (name value newValue : String) (a : AssetAttribute) : AssetAttribute :=
  if a.name = name ∧ a.value = value then { a with value := newValue } else a

theorem replaceValue_id (name value newValue : String) (a : AssetAttribute) :
    (replaceValue name value newValue a).id = a.id := by
  unfold replaceValue
  split
  · rfl
  · rfl

def updateAttrs (db : Database) (name value newValue : String) : Database :=
  { db with
    assetAttributes := db.assetAttributes.modify (replaceValue name value newValue)
      (replaceValue_id name value newValue) }

end AssetRepository

namespace AssetService

def fixSshMode (db : Database) : Database := AssetRepository.updateAttrs db "ssh-mode" "naive" nd.native

end AssetService

namespace AssetApi

/-- `AssetGetEndpoint`. No attribute has the name of a column but the protocol, which is the same in both. -/
def assetGetEndpoint (c : Cipher) (db : Database) (id : String) : Except Error AssetBody := do
  let item ← AssetRepository.findByIdAndDecrypt c db id
  let attributes ← AssetRepository.findAssetAttrMapByAssetId db id
  pure { item, attributes }

end AssetApi

/-- A request that creates an asset, with the new id, or updates one. -/
inductive Submission
  | create (uuid : String) (m : AssetBody)
  | update (id : String) (m : AssetBody)

namespace Submission

def assetId : Submission → String
  | create uuid _ => uuid
  | update id _ => id

def body : Submission → AssetBody
  | create _ m => m
  | update _ m => m

def run (c : Cipher) (db : Database) : Submission → Except Error Database
  | create uuid m => (AssetService.create c db uuid m).map Prod.fst
  | update id m => AssetService.updateById c db id m

/-- The protocol that the asset has afterwards; an update without one keeps it. -/
def protocol (db : Database) : Submission → String
  | create _ m => m.item.protocol
  | update id m => nonZero m.item.protocol (((db.assets.findById id).map Asset.protocol).getD "")

end Submission

/-! ## Runs -/

inductive AttributeAction
  | submit (s : Submission)
  | delete (id : String)
  | fixSshMode
  /-- Anything else, with the database that it leaves. -/
  | other (db : Database)

namespace AttributeAction

def step (c : Cipher) (db : Database) : AttributeAction → Option Database
  | submit s => some (commit db (s.run c db))
  | delete id => some (AssetService.deleteById db id)
  | fixSshMode => some (AssetService.fixSshMode db)
  | other db' => some db'

/-- No attribute is written, and assets have the protocol that they had. -/
def Leaves (db db' : Database) : Prop :=
  db'.assetAttributes = db.assetAttributes ∧
    ∀ a' ∈ db'.assets, ∃ a ∈ db.assets, a.id = a'.id ∧ a.protocol = a'.protocol

def Guard (db : Database) : AttributeAction → Prop
  | submit _ => True
  | delete _ => True
  | fixSshMode => True
  | other db' => Leaves db db'

end AttributeAction

/-! ## What is read back -/

/-- The value of a global property. -/
def propertyValue (db : Database) (name : String) : String :=
  ((db.properties.findById name).map Property.value).getD ""

/-- After a request, the attributes that the protocol of the asset supports are read as they were sent,
where they were not empty; and before it, an update with what `AssetGetEndpoint` returns changes none. -/
structure AttributesReturn (c : Cipher) (db : Database) (s : Submission) (db' : Database) (asset : Asset) :
    Prop where
  submitted : ∃ attributes, AssetRepository.findAssetAttrMapByAssetId db' s.assetId = .ok attributes ∧
    ∀ name ∈ AssetRepository.parameterNames asset.protocol,
      s.body.attributes name ≠ "" → attributes name = s.body.attributes name
  resubmitted : ∀ id body db₁, AssetApi.assetGetEndpoint c db id = .ok body →
    AssetService.updateById c db id body = .ok db₁ →
      AssetRepository.findAssetAttrMapByAssetId db₁ id = AssetRepository.findAssetAttrMapByAssetId db id

/-- Every attribute that the protocol of the asset supports, and that was sent with a value, is one that is
stored for the protocol in the request, or a global property has this value already. -/
def Storable (db : Database) (s : Submission) : Prop :=
  ∀ name ∈ AssetRepository.parameterNames (s.protocol db), s.body.attributes name ≠ "" →
    name ∈ AssetRepository.storedParameterNames s.body.item.protocol ∨
      propertyValue db name = s.body.attributes name

instance (db : Database) (s : Submission) : Decidable (Storable db s) :=
  inferInstanceAs (Decidable (∀ name ∈ _, _ → _))

end NextDBM
