import Maestro.Api.ResourceBundle

namespace Maestro

/-- `openapi.ObjectReference`. -/
structure ObjectReference where
  id : Option String := none
  kind : Option String := none
  href : Option String := none
deriving DecidableEq

/-- `PresentReference` of a resource. -/
def presentReference (id : String) : ObjectReference :=
  if id = "" then {}
  else
    { id := some id
      kind := some "ResourceBundle"
      href := some ("/api/maestro/v1" ++ "/" ++ "resource-bundles" ++ "/" ++ id) }

/-- `openapi.ResourceBundle`. In the times of creation and update `none` is the zero time. -/
structure ResourceBundle where
  id : Option String
  kind : Option String
  href : Option String
  name : String
  consumerName : String
  version : Int32
  createdAt : Option Time
  updatedAt : Option Time
  deletedAt : Option Time
  metadata : JSONMap := none
  manifests : List JSONMap := []
  manifestConfigs : List JSONMap := []
  deleteOption : JSONMap := none
  status : JSONMap
deriving DecidableEq

variable (ext : External)

def presentResourceBundle (resource : Resource) : Except String ResourceBundle :=
  match decodeManifestBundle ext resource.payload with
  | .error err => .error err
  | .ok manifestWrapper =>
    match decodeBundleStatus ext resource.status with
    | .error err => .error err
    | .ok status =>
      let reference := presentReference resource.id
      let rb : ResourceBundle :=
        { id := reference.id
          kind := reference.kind
          href := reference.href
          name := resource.name
          consumerName := resource.consumerName
          version := resource.version
          createdAt := resource.createdAt
          updatedAt := resource.updatedAt
          deletedAt := resource.deletedAt.time
          status := status }
      match manifestWrapper with
      | none => .ok rb
      | some wrapper => .ok
          { rb with
            metadata := wrapper.metadata
            manifests := wrapper.manifests
            manifestConfigs := wrapper.manifestConfigs
            deleteOption := wrapper.deleteOption }

end Maestro
