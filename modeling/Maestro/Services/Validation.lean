import Maestro.Api.ResourceBundle

namespace Maestro

variable (ext : External)

/-- The errors of `ValidateNamespaceName`-style checks, one per message. -/
def invalidAll (field badValue : String) (msgs : List String) : List FieldError :=
  msgs.map fun msg => ⟨.invalid,field,badValue,msg⟩

/-- No error, or the text of all of them. -/
def toAggregate (errs : List FieldError) : Except String Unit :=
  match errs with
  | [] => .ok ()
  | errs => .error (ext.validators.aggregate errs)

def validateResourceName (resource : Resource) : Except String Unit :=
  toAggregate ext (invalidAll "resource.name" resource.name
    (ext.validators.validateNamespaceName resource.name))

/-- `strings.Split(s, "/")`. -/
def splitSlash (s : String) : List String := (s.toList.splitOn '/').map String.ofList

/-- The version part of an apiVersion. -/
def validatedVersion (apiVersion version : String) : List FieldError :=
  if version.length = 0 then
    [⟨.invalid,"apiVersion",apiVersion,"version not set"⟩]
  else
    invalidAll "apiVersion" apiVersion (ext.validators.isDNS1035Label version)

def validatedAPIVersion (apiVersion : String) : List FieldError :=
  if apiVersion = "" then
    [⟨.required,"apiVersion","","field not set"⟩]
  else
    match splitSlash apiVersion with
    | [version] => validatedVersion ext apiVersion version
    | [group,version] =>
      (if group.length = 0 then
        [⟨.invalid,"apiVersion",apiVersion,"group not set"⟩]
      else
        invalidAll "apiVersion" apiVersion (ext.validators.isDNS1123Subdomain group)) ++
        validatedVersion ext apiVersion version
    | _ => [⟨.invalid,"apiVersion",apiVersion,"bad format"⟩]

def validateMetaData (obj : Object) : List FieldError :=
  let u := ext.unstructured
  (if u.getGenerateName obj ≠ "" then
    [⟨.forbidden,"metadata.generateName","","field cannot be set"⟩] else []) ++
  (if u.getResourceVersion obj ≠ "" then
    [⟨.forbidden,"metadata.resourceVersion","","field cannot be set"⟩] else []) ++
  (if (u.getDeletionGracePeriodSeconds obj).isSome then
    [⟨.forbidden,"metadata.deletionGracePeriodSeconds","","field cannot be set"⟩] else []) ++
  ext.validators.validateAnnotations (u.getAnnotations obj) "metadata.annotations" ++
  ext.validators.validateFinalizers (u.getFinalizers obj) "metadata.finalizers" ++
  ext.validators.validateLabels (u.getLabels obj) "metadata.labels"

def validateObject (obj : JSONMap) : Except String Unit :=
  let u := ext.unstructured
  let o := obj.entries
  toAggregate ext (
    validatedAPIVersion ext (u.getAPIVersion o) ++
    (if u.getKind o = "" then [⟨.required,"kind","","field not set"⟩] else []) ++
    (if u.getName o = "" then [⟨.required,"metadata.name","","field not set"⟩] else []) ++
    (if u.getNamespace o ≠ "" then
      invalidAll "metadata.namespace" (u.getNamespace o)
        (ext.validators.validateNamespaceName (u.getNamespace o)) else []) ++
    validateMetaData ext o)

/-- `manifestInfo`. -/
structure ManifestInfo where
  key : String
  name : String
  namespaceName : String
  gvk : String
deriving DecidableEq

def extractManifestInfo (manifest : JSONMap) : ManifestInfo :=
  let u := ext.unstructured
  let o := manifest.entries
  { key := u.getAPIVersion o ++ "/" ++ u.getKind o ++ "/" ++ u.getNamespace o ++ "/" ++ u.getName o
    name := u.getName o
    namespaceName := u.getNamespace o
    gvk := u.getAPIVersion o ++ "." ++ u.getKind o }

/-- The loop of `ValidateManifestBundle`; `seen` holds the keys of the manifests before. -/
def validateManifests (seen : List String) : List JSONMap → Except String Unit
  | [] => .ok ()
  | manifest :: manifests =>
    match validateObject ext manifest with
    | .error err => .error err
    | .ok () =>
      let info := extractManifestInfo ext manifest
      if info.key ∈ seen then
        .error ("duplicate manifest for resource " ++ info.namespaceName ++ "/" ++ info.name ++
          " with resource type " ++ info.gvk)
      else
        validateManifests (info.key :: seen) manifests

def validateManifestBundle (manifestBundle : JSONMap) : Except String Unit :=
  match decodeManifestBundle ext manifestBundle with
  | .error err => .error ("failed to decode manifest bundle: " ++ err)
  | .ok none => .error "manifest bundle is empty"
  | .ok (some wrapper) => validateManifests ext [] wrapper.manifests

end Maestro
