import Maestro.Api.Reference
import Maestro.Data.Text
import Maestro.Services.Validation

/-!
# Duplicates in a manifest bundle

`ValidateManifestBundle` tells manifests apart by a text in which the four parts of their
reference are joined by slashes. Where a slash stands inside a part, two references can have one
text, and the bundle is refused though no manifest is in it twice.
-/

namespace Maestro
open Data

/-- What identifies a manifest. -/
structure ManifestRef where
  apiVersion : String
  kind : String
  namespaceName : String
  name : String
deriving DecidableEq

namespace ManifestRef

/-- The parts between the slashes, within and between the fields. -/
def slashParts (r : ManifestRef) : List String :=
  Text.split '/' r.apiVersion ++ Text.split '/' r.kind ++ Text.split '/' r.namespaceName ++
    Text.split '/' r.name

def key (r : ManifestRef) : String :=
  r.apiVersion ++ "/" ++ r.kind ++ "/" ++ r.namespaceName ++ "/" ++ r.name

theorem split_key (r : ManifestRef) : Text.split '/' r.key = r.slashParts := by
  have h₁ : Text.split '/' (r.apiVersion ++ "/" ++ r.kind) =
      Text.split '/' r.apiVersion ++ Text.split '/' r.kind := Text.split_append (by simp)
  have h₂ : Text.split '/' (r.apiVersion ++ "/" ++ r.kind ++ "/" ++ r.namespaceName) =
      Text.split '/' (r.apiVersion ++ "/" ++ r.kind) ++ Text.split '/' r.namespaceName :=
    Text.split_append (by simp)
  have h₃ : Text.split '/' r.key =
      Text.split '/' (r.apiVersion ++ "/" ++ r.kind ++ "/" ++ r.namespaceName) ++
        Text.split '/' r.name := Text.split_append (by simp [key])
  rw [h₃,h₂,h₁,slashParts]

theorem key_eq_iff {r r' : ManifestRef} : r.key = r'.key ↔ r.slashParts = r'.slashParts := by
  rw [← split_key,← split_key]
  exact (Text.split_injective '/').eq_iff.symm

/-- Without slashes in the last three parts the text determines the reference. -/
theorem slashParts_inj {r r' : ManifestRef} (hk : '/' ∉ r.kind.toList)
    (hns : '/' ∉ r.namespaceName.toList) (hn : '/' ∉ r.name.toList) (hk' : '/' ∉ r'.kind.toList)
    (hns' : '/' ∉ r'.namespaceName.toList) (hn' : '/' ∉ r'.name.toList)
    (h : r.slashParts = r'.slashParts) : r = r' := by
  simp only [slashParts,Text.split_of_not_mem hk,Text.split_of_not_mem hns,
    Text.split_of_not_mem hn,Text.split_of_not_mem hk',Text.split_of_not_mem hns',
    Text.split_of_not_mem hn',List.append_assoc,List.singleton_append] at h
  obtain ⟨hv,hrest⟩ := List.append_inj' h rfl
  have hversion := Text.split_injective '/' hv
  obtain ⟨v,k,ns,n⟩ := r
  obtain ⟨v',k',ns',n'⟩ := r'
  simp_all

end ManifestRef

section Bundle

variable (ext : External)

def manifestRef (manifest : JSONMap) : ManifestRef where
  apiVersion := ext.unstructured.getAPIVersion manifest.entries
  kind := ext.unstructured.getKind manifest.entries
  namespaceName := ext.unstructured.getNamespace manifest.entries
  name := ext.unstructured.getName manifest.entries

theorem extractManifestInfo_key (manifest : JSONMap) :
    (extractManifestInfo ext manifest).key = (manifestRef ext manifest).key := rfl

/-- The loop accepts valid manifests whose keys differ from each other and from those before. -/
theorem validateManifests_iff (seen : List String) (manifests : List JSONMap) :
    validateManifests ext seen manifests = .ok () ↔
      (∀ m ∈ manifests, validateObject ext m = .ok ()) ∧
        (manifests.map fun m => (manifestRef ext m).key).Nodup ∧
        ∀ m ∈ manifests, (manifestRef ext m).key ∉ seen := by
  induction manifests generalizing seen with
  | nil => simp [validateManifests]
  | cons m ms ih =>
    rw [validateManifests,List.forall_mem_cons,List.forall_mem_cons,List.map_cons,
      List.nodup_cons]
    cases hm : validateObject ext m with
    | error err => simp
    | ok =>
      dsimp only
      rw [extractManifestInfo_key]
      split
      · next hseen => simp [hseen]
      · next hseen =>
        rw [ih]
        simp only [List.mem_cons,not_or,List.mem_map,not_exists,not_and]
        constructor
        · rintro ⟨hvalid,hnodup,hfresh⟩
          exact ⟨⟨trivial,hvalid⟩,⟨fun m' hm' => (hfresh m' hm').1,hnodup⟩,hseen,
            fun m' hm' => (hfresh m' hm').2⟩
        · rintro ⟨⟨-,hvalid⟩,⟨hnew,hnodup⟩,-,hfresh⟩
          exact ⟨hvalid,hnodup,fun m' hm' => ⟨hnew m' hm',hfresh m' hm'⟩⟩

/-- A valid manifest has a valid namespace, or none. -/
theorem namespace_of_validateObject {m : JSONMap} (h : validateObject ext m = .ok ()) :
    (manifestRef ext m).namespaceName = "" ∨
      ext.validators.validateNamespaceName (manifestRef ext m).namespaceName = [] := by
  unfold validateObject toAggregate at h
  dsimp only at h
  split at h
  · next herrs =>
    by_cases hns : (manifestRef ext m).namespaceName = ""
    · exact .inl hns
    · obtain ⟨hfront,-⟩ := List.append_eq_nil_iff.mp herrs
      obtain ⟨-,hnamespace⟩ := List.append_eq_nil_iff.mp hfront
      have hset : ext.unstructured.getNamespace m.entries ≠ "" := hns
      rw [if_pos hset,invalidAll,List.map_eq_nil_iff] at hnamespace
      exact .inr hnamespace
  · cases h

variable {ext} {payload : JSONMap} {wrapper : ManifestBundleWrapper}

/-- The bundle is accepted exactly when its manifests are valid and no two are the same. -/
def ExactValidation (ext : External) (payload : JSONMap) (manifests : List JSONMap) : Prop :=
  validateManifestBundle ext payload = .ok () ↔
    (∀ m ∈ manifests, validateObject ext m = .ok ()) ∧ (manifests.map (manifestRef ext)).Nodup

theorem validateManifestBundle_ok_iff
    (hdecode : decodeManifestBundle ext payload = .ok (some wrapper)) :
    validateManifestBundle ext payload = .ok () ↔
      (∀ m ∈ wrapper.manifests, validateObject ext m = .ok ()) ∧
        (wrapper.manifests.map fun m => (manifestRef ext m).slashParts).Nodup := by
  have hkeys : (wrapper.manifests.map fun m => (manifestRef ext m).key).Nodup ↔
      (wrapper.manifests.map fun m => (manifestRef ext m).slashParts).Nodup := by
    simp only [List.Nodup,List.pairwise_map,ne_eq,ManifestRef.key_eq_iff]
  rw [validateManifestBundle,hdecode]
  dsimp only
  rw [validateManifests_iff,hkeys]
  simp

theorem refs_nodup_of_slashParts {manifests : List JSONMap}
    (h : (manifests.map fun m => (manifestRef ext m).slashParts).Nodup) :
    (manifests.map (manifestRef ext)).Nodup := by
  rw [List.Nodup,List.pairwise_map] at h ⊢
  exact h.imp fun hne he => hne (congrArg ManifestRef.slashParts he)

/-- Validation is exact except where different manifests, all of them valid, have one text. It is
exact when no kind and no name has a slash. -/
theorem exactValidation_iff
    (hslash : ∀ ns, ext.validators.validateNamespaceName ns = [] → '/' ∉ ns.toList)
    (hdecode : decodeManifestBundle ext payload = .ok (some wrapper)) :
    (ExactValidation ext payload wrapper.manifests ↔
      ((∀ m ∈ wrapper.manifests, validateObject ext m = .ok ()) →
        (wrapper.manifests.map (manifestRef ext)).Nodup →
        (wrapper.manifests.map fun m => (manifestRef ext m).slashParts).Nodup)) ∧
    ((∀ m ∈ wrapper.manifests, '/' ∉ (manifestRef ext m).kind.toList ∧
        '/' ∉ (manifestRef ext m).name.toList) →
      ExactValidation ext payload wrapper.manifests) := by
  have hiff : ExactValidation ext payload wrapper.manifests ↔
      ((∀ m ∈ wrapper.manifests, validateObject ext m = .ok ()) →
        (wrapper.manifests.map (manifestRef ext)).Nodup →
        (wrapper.manifests.map fun m => (manifestRef ext m).slashParts).Nodup) := by
    rw [ExactValidation,validateManifestBundle_ok_iff hdecode]
    constructor
    · intro h hvalid hrefs
      exact (h.mpr ⟨hvalid,hrefs⟩).2
    · intro h
      exact ⟨fun ⟨hvalid,hparts⟩ => ⟨hvalid,refs_nodup_of_slashParts hparts⟩,
        fun ⟨hvalid,hrefs⟩ => ⟨hvalid,h hvalid hrefs⟩⟩
  refine ⟨hiff,fun hplain => hiff.mpr fun hvalid hrefs => ?_⟩
  have hns : ∀ m ∈ wrapper.manifests, '/' ∉ (manifestRef ext m).namespaceName.toList := by
    intro m hm
    rcases namespace_of_validateObject ext (hvalid m hm) with hempty | hok
    · simp [hempty]
    · exact hslash _ hok
  rw [List.Nodup,List.pairwise_map] at hrefs ⊢
  refine hrefs.imp_of_mem fun {m m'} hm hm' hne he => hne ?_
  exact ManifestRef.slashParts_inj (hplain m hm).1 (hns m hm) (hplain m hm).2 (hplain m' hm').1
    (hns m' hm') (hplain m' hm').2 he

end Bundle

/-- A manifest without a namespace. -/
def manifestOf (apiVersion kind name : String) : Object :=
  [("apiVersion",.str apiVersion),("kind",.str kind),("metadata",.obj [("name",.str name)])]

/-- A bundle of two manifests. -/
def bundleOf (a b : Object) : JSONMap :=
  some [("data",.obj [("manifests",.arr [.obj a,.obj b])]),
    ("datacontenttype",.str "application/json"),("id",.str "spec"),("source",.str "src"),
    ("specversion",.str "1.0"),
    ("type",.str "io.open-cluster-management.works.v1alpha1.manifestbundles.spec.create_request")]

/-- The packages, with the texts of the two manifests. -/
def twoManifests (a b : Object) : External := Reference.external [a,b]

theorem dnsCheck_slash (msg ns : String) (h : Reference.dnsCheck ['-'] msg ns = []) :
    '/' ∉ ns.toList := by
  unfold Reference.dnsCheck at h
  split at h
  · next hok =>
    intro hmem
    have hc := List.all_eq_true.mp hok.2 _ hmem
    revert hc
    decide
  · cases h

theorem exactValidation_twoVersions :
    ExactValidation (twoManifests (manifestOf "v1" "Secret" "a") (manifestOf "v2" "Secret" "a"))
      (bundleOf (manifestOf "v1" "Secret" "a") (manifestOf "v2" "Secret" "a"))
      [some (manifestOf "v1" "Secret" "a"),some (manifestOf "v2" "Secret" "a")] := by
  have hdecode : decodeManifestBundle
      (twoManifests (manifestOf "v1" "Secret" "a") (manifestOf "v2" "Secret" "a"))
      (bundleOf (manifestOf "v1" "Secret" "a") (manifestOf "v2" "Secret" "a")) =
        .ok (some ⟨some [],[some (manifestOf "v1" "Secret" "a"),
          some (manifestOf "v2" "Secret" "a")],[],some []⟩) := by
    decide +kernel
  exact (exactValidation_iff (fun ns => dnsCheck_slash _ ns) hdecode).2 (by decide)

/-- Two valid manifests that differ in the version and the kind have one text. -/
theorem bundle_refused_for_slash :
    let a := manifestOf "apps/v1" "Deployment" "web"
    let b := manifestOf "apps" "v1/Deployment" "web"
    validateManifestBundle (twoManifests a b) (bundleOf a b) =
        .error "duplicate manifest for resource /web with resource type apps.v1/Deployment" ∧
      (∀ m ∈ [some a,some b], validateObject (twoManifests a b) m = .ok ()) ∧
      ([some a,some b].map (manifestRef (twoManifests a b))).Nodup := by
  decide +kernel

end Maestro
