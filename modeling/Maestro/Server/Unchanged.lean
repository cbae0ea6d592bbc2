import Maestro.Server.Versions

/-!
# Updates that change nothing

`Update` compares the map of the whole event with the stored one. An event with the manifests and
the metadata that are stored is an update that changes nothing only when the rest of its map,
its ID and its time among it, is stored as well.
-/

namespace Maestro
open Concurrent Data ResourceService

section Update

variable {ext : External} {t : ℕ} {env : ℕ → Choice} {s s' : State} {row : ResourceRow}

/-- An update to a live row of its version writes nothing exactly when the payload is stored. -/
theorem eval_update_unchanged {resource : Resource} {a : Except ServiceError Resource}
    (h : Prog.eval (exec t) env (ResourceService.update ext resource) s = some (a,s'))
    (hfault : ∀ k c, (env k).fault c = none) (hrow : s.resources.find resource.id = some row)
    (hlive : row.deletedAt = none) (hversion : resource.version = row.version)
    (hvalid : validateManifestBundle ext resource.payload = .ok ()) :
    (s'.resources.find resource.id = some row ∧ s'.events = s.events) ↔
      resource.payload = row.payload.scan := by
  rcases eval_withAdvisoryLock h with ⟨err,hf,-,-⟩ | ⟨locks,s₁,locks',hb,rfl⟩
  · rw [hfault] at hf
    cases hf
  obtain ⟨r,s₂,hx,hk⟩ := Prog.eval_lift_bind.mp hb
  rw [exec_of_no_fault (hfault _ _)] at hx
  obtain ⟨rfl,⟨hnone,-⟩ | ⟨row',hrow',rfl⟩⟩ := commit_takeResource hx
  · exact absurd (hrow.symm.trans hnone) (by simp)
  cases hrow.symm.trans hrow'
  have hid : row.id = resource.id := Table.find_some_key hrow
  have hmark : row.scan.deletedAt.time.isSome = false := by simp [ResourceRow.scan,hlive]
  have hsame : row.scan.version = resource.version := hversion.symm
  dsimp only at hk
  by_cases hpayload : resource.payload = row.payload.scan
  · -- the row is returned as it was found
    have hcheck : checkUpdate ext resource row.scan = some (.ok row.scan) := by
      rw [checkUpdate,hmark,if_neg (by decide),if_neg (not_not.mpr hsame)]
      exact if_pos hpayload
    rw [hcheck] at hk
    obtain ⟨-,rfl⟩ := Prog.eval_ret.mp hk
    exact iff_of_true ⟨hrow,rfl⟩ hpayload
  · have hcheck : checkUpdate ext resource row.scan = none := by
      have hne : ¬ resource.payload = row.scan.payload := hpayload
      rw [checkUpdate,hmark,if_neg (by decide),if_neg (not_not.mpr hsame),if_neg hne,hvalid]
    rw [hcheck] at hk
    obtain ⟨r₁,s₃,m,hw,hk⟩ := Prog.eval_bind hk
    obtain ⟨r₂,s₄,m',hw,hk₂⟩ := Prog.eval_bind hw
    have hx := Prog.eval_lift.mp (eval_flagging hw)
    rw [exec_of_no_fault (hfault _ _)] at hx
    have hkey : (nextVersion row.scan resource.payload).id = resource.id := hid
    rw [hkey] at hx
    obtain ⟨rfl,⟨hnone,-⟩ | ⟨-,-,rfl⟩⟩ := commit_updateResource hx
    · exact absurd (hrow.symm.trans hnone) (by simp)
    obtain ⟨rfl,rfl⟩ := Prog.eval_ret.mp hk₂
    have hrest := eval_rowless (announce_calls Call.rowless_of_neutral trivial _ _) hk
    refine iff_of_false ?_ hpayload
    rintro ⟨hfind,-⟩
    -- the version of the row went up
    have hafter : ∃ now, s₁.resources.find resource.id =
        some (row.setSpec (row.version + 1) resource.payload now) := by
      rw [hrest,State.find_writeSpec,if_pos rfl]
      exact ⟨_,congrArg (Option.map _) hrow⟩
    obtain ⟨now,hafter⟩ := hafter
    have hsetSpec := Option.some.inj (hafter.symm.trans hfind)
    exact absurd (congrArg ResourceRow.version hsetSpec) (by simp [ResourceRow.setSpec])

theorem eval_get_found {id : String} {r : Except ServiceError Resource}
    (hfault : ∀ k c, (env k).fault c = none) (hrow : s.resources.find id = some row)
    (h : Prog.eval (exec t) env (ResourceService.get ext id) s = some (r,s')) :
    r = .ok (syncTimestampsFromResourceMeta ext row.scan) ∧
      s' = s.record t [.readResource id (some row)] := by
  obtain ⟨r₁,s₁,hx,hk⟩ := Prog.eval_lift_bind.mp h
  rw [exec_of_no_fault (hfault _ _)] at hx
  obtain ⟨rfl,⟨hnone,-⟩ | ⟨row',hrow',rfl⟩⟩ := commit_takeResource hx
  · exact absurd (hrow.symm.trans hnone) (by simp)
  cases hrow.symm.trans hrow'
  obtain ⟨rfl,rfl⟩ := Prog.eval_ret.mp hk
  exact ⟨rfl,by rw [hrow]⟩

end Update

/-- An update of the resource by its client, under the given event ID. -/
def resentEvent (id : String) : CloudEvent :=
  { Reference.specEvent "update_request" "src" "web" "web" 0 with id := id }

def resentRequest (id : String) : PublishRequest := { event := .ok (resentEvent id), user := "src" }

/-- The row that holds such an event. -/
def resentRow (id : String) : ResourceRow :=
  { Reference.webRow with
    payload := (cloudEventToJSONMap Reference.packages (resentEvent id)).toOption.getD none }

/-- The request served on a database with that row only. -/
def resentRun (stored sent : String) : Option (Except String Unit × State) :=
  Prog.eval (exec 0) (.counting fun _ => none)
    (openServer.publish Reference.packages (resentRequest sent)) (.single (resentRow stored))

end Maestro
