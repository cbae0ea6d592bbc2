import Maestro.Db.ClusterEffects

/-!
# What a call does to the event broadcasters

`HubEffect` lists the calls that change a hub or hand something out, with the one act that each
of them records.
-/

namespace Maestro
open Data Concurrent

/-- Acts that are not about a hub. -/
def StatusAct.hubless : StatusAct → Prop
  | .sent _ | .registered _ | .unregistered _ | .received _ | .locked _ | .handed _ _ | .unlocked =>
    False
  | _ => True

inductive HubEffect (inst : String) (t : ℕ) (s : Cluster) : ClusterCall → Cluster → Prop
  | quiet {c : ClusterCall} {s' : Cluster} (acts : List StatusAct) (hh : s'.hubs = s.hubs)
      (hl : s'.log = s.log ++ acts.map (StatusEntry.mk t inst)) (hq : ∀ a ∈ acts, a.hubless) :
      HubEffect inst t s c s'
  | send {res : Resource} {s' : Cluster} (hfree : (s.hubs inst).received = none)
      (hh : s'.hubs = Function.update s.hubs inst { s.hubs inst with received := some res })
      (hl : s'.log = s.log ++ [⟨t,inst,.sent res⟩]) :
      HubEffect inst t s (.inl (.broadcast res)) s'
  | register {client : Client} {s' : Cluster}
      (hh : s'.hubs = Function.update s.hubs inst
        { s.hubs inst with clients := (s.hubs inst).clients.save client })
      (hl : s'.log = s.log ++ [⟨t,inst,.registered client⟩]) :
      HubEffect inst t s (.inr (.register client)) s'
  | unregister {id : String} {s' : Cluster}
      (hh : s'.hubs = Function.update s.hubs inst
        { s.hubs inst with clients := (s.hubs inst).clients.erase id })
      (hl : s'.log = s.log ++ [⟨t,inst,.unregistered id⟩]) :
      HubEffect inst t s (.inr (.unregister id)) s'
  | receive {res : Resource} {s' : Cluster} (hres : (s.hubs inst).received = some res)
      (hh : s'.hubs = s.hubs) (hl : s'.log = s.log ++ [⟨t,inst,.received res⟩]) :
      HubEffect inst t s (.inr .receive) s'
  | lock {clients : List Client} {s' : Cluster} (hp : clients.Perm (s.hubs inst).clients.rows)
      (hh : s'.hubs = Function.update s.hubs inst { s.hubs inst with reading := true })
      (hl : s'.log = s.log ++ [⟨t,inst,.locked clients⟩]) : HubEffect inst t s (.inr .rLock) s'
  | hand {client : Client} {res : Resource} {s' : Cluster} (hh : s'.hubs = s.hubs)
      (hl : s'.log = s.log ++ [⟨t,inst,.handed client res⟩]) :
      HubEffect inst t s (.inr (.hand client res)) s'
  | unlock {s' : Cluster}
      (hh : s'.hubs = Function.update s.hubs inst
        { s.hubs inst with reading := false, received := none })
      (hl : s'.log = s.log ++ [⟨t,inst,.unlocked⟩]) : HubEffect inst t s (.inr .rUnlock) s'

section Exec

variable {inst : String} {t : ℕ} {ch : ClusterChoice} {s s' : Cluster}

theorem HubEffect.none {c : ClusterCall} (hh : s'.hubs = s.hubs) (hl : s'.log = s.log) :
    HubEffect inst t s c s' := .quiet [] hh (by simp [hl]) (by simp)

theorem HubEffect.one {c : ClusterCall} {a : StatusAct} (hh : s'.hubs = s.hubs)
    (hl : s'.log = s.log ++ [⟨t,inst,a⟩]) (hq : a.hubless) : HubEffect inst t s c s' :=
  .quiet [a] hh hl (by simpa using hq)

theorem Call.statusActs_hubless (s : State) {c : Call} (h : ∀ res, c ≠ .broadcast res) (r : c.Resp) :
    ∀ a ∈ c.statusActs s r, a.hubless := by
  unfold Call.statusActs
  repeat' split
  all_goals first | exact absurd rfl (h _) | simp [StatusAct.hubless]

theorem commitStatus_hubEffect {c : StatusCall} {r : c.Resp}
    (h : commitStatus inst t ch c s = some (r,s')) : HubEffect inst t s (.inr c) s' := by
  cases c with
  | takeStatusEvent id =>
    simp only [commitStatus] at h
    split at h
    all_goals
      cases h
      exact .one rfl rfl trivial
  | createEventInstance row =>
    simp only [commitStatus] at h
    split at h
    · cases h
      exact .none rfl rfl
    · split at h
      · cases h
        exact .none rfl rfl
      · cases h
        exact .one rfl rfl trivial
  | findReadyIDs | findEventsOf =>
    simp only [commitStatus] at h
    split at h
    · cases h
      exact .one rfl rfl trivial
    · cases h
  | deleteStatusEvents ids =>
    cases h
    exact .one rfl rfl trivial
  | saveInstance | markInstances | newUUID =>
    cases h
    exact .none rfl rfl
  | register client =>
    simp only [commitStatus] at h
    split at h
    · cases h
    · cases h
      exact .register rfl rfl
  | unregister id =>
    simp only [commitStatus] at h
    split at h
    · cases h
    · cases h
      exact .unregister rfl rfl
  | receive =>
    simp only [commitStatus] at h
    split at h
    · cases h
    · next res hres =>
      cases h
      exact .receive hres rfl rfl
  | rLock =>
    simp only [commitStatus] at h
    split at h
    · next hp =>
      cases h
      exact .lock hp rfl rfl
    · cases h
  | hand client res =>
    cases h
    exact .hand rfl rfl
  | rUnlock =>
    cases h
    exact .unlock rfl rfl

theorem clusterExec_hubEffect {c : ClusterCall} {r : ClusterCall.Resp c}
    (h : clusterExec inst t ch c s = some (r,s')) : HubEffect inst t s c s' := by
  cases c with
  | inl c =>
    obtain ⟨hb,state,-,rfl⟩ := clusterExec_inl h
    by_cases hc : ∃ res, c = .broadcast res
    · obtain ⟨res,rfl⟩ := hc
      exact .send (by simpa [Cluster.blocks] using hb) rfl rfl
    · have hne : ∀ res, c ≠ .broadcast res := fun res he => hc ⟨res,he⟩
      refine .quiet _ ?_ rfl (Call.statusActs_hubless s.state hne r)
      cases c with
      | broadcast res => exact absurd rfl (hne res)
      | _ => rfl
  | inr c =>
    rcases clusterExec_inr h with ⟨err,-,-,rfl⟩ | hc
    · exact .one rfl rfl trivial
    · exact commitStatus_hubEffect hc

end Exec

end Maestro
