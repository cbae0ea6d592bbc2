import Maestro.Data.Search
import Maestro.Event.HubEffects
import Maestro.Server.Purge

/-!
# Who is handed what

The broadcasters of all instances and their subscribers, in every run of the pipeline. Each
instance runs one broadcaster.
-/

namespace Maestro
open Concurrent Data

/-- What was passed to `Broadcast` on an instance, in order. -/
def sentOn (x : String) (J : List StatusEntry) : List Resource :=
  J.filterMap fun e => match e with
    | ⟨_,y,.sent res⟩ => if y = x then some res else none
    | _ => none

/-- The clients of an instance after an entry. -/
def clientsAfter (x : String) (clients : Table Client.id) : StatusEntry → Table Client.id
  | ⟨_,y,.registered client⟩ => if y = x then clients.save client else clients
  | ⟨_,y,.unregistered id⟩ => if y = x then clients.erase id else clients
  | _ => clients

/-- The clients that are registered on an instance. -/
def clientsOn (x : String) (J : List StatusEntry) : Table Client.id :=
  J.foldl (clientsAfter x) .empty

/-- What `Start` has done in the round that it is in. -/
inductive InRound : Option Resource → List StatusAct → Prop
  | idle {received : Option Resource} : InRound received []
  | received {res : Resource} : InRound (some res) [.received res]
  | locked {res : Resource} {clients done rest : List Client} (h : clients = done ++ rest) :
      InRound (some res) (.received res :: .locked clients ::
        (done.filter fun client => client.source = res.source).map (.handed · res))

/-- The rounds of a broadcaster are those of what was sent to it, in order. -/
def InRounds (received : Option Resource) (sent : List Resource) (acts : List StatusAct) : Prop :=
  ∃ rounds pre, acts = roundsActs rounds ++ pre ∧ sent = rounds.map Prod.fst ++ received.toList ∧
    InRound received pre

/-- The calls of a broadcaster. -/
def ClusterCall.inRound : ClusterCall → Prop
  | .inr .receive | .inr .rLock | .inr (.hand _ _) | .inr .rUnlock => True
  | _ => False

section Rounds

theorem InRound.no_unlock {received : Option Resource} {pre : List StatusAct}
    (h : InRound received pre) : .unlocked ∉ pre := by
  cases h <;> simp

theorem InRound.of_ne_nil {received : Option Resource} {a : StatusAct} {pre : List StatusAct}
    (h : InRound received (a :: pre)) : ∃ res, received = some res ∧ a = .received res := by
  cases h with
  | received => exact ⟨_,rfl,rfl⟩
  | locked h => exact ⟨_,rfl,rfl⟩

/-- The rounds can be read off the acts. -/
theorem roundsActs_inj {rounds rounds' : List (Resource × List Client)} {pre pre' : List StatusAct}
    (hp : .unlocked ∉ pre) (hp' : .unlocked ∉ pre')
    (h : roundsActs rounds ++ pre = roundsActs rounds' ++ pre') : rounds = rounds' ∧ pre = pre' := by
  have hmem : ∀ (round : Resource × List Client) rest (q : List StatusAct), .unlocked ∉ q →
      q ≠ roundsActs (round :: rest) ++ pre ∧ q ≠ roundsActs (round :: rest) ++ pre' := by
    intro round rest q hq
    constructor <;> (rintro rfl; exact hq (by simp [roundsActs,roundActs]))
  induction rounds generalizing rounds' with
  | nil =>
    cases rounds' with
    | nil => exact ⟨rfl,h⟩
    | cons round rest => exact absurd h (hmem round rest pre hp).2
  | cons round rest ih =>
    cases rounds' with
    | nil => exact absurd h.symm (hmem round rest pre' hp').1
    | cons round' rest' =>
      obtain ⟨res,clients⟩ := round
      obtain ⟨res',clients'⟩ := round'
      have hsame : res = res' ∧ clients = clients' := by
        simp only [roundsActs,List.flatMap_cons,roundActs,List.cons_append,List.cons.injEq,
          StatusAct.received.injEq,StatusAct.locked.injEq] at h
        exact ⟨h.1,h.2.1⟩
      obtain ⟨rfl,rfl⟩ := hsame
      simp only [roundsActs,List.flatMap_cons,List.append_assoc] at h
      obtain ⟨hrest,hpre⟩ := ih (List.append_cancel_left h)
      exact ⟨by rw [hrest],hpre⟩

theorem roundsActs_snoc (rounds : List (Resource × List Client)) (res : Resource)
    (clients : List Client) : roundsActs (rounds ++ [(res,clients)]) = roundsActs rounds ++
      (.received res :: .locked clients :: (clients.filter fun client =>
        client.source = res.source).map (.handed · res)) ++ [.unlocked] := by
  simp [roundsActs,roundActs]

/-- A resource that is handed out was sent, and its client has its source. -/
theorem InRounds.handed {received : Option Resource} {sent : List Resource} {acts : List StatusAct}
    (h : InRounds received sent acts) {client : Client} {res : Resource}
    (hm : .handed client res ∈ acts) : res ∈ sent ∧ client.source = res.source ∧
      ∃ clients, .locked clients ∈ acts ∧ client ∈ clients := by
  obtain ⟨rounds,pre,rfl,rfl,hpre⟩ := h
  rcases List.mem_append.mp hm with hm | hm
  · obtain ⟨⟨res',clients⟩,hround,hm⟩ := List.mem_flatMap.mp hm
    have hlocked : .locked clients ∈ roundsActs rounds :=
      List.mem_flatMap.mpr ⟨_,hround,by simp [roundActs]⟩
    simp only [roundActs,List.mem_cons,reduceCtorEq,List.mem_append,List.mem_map,List.mem_filter,
      decide_eq_true_eq,StatusAct.handed.injEq,List.not_mem_nil,or_false,false_or] at hm
    obtain ⟨client',⟨hclient,hsource⟩,rfl,rfl⟩ := hm
    refine ⟨List.mem_append_left _ (List.mem_map.mpr ⟨_,hround,rfl⟩),hsource,clients,
      List.mem_append_left _ hlocked,hclient⟩
  · cases hpre with
    | idle => cases hm
    | received => simp at hm
    | @locked res' clients done rest hc =>
      simp only [List.mem_cons,reduceCtorEq,List.mem_map,List.mem_filter,decide_eq_true_eq,
        StatusAct.handed.injEq,false_or] at hm
      obtain ⟨client',⟨hclient,hsource⟩,rfl,rfl⟩ := hm
      exact ⟨by simp,hsource,clients,by simp,by rw [hc]; exact List.mem_append_left _ hclient⟩

end Rounds

section Logs

variable {x y : String} {t : ℕ} {J K : List StatusEntry}

@[simp] theorem sentOn_append : sentOn x (J ++ K) = sentOn x J ++ sentOn x K :=
  List.filterMap_append

@[simp] theorem clientsOn_append : clientsOn x (J ++ K) = K.foldl (clientsAfter x) (clientsOn x J) :=
  List.foldl_append

theorem mem_sentOn {res : Resource} : res ∈ sentOn x J ↔ ∃ t, (⟨t,x,.sent res⟩ : StatusEntry) ∈ J := by
  simp only [sentOn,List.mem_filterMap]
  constructor
  · rintro ⟨⟨t,y,a⟩,hm,he⟩
    cases a with
    | sent res' =>
      simp only [Option.ite_none_right_eq_some,Option.some.injEq] at he
      obtain ⟨rfl,rfl⟩ := he
      exact ⟨t,hm⟩
    | _ => cases he
  · rintro ⟨t,hm⟩
    exact ⟨_,hm,by simp⟩

theorem sentOn_hubless {acts : List StatusAct} (h : ∀ a ∈ acts, a.hubless) :
    sentOn x (acts.map (StatusEntry.mk t y)) = [] := by
  refine List.filterMap_eq_nil_iff.mpr fun e hm => ?_
  obtain ⟨a,ha,rfl⟩ := List.mem_map.mp hm
  have hq := h a ha
  cases a <;> first | rfl | exact hq.elim

theorem clientsAfter_hubless {acts : List StatusAct} (h : ∀ a ∈ acts, a.hubless)
    (clients : Table Client.id) :
    (acts.map (StatusEntry.mk t y)).foldl (clientsAfter x) clients = clients := by
  induction acts with
  | nil => rfl
  | cons a acts ih =>
    have hq := h a List.mem_cons_self
    have hstep : clientsAfter x clients ⟨t,y,a⟩ = clients := by
      cases a <;> first | rfl | exact hq.elim
    rw [List.map_cons,List.foldl_cons,hstep]
    exact ih fun b hb => h b (List.mem_cons_of_mem _ hb)

/-- A registered client was registered by one of the entries. -/
theorem mem_clientsOn {client : Client} (h : client ∈ (clientsOn x J).rows) :
    ∃ t, (⟨t,x,.registered client⟩ : StatusEntry) ∈ J := by
  induction J using List.reverseRecOn with
  | nil => cases h
  | append_singleton J e ih =>
    have hold : client ∈ (clientsOn x J).rows →
        ∃ t, (⟨t,x,.registered client⟩ : StatusEntry) ∈ J ++ [e] := fun h => by
      obtain ⟨t,hm⟩ := ih h
      exact ⟨t,List.mem_append_left _ hm⟩
    rw [clientsOn_append,List.foldl_cons,List.foldl_nil] at h
    obtain ⟨t,y,a⟩ := e
    cases a with
    | registered client' =>
      simp only [clientsAfter] at h
      split at h
      · next hy =>
        rcases Table.mem_save h with rfl | h
        · exact ⟨t,by simp [hy]⟩
        · exact hold h
      · exact hold h
    | unregistered id =>
      simp only [clientsAfter] at h
      split at h
      · exact hold (List.mem_filter.mp h).1
      · exact hold h
    | _ => exact hold h

end Logs

/-- The broadcasters keep to their rounds, and the clients of a hub are those that were
registered. -/
structure Cluster.Serving (svr : GRPCServer) {n : ℕ} (inst : Fin n → String)
    (tasks : Fin n → StatusTask) (s : Cluster) : Prop where
  clients : ∀ x, (s.hubs x).clients = clientsOn x s.log
  locked : ∀ pre post (t : ℕ) x clients, s.log = pre ++ ⟨t,x,.locked clients⟩ :: post →
    clients.Perm (clientsOn x pre).rows
  registered : ∀ (t : ℕ) x client, ⟨t,x,.registered client⟩ ∈ s.log →
    ∃ (j : Fin n) (req : SubscriptionRequest), tasks j = .subscribe req ∧
      svr.authorizeSubscribe req = .ok () ∧ client.source = req.source
  handed : ∀ (t : ℕ) x client res, ⟨t,x,.handed client res⟩ ∈ s.log →
    ∃ i : Fin n, t = i ∧ x = inst i ∧ (tasks i).Broadcasts
  owned : ∀ (i : Fin n) x a, ⟨i,x,a⟩ ∈ s.log → x = inst i
  rounds : ∀ i : Fin n, (tasks i).Broadcasts →
    InRounds (s.hubs (inst i)).received (sentOn (inst i) s.log) (s.acts i)

/-- No acts yet, and hubs without clients. -/
structure Cluster.Fresh (s₀ : Cluster) : Prop where
  log : s₀.log = []
  hubs : ∀ x, (s₀.hubs x).clients = .empty ∧ (s₀.hubs x).received = none

theorem Cluster.Fresh.serving {s₀ : Cluster} (h : s₀.Fresh) (svr : GRPCServer) {n : ℕ}
    (inst : Fin n → String) (tasks : Fin n → StatusTask) : s₀.Serving svr inst tasks := by
  refine ⟨fun x => ?_,?_,?_,?_,?_,fun i _ => ?_⟩
  · rw [h.log]
    exact (h.hubs x).1
  · intro pre post t x clients he
    rw [h.log] at he
    exact absurd he.symm (by simp)
  · simp [h.log]
  · simp [h.log]
  · simp [h.log]
  · rw [(h.hubs _).2,Cluster.acts,h.log]
    exact ⟨[],[],rfl,rfl,.idle⟩

section Step

variable {ext : External} {svr : GRPCServer} {n : ℕ} {inst : Fin n → String}
    {tasks : Fin n → StatusTask} {i : Fin n} {ch : ClusterChoice} {c : ClusterCall}
    {r : ClusterCall.Resp c} {s s' : Cluster}

theorem HubEffect.clients {y : String} {t : ℕ} (h : HubEffect y t s c s') (x : String)
    (hc : (s.hubs x).clients = clientsOn x s.log) : (s'.hubs x).clients = clientsOn x s'.log := by
  have hkeep : ∀ (hub : Hub) (a : StatusAct), hub.clients = (s.hubs y).clients →
      clientsAfter x (clientsOn x s.log) ⟨t,y,a⟩ = clientsOn x s.log →
      (Function.update s.hubs y hub x).clients = clientsOn x (s.log ++ [⟨t,y,a⟩]) := by
    intro hub a hhub ha
    rw [clientsOn_append,List.foldl_cons,List.foldl_nil,ha,← hc]
    by_cases hx : x = y
    · rw [hx,Function.update_self,hhub]
    · rw [Function.update_of_ne hx]
  have hsame : ∀ a : StatusAct, clientsAfter x (clientsOn x s.log) ⟨t,y,a⟩ = clientsOn x s.log →
      (s.hubs x).clients = clientsOn x (s.log ++ [⟨t,y,a⟩]) := by
    intro a ha
    rw [clientsOn_append,List.foldl_cons,List.foldl_nil,ha,hc]
  cases h with
  | quiet acts hh hl hq => rw [hh,hl,clientsOn_append,clientsAfter_hubless hq,hc]
  | send hfree hh hl => rw [hh,hl]; exact hkeep _ _ rfl rfl
  | register hh hl =>
    rw [hh,hl,clientsOn_append,List.foldl_cons,List.foldl_nil,clientsAfter]
    by_cases hx : x = y
    · subst hx
      rw [Function.update_self,if_pos rfl,← hc]
    · rw [Function.update_of_ne hx,if_neg (Ne.symm hx),hc]
  | unregister hh hl =>
    rw [hh,hl,clientsOn_append,List.foldl_cons,List.foldl_nil,clientsAfter]
    by_cases hx : x = y
    · subst hx
      rw [Function.update_self,if_pos rfl,← hc]
    · rw [Function.update_of_ne hx,if_neg (Ne.symm hx),hc]
  | receive hres hh hl => rw [hh,hl]; exact hsame _ rfl
  | lock hp hh hl => rw [hh,hl]; exact hkeep _ _ rfl rfl
  | hand hh hl => rw [hh,hl]; exact hsame _ rfl
  | unlock hh hl => rw [hh,hl]; exact hkeep _ _ rfl rfl

/-- The broadcaster of another session of the instance sees what is sent to it. -/
theorem InRounds.other {b : Fin n} (hone : ∀ i j, (tasks i).Broadcasts → (tasks j).Broadcasts →
      inst i = inst j → i = j) (ha : pipelineRule ext svr inst tasks i c s)
    (hx : clusterExec (inst i) i ch c s = some (r,s')) (hi : i ≠ b) (hb : (tasks b).Broadcasts)
    (h : InRounds (s.hubs (inst b)).received (sentOn (inst b) s.log) (s.acts b)) :
    InRounds (s'.hubs (inst b)).received (sentOn (inst b) s'.log) (s'.acts b) := by
  rw [clusterExec_acts_ne (val_ne hi) hx]
  have hfar : inst i = inst b → ¬ (tasks i).Broadcasts := fun he hbi => hi (hone i b hbi hb he)
  have hkeep : ∀ (hub : Hub) (a : StatusAct), (inst i = inst b → hub.received =
      (s.hubs (inst i)).received) → sentOn (inst b) [⟨i,inst i,a⟩] = [] →
      InRounds (Function.update s.hubs (inst i) hub (inst b)).received
        (sentOn (inst b) (s.log ++ [⟨i,inst i,a⟩])) (s.acts b) := by
    intro hub a hhub hsent
    rw [sentOn_append,hsent,List.append_nil]
    by_cases he : inst b = inst i
    · rw [he,Function.update_self,hhub he.symm,← he]
      exact h
    · rw [Function.update_of_ne he]
      exact h
  cases clusterExec_hubEffect hx with
  | quiet acts hh hl hq =>
    rw [hh,hl,sentOn_append,sentOn_hubless hq,List.append_nil]
    exact h
  | @send res _ hfree hh hl =>
    rw [hh,hl]
    by_cases he : inst b = inst i
    · obtain ⟨rounds,pre,hacts,hsent,hpre⟩ := h
      rw [← he] at hfree ⊢
      rw [hfree] at hpre hsent
      have hnil : pre = [] := by
        cases hpre
        rfl
      refine ⟨rounds,[],by rw [hacts,hnil],?_,.idle⟩
      rw [Function.update_self,sentOn_append,hsent]
      simp [sentOn]
    · refine hkeep _ _ (fun he' => absurd he'.symm he) ?_
      simp [sentOn,Ne.symm he]
  | register hh hl => rw [hh,hl]; exact hkeep _ _ (fun _ => rfl) rfl
  | unregister hh hl => rw [hh,hl]; exact hkeep _ _ (fun _ => rfl) rfl
  | receive hres hh hl =>
    rw [hh,hl,sentOn_append]
    exact (List.append_nil _).symm ▸ h
  | lock hp hh hl => rw [hh,hl]; exact hkeep _ _ (fun _ => rfl) rfl
  | hand hh hl =>
    rw [hh,hl,sentOn_append]
    exact (List.append_nil _).symm ▸ h
  | unlock hh hl => rw [hh,hl]; exact hkeep _ _ (fun he => absurd ha.1 (hfar he)) rfl

/-- A call of the broadcaster itself. -/
theorem InRounds.own (ha : pipelineRule ext svr inst tasks i c s) (hc : c.inRound)
    (hx : clusterExec (inst i) i ch c s = some (r,s'))
    (h : InRounds (s.hubs (inst i)).received (sentOn (inst i) s.log) (s.acts i)) :
    InRounds (s'.hubs (inst i)).received (sentOn (inst i) s'.log) (s'.acts i) := by
  obtain ⟨rounds,pre,hacts,hsent,hpre⟩ := h
  rcases c with c | c
  · exact hc.elim
  cases c with
  | receive =>
    change Resource at r
    obtain ⟨hres,rfl⟩ := clusterExec_receive hx
    obtain ⟨-,rounds',hrule⟩ := ha
    obtain ⟨-,rfl⟩ := roundsActs_inj hpre.no_unlock List.not_mem_nil
      (hacts.symm.trans (hrule.trans (List.append_nil _).symm))
    refine ⟨rounds,[.received r],?_,?_,?_⟩
    · rw [Cluster.acts_record_self,hacts,List.append_nil]
    · exact (sentOn_append.trans (List.append_nil _)).trans hsent
    · rw [Cluster.record_hubs,hres]
      exact .received
  | rLock =>
    change List Client at r
    obtain ⟨-,rfl⟩ := clusterExec_rLock hx
    obtain ⟨-,rounds',res,hrule⟩ := ha
    obtain ⟨-,rfl⟩ := roundsActs_inj hpre.no_unlock
      (show StatusAct.unlocked ∉ [.received res] by simp) (hacts.symm.trans hrule)
    obtain ⟨res',hres,he⟩ := hpre.of_ne_nil
    cases he
    refine ⟨rounds,[.received res,.locked r],?_,?_,?_⟩
    · refine (Cluster.acts_record_self _ _ _ _).trans ?_
      exact (congrArg (· ++ [.locked r]) hacts).trans (List.append_assoc _ _ _)
    · refine (sentOn_append.trans (List.append_nil _)).trans (hsent.trans ?_)
      simp
    · rw [Cluster.record_hubs,Cluster.setHub_self,hres]
      exact @InRound.locked _ r [] r rfl
  | hand client res =>
    rw [clusterExec_hand hx]
    obtain ⟨-,hsource,rounds',clients,done,rest,hclients,hrule⟩ := ha
    obtain ⟨-,rfl⟩ := roundsActs_inj hpre.no_unlock (by simp) (hacts.symm.trans hrule)
    obtain ⟨res',hres,he⟩ := hpre.of_ne_nil
    cases he
    refine ⟨rounds,.received res :: .locked clients :: ((done ++ [client]).filter fun client =>
      client.source = res.source).map (.handed · res),?_,?_,?_⟩
    · rw [Cluster.acts_record_self,hacts]
      simp [hsource]
    · exact (sentOn_append.trans (List.append_nil _)).trans hsent
    · rw [Cluster.record_hubs,hres]
      exact @InRound.locked res clients (done ++ [client]) rest (by rw [hclients]; simp)
  | rUnlock =>
    rw [clusterExec_rUnlock hx]
    obtain ⟨-,rounds',res,clients,hrule⟩ := ha
    obtain ⟨-,rfl⟩ := roundsActs_inj hpre.no_unlock (by simp) (hacts.symm.trans hrule)
    obtain ⟨res',hres,he⟩ := hpre.of_ne_nil
    cases he
    refine ⟨rounds ++ [(res,clients)],[],?_,?_,.idle⟩
    · refine (Cluster.acts_record_self _ _ _ _).trans ?_
      refine (congrArg (· ++ [.unlocked]) hacts).trans ?_
      rw [List.append_nil,roundsActs_snoc]
    · refine (sentOn_append.trans (List.append_nil _)).trans (hsent.trans ?_)
      simp [hres]
  | _ => exact hc.elim

theorem Cluster.Serving.step (hone : ∀ i j, (tasks i).Broadcasts → (tasks j).Broadcasts →
      inst i = inst j → i = j) (ha : pipelineRule ext svr inst tasks i c s)
    (hc : (tasks i).Broadcasts → c.inRound) (hx : clusterExec (inst i) i ch c s = some (r,s'))
    (h : s.Serving svr inst tasks) : s'.Serving svr inst tasks := by
  obtain ⟨act,hlog,hby⟩ := clusterExec_act hx
  have hnew : ∀ {t : ℕ} {x : String} {a : StatusAct}, ⟨t,x,a⟩ ∈ s'.log → ⟨t,x,a⟩ ∈ s.log ∨
      t = i ∧ x = inst i ∧ a.RecordedBy ch (inst i) c s := by
    intro t x a hm
    rw [hlog] at hm
    rcases List.mem_append.mp hm with hm | hm
    · exact Or.inl hm
    · obtain ⟨b,hb,he⟩ := List.mem_map.mp hm
      cases he
      exact Or.inr ⟨rfl,rfl,hby a (Option.mem_toList.mp hb)⟩
  refine ⟨fun x => (clusterExec_hubEffect hx).clients x (h.clients x),?_,?_,?_,?_,?_⟩
  · intro pre post t x clients he
    rw [hlog] at he
    rcases append_split he with ⟨post',he,-⟩ | ⟨K₁,hK,rfl⟩
    · exact h.locked pre post' t x clients he
    · cases act with
      | none => simp at hK
      | some a =>
        have hone : K₁ = [] ∧ (⟨i,inst i,a⟩ : StatusEntry) = ⟨t,x,.locked clients⟩ := by
          cases K₁ with
          | nil =>
            cases hK
            exact ⟨rfl,rfl⟩
          | cons k K₁ => simp at hK
        obtain ⟨rfl,hentry⟩ := hone
        cases hentry
        rw [List.append_nil,← h.clients]
        exact (hby _ rfl).2
  · intro t x client hm
    rcases hnew hm with hm | ⟨-,-,rfl⟩
    · exact h.registered t x client hm
    · obtain ⟨req,htask,hauth,hsource⟩ := ha
      exact ⟨i,req,htask,hauth,hsource⟩
  · intro t x client res hm
    rcases hnew hm with hm | ⟨rfl,rfl,rfl⟩
    · exact h.handed t x client res hm
    · exact ⟨i,rfl,rfl,ha.1⟩
  · intro j x a hm
    rcases hnew hm with hm | ⟨hj,rfl,-⟩
    · exact h.owned j x a hm
    · rw [Fin.ext hj]
  · intro b hb
    by_cases hi : i = b
    · subst hi
      exact (h.rounds i hb).own ha (hc hb) hx
    · exact (h.rounds b hb).other hone ha hx hi hb

end Step

/-- Some session has read this row. -/
def Cluster.Seen (s : Cluster) (row : ResourceRow) : Prop :=
  ∃ t rows, .read rows ∈ s.acts t ∧ row ∈ rows

/-- A StatusDelete event with the copy of a row. -/
structure CopiedFrom (ext : External) (row : ResourceRow) (e : StatusEvent) : Prop where
  type : e.statusEventType = .statusDelete
  id : e.resourceID = row.id
  source : e.resourceSource = row.source
  payload : e.payload = (syncTimestampsFromResourceMeta ext row.scan).payload

/-- What a subscriber may be shown of a row. -/
inductive Shows (ext : External) (row : ResourceRow) : Resource → Prop
  | listed : Shows ext row row.scan
  | read : Shows ext row (syncTimestampsFromResourceMeta ext row.scan)
  | deleted {e : StatusEvent} (h : CopiedFrom ext row e) : Shows ext row e.deletedResource

theorem Shows.id_source {ext : External} {row : ResourceRow} {res : Resource}
    (h : Shows ext row res) : res.id = row.id ∧ res.source = row.source := by
  cases h with
  | listed => exact ⟨rfl,rfl⟩
  | read => exact ⟨syncTimestamps_id ext _,syncTimestamps_source ext _⟩
  | deleted h => exact ⟨h.id,h.source⟩

/-- What is sent shows a row that was read, and so does what a StatusDelete event holds. -/
structure Cluster.Truthful (ext : External) (s : Cluster) : Prop where
  events : ∀ e ∈ s.state.statusEvents.rows, e.statusEventType = .statusDelete →
    ∃ row, s.Seen row ∧ CopiedFrom ext row e
  took : ∀ t e, .tookEvent e ∈ s.acts t → e ∈ s.state.statusEvents.rows
  sent : ∀ t res, .sent res ∈ s.acts t → ∃ row, s.Seen row ∧ Shows ext row res

section Sources

variable {ext : External} {svr : GRPCServer} {n : ℕ} {inst : Fin n → String}
    {tasks : Fin n → StatusTask} {i : Fin n} {ch : ClusterChoice} {c : ClusterCall}
    {r : ClusterCall.Resp c} {s s' : Cluster} {row : ResourceRow}

theorem clusterExec_acts_mono (h : clusterExec (inst i) i ch c s = some (r,s')) {t : ℕ}
    {a : StatusAct} (ha : a ∈ s.acts t) : a ∈ s'.acts t := by
  rcases clusterExec_acts h t with he | ⟨-,b,he,-⟩
  · exact he ▸ ha
  · rw [he]
    exact List.mem_append_left _ ha

theorem Cluster.Seen.mono (h : clusterExec (inst i) i ch c s = some (r,s')) (hs : s.Seen row) :
    s'.Seen row := by
  obtain ⟨t,rows,hm,hrow⟩ := hs
  exact ⟨t,rows,clusterExec_acts_mono h hm,hrow⟩

theorem Sends.shows {res : Resource} (h : s.Truthful ext) (hs : Sends ext (s.acts i) res) :
    ∃ row, s.Seen row ∧ Shows ext row res := by
  generalize hacts : s.acts i = A at hs
  cases hs with
  | @stored A rows sent row res hrow hres =>
    refine ⟨row,⟨i,rows,by rw [hacts]; simp,hrow⟩,?_⟩
    rcases hres with rfl | rfl
    · exact .listed
    · exact .read
  | @deleted A e hd =>
    obtain ⟨row,hseen,hcopy⟩ := h.events e (h.took i e (by rw [hacts]; simp)) hd
    exact ⟨row,hseen,.deleted hcopy⟩

/-- A new status event is one that the message of the session makes. -/
theorem clusterExec_reports (ha : pipelineRule ext svr inst tasks i c s)
    (hx : clusterExec (inst i) i ch c s = some (r,s')) {e : StatusEvent}
    (he : e ∈ s'.state.statusEvents.rows) : e ∈ s.state.statusEvents.rows ∨
      ∃ message event now uuid, tasks i = .report message ∧ Reports ext message (s.acts i) event ∧
        e = event.beforeCreate now uuid := by
  cases c with
  | inr c => exact Or.inl (clusterExec_inr_state hx ▸ he)
  | inl c =>
    obtain ⟨-,state,hexec,hs'⟩ := clusterExec_inl hx
    have hstate : s'.state = state := by rw [hs']; rfl
    rw [hstate] at he
    rcases exec_statusEvents hexec with hsame | ⟨event,hfree,rfl,hsame⟩
    · exact Or.inl (hsame ▸ he)
    · rw [hsame] at he
      refine (List.mem_append.mp he).imp_right fun he => ?_
      obtain ⟨message,htask,hreport⟩ := ha
      exact ⟨message,event,_,_,htask,hreport,List.mem_singleton.mp he⟩

theorem Cluster.Truthful.step (ha : pipelineRule ext svr inst tasks i c s)
    (hx : clusterExec (inst i) i ch c s = some (r,s')) (h : s.Truthful ext) : s'.Truthful ext := by
  refine ⟨fun e he hd => ?_,fun t e hm => ?_,fun t res hm => ?_⟩
  · rcases clusterExec_reports ha hx he with he | ⟨message,event,now,uuid,-,hreport,rfl⟩
    · exact (h.events e he hd).imp fun row hrow => ⟨hrow.1.mono hx,hrow.2⟩
    · generalize hacts : s.acts i = A at hreport
      cases hreport with
      | update => cases hd
      | @delete row status hid hfill =>
        have hseen : s.Seen row := ⟨i,[row],by rw [hacts]; simp,List.mem_cons_self⟩
        refine ⟨row,hseen.mono hx,⟨rfl,hid.symm,?_,rfl⟩⟩
        exact syncTimestamps_source ext row.scan
  · rcases clusterExec_mem_acts hx hm with hm | ⟨-,id,-,hfind⟩
    · exact clusterExec_mem hx (h.took t e hm)
    · exact clusterExec_mem hx (Cluster.mem_statusEvents.mp (Table.find_some_mem hfind)).1
  · rcases clusterExec_mem_acts hx hm with hm | ⟨rfl,rfl⟩
    · exact (h.sent t res hm).imp fun row hrow => ⟨hrow.1.mono hx,hrow.2⟩
    · exact (Sends.shows h ha).imp fun row hrow => ⟨hrow.1.mono hx,hrow.2⟩

/-- What was read was stored at some time of the run. -/
theorem seen_stored {pool : Fin n → ClusterChoice → (c : ClusterCall) → Cluster →
      Option (ClusterCall.Resp c × Cluster)} (hpool : Pipelined inst pool)
    {start cfg : Config (Fin n) Cluster ClusterCall ClusterCall.Resp StatusReply}
    (h₀ : start.shared.log = []) (hr : Reach pool start cfg) (hs : cfg.shared.Seen row) :
    ∃ cfg₁, Reach pool start cfg₁ ∧ Reach pool cfg₁ cfg ∧
      cfg₁.shared.state.resources.find row.id = some row := by
  induction hr with
  | refl =>
    obtain ⟨t,rows,hm,-⟩ := hs
    simp [Cluster.acts,h₀,statusActsOf] at hm
  | @tail cfg cfg' hr hstep ih =>
    obtain ⟨i,ch,ht,hx⟩ := id hstep
    obtain ⟨t,rows,hm,hrow⟩ := hs
    rcases clusterExec_mem_acts (hpool _ _ _ _ _ _ hx) hm with hm | ⟨-,hby⟩
    · obtain ⟨cfg₁,hr₁,hr₂,hfind⟩ := ih ⟨t,rows,hm,hrow⟩
      exact ⟨cfg₁,hr₁,hr₂.tail hstep,hfind⟩
    · exact ⟨cfg,hr,.single hstep,Table.find_of_mem (hby row hrow)⟩

/-- The source of a stored row never changes. -/
theorem clusterExec_source (hx : clusterExec (inst i) i ch c s = some (r,s')) {id : String}
    {row' : ResourceRow} (hrow : s.state.resources.find id = some row)
    (hrow' : s'.state.resources.find id = some row') : row'.source = row.source := by
  have hsame : s'.state.resources = s.state.resources → row'.source = row.source := by
    intro he
    rw [he,hrow] at hrow'
    cases hrow'
    rfl
  cases c with
  | inr c => exact hsame (by rw [clusterExec_inr_state hx])
  | inl c =>
    obtain ⟨-,state,hexec,hs'⟩ := clusterExec_inl hx
    have hstate : s'.state = state := by rw [hs']; rfl
    rw [hstate] at hrow' hsame
    cases exec_rowEffect hexec with
    | quiet acts hr _ _ => exact hsame hr
    | insert resource now uuid hi =>
      rw [State.find_insertResource] at hrow'
      split at hrow'
      · next hid =>
        rw [hid] at hrow
        exact absurd (hi.1.symm.trans hrow) (by simp)
      · rw [hrow] at hrow'
        cases hrow'
        rfl
    | spec version payload now h =>
      rw [State.find_writeSpec,hrow] at hrow'
      split at hrow' <;> cases hrow' <;> rfl
    | status status now h =>
      rw [State.find_writeStatus,hrow] at hrow'
      split at hrow' <;> cases hrow' <;> rfl
    | soft now h hd =>
      rw [State.find_softDelete,hrow] at hrow'
      split at hrow' <;> cases hrow' <;> rfl
    | hard h =>
      rw [State.find_hardDelete] at hrow'
      split at hrow'
      · cases hrow'
      · rw [hrow] at hrow'
        cases hrow'
        rfl

end Sources

theorem Cluster.Fresh.truthful {ext : External} {s₀ : Cluster} (h : s₀.Fresh)
    (hevents : ∀ e ∈ s₀.state.statusEvents.rows, e.statusEventType ≠ .statusDelete) :
    s₀.Truthful ext := by
  have hacts : ∀ t, s₀.acts t = [] := fun t => by simp [Cluster.acts,h.log,statusActsOf]
  refine ⟨fun e he hd => absurd hd (hevents e he),?_,?_⟩
  all_goals simp [hacts]

section Runs

theorem start_inRound (n : ℕ) :
    (EventBroadcaster.start n).Calls ClusterAnswers ClusterCall.inRound fun _ => True := by
  have heach : ∀ (res : Resource) (clients : List Client),
      (EventBroadcaster.handEach res clients).Calls ClusterAnswers ClusterCall.inRound
        fun _ => True := by
    intro res clients
    induction clients with
    | nil => trivial
    | cons client clients ih =>
      rw [EventBroadcaster.handEach]
      split
      · exact .lift_bind trivial fun _ _ => ih
      · exact ih
  induction n with
  | zero => trivial
  | succ n ih =>
    refine .bind (Q := fun _ => True) ?_ fun _ _ => ih
    exact .lift_bind trivial fun res _ => .lift_bind trivial fun clients _ =>
      .bind (heach res clients) fun _ _ => .lift trivial fun _ _ => trivial

variable {ext : External} {svr : GRPCServer} {n : ℕ} {inst : Fin n → String}
    {tasks : Fin n → StatusTask}
    {pool : Fin n → ClusterChoice → (c : ClusterCall) → Cluster →
      Option (ClusterCall.Resp c × Cluster)}

/-- The outlines of the sessions, with what a broadcaster calls at all. -/
theorem Pipelined.verified_rounds (hpool : Pipelined inst pool) (ext : External) (svr : GRPCServer)
    (tasks : Fin n → StatusTask) {s₀ : Cluster} (h₀ : s₀.log = []) :
    Verified pool (fun i c s => pipelineRule ext svr inst tasks i c s ∧
      ((tasks i).Broadcasts → c.inRound)) (fun i => (tasks i).Post (inst i) i)
      (pipelineStart ext svr inst tasks s₀) := by
  refine (hpool.verified ext svr tasks h₀).and_calls (A := fun i c => (tasks i).Broadcasts → c.inRound)
    (fun j o c s r s' hx => clusterExec_answers (hpool j o c s r s' hx)) fun i => ?_
  change ((tasks i).run ext svr (inst i)).Calls _ _ _
  by_cases hb : (tasks i).Broadcasts
  · obtain ⟨k,hk⟩ := id hb
    rw [hk]
    exact ((start_inRound k).map fun _ _ => trivial).mono (fun c hc _ => hc) fun _ h => h
  · exact (Prog.Calls.trivial _).mono (fun c _ h => absurd h hb) fun _ h => h

end Runs

/-- A subscriber is handed what belongs to its source only, and everything that is broadcast on
its instance for its source while it is registered, once. -/
theorem subscribers_isolated (ext : External) (svr : GRPCServer) {n : ℕ} (inst : Fin n → String)
    (tasks : Fin n → StatusTask) (hone : ∀ i j, (tasks i).Broadcasts → (tasks j).Broadcasts →
      inst i = inst j → i = j) {s₀ : Cluster} (h₀ : s₀.Fresh)
    (hevents : ∀ e ∈ s₀.state.statusEvents.rows, e.statusEventType ≠ .statusDelete)
    {cfg : Config (Fin n) Cluster ClusterCall ClusterCall.Resp StatusReply}
    (hr : Reach (clusterPool inst) (pipelineStart ext svr inst tasks s₀) cfg) :
    (∀ t x client res, ⟨t,x,.handed client res⟩ ∈ cfg.shared.log →
      (∃ (j : Fin n) (req : SubscriptionRequest), tasks j = .subscribe req ∧
        svr.authorizeSubscribe req = .ok () ∧ client.source = req.source) ∧
      ∃ (cfg₁ : Config (Fin n) Cluster ClusterCall ClusterCall.Resp StatusReply) (row : ResourceRow),
        Reach (clusterPool inst) (pipelineStart ext svr inst tasks s₀) cfg₁ ∧
        Reach (clusterPool inst) cfg₁ cfg ∧ cfg₁.shared.state.resources.find res.id = some row ∧
        row.source = client.source ∧ Shows ext row res) ∧
    (∀ cfg' id row row', Step (clusterPool inst) cfg cfg' →
      cfg.shared.state.resources.find id = some row →
      cfg'.shared.state.resources.find id = some row' → row'.source = row.source) ∧
    (∀ (t : ℕ) x client res, ⟨t,x,.handed client res⟩ ∈ cfg.shared.log →
      ∃ i : Fin n, t = i ∧ x = inst i ∧ (tasks i).Broadcasts) ∧
    (∀ i, (tasks i).Broadcasts → InRounds (cfg.shared.hubs (inst i)).received
      (sentOn (inst i) cfg.shared.log) (cfg.shared.acts i)) ∧
    ∀ pre post t x clients, cfg.shared.log = pre ++ ⟨t,x,.locked clients⟩ :: post →
      clients.Perm (clientsOn x pre).rows := by
  have hpool : Pipelined inst (clusterPool inst) := clusterPool_pipelined
  have hinv : cfg.shared.Serving svr inst tasks ∧ cfg.shared.Truthful ext := by
    exact (hpool.verified_rounds ext svr tasks h₀.log).invariant
      (K := fun s => s.Serving svr inst tasks ∧ s.Truthful ext) (fun i ch c s r s' ha hx h =>
        ⟨h.1.step hone ha.1 ha.2 hx,h.2.step ha.1 hx⟩) hr
      ⟨h₀.serving svr inst tasks,h₀.truthful hevents⟩
  obtain ⟨hserving,htruthful⟩ := hinv
  refine ⟨fun t x client res hm => ?_,fun cfg' id row row' hstep hrow hrow' => ?_,
    hserving.handed,hserving.rounds,hserving.locked⟩
  · obtain ⟨i,rfl,rfl,hb⟩ := hserving.handed t x client res hm
    obtain ⟨hsent,hsource,clients,hlocked,hclient⟩ :=
      (hserving.rounds i hb).handed (mem_statusActsOf.mpr ⟨_,hm⟩)
    constructor
    · -- the client was registered when the broadcaster took the lock
      obtain ⟨y,hlocked⟩ := mem_statusActsOf.mp hlocked
      obtain ⟨pre,post,hlog⟩ := List.append_of_mem hlocked
      have hperm := hserving.locked pre post i y clients hlog
      obtain ⟨u,hreg⟩ := mem_clientsOn (hperm.mem_iff.mp hclient)
      exact hserving.registered u y client (by rw [hlog]; exact List.mem_append_left _ hreg)
    · obtain ⟨u,hsent⟩ := mem_sentOn.mp hsent
      obtain ⟨row,hseen,hshows⟩ := htruthful.sent u res (mem_statusActsOf.mpr ⟨_,hsent⟩)
      obtain ⟨cfg₁,hr₁,hr₂,hfind⟩ := seen_stored hpool h₀.log hr hseen
      obtain ⟨hid,hsrc⟩ := hshows.id_source
      exact ⟨cfg₁,row,hr₁,hr₂,by rw [hid]; exact hfind,hsrc.symm.trans hsource.symm,hshows⟩
  · obtain ⟨i,ch,ht,hx⟩ := hstep
    exact clusterExec_source hx hrow hrow'

/-- A subscriber, a status message, the handling of its event and the broadcaster. -/
def subscribedTasks : Fin 4 → StatusTask
  | 0 => .subscribe { source := "src" }
  | 1 => statusReport "Applied" "7"
  | 2 => .work 0 "uuid-7"
  | 3 => .broadcaster 1

abbrev subscribedStart : Config (Fin 4) Cluster ClusterCall ClusterCall.Resp StatusReply :=
  pipelineStart Reference.packages pipelineServer (fun _ => "maestro-1") subscribedTasks readyCluster

theorem subscribedTasks_broadcasts {i : Fin 4} (h : (subscribedTasks i).Broadcasts) : i = 3 := by
  obtain ⟨k,hk⟩ := h
  match i, hk with
  | 3, _ => rfl

theorem subscribers_isolated_once :
    ∃ (cfg : Config (Fin 4) Cluster ClusterCall ClusterCall.Resp StatusReply) (client : Client)
      (res : Resource), Reach (clusterPool fun _ => "maestro-1") subscribedStart cfg ∧
      ⟨3,"maestro-1",.handed client res⟩ ∈ cfg.shared.log ∧
      ∃ (cfg₁ : Config (Fin 4) Cluster ClusterCall ClusterCall.Resp StatusReply) (row : ResourceRow),
        Reach (clusterPool fun _ => "maestro-1") subscribedStart cfg₁ ∧
        Reach (clusterPool fun _ => "maestro-1") cfg₁ cfg ∧
        cfg₁.shared.state.resources.find res.id = some row ∧ row.source = client.source ∧
        Shows Reference.packages row res := by
  have h : (follow (clusterPool fun _ => "maestro-1")
      (clusterTurns 0 [0,0,1,1,1,1,1,1,1,2,2,2,2,2,3,3,3]) subscribedStart).any fun cfg =>
      (cfg.shared.acts 3).any fun a => match a with | .handed _ _ => true | _ => false := by
    decide +kernel
  obtain ⟨cfg,hr,h⟩ := (Option.any_eq_true _ _).mp h
  obtain ⟨a,ha,h⟩ := List.any_eq_true.mp h
  split at h
  · next client res =>
    have hr := Reach.of_follow _ hr
    obtain ⟨x,hm⟩ := mem_statusActsOf.mp ha
    have hall := subscribers_isolated Reference.packages pipelineServer (fun _ => "maestro-1")
      subscribedTasks (fun i j hi hj _ =>
        (subscribedTasks_broadcasts hi).trans (subscribedTasks_broadcasts hj).symm)
      ⟨rfl,fun _ => ⟨rfl,rfl⟩⟩ (fun e he => by cases he) hr
    obtain ⟨i,-,rfl,-⟩ := hall.2.2.1 _ _ _ _ hm
    exact ⟨cfg,client,res,hr,hm,(hall.1 _ _ _ _ hm).2⟩
  · cases h

end Maestro
