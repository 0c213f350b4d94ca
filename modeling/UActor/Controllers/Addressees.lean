import UActor.Controllers.Executors
import UActor.Controllers.Removals
import UActor.Controllers.Spawns

/-!
# Where spawns go

A deployment is started on the executor of its runtime type, on three of four paths. An update
starts it on the executor of the message, and the runtime type of the deployment stays the old one.
-/

namespace UActor

namespace DeploymentManager

variable {cfg : ManagerSettings} {env : Surroundings} {st st' : DeploymentManager} {p : Publication}
  {name : String}

/-! ## Messages that leave the registry alone -/

theorem executors_modify (f : Deployment → Deployment) :
    (st.modify name f).executors = st.executors := by
  unfold modify
  split <;> rfl

theorem executors_removeDeployment : (removeDeployment st name).executors = st.executors := by
  unfold removeDeployment
  split
  · dsimp only
    split <;> split <;> rfl
  · rfl

theorem executors_retire : (retire cfg env st name).executors = st.executors := by
  have hframe := (declined_deactivate cfg env st name).1.frame.executors
  unfold retire
  split
  · dsimp only
    split
    · exact hframe
    · exact executors_removeDeployment.trans hframe
  · rfl

theorem executors_startDeployment (executor : ExecutorIdentifier) (delay : UInt32) :
    (startDeployment st name executor delay).executors = st.executors := by
  unfold startDeployment
  split
  · exact executors_modify _
  · rfl

theorem executors_exchangeType (d : Deployment) (r : Request) :
    (exchangeType cfg env st d r).executors = st.executors := by
  have hdeclined : Declined st (decrementDeployedActorTypeCount cfg env
      (stopDeployment cfg st r.name) d.actor_type) :=
    declined_stopDeployment.trans (declined_decrement cfg env _ _)
  exact (executors_modify _).trans hdeclined.frame.executors

theorem executors_deploy (r : Request) (executors : ExecutorList) :
    (deploy cfg env st r executors).executors = st.executors := by
  obtain ⟨ends, effects, hdeploy⟩ := deploy_tables cfg env st r executors
  rw [hdeploy]
  dsimp only
  cases hd : Assoc.find r.name st.deployments with
  | none =>
    dsimp only
    unfold insertDeployment
    dsimp only
    split
    · exact (frame_activate cfg env (Assoc.find_put_self _ _ _) executors.front).executors
    · rfl
  | some d =>
    have hreplaced : (if r.replaces d then replaceDeployment cfg env st d r executors
        else st).executors =
        st.executors := by
      split
      · refine (executors_startDeployment _ _).trans ?_
        exact (grown_increment cfg env _ r.actor_type).frame.executors.trans
          (executors_exchangeType d r)
      · rfl
    dsimp only
    unfold updateDeployment
    dsimp only
    split
    · exact (executors_modify _).trans hreplaced
    · exact (executors_modify _).trans hreplaced

theorem executors_crashed (d : Deployment) :
    (crashed cfg env st name d).executors = st.executors := by
  unfold crashed
  split
  · split
    · exact executors_startDeployment _ _
    · rfl
  · dsimp only
    refine executors_removeDeployment.trans
      ((declined_deactivate cfg env _ name).1.frame.executors.trans ?_)
    split <;> rfl

theorem executors_receiveLabelUpdate (p : Publication) :
    (receiveLabelUpdate cfg env st p).executors = st.executors := by
  have hsub : ∀ (st : DeploymentManager) sub_id, (setDeploymentSubId st sub_id).executors =
      st.executors := by
    intro st sub_id
    unfold setDeploymentSubId
    split
    · split <;> rfl
    · rfl
  exact hsub _ _

theorem executors_receiveLabelGet (h : receiveLabelGet st p = some st') :
    st'.executors = st.executors := by
  unfold receiveLabelGet at h
  split at h
  · rw [← Option.some.inj h]
  · split at h
    · rw [← Option.some.inj h]
    · obtain ⟨_, -, h⟩ := Option.bind_eq_some_iff.mp h
      obtain ⟨_, -, h⟩ := Option.bind_eq_some_iff.mp h
      obtain ⟨_, -, rfl⟩ := Option.map_eq_some_iff.mp h
      rfl

theorem executors_receiveLifetimeEvent (h : receiveLifetimeEvent cfg env st p = some st') :
    st'.executors = st.executors := by
  unfold receiveLifetimeEvent at h
  split at h
  · obtain ⟨name, -, h⟩ := Option.bind_eq_some_iff.mp h
    split at h
    · rw [← Option.some.inj h]
    · split at h
      · rw [← Option.some.inj h]
        exact executors_removeDeployment
      · obtain ⟨reason, -, rfl⟩ := Option.map_eq_some_iff.mp h
        split
        · exact executors_crashed _
        · rfl
  · rw [← Option.some.inj h]

theorem executors_receive (hstep : receive cfg env st p = some st')
    (hp : handlerOf p ≠ some .executorUpdate) :
    st'.executors = st.executors := by
  have hcleared : st.executors = { st with effects := [] }.executors := rfl
  unfold receive at hstep
  rw [hcleared]
  generalize { st with effects := [] } = st₀ at hstep ⊢
  cases hhandler : handlerOf p with
  | none =>
    rw [hhandler] at hstep
    rw [← Option.some.inj hstep]
  | some handler =>
    rw [hhandler] at hstep
    cases handler with
    | init =>
      rw [← Option.some.inj hstep]
      rfl
    | deployment =>
      obtain ⟨read, -, rfl⟩ := Option.map_eq_some_iff.mp hstep
      cases read with
      | none => rfl
      | some r => exact executors_deploy r.1 r.2
    | lifetimeEvent =>
      change receiveLifetimeEvent cfg env st₀ p = some st' at hstep
      exact executors_receiveLifetimeEvent hstep
    | ttlTimeout =>
      rw [← Option.some.inj hstep]
      exact expireAll_rel (R := fun st st' => st'.executors = st.executors) (fun _ => rfl)
        (fun {_ _ _} h h' => h'.trans h) (fun _ _ => rfl) fun _ _ _ => executors_retire
    | labelUpdate =>
      rw [← Option.some.inj hstep]
      exact executors_receiveLabelUpdate p
    | labelGet => exact executors_receiveLabelGet (show receiveLabelGet st₀ p = some st' from hstep)
    | unmanagedActorUpdate =>
      simp only [handle, receiveUnmanagedActorUpdate] at hstep
      split at hstep
      · obtain ⟨t, -, rfl⟩ := Option.map_eq_some_iff.mp hstep
        exact (grown_increment cfg env _ t).frame.executors
      · split at hstep
        · obtain ⟨t, -, rfl⟩ := Option.map_eq_some_iff.mp hstep
          exact (declined_decrement cfg env _ t).frame.executors
        · rw [← Option.some.inj hstep]
    | executorUpdate => exact absurd hhandler hp
    | deploymentCancelation =>
      simp only [handle, receiveDeploymentCancelation] at hstep
      split at hstep
      · obtain ⟨name, -, rfl⟩ := Option.map_eq_some_iff.mp hstep
        exact executors_retire
      · rw [← Option.some.inj hstep]

/-! ## One executor at a time -/

/-- No type ever has two executors. -/
def OneAtATime (messages : List (Surroundings × Publication)) : Prop :=
  ∀ pre post t, messages = pre ++ post → (registeredExecutors t pre).length ≤ 1

/-- No executor registers while it is registered. -/
def RegistersOnce (messages : List (Surroundings × Publication)) : Prop :=
  ∀ pre m post, messages = pre ++ m :: post → ∀ u ∈ executorUpdate m.2,
    u.command = .register → u.executor ∉ registeredExecutors u.actor_runtime_type pre

theorem ExecutorUpdate.executorsOf_apply_ne (u : ExecutorUpdate) {t : String}
    (ht : u.actor_runtime_type ≠ t) (happly : u.apply st = some st') :
    executorsOf st' t = executorsOf st t := by
  obtain ⟨command, t', e⟩ := u
  cases command with
  | register =>
    obtain rfl := Option.some.inj happly
    rw [executorsOf_registerExecutor, if_neg ht]
  | deregister =>
    rw [executorsOf_deregisterExecutor (show deregisterExecutor st t' e = some st' from happly),
      if_neg ht]

theorem executorsOf_apply {u : ExecutorUpdate} {executors : List ExecutorIdentifier}
    (hbefore : executorsOf st u.actor_runtime_type = [] ∨
      executorsOf st u.actor_runtime_type = executors)
    (hone : executors.length ≤ 1) (hafter : (u.follow executors).length ≤ 1)
    (hnew : u.command = .register → u.executor ∉ executors) (happly : u.apply st = some st') :
    executorsOf st' u.actor_runtime_type = [] ∨
      executorsOf st' u.actor_runtime_type = u.follow executors := by
  obtain ⟨command, t, e⟩ := u
  cases command with
  | register =>
    obtain rfl : executors = [] := by
      simp only [ExecutorUpdate.follow, if_neg (hnew rfl), List.length_append,
        List.length_singleton] at hafter
      exact List.length_eq_zero_iff.mp (by omega)
    have hnil : executorsOf st t = [] := hbefore.elim id id
    obtain rfl := Option.some.inj happly
    right
    rw [executorsOf_registerExecutor, if_pos rfl, if_pos hnil]
    rfl
  | deregister =>
    have hleft := executorsOf_deregisterExecutor (show deregisterExecutor st t e =
      some st' from happly) t
    rw [if_pos rfl] at hleft
    left
    cases hlist : executorsOf st t with
    | nil => rw [hleft, hlist, List.eraseP_nil]
    | cons x rest =>
      obtain rfl : rest = [] := by
        rcases hbefore with h | h
        · rw [hlist] at h
          cases h
        · rw [← h, hlist, List.length_cons] at hone
          exact List.length_eq_zero_iff.mp (by omega)
      have hsame : x.same e = true := by
        by_contra hother
        have hnone : deregisterExecutor st t e = none :=
          deregisterExecutor_eq_none_iff.mpr ⟨by simp [hlist], by simp [hlist, hother]⟩
        rw [show deregisterExecutor st t e = some st' from happly] at hnone
        cases hnone
      rw [hleft, hlist, List.eraseP_cons, hsame, cond_true]

theorem executorsOf_run {messages : List (Surroundings × Publication)} (hone : OneAtATime messages)
    (honce : RegistersOnce messages) {pre post : List (Surroundings × Publication)}
    (heq : messages = pre ++ post) (hrun : run cfg pre = some st) (t : String) :
    executorsOf st t = [] ∨
    executorsOf st t = registeredExecutors t pre := by
  induction pre using List.reverseRecOn generalizing post st with
  | nil =>
    obtain rfl := Option.some.inj hrun
    exact Or.inl rfl
  | append_singleton pre m ih =>
    have hsplit : messages = pre ++ m :: post := by
      rw [heq, List.append_assoc, List.singleton_append]
    unfold run at hrun
    rw [Runs.foldlM_snoc] at hrun
    obtain ⟨before, hbefore, hstep⟩ := Option.bind_eq_some_iff.mp hrun
    have hpre := ih hsplit hbefore
    rw [registeredExecutors_snoc]
    unfold registryStep
    by_cases hp : handlerOf m.2 = some .executorUpdate
    · rw [receive_executorUpdate hp] at hstep
      cases hu : executorUpdate m.2 with
      | none =>
        rw [hu] at hstep
        obtain rfl := Option.some.inj hstep
        exact hpre
      | some u =>
        rw [hu] at hstep
        dsimp only at hstep ⊢
        by_cases ht : u.actor_runtime_type = t
        · subst ht
          have hlength := hone (pre ++ [m]) post u.actor_runtime_type heq
          rw [registeredExecutors_snoc, registryStep, hu] at hlength
          dsimp only at hlength
          rw [if_pos rfl] at hlength ⊢
          have hcleared : executorsOf { before with effects := [] } u.actor_runtime_type = [] ∨
              executorsOf { before with effects := [] } u.actor_runtime_type =
                registeredExecutors u.actor_runtime_type pre := hpre
          exact executorsOf_apply hcleared (hone pre (m :: post) _ hsplit) hlength
            (honce pre m post hsplit u hu) hstep
        · rw [if_neg ht, u.executorsOf_apply_ne ht hstep]
          exact hpre
    · have hnone : executorUpdate m.2 = none := if_neg hp
      have hexecutors : executorsOf st t = executorsOf before t := by
        unfold executorsOf
        rw [executors_receive hstep hp]
      rw [hnone, hexecutors]
      exact hpre

/-! ## Spawns -/

/-- The runtime type in what is said about the code of a deployment. -/
def Effect.codeRuntimeType : Effect → Option String
  | .insertOrRefresh _ _ actor_runtime_type _ _ => some actor_runtime_type
  | .publish p => p.getStrAttr "actor_code_runtime_type"
  | _ => none

theorem codeRuntimeType_codeEffect (cfg : ManagerSettings) (d : Deployment)
    (actor_code : Option String) :
    Effect.codeRuntimeType (codeEffect cfg d actor_code) = some d.actor_runtime_type := by
  unfold codeEffect
  split
  · rfl
  · split <;> simp [Effect.codeRuntimeType, codeMessage, Publication.getStrAttr_setAttr_ne]

/-- Every spawn is one of a deployment, and goes to the executor of the runtime type that its code
is issued under. -/
def SpawnsMatch (cfg : ManagerSettings) (executors : String → List ExecutorIdentifier)
    (st : DeploymentManager) :
    Prop :=
  ∀ x ∈ st.spawns, ∃ name d e, Assoc.find name st.deployments = some d ∧
    (∀ actor_code, Effect.codeRuntimeType (codeEffect cfg d actor_code) =
      some d.actor_runtime_type) ∧
    executors d.actor_runtime_type = [e] ∧ x.1 = spawnMessage d e

/-- The first executors of the registry are these, and the spawns go to them. -/
structure Matched (cfg : ManagerSettings) (executors : String → List ExecutorIdentifier)
    (st : DeploymentManager) :
    Prop where
  tabled : ∀ t list, Assoc.find t st.executors = some list → executors t = [list.front]
  spawns : SpawnsMatch cfg executors st

section

variable {executors : String → List ExecutorIdentifier}

theorem spawnsMatch_of_spawns (h : st.spawns = []) : SpawnsMatch cfg executors st := by
  intro x hx
  rw [h] at hx
  cases hx

theorem SpawnsMatch.of_find (h : SpawnsMatch cfg executors st) (hspawns : st'.spawns = st.spawns)
    (hfind : ∀ name d, Assoc.find name st.deployments = some d →
      ∃ d', Assoc.find name st'.deployments = some d' ∧
      d'.actor_runtime_type = d.actor_runtime_type ∧ ∀ e, spawnMessage d' e = spawnMessage d e) :
    SpawnsMatch cfg executors st' := by
  intro x hx
  rw [hspawns] at hx
  obtain ⟨name, d, e, hd, -, he, hx⟩ := h x hx
  obtain ⟨d', hd', hruntime, hmessage⟩ := hfind name d hd
  exact ⟨name, d', e, hd', codeRuntimeType_codeEffect cfg d', by rw [hruntime, he], by rw [hx,
    hmessage]⟩

theorem SpawnsMatch.of_frame (h : SpawnsMatch cfg executors st) (hframe : Frame st st')
    (hspawns : st'.spawns = st.spawns) : SpawnsMatch cfg executors st' := by
  refine h.of_find hspawns fun name d hd => ?_
  obtain ⟨d', hd', hfixed⟩ := hframe.find hd
  exact ⟨d', hd', Deployment.of_fixed Deployment.actor_runtime_type (fun _ => rfl) hfixed,
    spawnMessage_of_fixed hfixed⟩

theorem SpawnsMatch.modify (h : SpawnsMatch cfg executors st) (name : String)
    {f : Deployment → Deployment} (hruntime : ∀ d, (f d).actor_runtime_type = d.actor_runtime_type)
    (hmessage : ∀ d e, spawnMessage (f d) e = spawnMessage d e) :
    SpawnsMatch cfg executors (st.modify name f) := by
  refine h.of_find (spawns_modify f) fun name' d' hd' => ?_
  cases hd : Assoc.find name st.deployments with
  | none =>
    unfold DeploymentManager.modify
    rw [hd]
    exact ⟨d', hd', rfl, fun _ => rfl⟩
  | some d =>
    rw [modify_eq hd]
    dsimp only
    rw [Assoc.find_put]
    split
    · rename_i heq
      obtain rfl := Option.some.inj (hd.symm.trans (heq ▸ hd'))
      exact ⟨f d, rfl, hruntime d, hmessage d⟩
    · exact ⟨d', hd', rfl, fun _ => rfl⟩

theorem Matched.of_frame (h : Matched cfg executors st) (hframe : Frame st st')
    (hspawns : st'.spawns = st.spawns) :
    Matched cfg executors st' :=
  ⟨fun t list ht => h.tabled t list (by rwa [← hframe.executors]), h.spawns.of_frame hframe hspawns⟩

theorem Matched.started {d : Deployment} {e : ExecutorIdentifier} (h : Matched cfg executors st)
    (he : executors d.actor_runtime_type = [e]) (hstarted : Started st name d e st') :
    Matched cfg executors st' := by
  obtain ⟨sub_id, hdeployments⟩ := hstarted.deployments
  refine ⟨fun t list ht => h.tabled t list (by rwa [← hstarted.frame.executors]), fun x hx => ?_⟩
  rw [hstarted.spawns, List.mem_append, List.mem_singleton] at hx
  rcases hx with hold | rfl
  · have hbefore : SpawnsMatch cfg executors { st' with effects := st.effects } :=
      h.spawns.of_frame ⟨hstarted.frame.executors, hstarted.frame.dependencies,
        hstarted.frame.ttl_end_times, hstarted.frame.deployments⟩ rfl
    exact hbefore x hold
  · refine ⟨name, { d with active := true, lifetime_subscription_id := sub_id, restarts :=
      d.restarts + 1 }, e, ?_, codeRuntimeType_codeEffect cfg _, he, rfl⟩
    rw [hdeployments, Assoc.find_put_self]

theorem Matched.increment (h : Matched cfg executors st) (actor_type : String) :
    Matched cfg executors (incrementDeployedActorTypeCount cfg env st actor_type) := by
  refine increment_rel (R := fun st st' => Matched cfg executors st → Matched cfg executors st')
    (fun _ h => h) (fun h₁ h₂ h => h₂ (h₁ h)) (fun st t count h =>
      h.of_frame (frame_setCount t count) rfl) ?_
    (fun st active inactive h => h.of_frame ⟨rfl, rfl, rfl, rfl⟩ rfl) st actor_type h
  intro st st₁ name d d' list st₂ hready hgrown _ hfixed hstarted h
  have hlist : Assoc.find d.actor_runtime_type st₁.executors = some list := by
    rw [hgrown.frame.executors]
    exact (readyOn_eq.mp hready).2.2
  refine h.started ?_ hstarted
  rw [Deployment.of_fixed Deployment.actor_runtime_type (fun _ => rfl) hfixed]
  exact h.tabled _ _ hlist

/-! ## Messages -/

theorem runtimeType_of_readAttributes {r : Request} {t : String} (h : readAttributes p t = some r) :
    r.actor_runtime_type = t := by
  unfold readAttributes at h
  obtain ⟨_, -, h⟩ := Option.bind_eq_some_iff.mp h
  obtain ⟨_, -, h⟩ := Option.bind_eq_some_iff.mp h
  obtain ⟨_, -, h⟩ := Option.bind_eq_some_iff.mp h
  obtain ⟨_, -, h⟩ := Option.bind_eq_some_iff.mp h
  obtain ⟨_, -, h⟩ := Option.bind_eq_some_iff.mp h
  obtain ⟨_, -, rfl⟩ := Option.map_eq_some_iff.mp h
  rfl

theorem executors_of_readDeployment {r : Request} {list : ExecutorList}
    (h : st.readDeployment p = some (some (r, list))) :
    Assoc.find r.actor_runtime_type st.executors = some list := by
  unfold readDeployment at h
  obtain ⟨t, -, h⟩ := Option.bind_eq_some_iff.mp h
  cases ht : Assoc.find t st.executors with
  | none =>
    rw [ht] at h
    cases Option.some.inj h
  | some list' =>
    rw [ht] at h
    dsimp only at h
    split at h
    · obtain ⟨met, -, h⟩ := Option.bind_eq_some_iff.mp h
      split at h
      · obtain ⟨r', hr', heq⟩ := Option.map_eq_some_iff.mp h
        obtain ⟨rfl, rfl⟩ := Prod.mk.inj (Option.some.inj heq)
        rw [runtimeType_of_readAttributes hr', ht]
      · cases Option.some.inj h
    · cases Option.some.inj h

/-- A message that replaces the type or the version of a deployment asks for a runtime type with its
executors. -/
def KeepsRuntime (executors : String → List ExecutorIdentifier) (st : DeploymentManager)
    (p : Publication) : Prop :=
  ∀ r list d, handlerOf p = some .deployment → st.readDeployment p = some (some (r, list)) →
    Assoc.find r.name st.deployments = some d → r.replaces d = true →
    executors d.actor_runtime_type = executors r.actor_runtime_type

theorem spawnsMatch_replace (hinv : Inv st) {d : Deployment} {r : Request} {list : ExecutorList}
    (htabled : ∀ t list, Assoc.find t st.executors = some list → executors t = [list.front])
    (hempty : st.spawns = []) (hd : Assoc.find r.name st.deployments = some d)
    (he : executors d.actor_runtime_type = [list.front]) :
    SpawnsMatch cfg executors (replaceDeployment cfg env st d r list) := by
  have hexchanged : Matched cfg executors (exchangeType cfg env st d r) :=
    ⟨fun t list ht => htabled t list (by rwa [← executors_exchangeType d r]),
      spawnsMatch_of_spawns ((spawns_exchangeType d r).trans hempty)⟩
  have hcascade : SpawnsMatch cfg executors
      (incrementDeployedActorTypeCount cfg env (exchangeType cfg env st d r)
    r.actor_type) := (hexchanged.increment r.actor_type).spawns
  obtain ⟨d', hd', -, hruntime⟩ := find_replaced cfg env hinv hd
  unfold replaceDeployment
  dsimp only
  generalize incrementDeployedActorTypeCount cfg env (exchangeType cfg env st d r) r.actor_type =
    st₁ at hcascade hd' ⊢
  obtain ⟨hspawns, -⟩ := startDeployment_alike hd' list.front 0
  rw [startDeployment_eq hd'] at hspawns ⊢
  have hkept := hcascade.modify r.name (f := fun d => { d with restarts := d.restarts + 1 })
    (fun _ => rfl) fun _ _ => rfl
  rw [modify_eq hd'] at hkept
  intro x hx
  rw [hspawns, List.mem_append, List.mem_singleton] at hx
  rcases hx with hold | rfl
  · exact hkept x hold
  · exact ⟨r.name, { d' with restarts := d'.restarts + 1 }, list.front, Assoc.find_put_self _ _ _,
      codeRuntimeType_codeEffect cfg _, by rw [← he, ← hruntime], rfl⟩

theorem SpawnsMatch.of_deployments (h : SpawnsMatch cfg executors st)
    (hspawns : st'.spawns = st.spawns) (hdeployments : st'.deployments = st.deployments) :
    SpawnsMatch cfg executors st' :=
  h.of_find hspawns fun _ d hd => ⟨d, by rwa [hdeployments], rfl, fun _ => rfl⟩

theorem spawnsMatch_insert {r : Request} {list : ExecutorList}
    (htabled : ∀ t list, Assoc.find t st.executors = some list → executors t = [list.front])
    (hempty : st.spawns = []) (he : executors r.actor_runtime_type = [list.front]) :
    SpawnsMatch cfg executors (insertDeployment cfg env st r (r.endTime env) list) := by
  have hrecorded : (recordDeployment cfg env st r (r.endTime env)).spawns = [] :=
    (spawns_recordDeployment r _).trans hempty
  by_cases hreq : (recordDeployment cfg env st r (r.endTime env)).requirementsCheck
      (r.deployment (r.endTime env) (env.subscribe (cancelationFilter cfg r.name))) = true
  · obtain ⟨d, st₁, active, hd, -, hstarted, heq⟩ := insertDeployment_eq list hreq
    have hmatched : Matched cfg executors (recordDeployment cfg env st r (r.endTime env)) :=
      ⟨htabled, spawnsMatch_of_spawns hrecorded⟩
    obtain ⟨d₀, hd₀, hfixed⟩ := (grown_increment cfg env _ r.actor_type).frame.find_back hd
    have hnew : Assoc.find r.name (recordDeployment cfg env st r (r.endTime env)).deployments =
        some _ :=
      Assoc.find_put_self _ _ _
    obtain rfl := Option.some.inj (hnew.symm.trans hd₀)
    have hruntime : d.actor_runtime_type = r.actor_runtime_type :=
      Deployment.of_fixed Deployment.actor_runtime_type (fun _ => rfl) hfixed
    rw [heq]
    exact ((hmatched.increment r.actor_type).started (hruntime ▸ he) hstarted).spawns.of_deployments
      rfl rfl
  · refine spawnsMatch_of_spawns ?_
    unfold insertDeployment
    dsimp only
    rw [if_neg hreq]
    exact hrecorded

theorem SpawnsMatch.update {d : Deployment} {r : Request} {list : ExecutorList}
    (h : SpawnsMatch cfg executors
      (if r.replaces d then replaceDeployment cfg env st d r list else st))
    (end_time : UInt32) : SpawnsMatch cfg executors
      (updateDeployment cfg env st d r end_time list) := by
  have hend := h.modify r.name (f := fun d => { d with lifetime_end := end_time }) (fun _ => rfl)
    fun _ _ => rfl
  unfold updateDeployment
  dsimp only
  generalize (if r.replaces d then replaceDeployment cfg env st d r list else st).modify r.name _ =
    st₁ at hend ⊢
  split
  · exact hend.of_deployments (alike_emit _ (codeEffect_spawn _ _)).spawns rfl
  · exact hend

theorem spawnsMatch_deploy (hinv : Inv st) {r : Request} {list : ExecutorList}
    (htabled : ∀ t list, Assoc.find t st.executors = some list → executors t = [list.front])
    (hempty : st.spawns = []) (hp : handlerOf p = some .deployment)
    (hr : st.readDeployment p = some (some (r, list))) (hkeeps : KeepsRuntime executors st p) :
    SpawnsMatch cfg executors (deploy cfg env st r list) := by
  have he : executors r.actor_runtime_type = [list.front] :=
    htabled _ _ (executors_of_readDeployment hr)
  obtain ⟨ends, effects, hdeploy⟩ := deploy_tables cfg env st r list
  have hspawns := (deploy_alike cfg env st r list).spawns
  have hdeployments := congrArg DeploymentManager.deployments hdeploy
  cases hd : Assoc.find r.name st.deployments with
  | none =>
    rw [hd] at hspawns hdeployments
    exact (spawnsMatch_insert htabled hempty he).of_deployments hspawns hdeployments
  | some d =>
    rw [hd] at hspawns hdeployments
    refine SpawnsMatch.of_deployments (SpawnsMatch.update ?_ (r.endTime env)) hspawns hdeployments
    split
    · rename_i hreplaces
      exact spawnsMatch_replace hinv htabled hempty hd
        ((hkeeps r list d hp hr hd hreplaces).trans he)
    · exact spawnsMatch_of_spawns hempty

theorem Received.spawnsMatch (h : Received cfg env st p st') (hinv : Inv st)
    (htabled : ∀ t list, Assoc.find t st.executors = some list → executors t = [list.front])
    (hempty : st.spawns = []) (hkeeps : KeepsRuntime executors st p) :
    SpawnsMatch cfg executors st' := by
  cases h with
  | quiet hquiet => exact spawnsMatch_of_spawns (hquiet.spawns.trans hempty)
  | deployed hp hr => exact spawnsMatch_deploy hinv htabled hempty hp hr hkeeps
  | cancelled hp hname => exact spawnsMatch_of_spawns (spawns_retire.trans hempty)
  | expired hp => exact spawnsMatch_of_spawns ((spawns_expireAll _ _).trans hempty)
  | overdue hp hexit hname hd hover => exact spawnsMatch_of_spawns (spawns_remove.trans hempty)
  | @crashed name d reason hp hexit hname hd hover hreason hcrash =>
    unfold DeploymentManager.crashed
    split
    · cases hlist : Assoc.find d.actor_runtime_type st.executors with
      | none => exact spawnsMatch_of_spawns hempty
      | some list =>
        obtain ⟨hspawns, -⟩ := startDeployment_alike hd list.front
          ((d.restarts + 1) * 1000).toUInt32
        intro x hx
        dsimp only at hx ⊢
        rw [hspawns, hempty, List.nil_append, List.mem_singleton] at hx
        rw [startDeployment_eq hd, hx]
        exact ⟨name, { d with restarts := d.restarts + 1 }, list.front, Assoc.find_put_self _ _ _,
          codeRuntimeType_codeEffect cfg _, htabled _ _ hlist, rfl⟩
    · refine spawnsMatch_of_spawns ?_
      dsimp only
      rw [spawns_remove, spawns_deactivate]
      split <;> exact hempty
  | @registered t hp hcommand htype =>
    exact (Matched.increment ⟨htabled, spawnsMatch_of_spawns hempty⟩ t).spawns
  | deregistered hp hcommand htype =>
      exact spawnsMatch_of_spawns ((spawns_decrement _).trans hempty)

/-! ## What an update has to ask for -/

theorem executor_of_spawnMessage {d d' : Deployment} {e e' : ExecutorIdentifier}
    (h : spawnMessage d e = spawnMessage d' e') : e = e' := by
  have hread : ∀ (d : Deployment) (e : ExecutorIdentifier),
      (spawnMessage d e).getStrAttr "node_id" = some e.node_id ∧
        (spawnMessage d e).getStrAttr "actor_type" = some e.actor_type ∧
        (spawnMessage d e).getStrAttr "instance_id" = some e.instance_id := by
    intro d e
    simp [spawnMessage, Publication.getStrAttr_setAttr_ne]
  obtain ⟨hnode, htype, hinstance⟩ := hread d e
  rw [h] at hnode htype hinstance
  obtain ⟨hnode', htype', hinstance'⟩ := hread d' e'
  cases e
  cases e'
  rw [hnode] at hnode'
  rw [htype] at htype'
  rw [hinstance] at hinstance'
  cases hnode'
  cases htype'
  cases hinstance'
  rfl

theorem runtimeType_deploy (cfg : ManagerSettings) (env : Surroundings) (hinv : Inv st)
    {d d' : Deployment} {r : Request} {list : ExecutorList}
    (hd : Assoc.find r.name st.deployments = some d)
    (hd' : Assoc.find r.name (deploy cfg env st r list).deployments = some d') :
    d'.actor_runtime_type = d.actor_runtime_type := by
  obtain ⟨ends, effects, hdeploy⟩ := deploy_tables cfg env st r list
  rw [hd] at hdeploy
  obtain ⟨d₁, hd₁, hruntime⟩ : ∃ d₁,
      Assoc.find r.name (if r.replaces d then replaceDeployment cfg env st d r list
        else st).deployments = some d₁ ∧
        d₁.actor_runtime_type = d.actor_runtime_type := by
    split
    · obtain ⟨d₁, hd₁, -, hruntime⟩ := find_replaced cfg env hinv hd
      unfold replaceDeployment
      dsimp only
      rw [startDeployment_eq hd₁]
      exact ⟨_, Assoc.find_put_self _ _ _, hruntime⟩
    · exact ⟨d, hd, rfl⟩
  have hupdated : (deploy cfg env st r list).deployments =
      (updateDeployment cfg env st d r (r.endTime env) list).deployments := by rw [hdeploy]
  rw [hupdated] at hd'
  unfold updateDeployment at hd'
  dsimp only at hd'
  rw [modify_eq hd₁] at hd'
  dsimp only at hd'
  rw [Assoc.find_put_self] at hd'
  have hlast : Assoc.find r.name (Assoc.put r.name { d₁ with lifetime_end := r.endTime env }
      (if r.replaces d then replaceDeployment cfg env st d r list else st).deployments) = some d' :=
        hd'
  rw [Assoc.find_put_self] at hlast
  rw [← Option.some.inj hlast]
  exact hruntime

theorem keepsRuntime_of_spawnsMatch (hinv : Inv st)
    (htabled : ∀ t list, Assoc.find t st.executors = some list → executors t = [list.front])
    (h : ∀ after, receive cfg env st p = some after → SpawnsMatch cfg executors after) :
    KeepsRuntime executors st p := by
  intro r list d hp hr hd hreplaces
  have hinv₀ : Inv { st with effects := [] } := hinv.of_eq rfl rfl rfl
  have hstep : receive cfg env st p = some (deploy cfg env { st with effects := [] } r list) :=
    receive_deployed hp hr
  have hafter := h _ hstep
  have hinv' := hinv.receive hstep
  have hspawns := (deploy_alike cfg env { st with effects := [] } r list).spawns
  have hupdated := (updateDeployment_alike cfg env { st with effects := [] } d r (r.endTime env)
    list).spawns
  obtain ⟨d', hname, hstarts, -⟩ := replaceDeployment_started cfg env hinv₀ hd list
  have hd₀ : Assoc.find r.name { st with effects := [] }.deployments = some d := hd
  rw [hd₀] at hspawns
  dsimp only at hspawns
  rw [if_pos hreplaces] at hupdated
  obtain ⟨name, d₂, e, hd₂, -, he, hmessage⟩ := hafter (spawnMessage d' list.front, 0)
    (by rw [hspawns, hupdated]; exact (hstarts _).mpr (Or.inr rfl))
  have hnames := congrArg spawnedName hmessage
  rw [spawnedName_spawnMessage, spawnedName_spawnMessage, hname, hinv'.names name d₂ hd₂] at hnames
  obtain rfl := Option.some.inj hnames
  rw [← runtimeType_deploy cfg env hinv₀ hd hd₂, he, ← executor_of_spawnMessage hmessage,
    htabled _ _ (executors_of_readDeployment hr)]

/-- With at most one executor of each type, which registers once, every spawn goes to the executor
of its deployment's runtime type exactly if every update that replaces a type or a version asks for
a runtime type with that executor. -/
theorem spawns_match_iff (messages : List (Surroundings × Publication)) (hone : OneAtATime messages)
    (honce : RegistersOnce messages) :
    (∀ pre m post before after, messages = pre ++ m :: post → run cfg pre = some before →
      receive cfg m.1 before m.2 = some after → SpawnsMatch cfg (fun t => registeredExecutors t pre)
        after) ↔
    ∀ pre m post before, messages = pre ++ m :: post → run cfg pre = some before →
      KeepsRuntime (fun t => registeredExecutors t pre) before m.2 := by
  have htabled : ∀ pre m post before, messages = pre ++ m :: post → run cfg pre = some before →
      ∀ t list, Assoc.find t before.executors = some list →
        registeredExecutors t pre = [list.front] := by
    intro pre m post before heq hrun t list ht
    have hlist : executorsOf before t = list.front :: list.rest := by
      unfold executorsOf
      rw [ht]
      rfl
    have hlength := hone pre (m :: post) t heq
    rcases executorsOf_run hone honce heq hrun t with hnil | hregistered
    · rw [hlist] at hnil
      cases hnil
    · rw [← hregistered, hlist] at hlength ⊢
      rw [List.length_cons] at hlength
      rw [List.length_eq_zero_iff.mp (show list.rest.length = 0 by omega)]
  constructor
  · intro h pre m post before heq hrun
    exact keepsRuntime_of_spawnsMatch (inv_run hrun) (htabled pre m post before heq hrun) fun after
      hstep =>
      h pre m post before after heq hrun hstep
  · intro h pre m post before after heq hrun hstep
    have hinv₀ : Inv { before with effects := [] } := (inv_run hrun).of_eq rfl rfl rfl
    exact (receive_cases hstep).spawnsMatch hinv₀ (htabled pre m post before heq hrun) rfl
      (h pre m post before heq hrun)

end

theorem oneAtATime_of_count {messages : List (Surroundings × Publication)}
    (h : messages.countP (fun m => (executorUpdate m.2).isSome) ≤ 1) : OneAtATime messages := by
  intro pre post t heq
  rw [heq, List.countP_append] at h
  have hle := length_registeredExecutors_le t pre
  omega

/-- A deployment that is updated under its runtime type. -/
def updatedDeployment : List (Surroundings × Publication) :=
  inOrder [executorMessage, deploymentMessage "d" "t" "1" "", deploymentMessage "d" "t" "2" ""]

theorem spawns_match_updated : ∃ before after, run nodeSettings (updatedDeployment.take 2) =
    some before ∧
    receive nodeSettings plainSurroundings before (deploymentMessage "d" "t" "2" "") = some after ∧
    after.spawns.map (fun x => x.1.getStrAttr "actor_type") = [some "lua_executor"] ∧
    SpawnsMatch nodeSettings (fun t => registeredExecutors t (updatedDeployment.take 2)) after := by
  obtain ⟨before, after, hbefore, hafter, hspawns⟩ : ∃ before after,
      run nodeSettings (updatedDeployment.take 2) = some before ∧
      receive nodeSettings plainSurroundings before (deploymentMessage "d" "t" "2" "") =
        some after ∧
      after.spawns.map (fun x => x.1.getStrAttr "actor_type") = [some "lua_executor"] :=
        ⟨_, _, rfl, rfl, rfl⟩
  refine ⟨before, after, hbefore, hafter, hspawns, ?_⟩
  refine (spawns_match_iff updatedDeployment (oneAtATime_of_count (by decide))
    (Runs.forall_split_iff.mpr (by decide))).mpr ?_ _ (plainSurroundings, _) [] before after
      rfl hbefore hafter
  have hmeets : ∀ pre m post, updatedDeployment = pre ++ m :: post →
      ∀ before, run nodeSettings pre = some before →
      KeepsRuntime (fun t => registeredExecutors t pre) before m.2 := by
    refine Runs.forall_split_iff.mpr ?_
    rintro ⟨_ | _ | _ | i, hi⟩ before hrun r list d hp hr hd -
    · exact nomatch hp
    · obtain rfl := Option.some.inj hrun
      exact nomatch hd
    · obtain rfl := Option.some.inj hrun
      obtain ⟨rfl, -⟩ := Prod.mk.inj (Option.some.inj (Option.some.inj hr))
      obtain rfl := Option.some.inj hd
      rfl
    · exact absurd hi (by simp [updatedDeployment, inOrder])
  exact fun pre m post before heq => hmeets pre m post heq before

/-- An executor of another runtime type, and a deployment. -/
def twoTypes : List (Surroundings × Publication) :=
  inOrder [executorMessage, registryMessage "register" "wasm" "node" "wasm_executor" "1",
    deploymentMessage "d" "t" "1" ""]

/-- An update of the deployment that names the other runtime type. -/
def otherRuntime : Publication :=
  (deploymentMessage "d" "t" "2" "").setAttr "deployment_actor_runtime_type" (.str "wasm")

/-- The update starts the deployment on the other executor. An executor that registers twice and
leaves once stays behind without its names, and the next deployment is started there. -/
theorem spawned_elsewhere :
    (∃ before after, run nodeSettings twoTypes = some before ∧
      receive nodeSettings plainSurroundings before otherRuntime = some after ∧
      after.spawns.map (fun x => (spawnedName x.1, x.1.getStrAttr "actor_type")) =
        [(some "d", some "wasm_executor")] ∧
      (Assoc.find "d" after.deployments).map Deployment.actor_runtime_type = some "lua" ∧
      registeredExecutors "lua" twoTypes = [⟨"node", "lua_executor", "1"⟩] ∧
      ¬ SpawnsMatch nodeSettings (fun t => registeredExecutors t twoTypes) after) ∧
    ∃ st, run nodeSettings (inOrder [executorMessage, executorMessage,
        registryMessage "deregister" "lua" "node" "lua_executor" "1", deploymentMessage "d" "t" "1"
          ""]) = some st ∧
      st.spawns.map (fun x => (spawnedName x.1, x.1.getStrAttr "actor_type")) =
        [(some "d", some "")] := by
  refine ⟨?_, _, rfl, rfl⟩
  obtain ⟨before, after, hbefore, hafter, hspawns, hruntime, hkeys⟩ : ∃ before after,
      run nodeSettings twoTypes = some before ∧
      receive nodeSettings plainSurroundings before otherRuntime = some after ∧
      after.spawns.map (fun x => (spawnedName x.1, x.1.getStrAttr "actor_type")) =
        [(some "d", some "wasm_executor")] ∧
      (Assoc.find "d" after.deployments).map Deployment.actor_runtime_type = some "lua" ∧
      Assoc.keys after.deployments = ["d"] := ⟨_, _, rfl, rfl, rfl, rfl, rfl⟩
  have hregistered : registeredExecutors "lua" twoTypes = [⟨"node", "lua_executor", "1"⟩] := by
    decide
  refine ⟨before, after, hbefore, hafter, hspawns, hruntime, hregistered, fun h => ?_⟩
  obtain ⟨x, hx⟩ : ∃ x, after.spawns = [x] :=
    List.length_eq_one_iff.mp (by simpa using congrArg List.length hspawns)
  obtain ⟨name, d, e, hd, -, he, hmessage⟩ := h x (by rw [hx]; exact List.mem_singleton_self x)
  obtain rfl : name = "d" := by
    have hmem : name ∈ Assoc.keys after.deployments := Assoc.mem_keys_iff.mpr ⟨d, hd⟩
    rwa [hkeys, List.mem_singleton] at hmem
  rw [hd] at hruntime
  rw [Option.some.inj hruntime] at he
  obtain rfl := List.singleton_inj.mp (hregistered.symm.trans he)
  rw [hx, List.map_singleton, hmessage] at hspawns
  simp [spawnMessage, Publication.getStrAttr_setAttr_ne] at hspawns

end DeploymentManager

end UActor
