import UActor.Controllers.Cascades
import UActor.Lib.Runs

/-!
# Requirements

In every state of the deployment manager, the types that an active deployment requires are there.
The index from types to the deployments that require them is exact, so no cascade misses one.
-/

namespace UActor

namespace DeploymentManager

variable {cfg : ManagerSettings} {env : Surroundings} {st st' : DeploymentManager} {name : String}

/-! ## Messages -/

/-- The message changes no deployment and starts none. -/
structure Quiet (st st' : DeploymentManager) : Prop where
  deployments : st'.deployments = st.deployments
  dependencies : st'.dependencies = st.dependencies
  deployed_actor_types : st'.deployed_actor_types = st.deployed_actor_types
  ttl_end_times : st'.ttl_end_times = st.ttl_end_times
  active_deployments : st'.active_deployments = st.active_deployments
  spawns : st'.spawns = st.spawns

theorem Quiet.refl (st : DeploymentManager) : Quiet st st := ⟨rfl, rfl, rfl, rfl, rfl, rfl⟩

theorem Quiet.trans {st₁ st₂ st₃ : DeploymentManager} (h : Quiet st₁ st₂) (h' : Quiet st₂ st₃) :
    Quiet st₁ st₃ :=
  ⟨h'.deployments.trans h.deployments, h'.dependencies.trans h.dependencies,
    h'.deployed_actor_types.trans h.deployed_actor_types, h'.ttl_end_times.trans h.ttl_end_times,
    h'.active_deployments.trans h.active_deployments, h'.spawns.trans h.spawns⟩

theorem quiet_emit (effect : Effect) (h : Effect.spawn effect = none) : Quiet st (st.emit effect) :=
  ⟨rfl, rfl, rfl, rfl, rfl, by rw [spawns_emit, h, Option.toList_none, List.append_nil]⟩

/-- What a message does, from a state without effects. -/
inductive Received (cfg : ManagerSettings) (env : Surroundings) (st : DeploymentManager)
    (p : Publication) :
    DeploymentManager → Prop
  | quiet {st' : DeploymentManager} (h : Quiet st st') : Received cfg env st p st'
  | deployed {r : Request} {executors : ExecutorList} (hp : handlerOf p = some .deployment)
    (hr : st.readDeployment p = some (some (r, executors))) :
    Received cfg env st p (deploy cfg env st r executors)
  | cancelled {name : String} (hp : handlerOf p = some .deploymentCancelation)
    (hname : p.getStrAttr "deployment_name" = some name) :
    Received cfg env st p (retire cfg env st name)
  | expired (hp : handlerOf p = some .ttlTimeout) :
      Received cfg env st p (receiveTtlTimeout cfg env st)
  | overdue {name : String} {d : Deployment} (hp : handlerOf p = some .lifetimeEvent)
    (hexit : p.getStrAttr "type" = some "actor_exit")
    (hname : p.getStrAttr "lifetime_instance_id" = some name)
    (hd : Assoc.find name st.deployments = some d)
    (hover : Deployment.overdue d (env.now 0) = true) :
    Received cfg env st p (removeDeployment st name)
  | crashed {name : String} {d : Deployment} {reason : String}
      (hp : handlerOf p = some .lifetimeEvent)
    (hexit : p.getStrAttr "type" = some "actor_exit")
    (hname : p.getStrAttr "lifetime_instance_id" = some name)
    (hd : Assoc.find name st.deployments = some d)
    (hover : Deployment.overdue d (env.now 0) = false)
    (hreason : p.getStrAttr "exit_reason" = some reason) (hcrash : reason ≠ "clean_exit") :
    Received cfg env st p (crashed cfg env st name d)
  | registered {actor_type : String} (hp : handlerOf p = some .unmanagedActorUpdate)
    (hcommand : p.getStrAttr "command" = some "register")
    (htype : p.getStrAttr "update_actor_type" = some actor_type) :
    Received cfg env st p (incrementDeployedActorTypeCount cfg env st actor_type)
  | deregistered {actor_type : String} (hp : handlerOf p = some .unmanagedActorUpdate)
    (hcommand : p.getStrAttr "command" = some "deregister")
    (htype : p.getStrAttr "update_actor_type" = some actor_type) :
    Received cfg env st p (decrementDeployedActorTypeCount cfg env st actor_type)

theorem quiet_receiveInit : Quiet st (receiveInit cfg env st) := by
  have hfold : ∀ (types : List String) (st : DeploymentManager),
      Quiet st (types.foldl (fun st type =>
      st.emit (.subscribe (nodeFilter cfg type) (env.subscribe (nodeFilter cfg type)))) st) := by
    intro types
    induction types with
    | nil => exact fun st => .refl st
    | cons type types ih => exact fun st => (quiet_emit _ rfl).trans (ih _)
  exact hfold _ st

theorem quiet_setDeploymentSubId (sub_id : UInt32) : Quiet st (setDeploymentSubId st sub_id) := by
  have hid : Quiet st { st with deployment_sub_id := sub_id } := ⟨rfl, rfl, rfl, rfl, rfl, rfl⟩
  unfold setDeploymentSubId
  split
  · split
    · exact hid.trans (quiet_emit _ rfl)
    · exact hid
  · exact .refl st

theorem quiet_receiveLabelUpdate (p : Publication) :
    Quiet st (receiveLabelUpdate cfg env st p) := by
  have hlabels : Quiet st { st with labels := updatedLabels st p } := ⟨rfl, rfl, rfl, rfl, rfl, rfl⟩
  exact ((hlabels.trans (quiet_emit _ rfl)).trans (quiet_setDeploymentSubId _)).trans
    (quiet_emit _ rfl)

theorem quiet_receiveLabelGet {p : Publication} (h : receiveLabelGet st p = some st') :
    Quiet st st' := by
  unfold receiveLabelGet at h
  split at h
  · rw [← Option.some.inj h]
    exact .refl st
  · split at h
    · rw [← Option.some.inj h]
      exact .refl st
    · obtain ⟨_, -, h⟩ := Option.bind_eq_some_iff.mp h
      obtain ⟨_, -, h⟩ := Option.bind_eq_some_iff.mp h
      obtain ⟨_, -, rfl⟩ := Option.map_eq_some_iff.mp h
      exact quiet_emit _ rfl

theorem quiet_receiveExecutorUpdate {p : Publication} (h : receiveExecutorUpdate st p = some st') :
    Quiet st st' := by
  unfold receiveExecutorUpdate at h
  split at h
  · split at h
    · rw [← Option.some.inj h]
      exact ⟨rfl, rfl, rfl, rfl, rfl, rfl⟩
    · split at h
      · unfold deregisterExecutor at h
        split at h
        · rw [← Option.some.inj h]
          exact .refl st
        · split at h
          · exact absurd h (by simp)
          · rw [← Option.some.inj h]
            exact ⟨rfl, rfl, rfl, rfl, rfl, rfl⟩
      · rw [← Option.some.inj h]
        exact .refl st
  · rw [← Option.some.inj h]
    exact .refl st

theorem receive_cases {p : Publication} (h : receive cfg env st p = some st') :
    Received cfg env { st with effects := [] } p st' := by
  unfold receive at h
  generalize { st with effects := [] } = st₀ at h ⊢
  cases hp : handlerOf p with
  | none =>
    rw [hp] at h
    rw [← Option.some.inj h]
    exact .quiet (.refl st₀)
  | some handler =>
    rw [hp] at h
    cases handler with
    | init =>
      rw [← Option.some.inj h]
      exact .quiet quiet_receiveInit
    | deployment =>
      obtain ⟨read, hread, rfl⟩ := Option.map_eq_some_iff.mp (show (st₀.readDeployment p).map _ =
        some st' from h)
      cases read with
      | none => exact .quiet (.refl st₀)
      | some r => exact .deployed hp hread
    | lifetimeEvent =>
      change receiveLifetimeEvent cfg env st₀ p = some st' at h
      unfold receiveLifetimeEvent at h
      split at h
      · rename_i hexit
        obtain ⟨name, hname, h⟩ := Option.bind_eq_some_iff.mp h
        split at h
        · rw [← Option.some.inj h]
          exact .quiet (.refl st₀)
        · rename_i d hd
          split at h
          · rename_i hover
            rw [← Option.some.inj h]
            exact .overdue hp hexit hname hd hover
          · rename_i hover
            obtain ⟨reason, hreason, h⟩ := Option.map_eq_some_iff.mp h
            split at h
            · rename_i hcrash
              rw [← h]
              exact .crashed hp hexit hname hd (by simpa using hover) hreason hcrash
            · rw [← h]
              exact .quiet (.refl st₀)
      · rw [← Option.some.inj h]
        exact .quiet (.refl st₀)
    | ttlTimeout =>
      rw [← Option.some.inj h]
      exact .expired hp
    | labelUpdate =>
      rw [← Option.some.inj h]
      exact .quiet (quiet_receiveLabelUpdate p)
    | labelGet => exact .quiet (quiet_receiveLabelGet h)
    | unmanagedActorUpdate =>
      change receiveUnmanagedActorUpdate cfg env st₀ p = some st' at h
      unfold receiveUnmanagedActorUpdate at h
      split at h
      · rename_i hcommand
        obtain ⟨actor_type, htype, rfl⟩ := Option.map_eq_some_iff.mp h
        exact .registered hp hcommand htype
      · split at h
        · rename_i hcommand
          obtain ⟨actor_type, htype, rfl⟩ := Option.map_eq_some_iff.mp h
          exact .deregistered hp hcommand htype
        · rw [← Option.some.inj h]
          exact .quiet (.refl st₀)
    | executorUpdate => exact .quiet (quiet_receiveExecutorUpdate h)
    | deploymentCancelation =>
      change receiveDeploymentCancelation cfg env st₀ p = some st' at h
      unfold receiveDeploymentCancelation at h
      split at h
      · obtain ⟨name, hname, rfl⟩ := Option.map_eq_some_iff.mp h
        exact .cancelled hp hname
      · rw [← Option.some.inj h]
        exact .quiet (.refl st₀)

/-! ## Handlers by message -/

theorem receive_deployment {p : Publication} (hp : handlerOf p = some .deployment) :
    receive cfg env st p =
    (readDeployment { st with effects := [] } p).map fun
      | none => { st with effects := [] }
      | some (r, executors) => deploy cfg env { st with effects := [] } r executors := by
  unfold receive
  rw [hp]
  rfl

theorem receive_register {p : Publication} (hp : handlerOf p = some .unmanagedActorUpdate)
    (hcommand : p.getStrAttr "command" = some "register") :
    receive cfg env st p = (p.getStrAttr "update_actor_type").map
      (incrementDeployedActorTypeCount cfg env { st with effects := [] }) := by
  unfold receive
  rw [hp]
  show receiveUnmanagedActorUpdate cfg env { st with effects := [] } p = _
  unfold receiveUnmanagedActorUpdate
  rw [if_pos hcommand]

theorem receive_deregister {p : Publication} (hp : handlerOf p = some .unmanagedActorUpdate)
    (hcommand : p.getStrAttr "command" = some "deregister") :
    receive cfg env st p = (p.getStrAttr "update_actor_type").map
      (decrementDeployedActorTypeCount cfg env { st with effects := [] }) := by
  unfold receive
  rw [hp]
  show receiveUnmanagedActorUpdate cfg env { st with effects := [] } p = _
  unfold receiveUnmanagedActorUpdate
  rw [if_neg (by rw [hcommand]; decide), if_pos hcommand]

theorem receive_exit {p : Publication} {d : Deployment} (hp : handlerOf p = some .lifetimeEvent)
    (hexit : p.getStrAttr "type" = some "actor_exit")
    (hname : p.getStrAttr "lifetime_instance_id" = some name)
    (hd : Assoc.find name st.deployments = some d) :
      receive cfg env st p = if Deployment.overdue d (env.now 0) then
        some (removeDeployment { st with effects := [] } name)
      else (p.getStrAttr "exit_reason").map fun exit_reason =>
        if exit_reason ≠ "clean_exit" then crashed cfg env { st with effects := [] } name d
        else { st with effects := [] } := by
  unfold receive
  rw [hp]
  show receiveLifetimeEvent cfg env { st with effects := [] } p = _
  unfold receiveLifetimeEvent
  rw [if_pos hexit, hname, Option.bind_some]
  dsimp only
  rw [hd]

theorem deploy_tables (cfg : ManagerSettings) (env : Surroundings) (st : DeploymentManager)
    (r : Request) (executors : ExecutorList) :
    ∃ ends effects, deploy cfg env st r executors = { match Assoc.find r.name st.deployments with
      | none => insertDeployment cfg env st r (r.endTime env) executors
      | some d => updateDeployment cfg env st d r (r.endTime env) executors with
        ttl_end_times := ends, effects := effects } := by
  unfold deploy
  dsimp only
  split
  · split
    · exact ⟨_, _, rfl⟩
    · exact ⟨_, _, rfl⟩
  · exact ⟨_, _, rfl⟩

/-! ## The invariant -/

structure Inv (st : DeploymentManager) : Prop where
  unique : (Assoc.keys st.deployments).Nodup
  names : ∀ name d, Assoc.find name st.deployments = some d → d.name = name
  /-- The deployments that require a type. -/
  index : ∀ t name, name ∈ Multimap.members t st.dependencies ↔
    ∃ d, Assoc.find name st.deployments = some d ∧ t ∈ d.required_actors
  provided : ∀ name d, Assoc.find name st.deployments = some d → d.active = true →
    ∀ t ∈ d.required_actors, st.hasType t = true

theorem inv_init : Inv init := by
  refine ⟨List.nodup_nil, ?_, ?_, ?_⟩
  · intro name d hd
    simp [init] at hd
  · intro t name
    simp [init, Multimap.members]
  · intro name d hd
    simp [init] at hd

theorem Inv.of_eq (h : Inv st) (hdeployments : st'.deployments = st.deployments)
    (hdependencies : st'.dependencies = st.dependencies)
    (htypes : st'.deployed_actor_types = st.deployed_actor_types) : Inv st' := by
  refine ⟨?_, ?_, ?_, ?_⟩
  · rw [hdeployments]
    exact h.unique
  · rw [hdeployments]
    exact h.names
  · rw [hdeployments, hdependencies]
    exact h.index
  · rw [hdeployments]
    unfold hasType
    rw [htypes]
    exact h.provided

theorem Inv.of_frame (h : Inv st) (hframe : Frame st st')
    (hprovided : ∀ name d, Assoc.find name st'.deployments = some d → d.active = true →
      ∀ t ∈ d.required_actors, st'.hasType t = true) : Inv st' := by
  refine ⟨?_, ?_, ?_, hprovided⟩
  · rw [hframe.keys]
    exact h.unique
  · intro name d hd
    obtain ⟨d₀, hd₀, hfixed⟩ := hframe.find_back hd
    rw [Deployment.name_of_fixed hfixed, h.names name d₀ hd₀]
  · intro t name
    rw [hframe.dependencies, h.index]
    constructor
    · rintro ⟨d, hd, ht⟩
      obtain ⟨d', hd', hfixed⟩ := hframe.find hd
      exact ⟨d', hd', by rwa [Deployment.required_of_fixed hfixed]⟩
    · rintro ⟨d', hd', ht⟩
      obtain ⟨d, hd, hfixed⟩ := hframe.find_back hd'
      exact ⟨d, hd, by rwa [← Deployment.required_of_fixed hfixed]⟩

theorem requirementsCheck_iff {d : Deployment} :
    st.requirementsCheck d = true ↔ ∀ t ∈ d.required_actors, st.hasType t = true :=
  List.all_eq_true

theorem Inv.declined (h : Inv st) (hdeclined : Declined st st') : Inv st' := by
  refine h.of_frame hdeclined.frame fun name d hd hactive t ht => ?_
  obtain ⟨d₀, hd₀, hactive₀⟩ := hdeclined.active name ⟨d, hd, hactive⟩
  obtain ⟨d₁, hd₁, hfixed⟩ := hdeclined.frame.find_back hd
  obtain rfl : d₁ = d₀ := Option.some.inj (hd₁.symm.trans hd₀)
  have ht₀ : t ∈ d₁.required_actors := by rwa [← Deployment.required_of_fixed hfixed]
  -- a type that is gone would have taken the deployment with it
  cases hgone : st'.hasType t with
  | true => rfl
  | false =>
    have hmem := (h.index t name).mpr ⟨d₁, hd₁, ht₀⟩
    exact absurd ⟨d, hd, hactive⟩ (hdeclined.cleared t name (h.provided name d₁ hd₁ hactive₀ t ht₀)
      hgone hmem)

theorem Inv.setCount (h : Inv st) (actor_type : String) (count : UInt32) :
    Inv (st.setCount actor_type count) :=
  h.of_frame (frame_setCount _ _) fun name d hd hactive t ht =>
    (grown_setCount actor_type count).types t (h.provided name d hd hactive t ht)

theorem Inv.started {d : Deployment} {executor : ExecutorIdentifier} (h : Inv st)
    (hreq : st.requirementsCheck d = true) (hstarted : Started st name d executor st') :
    Inv st' := by
  obtain ⟨sub_id, hdeployments⟩ := hstarted.deployments
  refine h.of_frame hstarted.frame fun name' d' hd' hactive t ht => ?_
  rw [hstarted.hasType]
  rw [hdeployments, Assoc.find_put] at hd'
  split at hd'
  · obtain rfl := Option.some.inj hd'
    exact requirementsCheck_iff.mp hreq t ht
  · exact h.provided name' d' hd' hactive t ht

theorem requirementsCheck_grown (h : Grown st st') {d d' : Deployment} (hfixed : d'.fixed = d.fixed)
    (hreq : st.requirementsCheck d = true) : st'.requirementsCheck d' = true := by
  rw [requirementsCheck_iff] at hreq ⊢
  rw [Deployment.required_of_fixed hfixed]
  exact fun t ht => h.types t (hreq t ht)

theorem Inv.actorTypeAdded (h : Inv st) (actor_type : String) :
    Inv (actorTypeAdded cfg env st actor_type) := by
  refine actorTypeAdded_rel (R := fun st st' => Inv st → Inv st') (fun _ h => h) (fun h₁ h₂ h =>
    h₂ (h₁ h)) (fun st t count h => h.setCount t count) ?_ (fun st _ _ h => h.of_eq rfl rfl rfl) st
      actor_type h
  intro st st₁ name d d' executors st₂ hready hgrown _ hfixed hstarted h
  exact h.started (requirementsCheck_grown hgrown hfixed (readyOn_eq.mp hready).2.1) hstarted

theorem Inv.increment (h : Inv st) (actor_type : String) :
    Inv (incrementDeployedActorTypeCount cfg env st actor_type) := by
  unfold incrementDeployedActorTypeCount incrementWith
  split
  · exact h.setCount _ _
  · exact (h.setCount _ _).actorTypeAdded actor_type

theorem visitAdded_started (cfg : ManagerSettings) (env : Surroundings)
    {d : Deployment} {executors : ExecutorList} (h : st.readyOn name = some (d, executors)) :
    ∃ d' st₁, Assoc.find name (incrementDeployedActorTypeCount cfg env st
      d.actor_type).deployments = some d' ∧
      d'.fixed = d.fixed ∧
      Started (incrementDeployedActorTypeCount cfg env st d.actor_type) name d'
        executors.front st₁ ∧
      ∃ active inactive, visitAdded cfg env (DeploymentManager.actorTypeAdded cfg env) st name =
        { st₁ with active_deployments := active, inactive_deployments := inactive } := by
  obtain ⟨d', hd', hfixed, hstarted⟩ :=
    (grown_increment cfg env st d.actor_type).started cfg env (readyOn_eq.mp h).1 executors.front
  exact ⟨d', _, hd', hfixed, hstarted, _, _, visitAdded_ready h _⟩

theorem Inv.visitAdded (h : Inv st) (name : String) :
    Inv (visitAdded cfg env (DeploymentManager.actorTypeAdded cfg env) st name) := by
  cases hready : st.readyOn name with
  | none =>
    rw [visitAdded_waits hready]
    exact h
  | some r =>
    obtain ⟨d, executors⟩ := r
    obtain ⟨d', st₁, -, hfixed, hstarted, active, inactive, heq⟩ :=
      visitAdded_started cfg env hready
    rw [heq]
    have hreq := requirementsCheck_grown (grown_increment cfg env st d.actor_type) hfixed
      (readyOn_eq.mp hready).2.1
    exact ((h.increment d.actor_type).started hreq hstarted).of_eq rfl rfl rfl

theorem Inv.requires_of_split (h : Inv st) {u b : String} {pre post : List String}
    (heq : dependents env st u = pre ++ b :: post) :
    ∃ d, Assoc.find b st.deployments = some d ∧ u ∈ d.required_actors := by
  have hmem : b ∈ dependents env st u := by
    rw [heq]
    simp
  exact (h.index u b).mp (mem_dependents.mp hmem)

/-- A deployment that had all that it requires before the type appeared is not visited. -/
theorem untouched_actorTypeAdded (h : Inv st) {u : String} {d : Deployment}
    (hd : Assoc.find name st.deployments = some d)
    (hrequired : ∀ r ∈ d.required_actors, st.hasType r = true ∧ r ≠ u) :
    Assoc.find name (actorTypeAdded cfg env st u).deployments = some d := by
  refine (actorTypeAdded_ind (P := fun st u _ st' => Inv st → Inv st' ∧ Grown st st' ∧
    ∀ name d, Assoc.find name st.deployments = some d →
    (∀ r ∈ d.required_actors, st.hasType r = true ∧ r ≠ u) →
      Assoc.find name st'.deployments = some d) (fun st _ h => ⟨h, .refl st, fun _ _ hd _ => hd⟩)
    (fun st u pre b post heq hpre hcalls h => ?_) st u h).2.2 name d hd hrequired
  obtain ⟨hmid, hgrown, huntouched⟩ := hpre h
  have hb := h.requires_of_split heq
  generalize pre.foldl _ st = mid at hmid hgrown huntouched hcalls ⊢
  refine ⟨hmid.visitAdded b, hgrown.trans (grown_visitAdded fun _ _ _ => grown_actorTypeAdded _ _),
    ?_⟩
  intro name d hd hrequired
  have hdmid := huntouched name d hd hrequired
  cases hready : mid.readyOn b with
  | none =>
    rw [visitAdded_waits hready]
    exact hdmid
  | some r =>
    obtain ⟨db, executors⟩ := r
    have hne : b ≠ name := by
      rintro rfl
      obtain ⟨d₀, hd₀, hu⟩ := hb
      obtain rfl := Option.some.inj (hd.symm.trans hd₀)
      exact (hrequired u hu).2 rfl
    obtain ⟨d', st₁, -, -, hstarted, active, inactive, hvisit⟩ := visitAdded_started cfg env hready
    have hincrement : Assoc.find name (incrementDeployedActorTypeCount cfg env mid
        db.actor_type).deployments =
      some d := by
      unfold incrementDeployedActorTypeCount incrementWith
      cases hcount : Assoc.find db.actor_type mid.deployed_actor_types with
      | some c => exact hdmid
      | none =>
        have hnew := not_hasType_iff.mpr hcount
        have hbelow := hcalls _ db.actor_type (waiting_setCount (readyOn_eq.mp hready).1 hnew 1)
          (hmid.setCount _ _)
        refine hbelow.2.2 name d hdmid fun r hr => ?_
        have hhas := hgrown.types r (hrequired r hr).1
        refine ⟨(grown_setCount db.actor_type 1).types r hhas, ?_⟩
        rintro rfl
        rw [hnew] at hhas
        exact absurd hhas (by simp)
    obtain ⟨sub_id, hdeployments⟩ := hstarted.deployments
    rw [hvisit]
    show Assoc.find name st₁.deployments = some d
    rw [hdeployments, Assoc.find_put_ne hne]
    exact hincrement

theorem Inv.activate (h : Inv st) {d : Deployment} (hd : Assoc.find name st.deployments = some d)
    (hreq : st.requirementsCheck d = true) (executor : ExecutorIdentifier) :
    Inv (activateDeployment cfg env st name executor) := by
  unfold activateDeployment activateWith
  rw [hd]
  have hgrown := grown_increment cfg env st d.actor_type
  obtain ⟨d', -, hfixed, hstarted⟩ := hgrown.started cfg env hd executor
  exact (h.increment d.actor_type).started (requirementsCheck_grown hgrown hfixed hreq) hstarted

/-! ## Handlers -/

theorem Inv.modify (h : Inv st) (name : String) {f : Deployment → Deployment}
    (hname : ∀ d, (f d).name = d.name) (hrequired : ∀ d, (f d).required_actors = d.required_actors)
    (hactive : ∀ d, (f d).active = d.active) :
    Inv (st.modify name f) := by
  cases hd : Assoc.find name st.deployments with
  | none =>
    unfold DeploymentManager.modify
    rw [hd]
    exact h
  | some d =>
    rw [modify_eq hd]
    have hfind : ∀ name' d', Assoc.find name' (Assoc.put name (f d) st.deployments) = some d' →
        ∃ d₀, Assoc.find name' st.deployments = some d₀ ∧ d'.name = d₀.name ∧
          d'.required_actors = d₀.required_actors ∧ d'.active = d₀.active := by
      intro name' d' hd'
      rw [Assoc.find_put] at hd'
      split at hd'
      · rename_i heq
        rw [← Option.some.inj hd', ← heq]
        exact ⟨d, hd, hname d, hrequired d, hactive d⟩
      · exact ⟨d', hd', rfl, rfl, rfl⟩
    refine ⟨Assoc.keys_put_nodup h.unique _ _, ?_, ?_, ?_⟩
    · intro name' d' hd'
      obtain ⟨d₀, hd₀, hn, -⟩ := hfind name' d' hd'
      rw [hn, h.names name' d₀ hd₀]
    · intro t name'
      rw [h.index]
      constructor
      · rintro ⟨d₀, hd₀, ht⟩
        by_cases heq : name = name'
        · subst heq
          obtain rfl := Option.some.inj (hd.symm.trans hd₀)
          exact ⟨f d, Assoc.find_put_self _ _ _, by rwa [hrequired]⟩
        · exact ⟨d₀, by rw [Assoc.find_put_ne heq]; exact hd₀, ht⟩
      · rintro ⟨d', hd', ht⟩
        obtain ⟨d₀, hd₀, -, hr, -⟩ := hfind name' d' hd'
        exact ⟨d₀, hd₀, by rwa [← hr]⟩
    · intro name' d' hd' ha t ht
      obtain ⟨d₀, hd₀, -, hr, hact⟩ := hfind name' d' hd'
      exact h.provided name' d₀ hd₀ (hact ▸ ha) t (hr ▸ ht)

theorem Inv.emit (h : Inv st) (effect : Effect) : Inv (st.emit effect) := h.of_eq rfl rfl rfl

theorem Inv.startDeployment (h : Inv st) (name : String) (executor : ExecutorIdentifier)
    (delay : UInt32) :
    Inv (st.startDeployment name executor delay) := by
  unfold DeploymentManager.startDeployment
  split
  · exact (h.emit _).modify name (fun _ => rfl) (fun _ => rfl) fun _ => rfl
  · exact h

theorem removeDeployment_tables {d : Deployment} (hd : Assoc.find name st.deployments = some d) :
    (removeDeployment st name).deployments = Assoc.erase name st.deployments ∧
      (removeDeployment st name).dependencies =
        d.required_actors.foldl (fun m actor_type => (Multimap.remove actor_type name m).1)
          st.dependencies ∧
      (removeDeployment st name).deployed_actor_types = st.deployed_actor_types ∧
      (removeDeployment st name).spawns = st.spawns ∧
        (removeDeployment st name).ttl_end_times = st.ttl_end_times := by
  unfold removeDeployment
  rw [hd]
  dsimp only
  have hspawns : ∀ (st : DeploymentManager) id, (st.emit (.unsubscribe id)).spawns = st.spawns :=
    fun st id => (quiet_emit _ rfl).spawns
  split <;> split <;> refine ⟨rfl, rfl, rfl, ?_, rfl⟩
  · exact (hspawns _ _).trans (hspawns _ _)
  · exact hspawns _ _
  · exact hspawns _ _
  · rfl

theorem Inv.remove (h : Inv st) (name : String) : Inv (removeDeployment st name) := by
  cases hd : Assoc.find name st.deployments with
  | none =>
    unfold removeDeployment
    rw [hd]
    exact h
  | some d =>
    obtain ⟨hdeployments, hdependencies, htypes, -, -⟩ := removeDeployment_tables hd
    have hfind : ∀ name' d', Assoc.find name' (removeDeployment st name).deployments = some d' →
        name ≠ name' ∧ Assoc.find name' st.deployments = some d' := by
      intro name' d' hd'
      rw [hdeployments, Assoc.find_erase] at hd'
      split at hd'
      · exact absurd hd' (by simp)
      · rename_i hne
        exact ⟨hne, hd'⟩
    refine ⟨?_, ?_, ?_, ?_⟩
    · rw [hdeployments]
      exact Assoc.keys_erase_nodup h.unique name
    · intro name' d' hd'
      exact h.names name' d' (hfind name' d' hd').2
    · intro t name'
      rw [hdependencies, Multimap.mem_members_removeAll, h.index]
      constructor
      · rintro ⟨⟨d', hd', ht⟩, hnot⟩
        have hne : name ≠ name' := by
          rintro rfl
          obtain rfl := Option.some.inj (hd.symm.trans hd')
          exact hnot ⟨ht, rfl⟩
        refine ⟨d', ?_, ht⟩
        rw [hdeployments, Assoc.find_erase, if_neg hne]
        exact hd'
      · rintro ⟨d', hd', ht⟩
        obtain ⟨hne, hd'⟩ := hfind name' d' hd'
        exact ⟨⟨d', hd', ht⟩, fun hand => hne hand.2.symm⟩
    · intro name' d' hd' hactive t ht
      unfold hasType
      rw [htypes]
      exact h.provided name' d' (hfind name' d' hd').2 hactive t ht

theorem Inv.retire (h : Inv st) (name : String) : Inv (retire cfg env st name) := by
  unfold DeploymentManager.retire
  split
  · have hdeactivated : Inv (deactivateDeployment cfg env st name) :=
      h.declined (declined_deactivate cfg env st name).1
    dsimp only
    split
    · exact hdeactivated.of_eq rfl rfl rfl
    · refine Inv.remove ?_ name
      exact hdeactivated.of_eq rfl rfl rfl
  · exact h

theorem Inv.expire (h : Inv st) (end_time : UInt32) (name : String) :
    Inv (expire cfg env end_time st name) := by
  unfold DeploymentManager.expire
  split
  · split
    · exact h.retire name
    · exact h
  · exact h

theorem Inv.expireAll (h : Inv st) (ends : List (UInt32 × List String)) (reading : Nat) :
    Inv (expireAll cfg env ends reading st) := by
  induction ends generalizing reading st with
  | nil => exact h
  | cons e ends ih =>
    unfold DeploymentManager.expireAll
    split
    · refine ih ?_ (reading + 1)
      have hfold : ∀ (names : List String) (st : DeploymentManager), Inv st →
          Inv (names.foldl (DeploymentManager.expire cfg env e.1) st) := by
        intro names
        induction names with
        | nil => exact fun _ h => h
        | cons name names ih' => exact fun _ h => ih' _ (h.expire e.1 name)
      exact (hfold e.2 st h).of_eq rfl rfl rfl
    · exact h

theorem Inv.crashed (h : Inv st) (name : String) (d : Deployment) :
    Inv (crashed cfg env st name d) := by
  unfold DeploymentManager.crashed
  split
  · split
    · exact h.startDeployment _ _ _
    · exact h
  · refine Inv.remove (Inv.declined ?_ (declined_deactivate cfg env _ name).1) name
    split
    · exact h.of_eq rfl rfl rfl
    · exact h

theorem Inv.inserted (h : Inv st) (hnew : Assoc.find name st.deployments = none)
    {d : Deployment} (hname : d.name = name)
    (hinactive : d.active = false) :
    Inv (addDeploymentDependencies { st with deployments := Assoc.put name d st.deployments }
      d) := by
  refine ⟨Assoc.keys_put_nodup h.unique _ _, ?_, ?_, ?_⟩
  · intro name' d' hd'
    change Assoc.find name' (Assoc.put name d st.deployments) = some d' at hd'
    rw [Assoc.find_put] at hd'
    split at hd'
    · rename_i heq
      rw [← Option.some.inj hd', hname, heq]
    · exact h.names name' d' hd'
  · intro t name'
    change name' ∈ Multimap.members t (d.required_actors.foldl
      (fun m r => Multimap.insert r d.name m) st.dependencies) ↔
      ∃ d', Assoc.find name' (Assoc.put name d st.deployments) = some d' ∧ t ∈ d'.required_actors
    rw [Multimap.mem_members_insertAll, h.index, hname, Assoc.find_put]
    by_cases heq : name = name'
    · subst heq
      simp [hnew]
    · simp [heq, Ne.symm heq]
  · intro name' d' hd' hactive t ht
    change Assoc.find name' (Assoc.put name d st.deployments) = some d' at hd'
    rw [Assoc.find_put] at hd'
    split at hd'
    · rw [← Option.some.inj hd', hinactive] at hactive
      exact absurd hactive (by simp)
    · exact h.provided name' d' hd' hactive t ht

theorem Inv.recordDeployment (h : Inv st) (r : Request) (hnew : Assoc.find r.name st.deployments = none)
    (end_time : UInt32) : Inv (recordDeployment cfg env st r end_time) := by
  unfold DeploymentManager.recordDeployment
  dsimp only
  generalize hd : r.deployment end_time _ = d
  have hinserted : Inv (addDeploymentDependencies { st with deployments := Assoc.put r.name d st.deployments } d) :=
    h.inserted hnew (by rw [← hd]; rfl) (by rw [← hd]; rfl)
  exact hinserted.of_eq rfl rfl rfl

theorem Inv.insertDeployment (h : Inv st) (r : Request)
    (hnew : Assoc.find r.name st.deployments = none) (end_time : UInt32)
    (executors : ExecutorList) : Inv (insertDeployment cfg env st r end_time executors) := by
  have hrecorded : Inv (DeploymentManager.recordDeployment cfg env st r end_time) :=
    h.recordDeployment r hnew end_time
  unfold DeploymentManager.insertDeployment
  dsimp only
  split
  · rename_i hreq
    exact (hrecorded.activate (Assoc.find_put_self _ _ _) hreq executors.front).of_eq rfl rfl rfl
  · exact hrecorded.of_eq rfl rfl rfl

theorem Inv.exchangeType (h : Inv st) (d : Deployment) (r : Request) :
    Inv (exchangeType cfg env st d r) := by
  have hdeclined : Inv (decrementDeployedActorTypeCount cfg env (stopDeployment cfg st r.name)
      d.actor_type) :=
    (h.declined declined_stopDeployment).declined (declined_decrement cfg env _ _)
  exact hdeclined.modify r.name (fun _ => rfl) (fun _ => rfl) fun _ => rfl

theorem Inv.replaceDeployment (h : Inv st) (d : Deployment) (r : Request)
    (executors : ExecutorList) :
    Inv (replaceDeployment cfg env st d r executors) :=
  Inv.startDeployment (Inv.increment (h.exchangeType d r) r.actor_type) _ _ _

theorem Inv.updateDeployment (h : Inv st) (d : Deployment) (r : Request) (end_time : UInt32)
    (executors : ExecutorList) : Inv (updateDeployment cfg env st d r end_time executors) := by
  have hreplaced : Inv (if r.replaces d then DeploymentManager.replaceDeployment cfg env st d r
      executors else st) := by
    split
    · exact h.replaceDeployment d r executors
    · exact h
  have hend := hreplaced.modify r.name (f := fun d => { d with lifetime_end := end_time })
    (fun _ => rfl) (fun _ => rfl) fun _ => rfl
  unfold DeploymentManager.updateDeployment
  dsimp only
  split
  · exact hend.emit _
  · exact hend

theorem Inv.deploy (h : Inv st) (r : Request) (executors : ExecutorList) :
    Inv (deploy cfg env st r executors) := by
  have hdeployed : Inv (match Assoc.find r.name st.deployments with
      | none => DeploymentManager.insertDeployment cfg env st r (r.endTime env) executors
      | some d => DeploymentManager.updateDeployment cfg env st d r (r.endTime env) executors) := by
    split
    · rename_i hnew
      exact h.insertDeployment r hnew _ executors
    · exact h.updateDeployment _ r _ executors
  obtain ⟨ends, effects, hdeploy⟩ := deploy_tables cfg env st r executors
  rw [hdeploy]
  exact hdeployed.of_eq rfl rfl rfl

theorem Inv.received {p : Publication} (h : Inv st) (hstep : Received cfg env st p st') :
    Inv st' := by
  cases hstep with
  | quiet hquiet => exact h.of_eq hquiet.deployments hquiet.dependencies hquiet.deployed_actor_types
  | deployed hp hr => exact h.deploy _ _
  | cancelled hp hname => exact h.retire _
  | expired hp => exact h.expireAll _ _
  | overdue hp hexit hname hd hover => exact h.remove _
  | crashed hp hexit hname hd hover hreason hcrash => exact h.crashed _ _
  | registered hp hcommand htype => exact h.increment _
  | deregistered hp hcommand htype => exact h.declined (declined_decrement cfg env st _)

theorem Inv.receive {p : Publication} (h : Inv st) (hstep : receive cfg env st p = some st') :
    Inv st' := by
  have hcleared : Inv { st with effects := [] } := h.of_eq rfl rfl rfl
  exact hcleared.received (receive_cases hstep)

theorem inv_run {messages : List (Surroundings × Publication)} (hrun : run cfg messages = some st) :
    Inv st :=
  Runs.invariant Inv inv_init (fun _ _ _ h hstep => h.receive hstep) hrun

/-- After every message, the types that an active deployment requires are there. -/
theorem active_has_requirements {messages : List (Surroundings × Publication)}
    (hrun : run cfg messages = some st) {d : Deployment}
    (hd : Assoc.find name st.deployments = some d) (hactive : d.active = true) :
    ∀ t ∈ d.required_actors, t ∈ Assoc.keys st.deployed_actor_types := by
  intro t ht
  by_contra hnot
  have hhas := (inv_run hrun).provided name d hd hactive t ht
  rw [not_hasType_iff.mpr (Assoc.find_eq_none.mpr hnot)] at hhas
  exact absurd hhas (by simp)

def plainSurroundings : Surroundings := ⟨fun _ => 5, fun _ => 7, id, fun _ => .refl _⟩

def nodeSettings : ManagerSettings := ⟨"node", "deployment_manager", "1", false⟩

def executorMessage : Publication :=
  ⟨[("type", .str "executor_update"), ("command", .str "register"),
    ("actor_runtime_type", .str "lua"), ("update_node_id", .str "node"),
    ("update_actor_type", .str "lua_executor"), ("update_instance_id", .str "1")], by decide⟩

def registerMessage (t : String) : Publication :=
  ⟨[("type", .str "unmanaged_actor_update"), ("command", .str "register"),
    ("update_actor_type", .str t)], by simp [Assoc.keys]⟩

def deploymentMessage (name t version required : String) : Publication :=
  ⟨[("type", .str "deployment"), ("publisher_node_id", .str "node"), ("deployment_name", .str name),
    ("deployment_ttl", .int 0), ("deployment_actor_type", .str t),
    ("deployment_actor_version", .str version), ("deployment_actor_runtime_type", .str "lua"),
    ("deployment_required_actors", .str required)], by simp [Assoc.keys]⟩

def inOrder (messages : List Publication) : List (Surroundings × Publication) :=
  messages.map fun p => (plainSurroundings, p)

def oneDeployment : List (Surroundings × Publication) :=
  inOrder [executorMessage, registerMessage "t", deploymentMessage "d" "u" "1" "t"]

theorem active_has_requirements_one : ∃ st d, run nodeSettings oneDeployment = some st ∧
    Assoc.find "d" st.deployments = some d ∧ d.active = true ∧ d.required_actors = ["t"] ∧
    "t" ∈ Assoc.keys st.deployed_actor_types := by
  obtain ⟨st, d, hrun, hd, hactive, hreq⟩ : ∃ st d, run nodeSettings oneDeployment = some st ∧
      Assoc.find "d" st.deployments = some d ∧ d.active = true ∧ d.required_actors = ["t"] :=
        ⟨_, _, rfl, rfl, rfl, rfl⟩
  have h := active_has_requirements hrun hd hactive
  rw [hreq] at h
  exact ⟨st, d, hrun, hd, hactive, hreq, h "t" (by simp)⟩

end DeploymentManager

end UActor
