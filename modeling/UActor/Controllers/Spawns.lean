import UActor.Controllers.Requirements

/-!
# Spawns

Which deployments the manager starts. The update of a deployment and the restart after a crash do
not ask whether it is active, and a cascade does not ask whether it was cancelled.
-/

namespace UActor

namespace DeploymentManager

variable {cfg : ManagerSettings} {env : Surroundings} {st st' : DeploymentManager} {name : String}

/-! ## The spawns of a cascade -/

def spawnedName (p : Publication) : Option String := p.getStrAttr "spawn_instance_id"

theorem spawnedName_spawnMessage (d : Deployment) (executor : ExecutorIdentifier) :
    spawnedName (spawnMessage d executor) = some d.name := by
  simp [spawnedName, spawnMessage, Publication.getStrAttr_setAttr_ne]

theorem spawnMessage_of_fixed {d d' : Deployment} (h : d'.fixed = d.fixed)
    (executor : ExecutorIdentifier) :
    spawnMessage d' executor = spawnMessage d executor :=
  Deployment.of_fixed (fun d => spawnMessage d executor) (fun _ => rfl) h

/-- A deployment that is ready, and the message that starts it. -/
def Starts (st : DeploymentManager) (name : String) (x : Publication × UInt32) : Prop :=
  ∃ d executors, st.readyOn name = some (d, executors) ∧ x = (spawnMessage d executors.front, 0)

/-- `increment_deployed_actor_type_count` starts the deployment with the message, in this state. -/
def StartsIn (cfg : ManagerSettings) (env : Surroundings) (st : DeploymentManager)
    (actor_type : String) (st' : DeploymentManager) (name : String) (x : Publication × UInt32) :
    Prop :=
  st.hasType actor_type = false ∧
    Cascade.Turn (dependents env) (visitAdded cfg env) waiting callsAdded
    (st.setCount actor_type 1) actor_type st' name ∧
    Starts st' name x

theorem activates_iff {actor_type : String} {d : Deployment} :
    Activates cfg env st actor_type st' name d ↔
    ∃ executors, st'.readyOn name = some (d, executors) ∧
      StartsIn cfg env st actor_type st' name (spawnMessage d executors.front, 0) := by
  constructor
  · rintro ⟨hnew, hturn, executors, hready⟩
    exact ⟨executors, hready, hnew, hturn, d, executors, hready, rfl⟩
  · rintro ⟨executors, hready, hnew, hturn, -⟩
    exact ⟨hnew, hturn, executors, hready⟩

/-- Spawns are only added, and nothing declines. -/
structure Longer (st st' : DeploymentManager) : Prop where
  grown : Grown st st'
  spawns : ∀ x ∈ st.spawns, x ∈ st'.spawns

theorem Longer.refl (st : DeploymentManager) : Longer st st := ⟨.refl st, fun _ h => h⟩

theorem Longer.trans {st₁ st₂ st₃ : DeploymentManager} (h : Longer st₁ st₂) (h' : Longer st₂ st₃) :
    Longer st₁ st₃ :=
  ⟨h.grown.trans h'.grown, fun x hx => h'.spawns x (h.spawns x hx)⟩

theorem longer_setCount (actor_type : String) (count : UInt32) :
    Longer st (st.setCount actor_type count) :=
  ⟨grown_setCount _ _, fun _ h => h⟩

theorem Started.longer {d : Deployment} {executor : ExecutorIdentifier}
    (h : Started st name d executor st') :
    Longer st st' := by
  refine ⟨h.grown, fun x hx => ?_⟩
  rw [h.spawns]
  exact List.mem_append_left _ hx

theorem longer_numbers (active inactive : UInt32) :
    Longer st { st with active_deployments := active, inactive_deployments := inactive } :=
  ⟨⟨⟨rfl, rfl, rfl, rfl⟩, fun _ h => h, fun _ h => h⟩, fun _ h => h⟩

theorem longer_increment (cfg : ManagerSettings) (env : Surroundings) (st : DeploymentManager)
    (actor_type : String) :
    Longer st (incrementDeployedActorTypeCount cfg env st actor_type) :=
  increment_rel Longer.refl Longer.trans (fun _ _ _ => longer_setCount _ _)
    (fun _ _ _ _ _ _ _ _ _ _ _ hstarted => hstarted.longer) (fun _ => longer_numbers) st actor_type

theorem longer_visitAdded (st : DeploymentManager) (name : String) :
    Longer st (visitAdded cfg env (actorTypeAdded cfg env) st name) := by
  cases hready : st.readyOn name with
  | none =>
    rw [visitAdded_waits hready]
    exact .refl st
  | some r =>
    obtain ⟨d, executors⟩ := r
    obtain ⟨d', st₁, -, -, hstarted, active, inactive, heq⟩ := visitAdded_started cfg env hready
    rw [heq]
    exact ((longer_increment cfg env st d.actor_type).trans hstarted.longer).trans
      (longer_numbers _ _)

theorem starts_visitAdded (cfg : ManagerSettings) (env : Surroundings)
    {x : Publication × UInt32} (h : Starts st name x) :
    (visitAdded cfg env (actorTypeAdded cfg env) st name).IsActive name ∧
      x ∈ (visitAdded cfg env (actorTypeAdded cfg env) st name).spawns := by
  obtain ⟨d, executors, hready, rfl⟩ := h
  obtain ⟨d', st₁, -, hfixed, hstarted, active, inactive, heq⟩ := visitAdded_started cfg env hready
  have hactive : st₁.IsActive name := (hstarted.isActive_iff name).mpr (Or.inl rfl)
  have hspawn : (spawnMessage d executors.front, 0) ∈ st₁.spawns := by
    rw [hstarted.spawns, spawnMessage_of_fixed hfixed]
    exact List.mem_append_right _ (List.mem_singleton.mpr rfl)
  rw [heq]
  exact ⟨hactive, hspawn⟩

theorem longer_call {t : String} (hcall : callsAdded st name st' t) :
    Longer (actorTypeAdded cfg env st' t) (visitAdded cfg env (actorTypeAdded cfg env) st
      name) := by
  obtain ⟨d, executors, hready, rfl, hnew, rfl⟩ := hcall
  obtain ⟨d', st₁, -, -, hstarted, active, inactive, heq⟩ := visitAdded_started cfg env hready
  have hincrement : incrementDeployedActorTypeCount cfg env st d.actor_type =
      actorTypeAdded cfg env (st.setCount d.actor_type 1) d.actor_type := by
    unfold incrementDeployedActorTypeCount incrementWith
    rw [not_hasType_iff.mp hnew]
  rw [heq, ← hincrement]
  exact hstarted.longer.trans (longer_numbers _ _)

theorem turn_started {t : String} {x : Publication × UInt32}
    (hturn : Cascade.Turn (dependents env) (visitAdded cfg env) waiting callsAdded st t st' name)
    (h : Starts st' name x) :
    (actorTypeAdded cfg env st t).IsActive name ∧ x ∈ (actorTypeAdded cfg env st t).spawns := by
  obtain ⟨hactive, hspawn⟩ := starts_visitAdded cfg env h
  have hafter : Longer (visitAdded cfg env (actorTypeAdded cfg env) st' name)
      (actorTypeAdded cfg env st t) :=
    hturn.after bounded_visitAdded Longer.refl Longer.trans longer_visitAdded longer_call
  exact ⟨hafter.grown.active name hactive, hafter.spawns x hspawn⟩

/-- A spawn of a cascade was there before it, or is made at a turn. -/
theorem spawn_of_cascade {t : String} {x : Publication × UInt32}
    (hx : x ∈ (actorTypeAdded cfg env st t).spawns) :
    x ∈ st.spawns ∨ ∃ st' name,
      Cascade.Turn (dependents env) (visitAdded cfg env) waiting callsAdded st t st' name ∧
      Starts st' name x := by
  refine Cascade.eval_cause (Q := fun st => x ∈ st.spawns) (C := fun st name => Starts st name x)
    bounded_visitAdded (fun st name hafter => ?_) hx
  change x ∈ (visitAdded cfg env (actorTypeAdded cfg env) st name).spawns at hafter
  cases hready : st.readyOn name with
  | none =>
    rw [visitAdded_waits hready] at hafter
    exact Or.inl hafter
  | some r =>
    obtain ⟨d, executors⟩ := r
    obtain ⟨d', st₁, -, hfixed, hstarted, active, inactive, heq⟩ :=
      visitAdded_started cfg env hready
    rw [heq] at hafter
    change x ∈ st₁.spawns at hafter
    rw [hstarted.spawns, List.mem_append, List.mem_singleton, spawnMessage_of_fixed
      hfixed] at hafter
    rcases hafter with hbelow | hown
    · unfold incrementDeployedActorTypeCount incrementWith at hbelow
      cases hcount : Assoc.find d.actor_type st.deployed_actor_types with
      | some c =>
        rw [hcount] at hbelow
        exact Or.inl hbelow
      | none =>
        rw [hcount] at hbelow
        have hnew := not_hasType_iff.mpr hcount
        exact Or.inr (Or.inr ⟨st.setCount d.actor_type 1, d.actor_type,
          ⟨d, executors, hready, rfl, hnew, rfl⟩, waiting_setCount (readyOn_eq.mp hready).1 hnew 1,
          fun h => h, hbelow⟩)
    · exact Or.inr (Or.inl ⟨d, executors, hready, hown⟩)

theorem spawn_of_increment {t : String} {x : Publication × UInt32} :
    x ∈ (incrementDeployedActorTypeCount cfg env st t).spawns ↔
      x ∈ st.spawns ∨ ∃ st' name, StartsIn cfg env st t st' name x := by
  unfold StartsIn
  constructor
  · intro hx
    unfold incrementDeployedActorTypeCount incrementWith at hx
    cases hcount : Assoc.find t st.deployed_actor_types with
    | some c =>
      rw [hcount] at hx
      exact Or.inl hx
    | none =>
      rw [hcount] at hx
      rcases spawn_of_cascade hx with hold | ⟨st', name, hturn, hstarts⟩
      · exact Or.inl hold
      · exact Or.inr ⟨st', name, not_hasType_iff.mpr hcount, hturn, hstarts⟩
  · rintro (hold | ⟨st', name, hnew, hturn, hstarts⟩)
    · exact (longer_increment cfg env st t).spawns x hold
    · unfold incrementDeployedActorTypeCount incrementWith
      rw [not_hasType_iff.mp hnew]
      exact (turn_started hturn hstarts).2

theorem StartsIn.active {t : String} {x : Publication × UInt32}
    (h : StartsIn cfg env st t st' name x) :
    (incrementDeployedActorTypeCount cfg env st t).IsActive name := by
  obtain ⟨hnew, hturn, hstarts⟩ := h
  unfold incrementDeployedActorTypeCount incrementWith
  rw [not_hasType_iff.mp hnew]
  exact (turn_started hturn hstarts).1

theorem longer_callsAdded {t : String} (hcall : callsAdded st name st' t) : Longer st st' := by
  obtain ⟨d, executors, -, -, -, rfl⟩ := hcall
  exact longer_setCount _ _

theorem StartsIn.spawnedName {t : String} {x : Publication × UInt32} (hinv : Inv st)
    (h : StartsIn cfg env st t st' name x) : spawnedName x.1 = some name := by
  obtain ⟨-, hturn, d, executors, hready, rfl⟩ := h
  have hbefore : Longer (st.setCount t 1) st' :=
    hturn.before Longer.refl Longer.trans longer_visitAdded longer_callsAdded
  obtain ⟨d₀, hd₀, hfixed⟩ := hbefore.grown.frame.find_back (readyOn_eq.mp hready).1
  rw [spawnedName_spawnMessage, Deployment.name_of_fixed hfixed, hinv.names name d₀ hd₀]

/-! ## Handlers that start nothing -/

theorem spawns_modify (f : Deployment → Deployment) : (st.modify name f).spawns = st.spawns := by
  unfold modify
  split <;> rfl

theorem spawns_stopDeployment : (stopDeployment cfg st name).spawns = st.spawns := by
  unfold stopDeployment
  split
  · rw [spawns_emit]
    exact List.append_nil _
  · rfl

theorem spawns_lower : (st.lower name).spawns = st.spawns := spawns_modify _

theorem spawns_deactivateWith {removed : DeploymentManager → String → DeploymentManager}
    (hremoved : ∀ t, st.hasType t = true → (removed (st.dropCount t) t).spawns = st.spawns)
    (name : String) :
    (deactivateWith cfg removed st name).spawns = st.spawns := by
  have hcases := deactivateWith_cases cfg removed st name
  generalize deactivateWith cfg removed st name = st' at hcases ⊢
  cases hcases with
  | absent => rfl
  | inactive => exact spawns_lower
  | uncounted => exact spawns_lower.trans spawns_stopDeployment
  | last d hd hactive hcount =>
    exact spawns_lower.trans (spawns_stopDeployment.trans
      (hremoved d.actor_type (hasType_iff.mpr ⟨1, hcount⟩)))
  | counted => exact spawns_lower.trans spawns_stopDeployment

theorem spawns_actorTypeRemoved (cfg : ManagerSettings) (env : Surroundings)
    (st : DeploymentManager) (t : String) :
    (actorTypeRemoved cfg env st t).spawns = st.spawns := by
  refine Cascade.eval_rel (R := fun st st' => st'.spawns = st.spawns) (fun _ => rfl)
    (fun {_ _ _} h h' => ?_) bounded_visitRemoved (fun st name hcalls => ?_) st t
  · exact h'.trans h
  refine spawns_deactivateWith (fun t ht => ?_) name
  obtain ⟨count, hcount⟩ := hasType_iff.mp ht
  exact hcalls (st.dropCount t) t (Assoc.length_erase_lt hcount)

theorem spawns_deactivate : (deactivateDeployment cfg env st name).spawns = st.spawns :=
  spawns_deactivateWith (fun t _ => spawns_actorTypeRemoved cfg env (st.dropCount t) t) name

theorem spawns_decrement (t : String) :
    (decrementDeployedActorTypeCount cfg env st t).spawns = st.spawns := by
  unfold decrementDeployedActorTypeCount decrementWith
  split
  · split
    · exact spawns_actorTypeRemoved cfg env (st.dropCount t) t
    · rfl
  · rfl

theorem spawns_remove : (removeDeployment st name).spawns = st.spawns := by
  cases hd : Assoc.find name st.deployments with
  | none =>
    unfold removeDeployment
    rw [hd]
  | some d => exact (removeDeployment_tables hd).2.2.2.1

theorem spawns_retire : (retire cfg env st name).spawns = st.spawns := by
  unfold retire
  split
  · dsimp only
    split
    · exact spawns_deactivate
    · exact spawns_remove.trans spawns_deactivate
  · rfl

theorem spawns_expireAll (ends : List (UInt32 × List String)) (reading : Nat) :
    (expireAll cfg env ends reading st).spawns = st.spawns := by
  have hexpire : ∀ end_time (st : DeploymentManager) name,
      (expire cfg env end_time st name).spawns = st.spawns := by
    intro end_time st name
    unfold expire
    split
    · split
      · exact spawns_retire
      · rfl
    · rfl
  induction ends generalizing reading st with
  | nil => rfl
  | cons e ends ih =>
    unfold expireAll
    split
    · rw [ih]
      refine Cascade.foldl_rel (R := fun st st' => st'.spawns = st.spawns) (fun _ => rfl)
        (fun {_ _ _} h h' => ?_) (hexpire e.1) e.2 st
      exact h'.trans h
    · rfl

/-! ## Deployments that have ended -/

/-- The message cancels the deployment, or takes its end time from the table. -/
def Ends (before after : DeploymentManager) (p : Publication) (name : String) : Prop :=
  (handlerOf p = some .deploymentCancelation ∧ p.getStrAttr "deployment_name" = some name) ∨
    (handlerOf p = some .ttlTimeout ∧ ∃ d names, Assoc.find name before.deployments = some d ∧
      Assoc.find d.lifetime_end before.ttl_end_times = some names ∧ name ∈ names ∧
      Assoc.find d.lifetime_end after.ttl_end_times = none)

/-- The message asks for the deployment. -/
def Redeploys (st : DeploymentManager) (p : Publication) (name : String) : Prop :=
  handlerOf p = some .deployment ∧ ∃ r executors, st.readDeployment p = some (some (r, executors)) ∧
    r.name = name

/-- The deployment was cancelled or its time is over, nobody has asked for it since, and it waits in
the tables for its actor to exit. -/
inductive Ended (cfg : ManagerSettings) : List (Surroundings × Publication) → String → Prop
  | now {messages : List (Surroundings × Publication)} {m : Surroundings × Publication}
      {before after : DeploymentManager}
    {name : String} (hrun : run cfg messages = some before)
    (hstep : receive cfg m.1 before m.2 = some after) (hends : Ends before after m.2 name)
    (hkept : name ∈ Assoc.keys after.deployments) :
    Ended cfg (messages ++ [m]) name
  | still {messages : List (Surroundings × Publication)} {m : Surroundings × Publication}
      {before after : DeploymentManager}
    {name : String} (hended : Ended cfg messages name) (hrun : run cfg messages = some before)
    (hstep : receive cfg m.1 before m.2 = some after) (hquiet : ¬ Redeploys before m.2 name)
    (hkept : name ∈ Assoc.keys after.deployments) : Ended cfg (messages ++ [m]) name

/-! ## Messages that start deployments -/

/-- The message makes `increment_deployed_actor_type_count` of a type, in this state. -/
inductive Increments (cfg : ManagerSettings) (env : Surroundings) (st : DeploymentManager)
    (p : Publication) :
    DeploymentManager → String → Prop
  | registered {t : String} (hp : handlerOf p = some .unmanagedActorUpdate)
    (hcommand : p.getStrAttr "command" = some "register")
    (htype : p.getStrAttr "update_actor_type" = some t) :
    Increments cfg env st p st t
  | inserted {r : Request} {executors : ExecutorList} (hp : handlerOf p = some .deployment)
    (hr : st.readDeployment p = some (some (r, executors)))
    (hnew : Assoc.find r.name st.deployments = none)
    (hreq : (recordDeployment cfg env st r (r.endTime env)).requirementsCheck
      (r.deployment (r.endTime env) (env.subscribe (cancelationFilter cfg r.name))) = true) :
    Increments cfg env st p (recordDeployment cfg env st r (r.endTime env)) r.actor_type
  | replaced {r : Request} {executors : ExecutorList} {d : Deployment}
      (hp : handlerOf p = some .deployment)
    (hr : st.readDeployment p = some (some (r, executors)))
    (hd : Assoc.find r.name st.deployments = some d) (hreplaces : r.replaces d = true) :
    Increments cfg env st p (exchangeType cfg env st d r) r.actor_type

/-- The message starts a deployment whose actor has crashed. -/
structure Restarts (env : Surroundings) (st : DeploymentManager) (p : Publication) (name : String)
    (d : Deployment) (executors : ExecutorList) : Prop where
  handler : handlerOf p = some .lifetimeEvent
  exit : p.getStrAttr "type" = some "actor_exit"
  instance_id : p.getStrAttr "lifetime_instance_id" = some name
  found : Assoc.find name st.deployments = some d
  inTime : Deployment.overdue d (env.now 0) = false
  reason : ∃ reason, p.getStrAttr "exit_reason" = some reason ∧ reason ≠ "clean_exit"
  few : d.restarts < 3
  executor : Assoc.find d.actor_runtime_type st.executors = some executors

/-- Every spawn is of a deployment that is active now, and none is of one that has ended. -/
def SpawnsActive (ended : String → Prop) (st : DeploymentManager) (p : Publication)
    (after : DeploymentManager) : Prop :=
  ∀ x ∈ after.spawns, ∃ name, spawnedName x.1 = some name ∧ after.IsActive name ∧
    (ended name → Redeploys st p name)

/-- The message does not come to a start that nobody has looked at the flag for: a replaced
deployment is active when it is started, a crashed one is active and has not ended, and a cascade
comes to none that has ended. -/
structure Guarded (cfg : ManagerSettings) (env : Surroundings) (st : DeploymentManager)
    (p : Publication) (ended : String → Prop) : Prop where
  replaced : ∀ r executors d, handlerOf p = some .deployment →
    st.readDeployment p = some (some (r, executors)) →
    Assoc.find r.name st.deployments = some d → r.replaces d = true →
    (incrementDeployedActorTypeCount cfg env (exchangeType cfg env st d r) r.actor_type).IsActive
      r.name
  restarted : ∀ name d executors, Restarts env st p name d executors → d.active = true ∧
    ¬ ended name
  activated : ∀ st₁ t st' name d, Increments cfg env st p st₁ t → Activates cfg env st₁ t st' name
    d → ended name →
    Redeploys st p name

/-! ## What a message starts -/

/-- The same spawns, and the same deployments active. -/
structure Alike (st st' : DeploymentManager) : Prop where
  spawns : st'.spawns = st.spawns
  active : ∀ name, st'.IsActive name ↔ st.IsActive name

theorem Alike.trans {st₁ st₂ st₃ : DeploymentManager} (h : Alike st₁ st₂) (h' : Alike st₂ st₃) :
    Alike st₁ st₃ :=
  ⟨h'.spawns.trans h.spawns, fun name => (h'.active name).trans (h.active name)⟩

theorem alike_emit (effect : Effect) (h : Effect.spawn effect = none) : Alike st (st.emit effect) :=
  ⟨by rw [spawns_emit, h, Option.toList_none, List.append_nil], fun _ => Iff.rfl⟩

theorem isActive_modify (name : String) {f : Deployment → Deployment}
    (hf : ∀ d, (f d).active = d.active) (name' : String) :
    (st.modify name f).IsActive name' ↔ st.IsActive name' := by
  cases hd : Assoc.find name st.deployments with
  | none =>
    unfold modify
    rw [hd]
  | some d =>
    rw [modify_eq hd]
    unfold IsActive
    dsimp only
    rw [Assoc.find_put]
    split
    · rename_i heq
      rw [← heq, hd]
      simp [hf]
    · exact Iff.rfl

theorem alike_modify (name : String) {f : Deployment → Deployment}
    (hf : ∀ d, (f d).active = d.active) :
    Alike st (st.modify name f) :=
  ⟨spawns_modify f, isActive_modify name hf⟩

theorem codeEffect_spawn (d : Deployment) (actor_code : Option String) :
    Effect.spawn (codeEffect cfg d actor_code) = none := by
  unfold codeEffect
  split
  · rfl
  · split <;> rfl

theorem spawns_recordDeployment (r : Request) (end_time : UInt32) :
    (recordDeployment cfg env st r end_time).spawns = st.spawns := by
  have hemit : ∀ (st : DeploymentManager) effect, Effect.spawn effect = none →
      (st.emit effect).spawns = st.spawns :=
    fun _ effect h => (alike_emit effect h).spawns
  exact (hemit _ _ (codeEffect_spawn _ _)).trans (hemit _ _ rfl)

theorem startDeployment_alike {d : Deployment} (hd : Assoc.find name st.deployments = some d)
    (executor : ExecutorIdentifier) (delay : UInt32) :
    (st.startDeployment name executor delay).spawns = st.spawns ++
      [(spawnMessage d executor, delay)] ∧
      ∀ name', (st.startDeployment name executor delay).IsActive name' ↔ st.IsActive name' := by
  unfold startDeployment
  rw [hd]
  refine ⟨?_, fun name' => ?_⟩
  · dsimp only
    rw [spawns_modify, spawns_emit]
    rfl
  · have hrestarts : ∀ d : Deployment, { d with restarts := d.restarts + 1 }.active = d.active :=
      fun _ => rfl
    have hmodify : ((st.emit (.delayedPublish (spawnMessage d executor) delay)).modify name fun d =>
        { d with restarts := d.restarts + 1 }).IsActive name' ↔
        (st.emit (.delayedPublish (spawnMessage d executor) delay)).IsActive name' :=
        isActive_modify name hrestarts name'
    exact hmodify

theorem alike_enqueue (env : Surroundings) (st : DeploymentManager) (name : String) :
    Alike st (match Assoc.find name st.deployments with
      | some d => if 0 < d.lifetime_end then enqueueLifetimeEndWakeup env st d 1 else st
      | none => st) := by
  split
  · split
    · refine ⟨?_, fun _ => Iff.rfl⟩
      refine (spawns_emit _ (.enqueueWakeup _ _)).trans ?_
      exact List.append_nil _
    · exact ⟨rfl, fun _ => Iff.rfl⟩
  · exact ⟨rfl, fun _ => Iff.rfl⟩

theorem deploy_alike (cfg : ManagerSettings) (env : Surroundings) (st : DeploymentManager)
    (r : Request) (executors : ExecutorList) :
    Alike (match Assoc.find r.name st.deployments with
      | none => insertDeployment cfg env st r (r.endTime env) executors
      | some d => updateDeployment cfg env st d r (r.endTime env) executors)
          (deploy cfg env st r executors) :=
  alike_enqueue env _ r.name

theorem updateDeployment_alike (cfg : ManagerSettings) (env : Surroundings) (st : DeploymentManager)
    (d : Deployment) (r : Request) (end_time : UInt32) (executors : ExecutorList) :
    Alike (if r.replaces d then replaceDeployment cfg env st d r executors else st)
      (updateDeployment cfg env st d r end_time executors) := by
  have hend : Alike (if r.replaces d then replaceDeployment cfg env st d r executors else st)
      ((if r.replaces d then replaceDeployment cfg env st d r executors else st).modify r.name
        fun d => { d with lifetime_end := end_time }) := alike_modify r.name fun _ => rfl
  unfold updateDeployment
  dsimp only
  generalize (if r.replaces d then replaceDeployment cfg env st d r executors else st) =
    st₁ at hend ⊢
  split
  · exact hend.trans (alike_emit _ (codeEffect_spawn _ _))
  · exact hend

theorem insertDeployment_eq {r : Request} (executors : ExecutorList)
    (hreq : (recordDeployment cfg env st r (r.endTime env)).requirementsCheck
      (r.deployment (r.endTime env) (env.subscribe (cancelationFilter cfg r.name))) = true) :
    ∃ d st₁ active, Assoc.find r.name (incrementDeployedActorTypeCount cfg env
        (recordDeployment cfg env st r (r.endTime env)) r.actor_type).deployments = some d ∧
        d.name = r.name ∧
      Started (incrementDeployedActorTypeCount cfg env
        (recordDeployment cfg env st r (r.endTime env)) r.actor_type) r.name d executors.front st₁ ∧
      insertDeployment cfg env st r (r.endTime env) executors = { st₁ with active_deployments :=
        active } := by
  have hd : Assoc.find r.name (recordDeployment cfg env st r (r.endTime env)).deployments =
      some (r.deployment (r.endTime env) (env.subscribe (cancelationFilter cfg r.name))) :=
        Assoc.find_put_self _ _ _
  obtain ⟨d', hd', hfixed, hstarted⟩ :=
    (grown_increment cfg env (recordDeployment cfg env st r
      (r.endTime env)) r.actor_type).started cfg env hd executors.front
  refine ⟨d', _, (startActive cfg env (incrementDeployedActorTypeCount cfg env
    (recordDeployment cfg env st r (r.endTime env)) r.actor_type) r.name
      executors.front).active_deployments + 1, hd',
    Deployment.name_of_fixed hfixed, hstarted, ?_⟩
  unfold insertDeployment
  dsimp only
  rw [if_pos hreq]
  unfold activateDeployment activateWith
  rw [hd]
  rfl

theorem insertDeployment_started {r : Request} (executors : ExecutorList)
    (hreq : (recordDeployment cfg env st r (r.endTime env)).requirementsCheck
      (r.deployment (r.endTime env) (env.subscribe (cancelationFilter cfg r.name))) = true) :
    ∃ d, d.name = r.name ∧ (∀ x,
      x ∈ (insertDeployment cfg env st r (r.endTime env) executors).spawns ↔
        x ∈ (incrementDeployedActorTypeCount cfg env
          (recordDeployment cfg env st r (r.endTime env)) r.actor_type).spawns ∨
          x = (spawnMessage d executors.front, 0)) ∧
      ∀ name, (insertDeployment cfg env st r (r.endTime env) executors).IsActive name ↔
      name = r.name ∨
        (incrementDeployedActorTypeCount cfg env
          (recordDeployment cfg env st r (r.endTime env)) r.actor_type).IsActive name := by
  obtain ⟨d', st₁, active, -, hname, hstarted, heq⟩ := insertDeployment_eq executors hreq
  rw [heq]
  refine ⟨d', hname, fun x => ?_, hstarted.isActive_iff⟩
  refine Iff.trans (iff_of_eq (congrArg (x ∈ ·) hstarted.spawns)) ?_
  rw [List.mem_append, List.mem_singleton]

theorem find_replaced (cfg : ManagerSettings) (env : Surroundings) (hinv : Inv st) {d : Deployment}
    {r : Request} (hd : Assoc.find r.name st.deployments = some d) :
    ∃ d', Assoc.find r.name (incrementDeployedActorTypeCount cfg env
      (exchangeType cfg env st d r) r.actor_type).deployments =
      some d' ∧ d'.name = r.name ∧ d'.actor_runtime_type = d.actor_runtime_type := by
  have hinv' : Inv (incrementDeployedActorTypeCount cfg env (exchangeType cfg env st d r)
      r.actor_type) :=
    (hinv.exchangeType d r).increment r.actor_type
  have hdeclined : Declined st (decrementDeployedActorTypeCount cfg env
      (stopDeployment cfg st r.name) d.actor_type) :=
    declined_stopDeployment.trans (declined_decrement cfg env _ _)
  obtain ⟨d₁, hd₁, hfixed₁⟩ := hdeclined.frame.find hd
  have hd₂ : Assoc.find r.name (exchangeType cfg env st d r).deployments =
      some { d₁ with actor_type := r.actor_type, actor_version := r.actor_version } := by
    unfold exchangeType
    dsimp only
    rw [modify_eq hd₁]
    exact Assoc.find_put_self _ _ _
  obtain ⟨d₃, hd₃, hfixed₃⟩ := (grown_increment cfg env (exchangeType cfg env st d r)
    r.actor_type).frame.find hd₂
  have hruntime₁ : d₁.actor_runtime_type = d.actor_runtime_type :=
    Deployment.of_fixed Deployment.actor_runtime_type (fun _ => rfl) hfixed₁
  have hruntime₃ : d₃.actor_runtime_type =
      { d₁ with actor_type := r.actor_type, actor_version := r.actor_version }.actor_runtime_type :=
    Deployment.of_fixed Deployment.actor_runtime_type (fun _ => rfl) hfixed₃
  exact ⟨d₃, hd₃, hinv'.names r.name d₃ hd₃, hruntime₃.trans hruntime₁⟩

theorem replaceDeployment_started (cfg : ManagerSettings) (env : Surroundings)
    (hinv : Inv st) {d : Deployment} {r : Request}
    (hd : Assoc.find r.name st.deployments = some d) (executors : ExecutorList) :
    ∃ d', d'.name = r.name ∧ (∀ x, x ∈ (replaceDeployment cfg env st d r executors).spawns ↔
        x ∈ (incrementDeployedActorTypeCount cfg env (exchangeType cfg env st d r)
          r.actor_type).spawns ∨
          x = (spawnMessage d' executors.front, 0)) ∧
      ∀ name, (replaceDeployment cfg env st d r executors).IsActive name ↔
        (incrementDeployedActorTypeCount cfg env (exchangeType cfg env st d r)
          r.actor_type).IsActive name := by
  obtain ⟨d', hd', hname, -⟩ := find_replaced cfg env hinv hd
  obtain ⟨hspawns, hactive⟩ := startDeployment_alike hd' executors.front 0
  refine ⟨d', hname, fun x => ?_, hactive⟩
  refine Iff.trans (iff_of_eq (congrArg (x ∈ ·) hspawns)) ?_
  rw [List.mem_append, List.mem_singleton]

theorem spawns_exchangeType (d : Deployment) (r : Request) :
    (exchangeType cfg env st d r).spawns = st.spawns := by
  unfold exchangeType
  dsimp only
  rw [spawns_modify, spawns_decrement, spawns_stopDeployment]

theorem StartsIn.kept {p : Publication} {ended : String → Prop} {st₁ : DeploymentManager}
    {t : String} {x : Publication × UInt32} (hguarded : Guarded cfg env st p ended)
    (hincrements : Increments cfg env st p st₁ t) (h : StartsIn cfg env st₁ t st' name x)
    (hended : ended name) : Redeploys st p name := by
  obtain ⟨hnew, hturn, d, executors, hready, rfl⟩ := h
  exact hguarded.activated st₁ t st' name d hincrements ⟨hnew, hturn, executors, hready⟩ hended

theorem spawnsActive_of_spawns {ended : String → Prop} {p : Publication} {after : DeploymentManager}
    (h : after.spawns = []) : SpawnsActive ended st p after := by
  intro x hx
  rw [h] at hx
  exact absurd hx (by simp)

theorem spawnsActive_deploy (hinv : Inv st) (hempty : st.spawns = []) {ended : String → Prop}
    {p : Publication} {r : Request} {executors : ExecutorList}
    (hguarded : Guarded cfg env st p ended) (hp : handlerOf p = some .deployment)
    (hr : st.readDeployment p = some (some (r, executors))) :
    SpawnsActive ended st p (deploy cfg env st r executors) := by
  have hredeploys : Redeploys st p r.name := ⟨hp, r, executors, hr, rfl⟩
  obtain ⟨hspawns, hactive⟩ := deploy_alike cfg env st r executors
  intro x hx
  rw [hspawns] at hx
  cases hd : Assoc.find r.name st.deployments with
  | none =>
    rw [hd] at hx hactive
    dsimp only at hx hactive
    have hrecorded : (recordDeployment cfg env st r (r.endTime env)).spawns = [] :=
      (spawns_recordDeployment r _).trans hempty
    by_cases hreq : (recordDeployment cfg env st r (r.endTime env)).requirementsCheck
        (r.deployment (r.endTime env) (env.subscribe (cancelationFilter cfg r.name))) = true
    · obtain ⟨d, hname, hstarts, hinserted⟩ := insertDeployment_started executors hreq
      rcases (hstarts x).mp hx with hcascade | rfl
      · rcases spawn_of_increment.mp hcascade with hold | ⟨st', name, hin⟩
        · rw [hrecorded] at hold
          exact absurd hold (by simp)
        · refine ⟨name, hin.spawnedName (hinv.recordDeployment r hd _), ?_,
            hin.kept hguarded (.inserted hp hr hd hreq)⟩
          exact (hactive name).mpr ((hinserted name).mpr (Or.inr hin.active))
      · refine ⟨r.name, ?_, (hactive _).mpr ((hinserted _).mpr (Or.inl rfl)), fun _ => hredeploys⟩
        rw [spawnedName_spawnMessage, hname]
    · unfold insertDeployment at hx
      dsimp only at hx
      rw [if_neg hreq] at hx
      change x ∈ (recordDeployment cfg env st r (r.endTime env)).spawns at hx
      rw [hrecorded] at hx
      exact absurd hx (by simp)
  | some d =>
    rw [hd] at hx hactive
    dsimp only at hx hactive
    obtain ⟨hupdated, hactive'⟩ := updateDeployment_alike cfg env st d r (r.endTime env) executors
    rw [hupdated] at hx
    by_cases hreplaces : r.replaces d = true
    · rw [if_pos hreplaces] at hx hactive'
      obtain ⟨d', hname, hstarts, hreplaced⟩ := replaceDeployment_started cfg env hinv hd executors
      rcases (hstarts x).mp hx with hcascade | rfl
      · rcases spawn_of_increment.mp hcascade with hold | ⟨st', name, hin⟩
        · rw [spawns_exchangeType, hempty] at hold
          exact absurd hold (by simp)
        · refine ⟨name, hin.spawnedName (hinv.exchangeType d r), ?_,
            hin.kept hguarded (.replaced hp hr hd hreplaces)⟩
          exact (hactive name).mpr ((hactive' name).mpr ((hreplaced name).mpr hin.active))
      · refine ⟨r.name, ?_, ?_, fun _ => hredeploys⟩
        · rw [spawnedName_spawnMessage, hname]
        · have hstart := hguarded.replaced r executors d hp hr hd hreplaces
          exact (hactive _).mpr ((hactive' _).mpr ((hreplaced _).mpr hstart))
    · rw [if_neg hreplaces, hempty] at hx
      exact absurd hx (by simp)

theorem spawnsActive_crashed (hinv : Inv st) (hempty : st.spawns = []) {ended : String → Prop}
    {p : Publication} {d : Deployment} {reason : String} (hguarded : Guarded cfg env st p ended)
    (hp : handlerOf p = some .lifetimeEvent) (hexit : p.getStrAttr "type" = some "actor_exit")
    (hname : p.getStrAttr "lifetime_instance_id" = some name)
    (hd : Assoc.find name st.deployments = some d)
    (hover : Deployment.overdue d (env.now 0) = false)
    (hreason : p.getStrAttr "exit_reason" = some reason) (hcrash : reason ≠ "clean_exit") :
    SpawnsActive ended st p (crashed cfg env st name d) := by
  unfold crashed
  by_cases hfew : d.restarts < 3
  · rw [if_pos hfew]
    cases hex : Assoc.find d.actor_runtime_type st.executors with
    | none => exact spawnsActive_of_spawns hempty
    | some executors =>
      obtain ⟨hspawns, hactive⟩ := startDeployment_alike hd executors.front
        ((d.restarts + 1) * 1000).toUInt32
      obtain ⟨hguard, hnot⟩ :=
        hguarded.restarted name d executors ⟨hp, hexit, hname, hd, hover, ⟨reason, hreason, hcrash⟩,
          hfew, hex⟩
      intro x hx
      rw [hspawns, hempty, List.nil_append, List.mem_singleton] at hx
      refine ⟨name, ?_, (hactive name).mpr ⟨d, hd, hguard⟩, fun hended => absurd hended hnot⟩
      rw [hx, spawnedName_spawnMessage, hinv.names name d hd]
  · rw [if_neg hfew]
    refine spawnsActive_of_spawns ?_
    dsimp only
    rw [spawns_remove, spawns_deactivate]
    split <;> exact hempty

theorem Received.spawnsActive {p : Publication} {ended : String → Prop} (h : Received cfg env st p st') (hinv : Inv st)
    (hempty : st.spawns = []) (hguarded : Guarded cfg env st p ended) : SpawnsActive ended st p st' := by
  cases h with
  | quiet hquiet => exact spawnsActive_of_spawns (hquiet.spawns.trans hempty)
  | deployed hp hr => exact spawnsActive_deploy hinv hempty hguarded hp hr
  | cancelled hp hname => exact spawnsActive_of_spawns (spawns_retire.trans hempty)
  | expired hp => exact spawnsActive_of_spawns ((spawns_expireAll _ _).trans hempty)
  | overdue hp hexit hname hd hover => exact spawnsActive_of_spawns (spawns_remove.trans hempty)
  | crashed hp hexit hname hd hover hreason hcrash =>
    exact spawnsActive_crashed hinv hempty hguarded hp hexit hname hd hover hreason hcrash
  | deregistered hp hcommand htype => exact spawnsActive_of_spawns ((spawns_decrement _).trans hempty)
  | registered hp hcommand htype =>
    intro x hx
    rcases spawn_of_increment.mp hx with hold | ⟨st₁, name, hin⟩
    · rw [hempty] at hold
      exact absurd hold (by simp)
    · exact ⟨name, hin.spawnedName hinv, hin.active, hin.kept hguarded (.registered hp hcommand htype)⟩

/-! ## What has to be looked at -/

theorem receive_deployed {p : Publication} {r : Request} {executors : ExecutorList}
    (hp : handlerOf p = some .deployment)
    (hr : readDeployment { st with effects := [] } p = some (some (r, executors))) :
    receive cfg env st p = some (deploy cfg env { st with effects := [] } r executors) := by
  rw [receive_deployment hp, hr]
  rfl

theorem receive_registered {p : Publication} {t : String}
    (hp : handlerOf p = some .unmanagedActorUpdate)
    (hcommand : p.getStrAttr "command" = some "register")
    (htype : p.getStrAttr "update_actor_type" = some t) :
    receive cfg env st p = some (incrementDeployedActorTypeCount cfg env { st with effects := [] }
      t) := by
  rw [receive_register hp hcommand, htype]
  rfl

theorem receive_restarts {p : Publication} {d : Deployment} {executors : ExecutorList}
    (h : Restarts env { st with effects := [] } p name d executors) :
      receive cfg env st p = some (startDeployment { st with effects := [] } name executors.front
        ((d.restarts + 1) * 1000).toUInt32) := by
  obtain ⟨reason, hreason, hcrash⟩ := h.reason
  have hd : Assoc.find name st.deployments = some d := h.found
  rw [receive_exit h.handler h.exit h.instance_id hd, if_neg (by rw [h.inTime]; simp), hreason,
    Option.map_some, if_pos hcrash]
  unfold crashed
  rw [if_pos h.few, h.executor]

/-- All that an increment starts is started by its message. -/
theorem Increments.spawns {p : Publication} {st₁ : DeploymentManager} {t : String}
    (h : Increments cfg env { st with effects := [] } p st₁ t) (hinv : Inv st)
    {after : DeploymentManager} (hstep : receive cfg env st p = some after) :
    Inv st₁ ∧ ∀ x ∈ (incrementDeployedActorTypeCount cfg env st₁ t).spawns, x ∈ after.spawns := by
  have hinv₀ : Inv { st with effects := [] } := hinv.of_eq rfl rfl rfl
  cases h with
  | registered hp hcommand htype =>
    rw [receive_registered hp hcommand htype] at hstep
    rw [← Option.some.inj hstep]
    exact ⟨hinv₀, fun _ hx => hx⟩
  | @inserted r executors hp hr hnew hreq =>
    rw [receive_deployed hp hr] at hstep
    rw [← Option.some.inj hstep]
    refine ⟨hinv₀.recordDeployment r hnew _, fun x hx => ?_⟩
    obtain ⟨hspawns, -⟩ := deploy_alike cfg env { st with effects := [] } r executors
    obtain ⟨_, -, hstarts, -⟩ := insertDeployment_started executors hreq
    rw [hspawns, hnew]
    exact (hstarts x).mpr (Or.inl hx)
  | @replaced r executors d hp hr hd hreplaces =>
    rw [receive_deployed hp hr] at hstep
    rw [← Option.some.inj hstep]
    refine ⟨hinv₀.exchangeType d r, fun x hx => ?_⟩
    obtain ⟨hspawns, -⟩ := deploy_alike cfg env { st with effects := [] } r executors
    obtain ⟨hupdated, -⟩ := updateDeployment_alike cfg env { st with effects := [] } d r
      (r.endTime env) executors
    obtain ⟨_, -, hstarts, -⟩ := replaceDeployment_started cfg env hinv₀ hd executors
    rw [hspawns, hd]
    dsimp only
    rw [hupdated, if_pos hreplaces]
    exact (hstarts x).mpr (Or.inl hx)

theorem guarded_of_spawnsActive {p : Publication} {ended : String → Prop} (hinv : Inv st)
    {after : DeploymentManager} (hstep : receive cfg env st p = some after)
    (h : SpawnsActive ended { st with effects := [] } p after) :
    Guarded cfg env { st with effects := [] } p ended := by
  have hinv₀ : Inv { st with effects := [] } := hinv.of_eq rfl rfl rfl
  refine ⟨fun r executors d hp hr hd hreplaces => ?_, fun name d executors hrestarts => ?_,
    fun st₁ t st' name d hincrements hactivates hended => ?_⟩
  · rw [receive_deployed hp hr] at hstep
    rw [← Option.some.inj hstep] at h
    obtain ⟨hspawns, hactive⟩ := deploy_alike cfg env { st with effects := [] } r executors
    obtain ⟨hupdated, hactive'⟩ := updateDeployment_alike cfg env
      { st with effects := [] } d r (r.endTime env) executors
    obtain ⟨d', hname, hstarts, hreplaced⟩ := replaceDeployment_started cfg env hinv₀ hd executors
    rw [hd] at hspawns hactive
    dsimp only at hspawns hactive
    rw [if_pos hreplaces] at hupdated hactive'
    obtain ⟨name, hspawned, hisActive, -⟩ := h (spawnMessage d' executors.front, 0)
      (by rw [hspawns, hupdated]; exact (hstarts _).mpr (Or.inr rfl))
    rw [spawnedName_spawnMessage, hname] at hspawned
    obtain rfl := Option.some.inj hspawned
    exact (hreplaced _).mp ((hactive' _).mp ((hactive _).mp hisActive))
  · rw [receive_restarts hrestarts] at hstep
    rw [← Option.some.inj hstep] at h
    obtain ⟨hspawns, hactive⟩ := startDeployment_alike hrestarts.found executors.front
      ((d.restarts + 1) * 1000).toUInt32
    obtain ⟨name', hspawned, hisActive, hended⟩ :=
      h (spawnMessage d executors.front, ((d.restarts + 1) * 1000).toUInt32)
      (by rw [hspawns]; exact List.mem_append_right _ (List.mem_singleton.mpr rfl))
    rw [spawnedName_spawnMessage, hinv.names name d hrestarts.found] at hspawned
    obtain rfl := Option.some.inj hspawned
    obtain ⟨d', hd', hflag⟩ := (hactive name).mp hisActive
    obtain rfl := Option.some.inj (hrestarts.found.symm.trans hd')
    refine ⟨hflag, fun hnot => ?_⟩
    obtain ⟨hp, -⟩ := hended hnot
    rw [hrestarts.handler] at hp
    exact absurd hp (by decide)
  · obtain ⟨executors, hready, hin⟩ := activates_iff.mp hactivates
    obtain ⟨hinv₁, hspawns⟩ := hincrements.spawns hinv hstep
    obtain ⟨name', hspawned, -, hredeploys⟩ :=
      h _ (hspawns _ (spawn_of_increment.mpr (Or.inr ⟨st', name, hin⟩)))
    rw [hin.spawnedName hinv₁] at hspawned
    obtain rfl := Option.some.inj hspawned
    exact hredeploys hended

/-- In a run, every spawn is of an active deployment and none of one that has ended exactly if every
message looks at what it starts. -/
theorem spawns_active_iff {messages : List (Surroundings × Publication)}
    (hrun : run cfg messages = some st) :
    (∀ pre m post before after, messages = pre ++ m :: post → run cfg pre = some before →
      receive cfg m.1 before m.2 = some after →
      SpawnsActive (Ended cfg pre) { before with effects := [] } m.2 after) ↔
    ∀ pre m post before, messages = pre ++ m :: post → run cfg pre = some before →
      Guarded cfg m.1 { before with effects := [] } m.2 (Ended cfg pre) := by
  constructor
  · intro h pre m post before heq hbefore
    have hafter : ∃ after, receive cfg m.1 before m.2 = some after := by
      unfold run at hrun hbefore
      rw [heq, List.foldlM_append, hbefore, Option.bind_eq_bind, Option.bind_some,
        List.foldlM_cons] at hrun
      obtain ⟨after, hafter, -⟩ := Option.bind_eq_some_iff.mp hrun
      exact ⟨after, hafter⟩
    obtain ⟨after, hafter⟩ := hafter
    exact guarded_of_spawnsActive (inv_run hbefore) hafter
      (h pre m post before after heq hbefore hafter)
  · intro h pre m post before after heq hbefore hafter
    have hinv₀ : Inv { before with effects := [] } := (inv_run hbefore).of_eq rfl rfl rfl
    exact (receive_cases hafter).spawnsActive hinv₀ rfl (h pre m post before heq hbefore)

theorem Ended.exists_message {messages : List (Surroundings × Publication)}
    (h : Ended cfg messages name) :
    ∃ m ∈ messages, handlerOf m.2 = some .deploymentCancelation ∨
      handlerOf m.2 = some .ttlTimeout := by
  induction h with
  | @now messages m before after name hrun hstep hends hkept =>
    refine ⟨m, by simp, ?_⟩
    rcases hends with ⟨hp, -⟩ | ⟨hp, -⟩
    · exact Or.inl hp
    · exact Or.inr hp
  | still hended hrun hstep hquiet hkept ih =>
    obtain ⟨m, hm, hp⟩ := ih
    exact ⟨m, List.mem_append_left _ hm, hp⟩

def cancelationMessage (name : String) : Publication :=
  ⟨[("type", .str "deployment_cancelation"), ("deployment_name", .str name)], by simp [Assoc.keys]⟩

def exitEvent (name reason : String) : Publication :=
  ⟨[("category", .str "actor_lifetime"), ("type", .str "actor_exit"),
    ("lifetime_instance_id", .str name), ("exit_reason", .str reason)], by simp [Assoc.keys]⟩

/-- A deployment whose actor crashes once. -/
def crashingDeployment : List (Surroundings × Publication) :=
  inOrder [executorMessage, registerMessage "t", deploymentMessage "d" "u" "1" "t",
    exitEvent "d" "runtime_error"]

theorem spawns_active_crashing : ∃ before after, run nodeSettings (crashingDeployment.take 3) =
    some before ∧
    receive nodeSettings plainSurroundings before (exitEvent "d" "runtime_error") = some after ∧
    after.spawns.map (fun x => spawnedName x.1) = [some "d"] ∧
    SpawnsActive (Ended nodeSettings (crashingDeployment.take 3)) { before with effects := [] }
      (exitEvent "d" "runtime_error") after := by
  obtain ⟨st, hrun⟩ : ∃ st, run nodeSettings crashingDeployment = some st := ⟨_, rfl⟩
  obtain ⟨before, after, hbefore, hafter, hspawns⟩ : ∃ before after,
      run nodeSettings (crashingDeployment.take 3) = some before ∧
      receive nodeSettings plainSurroundings before (exitEvent "d" "runtime_error") = some after ∧
      after.spawns.map (fun x => spawnedName x.1) = [some "d"] := ⟨_, _, rfl, rfl, rfl⟩
  refine ⟨before, after, hbefore, hafter, hspawns, ?_⟩
  refine (spawns_active_iff hrun).mpr ?_ (crashingDeployment.take 3) _ [] before after
    rfl hbefore hafter
  have hmeets : ∀ pre m post before, crashingDeployment = pre ++ m :: post →
      run nodeSettings pre = some before →
      Guarded nodeSettings m.1 { before with effects := [] } m.2 fun _ => False := by
    refine Runs.meets_cons rfl ?_ (Runs.meets_cons rfl ?_
      (Runs.meets_cons rfl ?_ (Runs.meets_cons rfl ?_ Runs.meets_nil)))
    · exact ⟨nofun, fun _ _ _ h => (nomatch h.handler), fun _ _ _ _ _ _ _ h => h.elim⟩
    · exact ⟨nofun, fun _ _ _ h => (nomatch h.handler), fun _ _ _ _ _ _ _ h => h.elim⟩
    · refine ⟨fun r executors d hp hr hd => ?_, fun _ _ _ h => (nomatch h.handler),
        fun _ _ _ _ _ _ _ h => h.elim⟩
      obtain ⟨rfl, -⟩ := Prod.mk.inj (Option.some.inj (Option.some.inj hr))
      exact nomatch hd
    · refine ⟨nofun, fun name d executors h => ⟨?_, id⟩, fun _ _ _ _ _ _ _ h => h.elim⟩
      obtain rfl : "d" = name := Option.some.inj h.instance_id
      obtain rfl := Option.some.inj h.found
      rfl
  intro pre m post before heq hbefore
  have hnobody : ∀ name, ¬ Ended nodeSettings pre name := by
    intro name h
    obtain ⟨m', hm', hp⟩ := h.exists_message
    have hmem : m' ∈ crashingDeployment := by
      rw [heq]
      exact List.mem_append_left _ hm'
    simp only [crashingDeployment, inOrder, List.map_cons, List.map_nil,
      List.mem_cons, List.not_mem_nil, or_false] at hmem
    rcases hmem with rfl | rfl | rfl | rfl <;> exact absurd hp (by decide)
  obtain ⟨hreplaced, hrestarted, -⟩ := hmeets pre m post before heq hbefore
  exact ⟨hreplaced, fun name d executors h => ⟨(hrestarted name d executors h).1, hnobody name⟩,
    fun _ _ _ name _ _ _ h => absurd h (hnobody name)⟩

/-- A deployment that is cancelled is started again if its actor crashes before it exits. -/
theorem cancelled_spawned_again : ∃ before after,
    run nodeSettings (inOrder [executorMessage, registerMessage "t", deploymentMessage "d" "u"
      "1" "t", cancelationMessage "d"]) = some before ∧
    receive nodeSettings plainSurroundings before (exitEvent "d" "runtime_error") = some after ∧
    after.spawns.map (fun x => spawnedName x.1) = [some "d"] ∧
    (Assoc.find "d" after.deployments).map Deployment.active = some false :=
  ⟨_, _, rfl, rfl, rfl, rfl⟩

end DeploymentManager

end UActor
