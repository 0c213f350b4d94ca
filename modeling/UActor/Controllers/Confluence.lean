import UActor.Controllers.Deactivations

/-!
# The order of the sets

The deployment manager goes through the deployments that depend on a type in the order of their
addresses. A message that makes a type available has the same outcome in every order exactly if no
cascade comes to a deployment that is already active.
-/

namespace UActor

namespace DeploymentManager

variable {cfg : ManagerSettings} {env env' : Surroundings} {st st' : DeploymentManager}
  {name u : String} {names types : List String}

/-! ## One increment in two orders -/

/-- The same deployments are active, and the types are counted alike. -/
structure Same (st st' : DeploymentManager) : Prop where
  frame : Frame st st'
  active : ∀ name, st'.IsActive name ↔ st.IsActive name
  types : ∀ t, Assoc.find t st'.deployed_actor_types = Assoc.find t st.deployed_actor_types

theorem Same.refl (st : DeploymentManager) : Same st st :=
  ⟨.refl st, fun _ => Iff.rfl, fun _ => rfl⟩

theorem Same.symm (h : Same st st') : Same st' st :=
  ⟨h.frame.symm, fun name => (h.active name).symm, fun t => (h.types t).symm⟩

theorem Same.hasType (h : Same st st') (t : String) : st'.hasType t = st.hasType t := by
  unfold DeploymentManager.hasType
  rw [h.types]

theorem more_iterate_isSome {n : Nat} (hn : 0 < n) (count : Option UInt32) :
    (more^[n] count).isSome = true := by
  obtain ⟨n, rfl⟩ := Nat.exists_eq_succ_of_ne_zero (Nat.pos_iff_ne_zero.mp hn)
  rw [Function.iterate_succ_apply']
  cases more^[n] count <;> rfl

theorem Launched.hasType {t : String} (h : Launched st names types st') (ht : t ∈ types) :
    st'.hasType t = true := by
  unfold DeploymentManager.hasType
  rw [h.counts]
  exact more_iterate_isSome (List.count_pos_iff.mpr ht) _

theorem Launched.mem_iff (h : Launched st names types st') (hfresh : Fresh st names) :
    name ∈ names ↔ st'.IsActive name ∧ ¬ st.IsActive name := by
  rw [h.active]
  constructor
  · exact fun hname => ⟨Or.inr hname, hfresh.2 name hname⟩
  · rintro ⟨hname, hnot⟩
    exact hname.resolve_left hnot

/-- An increment in one order bounds those in the other orders. -/
theorem closed_increment (cfg : ManagerSettings) (env' : Surroundings) (hinv : Inv st')
    (hsame : Same st st') (u : String) :
    Closed st (incrementDeployedActorTypeCount cfg env' st' u) := by
  rintro name ⟨t, hrequires, habsent⟩ hready
  have hrequires' : st'.Requires name t := hsame.frame.requires.mpr hrequires
  have habsent' : st'.hasType t = false := (hsame.hasType t).trans habsent
  have hactive := complete_increment cfg env' hinv ⟨t, hrequires', habsent'⟩ hready
  refine ⟨hactive, fun t' ht' => ?_⟩
  obtain ⟨names, types, hlaunched, hfills, -⟩ := launched_increment cfg env' st' u
  rcases (hlaunched.active name).mp hactive with ⟨d, hd, hflag⟩ | hname
  · obtain ⟨d', hd', ht⟩ := hrequires'
    obtain rfl := Option.some.inj (hd.symm.trans hd')
    rw [hinv.provided name d hd hflag t ht] at habsent'
    exact absurd habsent' (by simp)
  · refine hlaunched.hasType (List.mem_cons_of_mem _ (hfills.mem_iff.mpr ?_))
    exact List.mem_filterMap.mpr ⟨name, hname, by rw [hsame.frame.typeOf]; exact ht'⟩

theorem below_increment (cfg : ManagerSettings) (env env' : Surroundings) (hinv : Inv st)
    (hinv' : Inv st') (hsame : Same st st') (u : String) :
    Below (incrementDeployedActorTypeCount cfg env st u)
    (incrementDeployedActorTypeCount cfg env' st' u) := by
  obtain ⟨names, types, hlaunched, -, -⟩ := launched_increment cfg env' st' u
  have hu : (incrementDeployedActorTypeCount cfg env' st' u).hasType u = true :=
    hlaunched.hasType List.mem_cons_self
  have hgrown := grown_increment cfg env' st' u
  have hstart : Below st (incrementDeployedActorTypeCount cfg env' st' u) :=
    ⟨fun t ht => hgrown.types t ((hsame.hasType t).trans ht),
      fun name ha => hgrown.active name ((hsame.active name).mpr ha)⟩
  have hclosed := closed_increment cfg env' hinv' hsame u
  generalize incrementDeployedActorTypeCount cfg env' st' u = bound at *
  unfold incrementDeployedActorTypeCount incrementWith
  cases hcount : Assoc.find u st.deployed_actor_types with
  | some c => exact below_setCount hstart hu
  | none =>
    exact below_actorTypeAdded cfg env hinv hclosed (hsame.frame.trans hlaunched.frame)
      (grown_setCount u 1) (not_hasType_iff.mpr hcount) (below_setCount hstart hu)

theorem increment_confluent {names' types' : List String} (hinv : Inv st) (hinv' : Inv st')
    (hsame : Same st st') (hlaunched : Launched st names (u :: types)
      (incrementDeployedActorTypeCount cfg env st u))
    (hlaunched' : Launched st' names' (u :: types')
      (incrementDeployedActorTypeCount cfg env' st' u))
    (hfills : Fills st names types) (hfills' : Fills st' names' types') (hfresh : Fresh st names)
    (hfresh' : Fresh st' names') : names'.Perm names ∧
      Same (incrementDeployedActorTypeCount cfg env st u)
      (incrementDeployedActorTypeCount cfg env' st' u) := by
  have hbelow := below_increment cfg env env' hinv hinv' hsame u
  have hbelow' := below_increment cfg env' env hinv' hinv hsame.symm u
  have hactive : ∀ name, (incrementDeployedActorTypeCount cfg env' st' u).IsActive name ↔
      (incrementDeployedActorTypeCount cfg env st u).IsActive name :=
    fun name => ⟨hbelow'.active name, hbelow.active name⟩
  have hnames : names'.Perm names := by
    refine (List.perm_ext_iff_of_nodup hfresh'.1 hfresh.1).mpr fun name => ?_
    rw [hlaunched'.mem_iff hfresh', hlaunched.mem_iff hfresh, hactive, hsame.active]
  have htypes : types'.Perm types := by
    unfold Fills at hfills hfills'
    rw [hsame.frame.typeOf] at hfills'
    exact (hfills'.trans (hnames.filterMap _)).trans hfills.symm
  refine ⟨hnames, (hlaunched.frame.symm.trans hsame.frame).trans hlaunched'.frame, hactive,
    fun t => ?_⟩
  rw [hlaunched'.counts, hlaunched.counts, hsame.types, (htypes.cons u).count_eq]

/-! ## One decrement in two orders -/

theorem decrement_confluent (cfg : ManagerSettings) (env env' : Surroundings)
    (hunique : (Assoc.keys st.deployments).Nodup) (u : String) :
    Same (decrementDeployedActorTypeCount cfg env st u) (decrementDeployedActorTypeCount cfg env' st
      u) := by
  have hbelow := below_decrement cfg env env' hunique u
  have hbelow' := below_decrement cfg env' env hunique u
  have hlowered := (outcome_decrement cfg env st u).lowered
  have hlowered' := (outcome_decrement cfg env' st u).lowered
  generalize decrementDeployedActorTypeCount cfg env st u = one at *
  generalize decrementDeployedActorTypeCount cfg env' st u = other at *
  have hframe : Frame one other := hlowered.frame.symm.trans hlowered'.frame
  refine ⟨hframe, fun name => ⟨hbelow.active name, hbelow'.active name⟩, fun t => ?_⟩
  cases ht : other.hasType t with
  | false =>
    cases ht' : one.hasType t with
    | false => rw [not_hasType_iff.mp ht, not_hasType_iff.mp ht']
    | true => exact absurd (ht.symm.trans (hbelow'.types t ht')) (by simp)
  | true =>
    have hkeys : (Assoc.keys one.deployments).Nodup := by
      rw [hlowered.frame.keys]
      exact hunique
    have hkeys' : (Assoc.keys other.deployments).Nodup := by
      rw [hframe.keys]
      exact hkeys
    have hle := hframe.activeCount_le hbelow.active hkeys t
    have hle' := hframe.symm.activeCount_le hbelow'.active hkeys' t
    obtain ⟨n, hn, hfind⟩ := hlowered.counts t (hbelow.types t ht)
    obtain ⟨m, hm, hfind'⟩ := hlowered'.counts t ht
    obtain rfl : n = m := by omega
    rw [hfind, hfind']

theorem Same.modify (h : Same st st') (name : String) {f : Deployment → Deployment}
    (hactive : ∀ d, (f d).active = d.active)
    (hfixed : ∀ d d' : Deployment, d'.fixed = d.fixed → (f d').fixed = (f d).fixed) :
    Same (st.modify name f) (st'.modify name f) := by
  have hput : ∀ (st : DeploymentManager) d, Assoc.find name st.deployments = some d →
      (st.modify name f).fixedDeployments = Assoc.put name (f d).fixed st.fixedDeployments := by
    intro st d hd
    rw [modify_eq hd]
    unfold fixedDeployments
    exact Assoc.map_put name (f d) Deployment.fixed st.deployments
  refine ⟨?_, fun name' => ?_, fun t => ?_⟩
  · cases hd : Assoc.find name st.deployments with
    | none =>
      have hd' : Assoc.find name st'.deployments = none := by
        have hkeys := h.frame.keys
        rw [Assoc.find_eq_none] at hd ⊢
        rwa [hkeys]
      unfold DeploymentManager.modify
      rw [hd, hd']
      exact h.frame
    | some d =>
      obtain ⟨d', hd', heq⟩ := h.frame.find hd
      refine ⟨?_, ?_, ?_, ?_⟩
      · rw [modify_eq hd, modify_eq hd']
        exact h.frame.executors
      · rw [modify_eq hd, modify_eq hd']
        exact h.frame.dependencies
      · rw [modify_eq hd, modify_eq hd']
        exact h.frame.ttl_end_times
      · rw [hput st d hd, hput st' d' hd', hfixed d d' heq, h.frame.deployments]
  · rw [isActive_modify name hactive, isActive_modify name hactive, h.active]
  · rw [modify_deployed_actor_types, modify_deployed_actor_types, h.types]

theorem exchangeType_confluent (cfg : ManagerSettings) (env env' : Surroundings) (hinv : Inv st)
    (d : Deployment) (r : Request) :
    Same (exchangeType cfg env st d r) (exchangeType cfg env' st d r) := by
  have hstopped : Inv (stopDeployment cfg st r.name) := hinv.declined declined_stopDeployment
  refine Same.modify (decrement_confluent cfg env env' hstopped.unique d.actor_type) r.name
    (fun _ => rfl) fun d d' h => ?_
  unfold Deployment.fixed at h ⊢
  simp_all

/-! ## Messages -/

/-- The same surroundings, with the sets in another order. -/
structure Reorders (env env' : Surroundings) : Prop where
  now : env'.now = env.now
  subscribe : env'.subscribe = env.subscribe

/-- The message may make a type available. -/
def OffersType (p : Publication) : Prop :=
  handlerOf p = some .deployment ∨
    (handlerOf p = some .unmanagedActorUpdate ∧ p.getStrAttr "command" = some "register")

/-- The same deployments are active, the types are counted alike, the spawns are the same, and none
is repeated. -/
structure Agree (st st' : DeploymentManager) : Prop where
  active : ∀ name, st'.IsActive name ↔ st.IsActive name
  types : ∀ t, Assoc.find t st'.deployed_actor_types = Assoc.find t st.deployed_actor_types
  spawns : st'.spawns.Perm st.spawns
  once : st.spawnedNames.Nodup

def OrderFree : Option DeploymentManager → Option DeploymentManager → Prop
  | some st, some st' => Agree st st'
  | none, none => True
  | _, _ => False

/-- No cascade comes to a deployment that is already active, and the cascade of an update does not
start the deployment that the update starts. -/
structure SingleTurns (cfg : ManagerSettings) (env : Surroundings) (st : DeploymentManager)
    (p : Publication) : Prop where
  inactive : ∀ st₁ t, Increments cfg env st p st₁ t → ∀ st' name d, Activates cfg env st₁ t st'
    name d →
      d.active = false
  apart : ∀ r executors d st' d', handlerOf p = some .deployment →
    st.readDeployment p = some (some (r, executors)) →
    Assoc.find r.name st.deployments = some d → r.replaces d = true →
    ¬ Activates cfg env (exchangeType cfg env st d r) r.actor_type st' r.name d'

/-- One more start behind a cascade. -/
structure Follows (st : DeploymentManager) (x : Publication × UInt32) (names : List String)
    (st' : DeploymentManager) :
    Prop where
  spawns : st'.spawns = st.spawns ++ [x]
  active : ∀ name, st'.IsActive name ↔ st.IsActive name ∨ name ∈ names
  types : st'.deployed_actor_types = st.deployed_actor_types

theorem Follows.spawnedNames {x : Publication × UInt32} (h : Follows st x names st')
    (hname : spawnedName x.1 = some name) :
    st'.spawnedNames = st.spawnedNames ++ [some name] := by
  unfold DeploymentManager.spawnedNames
  rw [h.spawns, List.map_append, List.map_singleton, hname]

theorem Agree.follows {last last' : DeploymentManager} {x : Publication × UInt32} (h : Agree st st')
    (hlast : Follows st x names last) (hlast' : Follows st' x names last')
    (hname : spawnedName x.1 = some name) (hnew : some name ∉ st.spawnedNames) :
    Agree last last' := by
  refine ⟨fun name => ?_, fun t => ?_, ?_, ?_⟩
  · rw [hlast'.active, hlast.active, h.active]
  · rw [hlast'.types, hlast.types, h.types]
  · rw [hlast'.spawns, hlast.spawns]
    exact h.spawns.append_right [x]
  · rw [hlast.spawnedNames hname]
    refine List.nodup_append.mpr ⟨h.once, List.nodup_singleton _, ?_⟩
    rintro a ha b hb rfl
    rw [List.mem_singleton.mp hb] at ha
    exact hnew ha

theorem spawnedNames_nil (h : st.spawns = []) : st.spawnedNames = [] := by
  unfold spawnedNames
  rw [h]
  rfl

theorem increment_agree (hinv : Inv st) (hinv' : Inv st') (hsame : Same st st')
    (hempty : st.spawns = []) (hempty' : st'.spawns = [])
    (hsingle : ∀ st₁ name d, Activates cfg env st u st₁ name d → d.active = false)
    (hsingle' : ∀ st₁ name d, Activates cfg env' st' u st₁ name d → d.active = false) :
    Agree (incrementDeployedActorTypeCount cfg env st u)
    (incrementDeployedActorTypeCount cfg env' st' u) ∧
      Frame (incrementDeployedActorTypeCount cfg env st u)
      (incrementDeployedActorTypeCount cfg env' st' u) := by
  obtain ⟨names, types, hlaunched, hfills, hfresh⟩ := launched_increment cfg env st u
  obtain ⟨names', types', hlaunched', hfills', hfresh'⟩ := launched_increment cfg env' st' u
  obtain ⟨hnames, hafter⟩ := increment_confluent hinv hinv' hsame hlaunched hlaunched'
    hfills hfills' (hfresh hinv hsingle) (hfresh' hinv' hsingle')
  refine ⟨⟨hafter.active, hafter.types, ?_, ?_⟩, hafter.frame⟩
  · rw [hlaunched'.spawns, hlaunched.spawns, hempty, hempty', hsame.frame.startOf]
    exact hnames.filterMap _
  · rw [hlaunched.spawnedNames hinv, spawnedNames_nil hempty, List.nil_append]
    exact (hfresh hinv hsingle).1.map fun _ _ h => Option.some.inj h

theorem Activates.mem_spawnedNames {d : Deployment} (hinv : Inv st)
    (h : Activates cfg env st u st' name d) :
    some name ∈ (incrementDeployedActorTypeCount cfg env st u).spawnedNames := by
  obtain ⟨before, behind, types, types', -, hall, hmem⟩ := h.split
  rw [hall.spawnedNames hinv]
  exact List.mem_append_right _ (List.mem_map_of_mem (List.mem_append_right _ hmem))

/-! ## The end of a deployment message -/

theorem deploy_types (cfg : ManagerSettings) (env : Surroundings) (st : DeploymentManager)
    (r : Request) (executors : ExecutorList) :
    (deploy cfg env st r executors).deployed_actor_types =
      (match Assoc.find r.name st.deployments with
        | none => insertDeployment cfg env st r (r.endTime env) executors
        | some d => updateDeployment cfg env st d r (r.endTime env)
            executors).deployed_actor_types := by
  obtain ⟨ends, effects, hdeploy⟩ := deploy_tables cfg env st r executors
  have htypes := congrArg DeploymentManager.deployed_actor_types hdeploy
  exact htypes

theorem updateDeployment_types (cfg : ManagerSettings) (env : Surroundings) (st : DeploymentManager)
    (d : Deployment) (r : Request) (end_time : UInt32) (executors : ExecutorList) :
    (updateDeployment cfg env st d r end_time executors).deployed_actor_types =
      (if r.replaces d then replaceDeployment cfg env st d r executors
        else st).deployed_actor_types := by
  unfold updateDeployment
  dsimp only
  generalize (if r.replaces d then replaceDeployment cfg env st d r executors else st) = st₁
  split
  · exact modify_deployed_actor_types _
  · exact modify_deployed_actor_types _

theorem startDeployment_types (name : String) (executor : ExecutorIdentifier) (delay : UInt32) :
    (st.startDeployment name executor delay).deployed_actor_types = st.deployed_actor_types := by
  unfold startDeployment
  split
  · exact modify_deployed_actor_types _
  · rfl

theorem deploy_inserted {r : Request} (executors : ExecutorList)
    (hnew : Assoc.find r.name st.deployments = none)
    (hreq : (recordDeployment cfg env st r (r.endTime env)).requirementsCheck
      (r.deployment (r.endTime env) (env.subscribe (cancelationFilter cfg r.name))) = true) :
    ∃ d, Assoc.find r.name (incrementDeployedActorTypeCount cfg env
        (recordDeployment cfg env st r (r.endTime env)) r.actor_type).deployments = some d ∧
        d.name = r.name ∧
      Follows (incrementDeployedActorTypeCount cfg env
        (recordDeployment cfg env st r (r.endTime env)) r.actor_type)
        (spawnMessage d executors.front, 0) [r.name] (deploy cfg env st r executors) := by
  obtain ⟨hspawns, hactive⟩ := deploy_alike cfg env st r executors
  have htypes := deploy_types cfg env st r executors
  rw [hnew] at hspawns hactive htypes
  dsimp only at hspawns hactive htypes
  obtain ⟨d, st₁, active, hd, hname, hstarted, heq⟩ := insertDeployment_eq executors hreq
  rw [heq] at hspawns hactive htypes
  refine ⟨d, hd, hname, hspawns.trans hstarted.spawns, fun name =>
    ?_, htypes.trans hstarted.deployed_actor_types⟩
  refine (hactive name).trans ((hstarted.isActive_iff name).trans ?_)
  rw [List.mem_singleton, or_comm]

theorem deploy_waiting {r : Request} (executors : ExecutorList)
    (hnew : Assoc.find r.name st.deployments = none)
    (hreq : ¬ (recordDeployment cfg env st r (r.endTime env)).requirementsCheck
      (r.deployment (r.endTime env) (env.subscribe (cancelationFilter cfg r.name))) = true) :
    Alike (recordDeployment cfg env st r (r.endTime env)) (deploy cfg env st r executors) ∧
      (deploy cfg env st r executors).deployed_actor_types =
        (recordDeployment cfg env st r (r.endTime env)).deployed_actor_types := by
  have halike := deploy_alike cfg env st r executors
  have htypes := deploy_types cfg env st r executors
  rw [hnew] at halike htypes
  dsimp only at halike htypes
  unfold insertDeployment at halike htypes
  dsimp only at halike htypes
  rw [if_neg hreq] at halike htypes
  exact ⟨⟨halike.spawns, halike.active⟩, htypes⟩

theorem deploy_replaced (cfg : ManagerSettings) (env : Surroundings) (hinv : Inv st) {r : Request}
    {d : Deployment} (executors : ExecutorList) (hd : Assoc.find r.name st.deployments = some d)
    (hreplaces : r.replaces d = true) :
    ∃ d', Assoc.find r.name (incrementDeployedActorTypeCount cfg env
      (exchangeType cfg env st d r) r.actor_type).deployments =
        some d' ∧ d'.name = r.name ∧
      Follows (incrementDeployedActorTypeCount cfg env (exchangeType cfg env st d r) r.actor_type)
        (spawnMessage d' executors.front, 0) [] (deploy cfg env st r executors) := by
  obtain ⟨hspawns, hactive⟩ := deploy_alike cfg env st r executors
  have htypes := deploy_types cfg env st r executors
  obtain ⟨hspawns', hactive'⟩ := updateDeployment_alike cfg env st d r (r.endTime env) executors
  have htypes' := updateDeployment_types cfg env st d r (r.endTime env) executors
  rw [hd] at hspawns hactive htypes
  rw [if_pos hreplaces] at hspawns' hactive' htypes'
  dsimp only at hspawns hactive htypes
  obtain ⟨d', hd', hname, -⟩ := find_replaced cfg env hinv hd
  obtain ⟨hspawns₁, hactive₁⟩ := startDeployment_alike hd' executors.front 0
  refine ⟨d', hd', hname, (hspawns.trans hspawns').trans hspawns₁, fun name => ?_,
    (htypes.trans htypes').trans (startDeployment_types _ _ _)⟩
  rw [hactive, hactive']
  refine (hactive₁ name).trans ?_
  simp

theorem deploy_kept (cfg : ManagerSettings) (env : Surroundings) {r : Request}
    {d : Deployment} (executors : ExecutorList)
    (hd : Assoc.find r.name st.deployments = some d) (hreplaces : r.replaces d = false) :
    Alike st (deploy cfg env st r executors) ∧
      (deploy cfg env st r executors).deployed_actor_types = st.deployed_actor_types := by
  have halike := deploy_alike cfg env st r executors
  have htypes := deploy_types cfg env st r executors
  have halike' := updateDeployment_alike cfg env st d r (r.endTime env) executors
  have htypes' := updateDeployment_types cfg env st d r (r.endTime env) executors
  rw [hd] at halike htypes
  rw [hreplaces, if_neg (by simp)] at halike' htypes'
  exact ⟨halike'.trans halike, htypes.trans htypes'⟩

/-! ## What a message comes to -/

theorem exists_activates (hinv : Inv st) (hempty : st.spawns = [])
    (h : some name ∈ (incrementDeployedActorTypeCount cfg env st u).spawnedNames) :
    ∃ st' d, Activates cfg env st u st' name d := by
  obtain ⟨x, hx, hname⟩ := List.mem_map.mp h
  rcases spawn_of_increment.mp hx with hold | ⟨st', name', hin⟩
  · rw [hempty] at hold
    exact absurd hold (by simp)
  · obtain rfl := Option.some.inj ((hin.spawnedName hinv).symm.trans hname)
    obtain ⟨hnew, hturn, d, executors, hready, -⟩ := hin
    exact ⟨st', d, hnew, hturn, executors, hready⟩

theorem recordDeployment_reorders (h : Reorders env env') (r : Request) :
    recordDeployment cfg env' st r (r.endTime env') = recordDeployment cfg env st r
      (r.endTime env) := by
  unfold recordDeployment Request.endTime
  rw [h.now, h.subscribe]

theorem recorded_not_spawned (hinv : Inv st) {r : Request}
    (hnew : Assoc.find r.name st.deployments = none) (hempty : st.spawns = [])
    (hreq : (recordDeployment cfg env st r (r.endTime env)).requirementsCheck
      (r.deployment (r.endTime env) (env.subscribe (cancelationFilter cfg r.name))) = true) :
    some r.name ∉ (incrementDeployedActorTypeCount cfg env
      (recordDeployment cfg env st r (r.endTime env)) r.actor_type).spawnedNames := by
  have hinv₁ : Inv (recordDeployment cfg env st r (r.endTime env)) := hinv.recordDeployment r hnew _
  have hd : Assoc.find r.name (recordDeployment cfg env st r (r.endTime env)).deployments =
      some (r.deployment (r.endTime env) (env.subscribe (cancelationFilter cfg r.name))) :=
        Assoc.find_put_self _ _ _
  have hkept : Assoc.find r.name (incrementDeployedActorTypeCount cfg env
      (recordDeployment cfg env st r (r.endTime env)) r.actor_type).deployments = _ :=
    untouched_increment hinv₁ hd hreq r.actor_type
  obtain ⟨names, types, hlaunched, -, -⟩ :=
    launched_increment cfg env (recordDeployment cfg env st r (r.endTime env)) r.actor_type
  rw [hlaunched.spawnedNames hinv₁, spawnedNames_nil ((spawns_recordDeployment r _).trans hempty),
    List.nil_append]
  intro hmem
  obtain ⟨name, hname, heq⟩ := List.mem_map.mp hmem
  obtain rfl := Option.some.inj heq
  obtain ⟨d, hd', hactive⟩ := (hlaunched.active r.name).mpr (Or.inr hname)
  obtain rfl := Option.some.inj (hkept.symm.trans hd')
  exact absurd hactive (by simp [Request.deployment])

theorem spawnMessage_of_frame {d d' : Deployment} (hframe : Frame st st')
    (hd : Assoc.find name st.deployments = some d) (hd' : Assoc.find name st'.deployments = some d')
    (executor : ExecutorIdentifier) :
    spawnMessage d' executor = spawnMessage d executor := by
  obtain ⟨d₁, hd₁, hfixed⟩ := hframe.find hd
  obtain rfl := Option.some.inj (hd₁.symm.trans hd')
  exact spawnMessage_of_fixed hfixed executor

theorem agree_inserted (hinv : Inv st) (hempty : st.spawns = []) (horder : Reorders env env')
    {p : Publication} {r : Request}
    {executors : ExecutorList} (hp : handlerOf p = some .deployment)
    (hr : st.readDeployment p = some (some (r, executors)))
    (hnew : Assoc.find r.name st.deployments = none) (hsingle : SingleTurns cfg env st p)
    (hsingle' : SingleTurns cfg env' st p) :
    Agree (deploy cfg env st r executors) (deploy cfg env' st r executors) := by
  have hrecord : recordDeployment cfg env' st r (r.endTime env') = recordDeployment cfg env st r
      (r.endTime env) :=
    recordDeployment_reorders horder r
  have hrequest : r.deployment (r.endTime env') (env'.subscribe (cancelationFilter cfg r.name)) =
      r.deployment (r.endTime env) (env.subscribe (cancelationFilter cfg r.name)) := by
    unfold Request.endTime
    rw [horder.now, horder.subscribe]
  have hrecorded : (recordDeployment cfg env st r (r.endTime env)).spawns = [] :=
    (spawns_recordDeployment r _).trans hempty
  by_cases hreq : (recordDeployment cfg env st r (r.endTime env)).requirementsCheck
      (r.deployment (r.endTime env) (env.subscribe (cancelationFilter cfg r.name))) = true
  · have hreq' : (recordDeployment cfg env' st r (r.endTime env')).requirementsCheck
        (r.deployment (r.endTime env') (env'.subscribe (cancelationFilter cfg r.name))) = true := by
      rw [hrecord, hrequest]
      exact hreq
    have hinactive := hsingle.inactive _ _ (.inserted hp hr hnew hreq)
    have hinactive' := hsingle'.inactive _ _ (.inserted hp hr hnew hreq')
    obtain ⟨d, hd, hname, hfollows⟩ := deploy_inserted executors hnew hreq
    obtain ⟨d', hd', -, hfollows'⟩ := deploy_inserted executors hnew hreq'
    rw [hrecord] at hinactive' hd' hfollows'
    have hinv₁ : Inv (recordDeployment cfg env st r (r.endTime env)) :=
      hinv.recordDeployment r hnew _
    obtain ⟨hagree, hframe⟩ := increment_agree hinv₁ hinv₁ (.refl _) hrecorded hrecorded hinactive
      hinactive'
    rw [spawnMessage_of_frame hframe hd hd'] at hfollows'
    refine hagree.follows hfollows hfollows' (spawnedName_spawnMessage d _) ?_
    rw [hname]
    exact recorded_not_spawned hinv hnew hempty hreq
  · have hreq' : ¬ (recordDeployment cfg env' st r (r.endTime env')).requirementsCheck
        (r.deployment (r.endTime env') (env'.subscribe (cancelationFilter cfg r.name))) = true := by
      rw [hrecord, hrequest]
      exact hreq
    obtain ⟨halike, htypes⟩ := deploy_waiting executors hnew hreq
    obtain ⟨halike', htypes'⟩ := deploy_waiting executors hnew hreq'
    rw [hrecord] at halike' htypes'
    refine ⟨fun name => by rw [halike'.active, halike.active], fun t => by rw [htypes',
      htypes], ?_, ?_⟩
    · rw [halike'.spawns, halike.spawns]
    · rw [spawnedNames_nil (halike.spawns.trans hrecorded)]
      exact List.nodup_nil

theorem agree_updated (hinv : Inv st) (hempty : st.spawns = []) {p : Publication} {r : Request}
    {executors : ExecutorList} {d : Deployment} (hp : handlerOf p = some .deployment)
    (hr : st.readDeployment p = some (some (r, executors)))
    (hd : Assoc.find r.name st.deployments = some d) (hsingle : SingleTurns cfg env st p)
    (hsingle' : SingleTurns cfg env' st p) :
    Agree (deploy cfg env st r executors) (deploy cfg env' st r executors) := by
  cases hreplaces : r.replaces d with
  | true =>
    have hexchanged : (exchangeType cfg env st d r).spawns = [] :=
      (spawns_exchangeType d r).trans hempty
    have hexchanged' : (exchangeType cfg env' st d r).spawns = [] :=
      (spawns_exchangeType d r).trans hempty
    obtain ⟨d₁, hd₁, hname, hfollows⟩ := deploy_replaced cfg env hinv executors hd hreplaces
    obtain ⟨d₁', hd₁', -, hfollows'⟩ := deploy_replaced cfg env' hinv executors hd hreplaces
    obtain ⟨hagree, hframe⟩ := increment_agree (hinv.exchangeType d r) (hinv.exchangeType d r)
      (exchangeType_confluent cfg env env' hinv d r) hexchanged hexchanged'
      (hsingle.inactive _ _ (.replaced hp hr hd hreplaces))
        (hsingle'.inactive _ _ (.replaced hp hr hd hreplaces))
    rw [spawnMessage_of_frame hframe hd₁ hd₁'] at hfollows'
    refine hagree.follows hfollows hfollows' (spawnedName_spawnMessage d₁ _) ?_
    rw [hname]
    intro hmem
    obtain ⟨st', d', hactivates⟩ := exists_activates (hinv.exchangeType d r) hexchanged hmem
    exact hsingle.apart r executors d st' d' hp hr hd hreplaces hactivates
  | false =>
    obtain ⟨halike, htypes⟩ := deploy_kept cfg env executors hd hreplaces
    obtain ⟨halike', htypes'⟩ := deploy_kept cfg env' executors hd hreplaces
    refine ⟨fun name => by rw [halike'.active, halike.active], fun t => by rw [htypes',
      htypes], ?_, ?_⟩
    · rw [halike'.spawns, halike.spawns]
    · rw [spawnedNames_nil (halike.spawns.trans hempty)]
      exact List.nodup_nil

/-- If no cascade comes to a deployment that is active, the order of the sets does not matter. -/
theorem orderFree_of_singleTurns (hinv : Inv st) {p : Publication} (hp : OffersType p)
    (horder : Reorders env env') (hsingle : SingleTurns cfg env { st with effects := [] } p)
    (hsingle' : SingleTurns cfg env' { st with effects := [] } p) :
    OrderFree (receive cfg env st p) (receive cfg env' st p) := by
  have hinv₀ : Inv { st with effects := [] } := hinv.of_eq rfl rfl rfl
  rcases hp with hp | ⟨hp, hcommand⟩
  · rw [receive_deployment hp, receive_deployment hp]
    cases hr : readDeployment { st with effects := [] } p with
    | none => trivial
    | some read =>
      cases read with
      | none => exact ⟨fun _ => Iff.rfl, fun _ => rfl, .refl _, List.nodup_nil⟩
      | some request =>
        obtain ⟨r, executors⟩ := request
        cases hd : Assoc.find r.name st.deployments with
        | none => exact agree_inserted hinv₀ rfl horder hp hr hd hsingle hsingle'
        | some d => exact agree_updated hinv₀ rfl hp hr hd hsingle hsingle'
  · rw [receive_register hp hcommand, receive_register hp hcommand]
    cases ht : p.getStrAttr "update_actor_type" with
    | none => trivial
    | some t =>
      have hregistered : ∀ env, Increments cfg env { st with effects := [] } p { st with effects :=
        [] } t :=
        fun _ => .registered hp hcommand ht
      exact (increment_agree hinv₀ hinv₀ (.refl _) rfl rfl (hsingle.inactive _ _ (hregistered env))
        (hsingle'.inactive _ _ (hregistered env'))).1

theorem Increments.spawnedNames {p : Publication} {st₁ : DeploymentManager} {t : String}
    (h : Increments cfg env { st with effects := [] } p st₁ t) (hinv : Inv st) : Inv st₁ ∧
      ∃ after rest, receive cfg env st p = some after ∧
        after.spawnedNames = (incrementDeployedActorTypeCount cfg env st₁ t).spawnedNames ++
          rest := by
  have hinv₀ : Inv { st with effects := [] } := hinv.of_eq rfl rfl rfl
  cases h with
  | registered hp hcommand htype =>
    exact ⟨hinv₀, _, [], receive_registered hp hcommand htype, (List.append_nil _).symm⟩
  | @inserted r executors hp hr hnew hreq =>
    obtain ⟨d, -, -, hfollows⟩ := deploy_inserted executors hnew hreq
    exact ⟨hinv₀.recordDeployment r hnew _, _, _, receive_deployed hp hr,
      hfollows.spawnedNames (spawnedName_spawnMessage d _)⟩
  | @replaced r executors d hp hr hd hreplaces =>
    obtain ⟨d', -, -, hfollows⟩ := deploy_replaced cfg env hinv₀ executors hd hreplaces
    exact ⟨hinv₀.exchangeType d r, _, _, receive_deployed hp hr, hfollows.spawnedNames
      (spawnedName_spawnMessage d' _)⟩

/-- If no spawn is repeated, no cascade comes to a deployment that is active. -/
theorem singleTurns_of_orderFree (hinv : Inv st) {p : Publication}
    (h : OrderFree (receive cfg env st p) (receive cfg env st p)) :
    SingleTurns cfg env { st with effects := [] } p := by
  constructor
  · intro st₁ t hincrements st' name d hactivates
    obtain ⟨hinv₁, after, rest, hafter, hnames⟩ := hincrements.spawnedNames hinv
    rw [hafter] at h
    have honce : after.spawnedNames.Nodup := Agree.once h
    rw [hnames] at honce
    exact hactivates.inactive_of_nodup hinv₁ (List.nodup_append.mp honce).1
  · intro r executors d st' d' hp hr hd hreplaces hactivates
    have hinv₀ : Inv { st with effects := [] } := hinv.of_eq rfl rfl rfl
    obtain ⟨d₁, -, hname, hfollows⟩ := deploy_replaced cfg env hinv₀ executors hd hreplaces
    rw [receive_deployed hp hr] at h
    have honce := Agree.once h
    rw [hfollows.spawnedNames (spawnedName_spawnMessage d₁ _), hname] at honce
    have hmem := hactivates.mem_spawnedNames (hinv₀.exchangeType d r)
    exact (List.nodup_append.mp honce).2.2 _ hmem _ (List.mem_singleton.mpr rfl) rfl

/-- A message that makes a type available has the same outcome in every order of the sets, and
starts nothing twice, exactly if in every order no cascade comes to a deployment that is already
active. -/
theorem order_free_iff {messages : List (Surroundings × Publication)}
    (hrun : run cfg messages = some st) {p : Publication}
    (hp : OffersType p) (env : Surroundings) :
    (∀ env₁ env₂, Reorders env env₁ → Reorders env env₂ →
      OrderFree (receive cfg env₁ st p) (receive cfg env₂ st p)) ↔
    ∀ env₁, Reorders env env₁ → SingleTurns cfg env₁ { st with effects := [] } p := by
  have hinv := inv_run hrun
  constructor
  · exact fun h env₁ h₁ => singleTurns_of_orderFree hinv (h env₁ env₁ h₁ h₁)
  · intro h env₁ env₂ h₁ h₂
    have horder : Reorders env₁ env₂ :=
      ⟨h₂.now.trans h₁.now.symm, h₂.subscribe.trans h₁.subscribe.symm⟩
    exact orderFree_of_singleTurns hinv hp horder (h env₁ h₁) (h env₂ h₂)

theorem not_turn_of_no_dependents (hnone : Multimap.members u st.dependencies = []) :
    ¬ Cascade.Turn (dependents env) (visitAdded cfg env) waiting callsAdded st u st' name := by
  have hdependents : dependents env st u = [] := by
    have hperm := env.perm (Multimap.members u st.dependencies)
    rw [hnone] at hperm
    unfold dependents
    rw [hnone]
    exact hperm.eq_nil
  exact fun hturn => hturn.targets_ne_nil hdependents

/-- A deployment that waits for a type, and that nothing waits for. -/
def waitingDeployment : List (Surroundings × Publication) :=
  inOrder [executorMessage, deploymentMessage "d" "u" "1" "t"]

theorem order_free_waiting : ∃ st after, run nodeSettings waitingDeployment = some st ∧
    receive nodeSettings plainSurroundings st (registerMessage "t") = some after ∧
    after.spawnedNames = [some "d"] ∧
    ∀ env₁ env₂, Reorders plainSurroundings env₁ → Reorders plainSurroundings env₂ →
      OrderFree (receive nodeSettings env₁ st (registerMessage "t"))
      (receive nodeSettings env₂ st (registerMessage "t")) := by
  obtain ⟨st, after, hrun, hafter, hnames, hmembers, hnone, hinactive⟩ :
    ∃ st after, run nodeSettings waitingDeployment = some st ∧
      receive nodeSettings plainSurroundings st (registerMessage "t") = some after ∧
      after.spawnedNames = [some "d"] ∧
      Multimap.members "t" st.dependencies = ["d"] ∧ Multimap.members "u" st.dependencies = [] ∧
      (Assoc.find "d" st.deployments).map (fun d => (d.active, d.actor_type)) = some (false, "u") :=
    ⟨_, _, rfl, rfl, rfl, rfl, rfl, rfl⟩
  refine ⟨st, after, hrun, hafter, hnames, ?_⟩
  refine (order_free_iff hrun (Or.inr ⟨rfl, rfl⟩) plainSurroundings).mpr fun env₁ _ => ⟨?_, nofun⟩
  intro st₁ t hincrements st' name d hactivates
  cases hincrements with
  | @registered t hp hcommand htype =>
    obtain rfl : "t" = t := Option.some.inj htype
    have hdependents : ∀ c, dependents env₁ (setCount { st with effects := [] } "t" c) "t" =
      ["d"] := by
      intro c
      have hperm := env₁.perm (Multimap.members "t" st.dependencies)
      rw [hmembers] at hperm
      show env₁.visit (Multimap.members "t" st.dependencies) = ["d"]
      rw [hmembers]
      exact List.perm_singleton.mp hperm
    have hsplit : ∀ {pre post : List String} {b : String}, ["d"] = pre ++ b :: post → pre = [] ∧
        b = "d" := by
      intro pre post b heq
      cases pre with
      | nil => exact ⟨rfl, (List.cons.inj heq).1.symm⟩
      | cons a pre => simp at heq
    obtain ⟨-, hturn, executors, hready⟩ := hactivates
    cases hturn with
    | own heq =>
      rw [hdependents] at heq
      obtain ⟨rfl, rfl⟩ := hsplit heq
      have hd : Assoc.find "d" st.deployments = some d := (readyOn_eq.mp hready).1
      rw [hd] at hinactive
      exact congrArg Prod.fst (Option.some.inj hinactive)
    | nested heq hcall hturn =>
      rw [hdependents] at heq
      obtain ⟨rfl, rfl⟩ := hsplit heq
      obtain ⟨d', executors', hready', rfl, -, rfl⟩ := hcall
      have hd : Assoc.find "d" st.deployments = some d' := (readyOn_eq.mp hready').1
      rw [hd] at hinactive
      have htype : d'.actor_type = "u" := congrArg Prod.snd (Option.some.inj hinactive)
      refine absurd hturn (not_turn_of_no_dependents ?_)
      rw [htype]
      exact hnone
  | inserted hp => exact nomatch hp
  | replaced hp => exact nomatch hp

def reversedSurroundings : Surroundings := ⟨fun _ => 5, fun _ => 7, List.reverse, List.reverse_perm⟩

/-- A deployment of type `u` that requires `t`, and one that requires both. -/
def diamond : List (Surroundings × Publication) :=
  inOrder [executorMessage, deploymentMessage "a" "u" "1" "t", deploymentMessage "b" "v" "1" "t,u"]

/-- In one of the two orders, the second deployment is started twice and counted twice. -/
theorem diamond_started_twice : ∃ st one other, run nodeSettings diamond = some st ∧
    OffersType (registerMessage "t") ∧ Reorders plainSurroundings reversedSurroundings ∧
    receive nodeSettings plainSurroundings st (registerMessage "t") = some one ∧
    receive nodeSettings reversedSurroundings st (registerMessage "t") = some other ∧
    one.spawnedNames = [some "b", some "a", some "b"] ∧ other.spawnedNames = [some "b", some "a"] ∧
    one.count "v" = 2 ∧ other.count "v" = 1 ∧ ¬ OrderFree (some one) (some other) := by
  obtain ⟨st, one, other, hrun, hone, hother, hnames, hnames', hcount, hcount'⟩ : ∃ st one other,
      run nodeSettings diamond = some st ∧
      receive nodeSettings plainSurroundings st (registerMessage "t") = some one ∧
      receive nodeSettings reversedSurroundings st (registerMessage "t") = some other ∧
      one.spawnedNames = [some "b", some "a", some "b"] ∧
        other.spawnedNames = [some "b", some "a"] ∧
      one.count "v" = 2 ∧ other.count "v" = 1 := ⟨_, _, _, rfl, rfl, rfl, rfl, rfl, rfl, rfl⟩
  refine ⟨st, one, other, hrun, Or.inr ⟨rfl, rfl⟩, ⟨rfl, rfl⟩, hone, hother,
    hnames, hnames', hcount, hcount', fun h => ?_⟩
  have honce := Agree.once h
  rw [hnames] at honce
  exact absurd honce (by decide)

end DeploymentManager

end UActor
