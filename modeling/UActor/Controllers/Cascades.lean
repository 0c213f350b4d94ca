import UActor.Controllers.Deployments

/-!
# Cascades of activations

Both cascades of the deployment manager come to an end, also if deployments require each other in a
circle: one adds an actor type at each level, the other one takes one away.
-/

namespace UActor

/-- What a deployment keeps while it is activated and deactivated. -/
def Deployment.fixed (d : Deployment) : Deployment :=
  { d with lifetime_subscription_id := 0, restarts := 0, active := false }

theorem Deployment.of_fixed {ρ : Type} {d d' : Deployment} (field : Deployment → ρ)
    (hfield : ∀ d : Deployment, field d.fixed = field d) (h : d'.fixed = d.fixed) :
    field d' = field d := by
  rw [← hfield d', h, hfield d]

theorem Deployment.required_of_fixed {d d' : Deployment} (h : d'.fixed = d.fixed) :
    d'.required_actors = d.required_actors :=
  of_fixed Deployment.required_actors (fun _ => rfl) h

theorem Deployment.type_of_fixed {d d' : Deployment} (h : d'.fixed = d.fixed) :
    d'.actor_type = d.actor_type :=
  of_fixed Deployment.actor_type (fun _ => rfl) h

theorem Deployment.name_of_fixed {d d' : Deployment} (h : d'.fixed = d.fixed) : d'.name = d.name :=
  of_fixed Deployment.name (fun _ => rfl) h

namespace DeploymentManager

variable {cfg : ManagerSettings} {env : Surroundings} {st st' : DeploymentManager} {name : String}

/-! ## Frames -/

def fixedDeployments (st : DeploymentManager) : List (String × Deployment) :=
  st.deployments.map fun e => (e.1, e.2.fixed)

/-- Cascades change counts, flags and subscriptions. -/
structure Frame (st st' : DeploymentManager) : Prop where
  executors : st'.executors = st.executors
  dependencies : st'.dependencies = st.dependencies
  ttl_end_times : st'.ttl_end_times = st.ttl_end_times
  deployments : st'.fixedDeployments = st.fixedDeployments

theorem Frame.refl (st : DeploymentManager) : Frame st st := ⟨rfl, rfl, rfl, rfl⟩

theorem Frame.trans {st₁ st₂ st₃ : DeploymentManager} (h : Frame st₁ st₂) (h' : Frame st₂ st₃) :
    Frame st₁ st₃ :=
  ⟨h'.executors.trans h.executors, h'.dependencies.trans h.dependencies, h'.ttl_end_times.trans
    h.ttl_end_times, h'.deployments.trans h.deployments⟩

theorem find_fixed (st : DeploymentManager) (name : String) :
    Assoc.find name st.fixedDeployments = (Assoc.find name st.deployments).map
      Deployment.fixed := by
  unfold fixedDeployments
  induction st.deployments with
  | nil => rfl
  | cons e m ih =>
    rw [List.map_cons, Assoc.find, Assoc.find]
    split
    · rfl
    · exact ih

theorem Frame.keys (h : Frame st st') : Assoc.keys st'.deployments = Assoc.keys st.deployments := by
  have hkeys := congrArg (List.map Prod.fst) h.deployments
  unfold fixedDeployments at hkeys
  rwa [List.map_map, List.map_map] at hkeys

theorem Frame.find (h : Frame st st') {d : Deployment}
    (hd : Assoc.find name st.deployments = some d) :
    ∃ d', Assoc.find name st'.deployments = some d' ∧ d'.fixed = d.fixed := by
  have hfixed := find_fixed st' name
  rw [h.deployments, find_fixed, hd] at hfixed
  obtain ⟨d', hd', heq⟩ := Option.map_eq_some_iff.mp hfixed.symm
  exact ⟨d', hd', heq⟩

theorem Frame.find_back (h : Frame st st') {d' : Deployment}
    (hd : Assoc.find name st'.deployments = some d') :
    ∃ d, Assoc.find name st.deployments = some d ∧ d'.fixed = d.fixed := by
  have hfixed := find_fixed st name
  rw [← h.deployments, find_fixed, hd] at hfixed
  obtain ⟨d, hd, heq⟩ := Option.map_eq_some_iff.mp hfixed.symm
  exact ⟨d, hd, heq.symm⟩

theorem modify_eq {d : Deployment} (hd : Assoc.find name st.deployments = some d)
    (f : Deployment → Deployment) :
    st.modify name f = { st with deployments := Assoc.put name (f d) st.deployments } := by
  unfold modify
  rw [hd]

theorem frame_put {d d' : Deployment} (hd : Assoc.find name st.deployments = some d)
    (hfixed : d'.fixed = d.fixed) :
    Frame st { st with deployments := Assoc.put name d' st.deployments } :=
  ⟨rfl, rfl, rfl, Assoc.map_put_of_find _ hd (by rw [hfixed])⟩

theorem frame_modify (f : Deployment → Deployment) (hf : ∀ d, (f d).fixed = d.fixed) :
    Frame st (st.modify name f) := by
  unfold modify
  split
  · rename_i d hd
    exact frame_put hd (hf d)
  · exact .refl st

theorem frame_emit (effect : Effect) : Frame st (st.emit effect) := ⟨rfl, rfl, rfl, rfl⟩

theorem frame_setCount (actor_type : String) (count : UInt32) :
    Frame st (st.setCount actor_type count) :=
  ⟨rfl, rfl, rfl, rfl⟩

theorem frame_dropCount (actor_type : String) : Frame st (st.dropCount actor_type) :=
  ⟨rfl, rfl, rfl, rfl⟩

/-! ## Spawns -/

def Effect.spawn : Effect → Option (Publication × UInt32)
  | .delayedPublish p delay => some (p, delay)
  | _ => none

/-- The spawn messages of the message that is handled. -/
def spawns (st : DeploymentManager) : List (Publication × UInt32) :=
  st.effects.filterMap Effect.spawn

theorem spawns_emit (st : DeploymentManager) (effect : Effect) :
    (st.emit effect).spawns = st.spawns ++ (Effect.spawn effect).toList := by
  unfold spawns emit
  rw [List.filterMap_append]
  cases h : Effect.spawn effect <;> simp [h]

/-! ## Starting and stopping -/

theorem startDeployment_eq {d : Deployment} (hd : Assoc.find name st.deployments = some d)
    (executor : ExecutorIdentifier) (delay : UInt32) :
    st.startDeployment name executor delay =
      { st.emit (.delayedPublish (spawnMessage d executor) delay) with
        deployments := Assoc.put name { d with restarts := d.restarts + 1 } st.deployments } := by
  have hemit : ∀ effect, Assoc.find name (st.emit effect).deployments = some d := fun _ => hd
  unfold startDeployment
  rw [hd]
  exact modify_eq (hemit _) _

/-- A deployment that is made active and started. -/
structure Started (st : DeploymentManager) (name : String) (d : Deployment)
    (executor : ExecutorIdentifier) (st' : DeploymentManager) : Prop where
  deployments : ∃ sub_id, st'.deployments = Assoc.put name
    { d with active := true, lifetime_subscription_id := sub_id, restarts := d.restarts + 1 }
      st.deployments
  deployed_actor_types : st'.deployed_actor_types = st.deployed_actor_types
  spawns : st'.spawns = st.spawns ++ [(spawnMessage d executor, 0)]
  frame : Frame st st'

theorem startActive_started {d : Deployment} (hd : Assoc.find name st.deployments = some d)
    (executor : ExecutorIdentifier) :
    Started st name d executor (startActive cfg env st name executor) := by
  have hfind : ∀ (m : List (String × Deployment)) (v : Deployment),
      Assoc.find name (Assoc.put name v m) = some v :=
    fun m v => Assoc.find_put_self name v m
  unfold startActive
  rw [modify_eq hd]
  unfold subscribeLifetime
  dsimp only
  rw [hfind]
  dsimp only
  by_cases hid : d.lifetime_subscription_id = 0
  · rw [if_pos hid, modify_eq (hfind _ _), startDeployment_eq (hfind _ _)]
    refine ⟨⟨env.subscribe (lifetimeFilter cfg d.name), by simp only [emit, Assoc.put_put]⟩, rfl,
      ?_, rfl, rfl, rfl, ?_⟩
    · refine (spawns_emit (st.emit _) _).trans ?_
      rw [spawns_emit]
      simp only [Effect.spawn, Option.toList_none, Option.toList_some, List.append_nil]
      rfl
    · unfold fixedDeployments
      simp only [emit, Assoc.put_put]
      exact Assoc.map_put_of_find _ hd rfl
  · rw [if_neg hid, startDeployment_eq (hfind _ _)]
    refine ⟨⟨d.lifetime_subscription_id, by simp only [Assoc.put_put]⟩, rfl, spawns_emit st _, rfl,
      rfl, rfl, ?_⟩
    unfold fixedDeployments
    simp only [Assoc.put_put]
    exact Assoc.map_put_of_find _ hd rfl

/-! ## Depth -/

theorem hasType_iff {actor_type : String} :
    st.hasType actor_type = true ↔ ∃ count, Assoc.find actor_type st.deployed_actor_types =
      some count :=
  Option.isSome_iff_exists

theorem not_hasType_iff {actor_type : String} :
    st.hasType actor_type = false ↔ Assoc.find actor_type st.deployed_actor_types = none := by
  unfold hasType
  simp

theorem hasType_setCount (actor_type : String) (count : UInt32) (t : String) :
    (st.setCount actor_type count).hasType t = (decide (actor_type = t) || st.hasType t) := by
  unfold hasType setCount
  rw [Assoc.find_put]
  split <;> simp_all

theorem hasType_dropCount (actor_type t : String) :
    (st.dropCount actor_type).hasType t = (decide (actor_type ≠ t) && st.hasType t) := by
  unfold hasType dropCount
  rw [Assoc.find_erase]
  split <;> simp_all

theorem waiting_fixed (st : DeploymentManager) :
    st.waiting = st.fixedDeployments.countP fun e => !st.hasType e.2.actor_type := by
  unfold waiting fixedDeployments
  rw [List.countP_map]
  rfl

theorem waiting_le (hdeployments : st'.fixedDeployments = st.fixedDeployments)
    (hkeys : ∀ t, st.hasType t = true → st'.hasType t = true) : st'.waiting ≤ st.waiting := by
  rw [waiting_fixed, waiting_fixed, hdeployments]
  refine List.countP_mono_left fun e _ hwait => ?_
  cases htype : st.hasType e.2.actor_type with
  | false => rfl
  | true => simp [hkeys _ htype] at hwait

theorem countP_lt {α : Type} {p q : α → Bool} {l : List α} (hpq : ∀ x ∈ l, p x = true → q x = true)
    {a : α} (ha : a ∈ l) (hp : p a = false) (hq : q a = true) : l.countP p < l.countP q := by
  obtain ⟨pre, post, rfl⟩ := List.append_of_mem ha
  have hpre : pre.countP p ≤ pre.countP q := List.countP_mono_left fun x hx => hpq x (by simp [hx])
  have hpost : post.countP p ≤ post.countP q := List.countP_mono_left fun x hx =>
    hpq x (by simp [hx])
  simp only [List.countP_append, List.countP_cons, hp, hq]
  simp
  omega

theorem waiting_setCount {d : Deployment} (hd : Assoc.find name st.deployments = some d)
    (hnew : st.hasType d.actor_type = false) (count : UInt32) :
    (st.setCount d.actor_type count).waiting < st.waiting := by
  unfold waiting
  refine countP_lt (fun e _ hwait => ?_) (Assoc.mem_of_find hd) ?_ ?_
  · rw [hasType_setCount] at hwait
    cases htype : st.hasType e.2.actor_type <;> simp_all
  · simp [hasType_setCount]
  · simp [hnew]

theorem readyOn_eq {d : Deployment} {executors : ExecutorList} :
    st.readyOn name = some (d, executors) ↔
    Assoc.find name st.deployments = some d ∧ st.requirementsCheck d = true ∧
      Assoc.find d.actor_runtime_type st.executors = some executors := by
  unfold readyOn
  cases hd : Assoc.find name st.deployments with
  | none => simp
  | some d' =>
    rw [Option.bind_some]
    by_cases hreq : st.requirementsCheck d' = true
    · rw [if_pos hreq, Option.map_eq_some_iff]
      constructor
      · rintro ⟨executors', hex, heq⟩
        obtain ⟨rfl, rfl⟩ := Prod.mk.inj heq
        exact ⟨rfl, hreq, hex⟩
      · rintro ⟨hd', -, hex⟩
        obtain rfl := Option.some.inj hd'
        exact ⟨executors, hex, rfl⟩
    · rw [if_neg hreq]
      refine iff_of_false (by simp) ?_
      rintro ⟨hd', hreq', -⟩
      obtain rfl := Option.some.inj hd'
      exact hreq hreq'

theorem visitAdded_ready {d : Deployment} {executors : ExecutorList}
    (h : st.readyOn name = some (d, executors))
    (added : DeploymentManager → String → DeploymentManager) :
    visitAdded cfg env added st name =
      { startActive cfg env (incrementWith added st d.actor_type) name executors.front with
        inactive_deployments :=
          (startActive cfg env (incrementWith added st d.actor_type) name
            executors.front).inactive_deployments - 1
        active_deployments :=
          (startActive cfg env (incrementWith added st d.actor_type) name
            executors.front).active_deployments + 1 } := by
  unfold visitAdded activateWith
  rw [h]
  dsimp only
  rw [(readyOn_eq.mp h).1]

theorem visitAdded_waits (h : st.readyOn name = none)
    (added : DeploymentManager → String → DeploymentManager) :
    visitAdded cfg env added st name = st := by
  unfold visitAdded
  rw [h]

theorem waiting_startActive (executor : ExecutorIdentifier) :
    (startActive cfg env st name executor).waiting = st.waiting := by
  cases hd : Assoc.find name st.deployments with
  | none =>
    have hmodify : ∀ f, st.modify name f = st := fun f => by unfold modify; rw [hd]
    unfold startActive subscribeLifetime startDeployment
    simp only [hmodify, hd]
  | some d =>
    have hstarted : Started st name d executor (startActive cfg env st name executor) :=
      startActive_started hd executor
    rw [waiting_fixed, waiting_fixed, hstarted.frame.deployments]
    unfold hasType
    rw [hstarted.deployed_actor_types]

theorem bounded_visitAdded : Cascade.Bounded (visitAdded cfg env) waiting := by
  constructor
  · intro added st name hadded
    cases hready : st.readyOn name with
    | none => rw [visitAdded_waits hready]
    | some r =>
      obtain ⟨d, executors⟩ := r
      rw [visitAdded_ready hready]
      show (startActive cfg env _ name executors.front).waiting ≤ _
      rw [waiting_startActive]
      unfold incrementWith
      cases hcount : Assoc.find d.actor_type st.deployed_actor_types with
      | some count => exact waiting_le rfl fun t ht => by rw [hasType_setCount, ht, Bool.or_true]
      | none =>
        have hlt := waiting_setCount (readyOn_eq.mp hready).1 (not_hasType_iff.mpr hcount) 1
        exact (hadded _ d.actor_type hlt).trans hlt.le
  · intro added added' st name hsame
    cases hready : st.readyOn name with
    | none => rw [visitAdded_waits hready, visitAdded_waits hready]
    | some r =>
      obtain ⟨d, executors⟩ := r
      have hincrement : incrementWith added st d.actor_type =
          incrementWith added' st d.actor_type := by
        unfold incrementWith
        cases hcount : Assoc.find d.actor_type st.deployed_actor_types with
        | some count => rfl
        | none => exact hsame _ _ (waiting_setCount (readyOn_eq.mp hready).1
            (not_hasType_iff.mpr hcount) 1)
      rw [visitAdded_ready hready, visitAdded_ready hready, hincrement]

/-- `actor_type_added`, as it calls itself. -/
theorem actorTypeAdded_eq (st : DeploymentManager) (actor_type : String) :
    actorTypeAdded cfg env st actor_type =
    (dependents env st actor_type).foldl (visitAdded cfg env (actorTypeAdded cfg env)) st :=
  Cascade.eval_eq bounded_visitAdded st actor_type

theorem actorTypeAdded_ind {P : DeploymentManager → String → List String → DeploymentManager → Prop}
    (hinit : ∀ st u, P st u [] st)
    (hstep : ∀ st u pre name post, dependents env st u = pre ++ name :: post →
      P st u pre (pre.foldl (visitAdded cfg env (actorTypeAdded cfg env)) st) →
      (∀ st' u', st'.waiting < (pre.foldl (visitAdded cfg env (actorTypeAdded cfg env))
        st).waiting →
        P st' u' (dependents env st' u') (actorTypeAdded cfg env st' u')) →
      P st u (pre ++ [name]) (visitAdded cfg env (actorTypeAdded cfg env)
        (pre.foldl (visitAdded cfg env (actorTypeAdded cfg env)) st) name))
    (st : DeploymentManager) (u : String) :
    P st u (dependents env st u) (actorTypeAdded cfg env st u) :=
  Cascade.eval_ind bounded_visitAdded hinit hstep st u

theorem modify_deployed_actor_types (f : Deployment → Deployment) :
    (st.modify name f).deployed_actor_types = st.deployed_actor_types := by
  unfold modify
  split <;> rfl

theorem stopDeployment_deployed_actor_types :
    (stopDeployment cfg st name).deployed_actor_types = st.deployed_actor_types := by
  unfold stopDeployment
  split <;> rfl

theorem bounded_visitRemoved : Cascade.Bounded (visitRemoved cfg) fun st =>
    st.deployed_actor_types.length := by
  constructor
  · intro removed st name hremoved
    show (deactivateWith cfg removed st name).deployed_actor_types.length ≤ _
    unfold deactivateWith
    split
    · rename_i d hd
      rw [modify_deployed_actor_types]
      split
      · rw [stopDeployment_deployed_actor_types]
        unfold decrementWith
        cases hcount : Assoc.find d.actor_type st.deployed_actor_types with
        | none => exact Nat.le_refl _
        | some count =>
          dsimp only
          have hlt : (st.dropCount d.actor_type).deployed_actor_types.length <
              st.deployed_actor_types.length :=
            Assoc.length_erase_lt hcount
          split
          · exact (hremoved _ _ hlt).trans hlt.le
          · show (Assoc.put _ _ _).length ≤ _
            have hkeys := congrArg List.length
              (Assoc.keys_put d.actor_type (count - 1) st.deployed_actor_types)
            have hmem : d.actor_type ∈ Assoc.keys st.deployed_actor_types := by
              by_contra hnot
              rw [Assoc.find_eq_none.mpr hnot] at hcount
              simp at hcount
            rw [if_pos hmem] at hkeys
            simp only [Assoc.keys, List.length_map] at hkeys
            omega
      · exact Nat.le_refl _
    · exact Nat.le_refl _
  · intro removed removed' st name hsame
    have hdeactivate : deactivateWith cfg removed st name = deactivateWith cfg removed' st
        name := by
      unfold deactivateWith
      split
      · rename_i d hd
        congr 1
        split
        · congr 1
          unfold decrementWith
          cases hcount : Assoc.find d.actor_type st.deployed_actor_types with
          | none => rfl
          | some count =>
            dsimp only
            split
            · exact hsame _ _ (Assoc.length_erase_lt hcount)
            · rfl
        · rfl
      · rfl
    unfold visitRemoved
    rw [hdeactivate]

/-- `actor_type_removed`, as it calls itself. -/
theorem actorTypeRemoved_eq (st : DeploymentManager) (actor_type : String) :
    actorTypeRemoved cfg env st actor_type =
    (dependents env st actor_type).foldl (visitRemoved cfg (actorTypeRemoved cfg env)) st :=
  Cascade.eval_eq bounded_visitRemoved st actor_type

theorem actorTypeRemoved_ind {P : DeploymentManager → String → List String →
    DeploymentManager → Prop} (hinit : ∀ st u, P st u [] st)
    (hstep : ∀ st u pre name post, dependents env st u = pre ++ name :: post →
      P st u pre (pre.foldl (visitRemoved cfg (actorTypeRemoved cfg env)) st) →
      (∀ st' u', st'.deployed_actor_types.length <
          (pre.foldl (visitRemoved cfg (actorTypeRemoved cfg env)) st).deployed_actor_types.length →
        P st' u' (dependents env st' u') (actorTypeRemoved cfg env st' u')) →
      P st u (pre ++ [name]) (visitRemoved cfg (actorTypeRemoved cfg env)
        (pre.foldl (visitRemoved cfg (actorTypeRemoved cfg env)) st) name))
    (st : DeploymentManager) (u : String) :
    P st u (dependents env st u) (actorTypeRemoved cfg env st u) :=
  Cascade.eval_ind bounded_visitRemoved hinit hstep st u

/-! ## Growth -/

def IsActive (st : DeploymentManager) (name : String) : Prop :=
  ∃ d, Assoc.find name st.deployments = some d ∧ d.active = true

/-- No type and no active deployment is lost. -/
structure Grown (st st' : DeploymentManager) : Prop where
  frame : Frame st st'
  types : ∀ t, st.hasType t = true → st'.hasType t = true
  active : ∀ name, st.IsActive name → st'.IsActive name

theorem Grown.refl (st : DeploymentManager) : Grown st st := ⟨.refl st, fun _ h => h, fun _ h => h⟩

theorem Grown.trans {st₁ st₂ st₃ : DeploymentManager} (h : Grown st₁ st₂) (h' : Grown st₂ st₃) :
    Grown st₁ st₃ :=
  ⟨h.frame.trans h'.frame, fun t ht => h'.types t (h.types t ht), fun name ha =>
    h'.active name (h.active name ha)⟩

theorem grown_setCount (actor_type : String) (count : UInt32) :
    Grown st (st.setCount actor_type count) :=
  ⟨frame_setCount _ _, fun t ht => by rw [hasType_setCount, ht, Bool.or_true], fun _ h => h⟩

theorem Started.isActive_iff {d : Deployment} {executor : ExecutorIdentifier}
    (h : Started st name d executor st') (name' : String) :
    st'.IsActive name' ↔ name' = name ∨ st.IsActive name' := by
  obtain ⟨sub_id, hdeployments⟩ := h.deployments
  unfold IsActive
  rw [hdeployments, Assoc.find_put]
  by_cases hname : name = name'
  · subst hname
    simp
  · rw [if_neg hname]
    exact ⟨Or.inr, fun hor => hor.resolve_left (Ne.symm hname)⟩

theorem Started.hasType {d : Deployment} {executor : ExecutorIdentifier}
    (h : Started st name d executor st') (t : String) : st'.hasType t = st.hasType t := by
  unfold DeploymentManager.hasType
  rw [h.deployed_actor_types]

theorem Started.grown {d : Deployment} {executor : ExecutorIdentifier}
    (h : Started st name d executor st') :
    Grown st st' :=
  ⟨h.frame, fun t ht => (h.hasType t).trans ht, fun name' ha =>
    (h.isActive_iff name').mpr (Or.inr ha)⟩

theorem grown_incrementWith {added : DeploymentManager → String → DeploymentManager}
    {actor_type : String} (hadded : st.hasType actor_type = false → Grown (st.setCount actor_type 1)
      (added (st.setCount actor_type 1) actor_type)) :
    Grown st (incrementWith added st actor_type) := by
  unfold incrementWith
  cases hcount : Assoc.find actor_type st.deployed_actor_types with
  | some count => exact grown_setCount _ _
  | none => exact (grown_setCount _ _).trans (hadded (not_hasType_iff.mpr hcount))

theorem Grown.started (cfg : ManagerSettings) (env : Surroundings) {d : Deployment}
    (h : Grown st st') (hd : Assoc.find name st.deployments = some d)
    (executor : ExecutorIdentifier) : ∃ d', Assoc.find name st'.deployments = some d' ∧
      d'.fixed = d.fixed ∧
      Started st' name d' executor (startActive cfg env st' name executor) := by
  obtain ⟨d', hd', hfixed⟩ := h.frame.find hd
  exact ⟨d', hd', hfixed, startActive_started hd' executor⟩

theorem grown_visitAdded {added : DeploymentManager → String → DeploymentManager}
    (hadded : ∀ st' t, st'.waiting < st.waiting → Grown st' (added st' t)) :
    Grown st (visitAdded cfg env added st name) := by
  cases hready : st.readyOn name with
  | none =>
    rw [visitAdded_waits hready]
    exact .refl st
  | some r =>
    obtain ⟨d, executors⟩ := r
    have hd := (readyOn_eq.mp hready).1
    have hincrement : Grown st (incrementWith added st d.actor_type) :=
      grown_incrementWith fun hnew => hadded _ _ (waiting_setCount hd hnew 1)
    obtain ⟨d', -, -, hstarted⟩ := hincrement.started cfg env hd executors.front
    rw [visitAdded_ready hready]
    have hgrown := hincrement.trans hstarted.grown
    exact ⟨⟨hgrown.frame.executors, hgrown.frame.dependencies, hgrown.frame.ttl_end_times,
      hgrown.frame.deployments⟩, hgrown.types, hgrown.active⟩

theorem grown_actorTypeAdded (st : DeploymentManager) (actor_type : String) :
    Grown st (actorTypeAdded cfg env st actor_type) :=
  Cascade.eval_rel Grown.refl Grown.trans bounded_visitAdded (fun _ _ hcalls =>
    grown_visitAdded hcalls) st actor_type

theorem grown_increment (cfg : ManagerSettings) (env : Surroundings) (st : DeploymentManager)
    (actor_type : String) :
    Grown st (incrementDeployedActorTypeCount cfg env st actor_type) :=
  grown_incrementWith fun _ => grown_actorTypeAdded _ _

/-! ## Induction over activations -/

section

variable {R : DeploymentManager → DeploymentManager → Prop} (hrefl : ∀ st, R st st)
  (htrans : ∀ {st₁ st₂ st₃}, R st₁ st₂ → R st₂ st₃ → R st₁ st₃)
  (hcount : ∀ st actor_type count, R st (st.setCount actor_type count))
  (hstart : ∀ st st₁ name d d' executors st₂, st.readyOn name = some (d, executors) → Grown st st₁ →
    Assoc.find name st₁.deployments = some d' → d'.fixed = d.fixed →
    Started st₁ name d' executors.front st₂ → R st₁ st₂)
  (hnumbers : ∀ st active inactive,
    R st { st with active_deployments := active, inactive_deployments := inactive })

include hrefl htrans hcount hstart hnumbers

theorem actorTypeAdded_rel (st : DeploymentManager) (actor_type : String) :
    R st (actorTypeAdded cfg env st actor_type) := by
  refine Cascade.eval_rel hrefl htrans bounded_visitAdded (fun st name hcalls => ?_) st actor_type
  cases hready : st.readyOn name with
  | none =>
    rw [visitAdded_waits hready]
    exact hrefl st
  | some r =>
    obtain ⟨d, executors⟩ := r
    have hd := (readyOn_eq.mp hready).1
    obtain ⟨d', hd', hfixed, hstarted⟩ :=
      (grown_increment cfg env st d.actor_type).started cfg env hd executors.front
    have hincrement : R st (incrementDeployedActorTypeCount cfg env st d.actor_type) := by
      unfold incrementDeployedActorTypeCount incrementWith
      cases hfind : Assoc.find d.actor_type st.deployed_actor_types with
      | some count => exact hcount _ _ _
      | none => exact htrans (hcount _ _ _) (hcalls _ _ (waiting_setCount hd (not_hasType_iff.mpr hfind) 1))
    have hrest := hstart st _ name d d' executors _ hready (grown_increment cfg env st d.actor_type) hd' hfixed hstarted
    refine htrans hincrement (htrans hrest ?_)
    refine Eq.subst (motive := fun st' => R _ st') (visitAdded_ready hready _).symm ?_
    exact hnumbers _ _ _

theorem increment_rel (st : DeploymentManager) (actor_type : String) :
    R st (incrementDeployedActorTypeCount cfg env st actor_type) := by
  unfold incrementDeployedActorTypeCount incrementWith
  cases Assoc.find actor_type st.deployed_actor_types with
  | some count => exact hcount _ _ _
  | none => exact htrans (hcount _ _ _) (actorTypeAdded_rel hrefl htrans hcount hstart hnumbers _ _)

end

/-! ## Turns -/

/-- The call that `actor_type_added` makes at a deployment that it activates. -/
def callsAdded (st : DeploymentManager) (name : String) (st' : DeploymentManager) (t : String) :
    Prop :=
  ∃ d executors, st.readyOn name = some (d, executors) ∧ t = d.actor_type ∧ st.hasType t = false ∧
    st' = st.setCount t 1

/-- `increment_deployed_actor_type_count` makes the type available, and activates the deployment in
this state. -/
def Activates (cfg : ManagerSettings) (env : Surroundings) (st : DeploymentManager)
    (actor_type : String) (st' : DeploymentManager) (name : String) (d : Deployment) : Prop :=
  st.hasType actor_type = false ∧
    Cascade.Turn (dependents env) (visitAdded cfg env) waiting callsAdded
    (st.setCount actor_type 1) actor_type st' name ∧
    ∃ executors, st'.readyOn name = some (d, executors)

/-! ## Decline -/

/-- No type and no active deployment is new, and what required a type that is gone is not active. -/
structure Declined (st st' : DeploymentManager) : Prop where
  frame : Frame st st'
  types : ∀ t, st'.hasType t = true → st.hasType t = true
  active : ∀ name, st'.IsActive name → st.IsActive name
  cleared : ∀ t name, st.hasType t = true → st'.hasType t = false →
    name ∈ Multimap.members t st.dependencies →
    ¬ st'.IsActive name

theorem Declined.of_types {st st' : DeploymentManager} (hframe : Frame st st')
    (htypes : ∀ t, st'.hasType t = st.hasType t)
    (hactive : ∀ name, st'.IsActive name → st.IsActive name) : Declined st st' := by
  refine ⟨hframe, fun t ht => (htypes t).symm.trans ht, hactive, fun t name ht hnot _ => ?_⟩
  rw [htypes, ht] at hnot
  exact absurd hnot (by simp)

theorem Declined.refl (st : DeploymentManager) : Declined st st :=
  .of_types (.refl st) (fun _ => rfl) fun _ h => h

theorem Declined.trans {st₁ st₂ st₃ : DeploymentManager} (h : Declined st₁ st₂)
    (h' : Declined st₂ st₃) :
    Declined st₁ st₃ := by
  refine ⟨h.frame.trans h'.frame, fun t ht => h.types t (h'.types t ht),
    fun name ha => h.active name (h'.active name ha),
    fun t name ht hnot hmem => ?_⟩
  cases hmid : st₂.hasType t with
  | false => exact fun ha => h.cleared t name ht hmid hmem (h'.active name ha)
  | true => exact h'.cleared t name hmid hnot (by rw [h.frame.dependencies]; exact hmem)

theorem mem_dependents {actor_type : String} :
    name ∈ dependents env st actor_type ↔ name ∈ Multimap.members actor_type st.dependencies :=
  (env.perm _).mem_iff

def lower (st : DeploymentManager) (name : String) : DeploymentManager :=
  st.modify name fun d => { d with active := false }

theorem isActive_lower {name' : String} :
    (st.lower name).IsActive name' ↔ name' ≠ name ∧ st.IsActive name' := by
  unfold lower modify IsActive
  cases hd : Assoc.find name st.deployments with
  | none =>
    refine ⟨fun h => ⟨?_, h⟩, fun h => h.2⟩
    rintro rfl
    obtain ⟨d, hd', -⟩ := h
    rw [hd] at hd'
    exact absurd hd' (by simp)
  | some d =>
    dsimp only
    rw [Assoc.find_put]
    by_cases hname : name = name'
    · subst hname
      simp
    · rw [if_neg hname]
      exact ⟨fun h => ⟨Ne.symm hname, h⟩, fun h => h.2⟩

theorem hasType_lower (t : String) : (st.lower name).hasType t = st.hasType t := by
  unfold lower hasType
  rw [modify_deployed_actor_types]

theorem declined_lower : Declined st (st.lower name) :=
  .of_types (frame_modify _ fun _ => rfl) hasType_lower fun _ h => (isActive_lower.mp h).2

theorem stopDeployment_deployments : (stopDeployment cfg st name).deployments = st.deployments := by
  unfold stopDeployment
  split <;> rfl

theorem declined_stopDeployment : Declined st (stopDeployment cfg st name) := by
  refine .of_types ?_ (fun t => ?_) fun name' h => ?_
  · unfold stopDeployment
    split
    · exact frame_emit _
    · exact .refl st
  · unfold hasType
    rw [stopDeployment_deployed_actor_types]
  · unfold IsActive at h ⊢
    rwa [stopDeployment_deployments] at h

theorem hasType_setCount_of_find {actor_type : String} {count : UInt32}
    (h : Assoc.find actor_type st.deployed_actor_types = some count) (count' : UInt32)
    (t : String) :
    (st.setCount actor_type count').hasType t = st.hasType t := by
  rw [hasType_setCount]
  by_cases heq : actor_type = t
  · subst heq
    rw [hasType_iff.mpr ⟨count, h⟩, Bool.or_true]
  · simp [heq]

theorem declined_decrementWith {removed : DeploymentManager → String → DeploymentManager}
    {actor_type : String} (hremoved : st.hasType actor_type = true →
      Declined (st.dropCount actor_type) (removed (st.dropCount actor_type) actor_type) ∧
      ∀ name ∈ Multimap.members actor_type st.dependencies,
      ¬ (removed (st.dropCount actor_type) actor_type).IsActive name) :
    Declined st (decrementWith removed st actor_type) := by
  unfold decrementWith
  cases hcount : Assoc.find actor_type st.deployed_actor_types with
  | none => exact .refl st
  | some count =>
    dsimp only
    split
    · obtain ⟨hdeclined, hinactive⟩ := hremoved (hasType_iff.mpr ⟨count, hcount⟩)
      refine ⟨(frame_dropCount _).trans hdeclined.frame, fun t ht => ?_,
        hdeclined.active, fun t name ht hnot hmem => ?_⟩
      · have hdrop := hdeclined.types t ht
        rw [hasType_dropCount] at hdrop
        exact (Bool.and_eq_true_iff.mp hdrop).2
      · by_cases heq : actor_type = t
        · subst heq
          exact hinactive name hmem
        · refine hdeclined.cleared t name ?_ hnot hmem
          rw [hasType_dropCount, ht]
          simp [heq]
    · exact .of_types (frame_setCount _ _) (hasType_setCount_of_find hcount _) fun _ h => h

theorem deactivateWith_eq {d : Deployment} (hd : Assoc.find name st.deployments = some d)
    (removed : DeploymentManager → String → DeploymentManager) :
    deactivateWith cfg removed st name =
      (if d.active then stopDeployment cfg (decrementWith removed st d.actor_type) name
        else st).lower name := by
  unfold deactivateWith
  rw [hd]
  rfl

theorem deactivateWith_none (hd : Assoc.find name st.deployments = none)
    (removed : DeploymentManager → String → DeploymentManager) :
    deactivateWith cfg removed st name = st := by
  unfold deactivateWith
  rw [hd]

/-- What `deactivate_deployment` can do. -/
inductive Deactivated (cfg : ManagerSettings)
    (removed : DeploymentManager → String → DeploymentManager) (st : DeploymentManager)
    (name : String) : DeploymentManager → Prop
  | absent (hd : Assoc.find name st.deployments = none) : Deactivated cfg removed st name st
  | inactive (d) (hd : Assoc.find name st.deployments = some d) (hactive : ¬ d.active = true) :
    Deactivated cfg removed st name (st.lower name)
  | uncounted (d) (hd : Assoc.find name st.deployments = some d) (hactive : d.active = true)
    (hcount : Assoc.find d.actor_type st.deployed_actor_types = none) :
    Deactivated cfg removed st name ((stopDeployment cfg st name).lower name)
  | last (d) (hd : Assoc.find name st.deployments = some d) (hactive : d.active = true)
    (hcount : Assoc.find d.actor_type st.deployed_actor_types = some 1) :
    Deactivated cfg removed st name
      ((stopDeployment cfg (removed (st.dropCount d.actor_type) d.actor_type) name).lower name)
  | counted (d c) (hd : Assoc.find name st.deployments = some d) (hactive : d.active = true)
    (hcount : Assoc.find d.actor_type st.deployed_actor_types = some c) (hone : c ≠ 1) :
    Deactivated cfg removed st name
      ((stopDeployment cfg (st.setCount d.actor_type (c - 1)) name).lower name)

theorem deactivateWith_cases (cfg : ManagerSettings)
    (removed : DeploymentManager → String → DeploymentManager) (st : DeploymentManager)
    (name : String) :
    Deactivated cfg removed st name (deactivateWith cfg removed st name) := by
  cases hd : Assoc.find name st.deployments with
  | none =>
    rw [deactivateWith_none hd]
    exact .absent hd
  | some d =>
    rw [deactivateWith_eq hd]
    by_cases hactive : d.active = true
    · rw [if_pos hactive]
      unfold decrementWith
      cases hcount : Assoc.find d.actor_type st.deployed_actor_types with
      | none => exact .uncounted d hd hactive hcount
      | some c =>
        dsimp only
        split
        · rename_i hone
          exact .last d hd hactive (by rw [hcount, hone])
        · rename_i hone
          exact .counted d c hd hactive hcount hone
    · rw [if_neg hactive]
      exact .inactive d hd hactive

theorem declined_deactivateWith (cfg : ManagerSettings) (name : String)
    {removed : DeploymentManager → String → DeploymentManager}
    (hremoved : ∀ t, st.hasType t = true → Declined (st.dropCount t) (removed (st.dropCount t) t) ∧
      ∀ name ∈ Multimap.members t st.dependencies, ¬ (removed (st.dropCount t) t).IsActive name) :
    Declined st (deactivateWith cfg removed st name) ∧
    ¬ (deactivateWith cfg removed st name).IsActive name := by
  cases hd : Assoc.find name st.deployments with
  | none =>
    rw [deactivateWith_none hd]
    refine ⟨.refl st, ?_⟩
    rintro ⟨d, hd', -⟩
    rw [hd] at hd'
    exact absurd hd' (by simp)
  | some d =>
    rw [deactivateWith_eq hd]
    refine ⟨?_, fun h => (isActive_lower.mp h).1 rfl⟩
    split
    · exact ((declined_decrementWith (hremoved d.actor_type)).trans declined_stopDeployment).trans
        declined_lower
    · exact declined_lower

theorem declined_actorTypeRemoved (cfg : ManagerSettings) (env : Surroundings)
    (st : DeploymentManager) (actor_type : String) :
    Declined st (actorTypeRemoved cfg env st actor_type) ∧
      ∀ name ∈ dependents env st actor_type, ¬ (actorTypeRemoved cfg env st actor_type).IsActive
        name := by
  refine actorTypeRemoved_ind
    (P := fun st _ pre st' => Declined st st' ∧ ∀ name ∈ pre, ¬ st'.IsActive name)
    (fun st _ => ⟨.refl st, by simp⟩) (fun st t pre name post _ hpre hcalls => ?_) st actor_type
  generalize pre.foldl _ st = mid at hpre hcalls ⊢
  have hremoved : ∀ t, mid.hasType t = true →
      Declined (mid.dropCount t) (actorTypeRemoved cfg env (mid.dropCount t) t) ∧
        ∀ name ∈ Multimap.members t mid.dependencies,
        ¬ (actorTypeRemoved cfg env (mid.dropCount t) t).IsActive name := by
    intro t ht
    obtain ⟨count, hcount⟩ := hasType_iff.mp ht
    obtain ⟨hdeclined, hinactive⟩ := hcalls (mid.dropCount t) t (Assoc.length_erase_lt hcount)
    exact ⟨hdeclined, fun name hname => hinactive name (mem_dependents.mpr hname)⟩
  have hvisit := declined_deactivateWith cfg name hremoved
  refine ⟨hpre.1.trans ⟨?_, hvisit.1.types, hvisit.1.active, hvisit.1.cleared⟩, fun name' hname' =>
    ?_⟩
  · exact ⟨hvisit.1.frame.executors, hvisit.1.frame.dependencies,
      hvisit.1.frame.ttl_end_times, hvisit.1.frame.deployments⟩
  · rcases List.mem_append.mp hname' with hname' | hname'
    · exact fun h => hpre.2 name' hname' (hvisit.1.active name' h)
    · rw [List.mem_singleton.mp hname']
      exact hvisit.2

theorem cleared_actorTypeRemoved (cfg : ManagerSettings) (env : Surroundings)
    (st : DeploymentManager) (t : String) :
    Declined (st.dropCount t) (actorTypeRemoved cfg env (st.dropCount t) t) ∧
      ∀ name ∈ Multimap.members t st.dependencies,
      ¬ (actorTypeRemoved cfg env (st.dropCount t) t).IsActive name := by
  obtain ⟨hdeclined, hinactive⟩ := declined_actorTypeRemoved cfg env (st.dropCount t) t
  exact ⟨hdeclined, fun name hname => hinactive name (mem_dependents.mpr hname)⟩

theorem declined_decrement (cfg : ManagerSettings) (env : Surroundings) (st : DeploymentManager)
    (actor_type : String) :
    Declined st (decrementDeployedActorTypeCount cfg env st actor_type) :=
  declined_decrementWith fun _ => cleared_actorTypeRemoved cfg env st actor_type

theorem declined_deactivate (cfg : ManagerSettings) (env : Surroundings) (st : DeploymentManager)
    (name : String) :
    Declined st (deactivateDeployment cfg env st name) ∧
    ¬ (deactivateDeployment cfg env st name).IsActive name :=
  declined_deactivateWith cfg name fun t _ => cleared_actorTypeRemoved cfg env st t

end DeploymentManager

end UActor
