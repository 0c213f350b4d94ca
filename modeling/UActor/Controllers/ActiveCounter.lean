import Mathlib.Data.List.Perm.Subperm
import UActor.Controllers.Removals

/-!
# The counter of active deployments

`_active_deployments` is adjusted beside the functions that change a flag, and they do not say
whether they have changed it. The counter stays exact as long as each of its adjustments goes with a
flag that rises or falls.
-/

namespace UActor

namespace DeploymentManager

variable {cfg : ManagerSettings} {env : Surroundings} {st st' s : DeploymentManager}
  {p : Publication} {name u : String}

/-! ## The lag of the counter -/

/-- The deployments that are active. -/
def activeTotal (st : DeploymentManager) : Nat := st.deployments.countP fun e => e.2.active

/-- By how much the counter is ahead of the flags. -/
def lag (st : DeploymentManager) : UInt32 := st.active_deployments - UInt32.ofNat st.activeTotal

/-- Every adjustment of the counter went with a flag. -/
def SameLag (st st' : DeploymentManager) : Prop := st'.lag = st.lag

theorem SameLag.refl (st : DeploymentManager) : SameLag st st := rfl

theorem SameLag.trans {st₁ st₂ st₃ : DeploymentManager} (h : SameLag st₁ st₂)
    (h' : SameLag st₂ st₃) :
    SameLag st₁ st₃ :=
  Eq.trans h' h

theorem ofNat_succ (n : Nat) : UInt32.ofNat (n + 1) = UInt32.ofNat n + 1 := by simp

theorem lag_of_tables (hdeployments : st'.deployments = st.deployments)
    (hactive : st'.active_deployments = st.active_deployments) : st'.lag = st.lag := by
  unfold lag activeTotal
  rw [hdeployments, hactive]

theorem lag_lessActive (st : DeploymentManager) : st.lessActive.lag = st.lag - 1 := by
  show st.active_deployments - 1 - UInt32.ofNat st.activeTotal =
      st.active_deployments - UInt32.ofNat st.activeTotal - 1
  grind

theorem lag_of_fallen (htotal : st'.activeTotal + 1 = st.activeTotal)
    (hactive : st'.active_deployments = st.active_deployments) : st'.lag = st.lag + 1 := by
  unfold lag
  rw [← htotal, ofNat_succ, hactive]
  grind

theorem lag_of_risen (htotal : st'.activeTotal = st.activeTotal + 1)
    (hactive : st'.active_deployments = st.active_deployments + 1) : st'.lag = st.lag := by
  unfold lag
  rw [htotal, ofNat_succ, hactive]
  grind

theorem activeTotal_put {d d' : Deployment} (hd : Assoc.find name st.deployments = some d)
    (hdeployments : st'.deployments = Assoc.put name d' st.deployments) :
    st'.activeTotal + d.active.toNat = st.activeTotal + d'.active.toNat := by
  unfold activeTotal
  rw [hdeployments]
  exact Assoc.countP_put (fun e => e.2.active) hd d'

theorem lag_put {d d' : Deployment} (hd : Assoc.find name st.deployments = some d)
    (hflag : d'.active = d.active)
    (hdeployments : st'.deployments = Assoc.put name d' st.deployments)
    (hactive : st'.active_deployments = st.active_deployments) : st'.lag = st.lag := by
  have htotal := activeTotal_put hd hdeployments
  rw [hflag] at htotal
  unfold lag
  rw [Nat.add_right_cancel htotal, hactive]

theorem lag_modify (name : String) {f : Deployment → Deployment}
    (hf : ∀ d, (f d).active = d.active) :
    (st.modify name f).lag = st.lag := by
  cases hd : Assoc.find name st.deployments with
  | none =>
    unfold modify
    rw [hd]
  | some d =>
    rw [modify_eq hd]
    exact lag_put hd (hf d) rfl rfl

theorem lag_stopDeployment : (stopDeployment cfg st name).lag = st.lag := by
  unfold stopDeployment
  split
  · rfl
  · rfl

theorem lag_startDeployment (executor : ExecutorIdentifier) (delay : UInt32) :
    (st.startDeployment name executor delay).lag = st.lag := by
  unfold startDeployment
  split
  · rename_i d _
    have hmodify : ((st.emit (.delayedPublish (spawnMessage d executor) delay)).modify name fun d =>
        { d with restarts := d.restarts + 1 }).lag =
          (st.emit (.delayedPublish (spawnMessage d executor) delay)).lag :=
      lag_modify name fun _ => rfl
    exact hmodify
  · rfl

theorem active_deployments_modify (f : Deployment → Deployment) :
    (st.modify name f).active_deployments = st.active_deployments := by
  unfold modify
  split
  · rfl
  · rfl

theorem active_deployments_stopDeployment :
    (stopDeployment cfg st name).active_deployments = st.active_deployments := by
  unfold stopDeployment
  split
  · rfl
  · rfl

theorem activeTotal_lower (hactive : st.IsActive name) :
    (st.lower name).activeTotal + 1 = st.activeTotal := by
  obtain ⟨d, hd, hflag⟩ := hactive
  have hdeployments : (st.lower name).deployments = Assoc.put name { d with active := false }
    st.deployments := by
    unfold lower
    rw [modify_eq hd]
  have htotal := activeTotal_put hd hdeployments
  rw [hflag] at htotal
  exact htotal

theorem lag_remove (hunique : (Assoc.keys st.deployments).Nodup) (hinactive : ¬ st.IsActive name) :
    (removeDeployment st name).lag = st.lag := by
  cases hd : Assoc.find name st.deployments with
  | none =>
    unfold removeDeployment
    rw [hd]
  | some d =>
    have hflag : d.active = false := by
      cases hactive : d.active with
      | false => rfl
      | true => exact absurd ⟨d, hd, hactive⟩ hinactive
    have htotal := Assoc.countP_erase (fun e => e.2.active) hunique hd
    rw [hflag] at htotal
    have hcounter : (removeDeployment st name).active_deployments = st.active_deployments := by
      unfold removeDeployment
      rw [hd]
      dsimp only
      split <;> split <;> rfl
    unfold lag activeTotal
    rw [(removeDeployment_tables hd).1, hcounter, ← htotal]
    rfl

/-! ## Types that disappear -/

/-- The call that `actor_type_removed` makes at a deployment that it deactivates. -/
def callsRemoved (st : DeploymentManager) (name : String) (st' : DeploymentManager) (t : String) :
    Prop :=
  ∃ d, Assoc.find name st.deployments = some d ∧ d.active = true ∧ t = d.actor_type ∧
    Assoc.find t st.deployed_actor_types = some 1 ∧ st' = st.dropCount t

/-- The cascade of a type that is gone comes to the deployment, in this state. -/
def TurnRemoved (cfg : ManagerSettings) (env : Surroundings) :
    DeploymentManager → String → DeploymentManager → String →
    Prop :=
  Cascade.Turn (dependents env) (visitRemoved cfg) (fun st => st.deployed_actor_types.length)
    callsRemoved

/-- `decrement_deployed_actor_type_count` takes the type away, and deactivates the deployment in
this state. -/
def Deactivates (cfg : ManagerSettings) (env : Surroundings) (st : DeploymentManager)
    (actor_type : String) (st' : DeploymentManager) (name : String) : Prop :=
  Assoc.find actor_type st.deployed_actor_types = some 1 ∧
    TurnRemoved cfg env (st.dropCount actor_type) actor_type st' name

/-- The deployment is active until `deactivate_deployment` lowers its flag. -/
def StaysUp (cfg : ManagerSettings) (env : Surroundings) (st : DeploymentManager) (name : String) :
    Prop :=
  ∃ d, Assoc.find name st.deployments = some d ∧
    (decrementDeployedActorTypeCount cfg env st d.actor_type).IsActive name

theorem StaysUp.active (h : StaysUp cfg env st name) : st.IsActive name := by
  obtain ⟨d, -, hup⟩ := h
  exact (declined_decrement cfg env st d.actor_type).active name hup

theorem deactivateDeployment_eq {d : Deployment} (hd : Assoc.find name st.deployments = some d)
    (hactive : d.active = true) :
    deactivateDeployment cfg env st name =
      (stopDeployment cfg (decrementDeployedActorTypeCount cfg env st d.actor_type) name).lower
        name := by
  unfold deactivateDeployment
  rw [deactivateWith_eq hd, if_pos hactive]
  rfl

theorem isActive_stopDeployment (name' : String) :
    (stopDeployment cfg st name).IsActive name' ↔ st.IsActive name' := by
  unfold IsActive
  rw [stopDeployment_deployments]

theorem activeTotal_stopDeployment : (stopDeployment cfg st name).activeTotal = st.activeTotal := by
  unfold activeTotal
  rw [stopDeployment_deployments]

theorem activeTotal_deactivate {d : Deployment} (hd : Assoc.find name st.deployments = some d)
    (hup : (decrementDeployedActorTypeCount cfg env st d.actor_type).IsActive name) :
    (deactivateDeployment cfg env st name).activeTotal + 1 =
      (decrementDeployedActorTypeCount cfg env st d.actor_type).activeTotal := by
  obtain ⟨d', hd', hactive⟩ := (declined_decrement cfg env st d.actor_type).active name hup
  obtain rfl := Option.some.inj (hd.symm.trans hd')
  rw [deactivateDeployment_eq hd hactive,
    activeTotal_lower ((isActive_stopDeployment name).mpr hup), activeTotal_stopDeployment]

theorem lag_deactivate_of {d : Deployment} (hd : Assoc.find name st.deployments = some d)
    (hup : (decrementDeployedActorTypeCount cfg env st d.actor_type).IsActive name) :
    (deactivateDeployment cfg env st name).lag =
      (decrementDeployedActorTypeCount cfg env st d.actor_type).lag + 1 := by
  obtain ⟨d', hd', hactive⟩ := (declined_decrement cfg env st d.actor_type).active name hup
  obtain rfl := Option.some.inj (hd.symm.trans hd')
  refine lag_of_fallen (activeTotal_deactivate hd hup) ?_
  rw [deactivateDeployment_eq hd hactive]
  exact (active_deployments_modify _).trans active_deployments_stopDeployment

theorem lag_decrement_of (u : String)
    (hremoved : Assoc.find u st.deployed_actor_types = some 1 →
      (actorTypeRemoved cfg env (st.dropCount u) u).lag = st.lag) :
    (decrementDeployedActorTypeCount cfg env st u).lag = st.lag := by
  unfold decrementDeployedActorTypeCount decrementWith
  cases hcount : Assoc.find u st.deployed_actor_types with
  | none => rfl
  | some c =>
    dsimp only
    by_cases hone : c = 1
    · rw [if_pos hone]
      exact hremoved (by rw [hcount, hone])
    · rw [if_neg hone]
      rfl

theorem lag_visitRemoved (hup : StaysUp cfg env st name)
    (hcalls : ∀ st' t, callsRemoved st name st' t →
      st'.deployed_actor_types.length < st.deployed_actor_types.length →
      (actorTypeRemoved cfg env st' t).lag = st'.lag) :
    (visitRemoved cfg (actorTypeRemoved cfg env) st name).lag = st.lag := by
  obtain ⟨d, hd, hup⟩ := hup
  obtain ⟨d', hd', hactive⟩ := (declined_decrement cfg env st d.actor_type).active name hup
  obtain rfl := Option.some.inj (hd.symm.trans hd')
  have hdecrement : (decrementDeployedActorTypeCount cfg env st d.actor_type).lag = st.lag :=
    lag_decrement_of d.actor_type fun hone => hcalls _ _ ⟨d, hd, hactive, rfl, hone, rfl⟩
      (Assoc.length_erase_lt hone)
  have hvisit : (visitRemoved cfg (actorTypeRemoved cfg env) st name).lag =
      (deactivateDeployment cfg env st name).lessActive.lag := lag_of_tables rfl rfl
  rw [hvisit, lag_lessActive, lag_deactivate_of hd hup, hdecrement]
  grind

theorem lag_actorTypeRemoved (hturns : ∀ st' name, TurnRemoved cfg env st u st' name →
    StaysUp cfg env st' name) :
    (actorTypeRemoved cfg env st u).lag = st.lag :=
  Cascade.eval_rel_of_turns bounded_visitRemoved SameLag.refl SameLag.trans
    (fun _ _ hup hcalls => lag_visitRemoved hup hcalls) hturns

theorem lag_callsRemoved {t : String} (hcall : callsRemoved st name st' t) : SameLag st st' := by
  obtain ⟨d, -, -, -, -, rfl⟩ := hcall
  exact lag_of_tables rfl rfl

theorem lag_turn (hturn : TurnRemoved cfg env st u st' name)
    (hturns : ∀ st' name, TurnRemoved cfg env st u st' name → StaysUp cfg env st' name) :
    st'.lag = st.lag :=
  hturn.reached bounded_visitRemoved SameLag.refl SameLag.trans (fun _ _ hup hcalls =>
    lag_visitRemoved hup hcalls) lag_callsRemoved hturns

theorem lag_decrement (hturns : ∀ st' name, Deactivates cfg env st u st' name →
    StaysUp cfg env st' name) :
    (decrementDeployedActorTypeCount cfg env st u).lag = st.lag :=
  lag_decrement_of u fun hone => lag_actorTypeRemoved fun st' name hturn =>
    hturns st' name ⟨hone, hturn⟩

theorem lag_deactivate (hup : StaysUp cfg env st name)
    (hturns : ∀ d st' name', Assoc.find name st.deployments = some d → d.active = true →
      Deactivates cfg env st d.actor_type st' name' → StaysUp cfg env st' name') :
    (deactivateDeployment cfg env st name).lag = st.lag + 1 := by
  obtain ⟨d, hd, hup⟩ := hup
  obtain ⟨d', hd', hactive⟩ := (declined_decrement cfg env st d.actor_type).active name hup
  obtain rfl := Option.some.inj (hd.symm.trans hd')
  rw [lag_deactivate_of hd hup, lag_decrement fun st' name' hdeactivates =>
    hturns d st' name' hd hactive hdeactivates]

theorem lag_retire (hup : StaysUp cfg env st name)
    (hturns : ∀ d st' name', Assoc.find name st.deployments = some d → d.active = true →
      Deactivates cfg env st d.actor_type st' name' → StaysUp cfg env st' name') :
    (retire cfg env st name).lag = st.lag := by
  obtain ⟨d, hd, hactive⟩ := hup.active
  rw [retire_eq hd, if_pos hactive, lag_lessActive, lag_deactivate hup hturns]
  grind

/-! ## Types that appear -/

theorem active_deployments_startDeployment (executor : ExecutorIdentifier) (delay : UInt32) :
    (st.startDeployment name executor delay).active_deployments = st.active_deployments := by
  unfold startDeployment
  split
  · exact active_deployments_modify _
  · rfl

theorem active_deployments_startActive (executor : ExecutorIdentifier) :
    (startActive cfg env st name executor).active_deployments = st.active_deployments := by
  have hsubscribe : ∀ st : DeploymentManager,
    (subscribeLifetime cfg env st name).active_deployments = st.active_deployments := by
    intro st
    unfold subscribeLifetime
    split
    · split
      · exact active_deployments_modify _
      · rfl
    · rfl
  unfold startActive
  rw [active_deployments_startDeployment, hsubscribe, active_deployments_modify]

theorem activeTotal_startActive {d : Deployment} (hd : Assoc.find name st.deployments = some d)
    (hinactive : d.active = false)
    (executor : ExecutorIdentifier) :
    (startActive cfg env st name executor).activeTotal = st.activeTotal + 1 := by
  have hstarted : Started st name d executor (startActive cfg env st name executor) :=
    startActive_started hd executor
  obtain ⟨sub_id, hdeployments⟩ := hstarted.deployments
  have htotal := activeTotal_put hd hdeployments
  rw [hinactive] at htotal
  exact htotal

theorem lag_startActive {d : Deployment} (hd : Assoc.find name st.deployments = some d)
    (hinactive : d.active = false) (executor : ExecutorIdentifier) (inactive : UInt32) :
    SameLag st { startActive cfg env st name executor with
      inactive_deployments := inactive
      active_deployments := (startActive cfg env st name executor).active_deployments + 1 } := by
  have htotal : (startActive cfg env st name executor).activeTotal = st.activeTotal + 1 :=
    activeTotal_startActive hd hinactive executor
  have hcounter : (startActive cfg env st name executor).active_deployments + 1 =
      st.active_deployments + 1 := by
    rw [active_deployments_startActive]
  generalize startActive cfg env st name executor = started at htotal hcounter
  exact lag_of_risen htotal hcounter

/-- The invariant holds on, and every adjustment of the counter went with a flag. -/
def Steady (st st' : DeploymentManager) : Prop := Inv st → Inv st' ∧ SameLag st st'

theorem Steady.refl (st : DeploymentManager) : Steady st st := fun h => ⟨h, .refl st⟩

theorem Steady.trans {st₁ st₂ st₃ : DeploymentManager} (h : Steady st₁ st₂) (h' : Steady st₂ st₃) :
    Steady st₁ st₃ := by
  intro hinv
  obtain ⟨hinv₂, hlag⟩ := h hinv
  obtain ⟨hinv₃, hlag'⟩ := h' hinv₂
  exact ⟨hinv₃, hlag.trans hlag'⟩

theorem steady_increment_of (u : String) (hadded : st.hasType u = false →
    Steady (st.setCount u 1) (actorTypeAdded cfg env (st.setCount u 1) u)) :
    Steady st (incrementDeployedActorTypeCount cfg env st u) := by
  intro hinv
  refine ⟨hinv.increment u, ?_⟩
  unfold incrementDeployedActorTypeCount incrementWith
  cases hcount : Assoc.find u st.deployed_actor_types with
  | some c => exact lag_of_tables rfl rfl
  | none => exact (hadded (not_hasType_iff.mpr hcount) (hinv.setCount u 1)).2

theorem steady_visitAdded (hinactive : ∀ d executors, st.readyOn name = some (d, executors) →
    d.active = false) (hcalls : ∀ st' t, callsAdded st name st' t → st'.waiting < st.waiting →
      Steady st' (actorTypeAdded cfg env st' t)) :
    Steady st (visitAdded cfg env (actorTypeAdded cfg env) st name) := by
  intro hinv
  refine ⟨hinv.visitAdded name, ?_⟩
  cases hready : st.readyOn name with
  | none =>
    rw [visitAdded_waits hready]
    exact .refl st
  | some r =>
    obtain ⟨d, executors⟩ := r
    obtain ⟨hd, hreq, -⟩ := readyOn_eq.mp hready
    have hincrement : Steady st (incrementDeployedActorTypeCount cfg env st d.actor_type) :=
      steady_increment_of d.actor_type fun hnew =>
        hcalls _ _ ⟨d, executors, hready, rfl, hnew, rfl⟩ (waiting_setCount hd hnew 1)
    have hd' : Assoc.find name (incrementDeployedActorTypeCount cfg env st
        d.actor_type).deployments = some d :=
      untouched_increment hinv hd hreq d.actor_type
    refine SameLag.trans (hincrement hinv).2 ?_
    rw [visitAdded_ready hready]
    exact lag_startActive hd' (hinactive d executors hready) executors.front _

theorem steady_increment (hactivates : ∀ st' name d, Activates cfg env st u st' name d →
    d.active = false) :
    Steady st (incrementDeployedActorTypeCount cfg env st u) := by
  refine steady_increment_of u fun hnew => ?_
  refine Cascade.eval_rel_of_turns bounded_visitAdded Steady.refl Steady.trans
    (fun _ _ hinactive hcalls => steady_visitAdded hinactive hcalls) fun st' name hturn d executors
      hready => ?_
  exact hactivates st' name d ⟨hnew, hturn, executors, hready⟩

theorem lag_increment (hinv : Inv st)
    (hactivates : ∀ st' name d, Activates cfg env st u st' name d → d.active = false) :
    (incrementDeployedActorTypeCount cfg env st u).lag = st.lag :=
  (steady_increment hactivates hinv).2

/-! ## Messages -/

/-- The message makes `decrement_deployed_actor_type_count` of a type, in this state. -/
inductive Decrements (cfg : ManagerSettings) (env : Surroundings) (st : DeploymentManager)
    (p : Publication) :
    DeploymentManager → String → Prop
  | deregistered {t : String} (hp : handlerOf p = some .unmanagedActorUpdate)
    (hcommand : p.getStrAttr "command" = some "deregister")
    (htype : p.getStrAttr "update_actor_type" = some t) :
    Decrements cfg env st p st t
  | replaced {r : Request} {executors : ExecutorList} {d : Deployment}
      (hp : handlerOf p = some .deployment)
    (hr : st.readDeployment p = some (some (r, executors)))
    (hd : Assoc.find r.name st.deployments = some d) (hreplaces : r.replaces d = true) :
    Decrements cfg env st p (stopDeployment cfg st r.name) d.actor_type
  | retired {s : DeploymentManager} {name : String} {d : Deployment}
      (h : Retires cfg env st p s name)
    (hd : Assoc.find name s.deployments = some d) (hactive : d.active = true) :
    Decrements cfg env st p s d.actor_type
  | exhausted {name : String} {d : Deployment} (h : Exhausts env st p name d)
      (hactive : d.active = true) :
    Decrements cfg env st p st.lessActive d.actor_type

/-- The message makes `_active_deployments--`, in this state. -/
inductive Lowers (cfg : ManagerSettings) (env : Surroundings) (st : DeploymentManager)
    (p : Publication) :
    DeploymentManager → Prop
  | visited {s st' : DeploymentManager} {t name : String} (h : Decrements cfg env st p s t)
    (hturn : Deactivates cfg env s t st' name) :
    Lowers cfg env st p (deactivateDeployment cfg env st' name)
  | retired {s : DeploymentManager} {name : String} (h : Retires cfg env st p s name) :
    Lowers cfg env st p (deactivateDeployment cfg env s name)
  | exhausted {name : String} {d : Deployment} (h : Exhausts env st p name d)
      (hactive : d.active = true) :
    Lowers cfg env st p st

/-- Every adjustment of the counter goes with a flag: what a cascade takes down and what ends is
active until its flag falls, what is activated is not active before, and no active deployment is
removed. -/
structure Balanced (cfg : ManagerSettings) (env : Surroundings) (st : DeploymentManager)
    (p : Publication) : Prop where
  visited : ∀ s t st' name, Decrements cfg env st p s t → Deactivates cfg env s t st' name →
    StaysUp cfg env st' name
  retired : ∀ s name, Retires cfg env st p s name → StaysUp cfg env s name
  exhausted : ∀ name d, Exhausts env st p name d → d.active = true →
    StaysUp cfg env st.lessActive name
  overdue : ¬ ExitsLate env st p
  activated : ∀ s t st' name d, Increments cfg env st p s t → Activates cfg env s t st' name d →
    d.active = false

theorem Balanced.retire (h : Balanced cfg env st p) (hretires : Retires cfg env st p s name) :
    SameLag s (retire cfg env s name) :=
  lag_retire (h.retired s name hretires) fun d st' name' hd hactive hdeactivates =>
    h.visited s d.actor_type st' name' (.retired hretires hd hactive) hdeactivates

theorem lag_recordDeployment {r : Request} (hnew : Assoc.find r.name st.deployments = none)
    (end_time : UInt32) :
    (recordDeployment cfg env st r end_time).lag = st.lag := by
  have htotal : (recordDeployment cfg env st r end_time).activeTotal = st.activeTotal := by
    show (Assoc.put r.name (r.deployment end_time _) st.deployments).countP _ = _
    rw [Assoc.put_of_absent (Assoc.find_eq_none.mp hnew), List.countP_append, List.countP_singleton]
    rfl
  unfold lag
  rw [htotal]
  rfl

theorem Balanced.insert (h : Balanced cfg env st p) (hinv : Inv st) {r : Request}
    {executors : ExecutorList} (hp : handlerOf p = some .deployment)
    (hr : st.readDeployment p = some (some (r, executors)))
    (hnew : Assoc.find r.name st.deployments = none) :
    SameLag st (insertDeployment cfg env st r (r.endTime env) executors) := by
  have hrecord : SameLag st (recordDeployment cfg env st r (r.endTime env)) :=
    lag_recordDeployment hnew (r.endTime env)
  refine hrecord.trans ?_
  have hinv₁ : Inv (recordDeployment cfg env st r (r.endTime env)) := hinv.recordDeployment r hnew _
  have hd : Assoc.find r.name (recordDeployment cfg env st r (r.endTime env)).deployments =
      some (r.deployment (r.endTime env) (env.subscribe (cancelationFilter cfg r.name))) :=
        Assoc.find_put_self _ _ _
  unfold insertDeployment
  dsimp only
  split
  · rename_i hreq
    have hincrement := lag_increment hinv₁ fun st' name d =>
      h.activated _ _ st' name d (.inserted hp hr hnew hreq)
    have hd' : Assoc.find r.name (incrementDeployedActorTypeCount cfg env
        (recordDeployment cfg env st r (r.endTime env)) r.actor_type).deployments =
        some (r.deployment (r.endTime env) (env.subscribe (cancelationFilter cfg r.name))) :=
      untouched_increment hinv₁ hd hreq r.actor_type
    refine SameLag.trans hincrement ?_
    have hstart : activateDeployment cfg env (recordDeployment cfg env st r (r.endTime env)) r.name
        executors.front =
        startActive cfg env (incrementDeployedActorTypeCount cfg env
          (recordDeployment cfg env st r (r.endTime env)) r.actor_type) r.name executors.front := by
      unfold activateDeployment activateWith
      rw [hd]
      rfl
    rw [hstart]
    exact lag_startActive hd' rfl executors.front _
  · exact lag_of_tables rfl rfl

theorem Balanced.replace (h : Balanced cfg env st p) (hinv : Inv st) {r : Request}
    {executors : ExecutorList} {d : Deployment} (hp : handlerOf p = some .deployment)
    (hr : st.readDeployment p = some (some (r, executors)))
    (hd : Assoc.find r.name st.deployments = some d) (hreplaces : r.replaces d = true) :
    SameLag st (replaceDeployment cfg env st d r executors) := by
  have hdecrement := lag_decrement fun st' name =>
    h.visited _ _ st' name (.replaced hp hr hd hreplaces)
  have hincrement := lag_increment (hinv.exchangeType d r) fun st' name d' =>
    h.activated _ _ st' name d' (.replaced hp hr hd hreplaces)
  have hexchange : SameLag st (exchangeType cfg env st d r) :=
    SameLag.trans lag_stopDeployment (SameLag.trans hdecrement (lag_modify r.name fun _ => rfl))
  have hstart : SameLag (incrementDeployedActorTypeCount cfg env (exchangeType cfg env st d r)
      r.actor_type) (replaceDeployment cfg env st d r executors) :=
        lag_startDeployment executors.front 0
  exact SameLag.trans hexchange (SameLag.trans hincrement hstart)

theorem Balanced.update (h : Balanced cfg env st p) (hinv : Inv st) {r : Request}
    {executors : ExecutorList} {d : Deployment} (hp : handlerOf p = some .deployment)
    (hr : st.readDeployment p = some (some (r, executors)))
    (hd : Assoc.find r.name st.deployments = some d) :
    SameLag st (updateDeployment cfg env st d r (r.endTime env) executors) := by
  have hreplaced : SameLag st (if r.replaces d then replaceDeployment cfg env st d r executors
      else st) := by
    split
    · rename_i hreplaces
      exact h.replace hinv hp hr hd hreplaces
    · exact .refl st
  have hend : SameLag st ((if r.replaces d then replaceDeployment cfg env st d r executors
      else st).modify r.name fun d => { d with lifetime_end := r.endTime env }) :=
    SameLag.trans hreplaced (lag_modify r.name fun _ => rfl)
  unfold updateDeployment
  dsimp only
  split
  · exact SameLag.trans hend (lag_of_tables rfl rfl)
  · exact hend

theorem Balanced.deploy (h : Balanced cfg env st p) (hinv : Inv st) {r : Request}
    {executors : ExecutorList} (hp : handlerOf p = some .deployment)
    (hr : st.readDeployment p = some (some (r, executors))) :
    SameLag st (deploy cfg env st r executors) := by
  obtain ⟨ends, effects, hdeploy⟩ := deploy_tables cfg env st r executors
  cases hd : Assoc.find r.name st.deployments with
  | none =>
    rw [hd] at hdeploy
    rw [hdeploy]
    exact SameLag.trans (h.insert hinv hp hr hd) (lag_of_tables rfl rfl)
  | some d =>
    rw [hd] at hdeploy
    rw [hdeploy]
    exact SameLag.trans (h.update hinv hp hr hd) (lag_of_tables rfl rfl)

theorem Balanced.crashed (h : Balanced cfg env st p) (hinv : Inv st) {d : Deployment}
    (hexits : Exits p name) (hd : Assoc.find name st.deployments = some d)
    (hover : Deployment.overdue d (env.now 0) = false) (hcrashes : Crashes p) :
    SameLag st (crashed cfg env st name d) := by
  by_cases hmany : d.restarts < 3
  · unfold DeploymentManager.crashed
    rw [if_pos hmany]
    split
    · exact lag_startDeployment _ _
    · exact .refl st
  · have hexhausts : Exhausts env st p name d := ⟨hexits, hd, hover, hcrashes, hmany⟩
    rw [crashed_exhausted hmany]
    have hremove : ∀ st₁, Inv st₁ → SameLag (deactivateDeployment cfg env st₁ name)
        (removeDeployment (deactivateDeployment cfg env st₁ name) name) := by
      intro st₁ hinv₁
      obtain ⟨hdeclined, hinactive⟩ := declined_deactivate cfg env st₁ name
      exact lag_remove (hdeclined.unique hinv₁.unique) hinactive
    cases hactive : d.active with
    | true =>
      have hlowered : (deactivateDeployment cfg env st.lessActive name).lag =
          st.lessActive.lag + 1 := by
        refine lag_deactivate (h.exhausted name d hexhausts hactive) fun d' st' name' hd' _
          hdeactivates => ?_
        obtain rfl := Option.some.inj (hd.symm.trans hd')
        exact h.visited _ _ st' name' (.exhausted hexhausts hactive) hdeactivates
      rw [lag_lessActive] at hlowered
      have hdeactivate : SameLag st (deactivateDeployment cfg env st.lessActive name) := by
        unfold SameLag
        rw [hlowered]
        grind
      exact hdeactivate.trans (hremove st.lessActive (hinv.of_eq rfl rfl rfl))
    | false =>
      have hdeactivate : SameLag st (deactivateDeployment cfg env st name) := by
        unfold deactivateDeployment
        rw [deactivateWith_eq hd, hactive, if_neg (by simp)]
        unfold lower
        rw [modify_eq hd]
        exact lag_put hd hactive.symm rfl rfl
      exact hdeactivate.trans (hremove st hinv)

theorem Balanced.received (h : Balanced cfg env st p) (hinv : Inv st)
    (hstep : Received cfg env st p st') :
    SameLag st st' := by
  cases hstep with
  | quiet hquiet => exact lag_of_tables hquiet.deployments hquiet.active_deployments
  | deployed hp hr => exact h.deploy hinv hp hr
  | @cancelled name hp hname =>
    cases hd : Assoc.find name st.deployments with
    | none =>
      rw [retire_absent hd]
      exact .refl st
    | some d => exact h.retire (.cancelled hp hname (Assoc.mem_keys_iff.mpr ⟨d, hd⟩))
  | expired hp =>
    exact expireAll_rel SameLag.refl SameLag.trans (fun _ _ => lag_of_tables rfl rfl) fun s name
      hexpires =>
      h.retire (.expired hp hexpires)
  | @overdue name d hp hexit hname hd hover =>
    refine lag_remove hinv.unique ?_
    rintro ⟨d', hd', hactive⟩
    obtain rfl := Option.some.inj (hd.symm.trans hd')
    exact h.overdue ⟨name, d, ⟨hp, hexit, hname⟩, hd, hover, hactive⟩
  | crashed hp hexit hname hd hover hreason hcrash =>
    exact h.crashed hinv ⟨hp, hexit, hname⟩ hd hover ⟨_, hreason, hcrash⟩
  | registered hp hcommand htype =>
    exact lag_increment hinv fun st' name d =>
      h.activated _ _ st' name d (.registered hp hcommand htype)
  | deregistered hp hcommand htype =>
    exact lag_decrement fun st' name => h.visited _ _ st' name (.deregistered hp hcommand htype)

/-! ## Where the counter is lowered -/

theorem counter_eq (st : DeploymentManager) :
    st.active_deployments = UInt32.ofNat st.activeTotal + st.lag := by
  unfold lag
  grind

theorem ofNat_ne_zero {n : Nat} (hpos : 1 ≤ n) (hfits : n < 4294967296) : UInt32.ofNat n ≠ 0 := by
  intro hzero
  have hnat := congrArg UInt32.toNat hzero
  rw [UInt32.toNat_ofNat_of_lt' hfits] at hnat
  exact absurd hnat (by show n ≠ 0; omega)

/-- No deployment becomes active. -/
def Fades (st st' : DeploymentManager) : Prop := ∀ name, st'.IsActive name → st.IsActive name

theorem Fades.refl (st : DeploymentManager) : Fades st st := fun _ h => h

theorem Fades.trans {st₁ st₂ st₃ : DeploymentManager} (h : Fades st₁ st₂) (h' : Fades st₂ st₃) :
    Fades st₁ st₃ :=
  fun name hname => h name (h' name hname)

def activeNames (st : DeploymentManager) : List String :=
  Assoc.keys (st.deployments.filter fun e => e.2.active)

theorem length_activeNames (st : DeploymentManager) : st.activeNames.length = st.activeTotal := by
  unfold activeNames activeTotal Assoc.keys
  rw [List.length_map, List.countP_eq_length_filter]

theorem mem_activeNames (hunique : (Assoc.keys st.deployments).Nodup) :
    name ∈ st.activeNames ↔ st.IsActive name := by
  unfold activeNames Assoc.keys
  rw [List.mem_map]
  constructor
  · rintro ⟨⟨_, d⟩, hmem, rfl⟩
    obtain ⟨hmem, hactive⟩ := List.mem_filter.mp hmem
    exact ⟨d, Assoc.find_of_mem hunique hmem, hactive⟩
  · rintro ⟨d, hd, hactive⟩
    exact ⟨(name, d), List.mem_filter.mpr ⟨Assoc.mem_of_find hd, hactive⟩, rfl⟩

theorem Fades.total (h : Fades st st') (hunique : (Assoc.keys st.deployments).Nodup)
    (hunique' : (Assoc.keys st'.deployments).Nodup) : st'.activeTotal ≤ st.activeTotal := by
  have hnodup : st'.activeNames.Nodup := hunique'.sublist (List.filter_sublist.map Prod.fst)
  rw [← length_activeNames, ← length_activeNames]
  refine (List.subperm_of_subset hnodup fun name hname => ?_).length_le
  exact (mem_activeNames hunique).mpr (h name ((mem_activeNames hunique').mp hname))

theorem Declined.total (h : Declined st st') (hunique : (Assoc.keys st.deployments).Nodup) :
    st'.activeTotal ≤ st.activeTotal :=
  Fades.total h.active hunique (h.unique hunique)

theorem fades_retire (st : DeploymentManager) (name : String) :
    Fades st (retire cfg env st name) := by
  intro name' hname'
  cases hd : Assoc.find name st.deployments with
  | none => rwa [retire_absent hd] at hname'
  | some d =>
    refine (declined_deactivate cfg env st name).1.active name' ?_
    rw [retire_eq hd] at hname'
    split at hname'
    · exact hname'
    · obtain ⟨d', hd', hactive⟩ := hname'
      have hthere : ∃ d₁, Assoc.find name
          (deactivateDeployment cfg env st name).lessActive.deployments = some d₁ :=
        Assoc.mem_keys_iff.mp (by
          show name ∈ Assoc.keys (deactivateDeployment cfg env st name).deployments
          rw [keys_deactivate]
          exact Assoc.mem_keys_iff.mpr ⟨d, hd⟩)
      obtain ⟨d₁, hd₁⟩ := hthere
      rw [(removeDeployment_tables hd₁).1, Assoc.find_erase] at hd'
      split at hd'
      · exact absurd hd' (by simp)
      · exact ⟨d', hd', hactive⟩

theorem Retires.before (h : Retires cfg env st p s name) (hbalanced : Balanced cfg env st p)
    (hinv : Inv st) :
    Inv s ∧ Fades st s ∧ SameLag st s := by
  cases h with
  | cancelled hp hname hthere => exact ⟨hinv, .refl st, .refl st⟩
  | expired hp h =>
    refine h.reached (R := fun s s' => Inv s → Inv s' ∧ Fades s s' ∧ SameLag s s')
      (fun s h => ⟨h, .refl s, .refl s⟩) (fun h h' hinv => ?_) (fun s ends h =>
        ⟨h.of_eq rfl rfl rfl, .refl s, lag_of_tables rfl rfl⟩)
      (fun s name hexpires h =>
        ⟨h.retire name, fades_retire s name, hbalanced.retire (.expired hp hexpires)⟩) hinv
    obtain ⟨hinv₂, hfades, hlag⟩ := h hinv
    obtain ⟨hinv₃, hfades', hlag'⟩ := h' hinv₂
    exact ⟨hinv₃, hfades.trans hfades', hlag.trans hlag'⟩

/-- The same deployments, and none becomes active. -/
structure Fading (st st' : DeploymentManager) : Prop where
  keys : Assoc.keys st'.deployments = Assoc.keys st.deployments
  active : Fades st st'

theorem Fading.refl (st : DeploymentManager) : Fading st st := ⟨rfl, .refl st⟩

theorem Fading.trans {st₁ st₂ st₃ : DeploymentManager} (h : Fading st₁ st₂) (h' : Fading st₂ st₃) :
    Fading st₁ st₃ :=
  ⟨h'.keys.trans h.keys, h.active.trans h'.active⟩

theorem Declined.fading (h : Declined st st') : Fading st st' := ⟨h.frame.keys, h.active⟩

theorem fading_visitRemoved (st : DeploymentManager) (name : String) :
    Fading st (visitRemoved cfg (actorTypeRemoved cfg env) st name) := by
  obtain ⟨hkeys, hactive⟩ := (declined_deactivate cfg env st name).1.fading
  exact ⟨hkeys, hactive⟩

theorem decrement_last (hone : Assoc.find u st.deployed_actor_types = some 1) :
    decrementDeployedActorTypeCount cfg env st u = actorTypeRemoved cfg env (st.dropCount u) u := by
  unfold decrementDeployedActorTypeCount decrementWith
  rw [hone]
  exact if_pos rfl

theorem Deactivates.before (h : Deactivates cfg env st u st' name) : Fading st st' := by
  have hturn : Fading (st.dropCount u) st' := by
    refine h.2.before Fading.refl Fading.trans fading_visitRemoved ?_
    rintro st name _ t ⟨d, -, -, -, -, rfl⟩
    exact ⟨rfl, .refl st⟩
  exact ⟨hturn.keys, hturn.active⟩

theorem Deactivates.after (h : Deactivates cfg env st u st' name) :
    Fading (deactivateDeployment cfg env st' name) (decrementDeployedActorTypeCount cfg env st
      u) := by
  have hturn : Fading (visitRemoved cfg (actorTypeRemoved cfg env) st' name)
      (actorTypeRemoved cfg env (st.dropCount u) u) := by
    refine h.2.after bounded_visitRemoved Fading.refl Fading.trans fading_visitRemoved ?_
    rintro st name _ t ⟨d, hd, hactive, rfl, hone, rfl⟩
    have hlast : Fading (decrementDeployedActorTypeCount cfg env st d.actor_type)
      (deactivateDeployment cfg env st name) := by
      rw [deactivateDeployment_eq hd hactive]
      exact (declined_stopDeployment.trans declined_lower).fading
    rw [decrement_last hone] at hlast
    exact ⟨hlast.keys, hlast.active⟩
  rw [decrement_last h.1]
  exact ⟨hturn.keys, hturn.active⟩

theorem lag_visited (hturn : Deactivates cfg env st u st' name)
    (hturns : ∀ st' name, Deactivates cfg env st u st' name → StaysUp cfg env st' name) :
    (deactivateDeployment cfg env st' name).lag = st.lag + 1 := by
  rw [lag_deactivate (hturns st' name hturn) fun d st'' name' hd hactive hnested =>
    hturns st'' name' ⟨hturn.1, hturn.2.trans ⟨d, hd, hactive, rfl, hnested.1, rfl⟩ hnested.2⟩,
    lag_turn hturn.2 fun st' name h => hturns st' name ⟨hturn.1, h⟩]
  rfl

theorem counter_of_ahead (hup : StaysUp cfg env st name)
    (hunique : (Assoc.keys st.deployments).Nodup)
    (hlag : (deactivateDeployment cfg env st name).lag = 1) (hfits : st.activeTotal < 4294967296) :
    (deactivateDeployment cfg env st name).active_deployments ≠ 0 := by
  obtain ⟨d, hd, hup⟩ := hup
  have hone := activeTotal_deactivate hd hup
  have hle := (declined_decrement cfg env st d.actor_type).total hunique
  rw [counter_eq, hlag, ← ofNat_succ]
  exact ofNat_ne_zero (by omega) (by omega)

theorem Lowers.positive (h : Lowers cfg env st p s) (hbalanced : Balanced cfg env st p)
    (hinv : Inv st) (hlag : st.lag = 0)
    (hfits : st.activeTotal < 4294967296) : s.active_deployments ≠ 0 := by
  cases h with
  | @visited s₀ st' t name h hturn =>
    have hturns : ∀ st' name, Deactivates cfg env s₀ t st' name → StaysUp cfg env st' name :=
      fun st' name => hbalanced.visited s₀ t st' name h
    have hvisited := lag_visited hturn hturns
    have hplain : Fades st s₀ → (Assoc.keys s₀.deployments).Nodup → s₀.lag = 0 →
        (deactivateDeployment cfg env st' name).active_deployments ≠ 0 := by
      intro hfades hunique hlag₀
      have hunique' : (Assoc.keys st'.deployments).Nodup := by
        rw [hturn.before.keys]
        exact hunique
      have hle := (hfades.trans hturn.before.active).total hinv.unique hunique'
      rw [hlag₀] at hvisited
      exact counter_of_ahead (hturns st' name hturn) hunique' hvisited (by omega)
    cases h with
    | deregistered hp hcommand htype => exact hplain (.refl st) hinv.unique hlag
    | @replaced r executors d hp hr hd hreplaces =>
      have hstopped : Declined st (stopDeployment cfg st r.name) := declined_stopDeployment
      exact hplain hstopped.active (hstopped.unique hinv.unique) (lag_stopDeployment.trans hlag)
    | retired h hd hactive =>
      obtain ⟨hinv₀, hfades, hsame⟩ := h.before hbalanced hinv
      exact hplain hfades hinv₀.unique (Eq.trans hsame hlag)
    | @exhausted name' d h hactive =>
      -- the counter is behind by the deployment that was taken off first, which is still active
      obtain ⟨d', hd', hup⟩ := hbalanced.exhausted name' d h hactive
      obtain rfl := Option.some.inj (h.found.symm.trans hd')
      have hstill := hturn.after.active name' hup
      have hunique : (Assoc.keys (deactivateDeployment cfg env st' name).deployments).Nodup := by
        rw [keys_deactivate, hturn.before.keys]
        exact hinv.unique
      have hle := Fades.total (hturn.before.active.trans
        (declined_deactivate cfg env st' name).1.active) hinv.unique hunique
      have hpos : 1 ≤ (deactivateDeployment cfg env st' name).activeTotal := by
        rw [← length_activeNames]
        exact List.length_pos_of_mem ((mem_activeNames hunique).mpr hstill)
      have hzero : (deactivateDeployment cfg env st' name).lag = 0 := by
        rw [hvisited, lag_lessActive, hlag]
        grind
      rw [counter_eq, hzero, UInt32.add_zero]
      exact ofNat_ne_zero hpos (by have : st.lessActive.activeTotal = st.activeTotal := rfl; omega)
  | retired h =>
    obtain ⟨hinv₀, hfades, hsame⟩ := h.before hbalanced hinv
    have hle := hfades.total hinv.unique hinv₀.unique
    have hup := hbalanced.retired _ _ h
    refine counter_of_ahead hup hinv₀.unique ?_ (by omega)
    rw [lag_deactivate hup fun d st' name' hd hactive => hbalanced.visited _ _ st' name'
      (.retired h hd hactive), Eq.trans hsame hlag]
    rfl
  | @exhausted name d h hactive =>
    have hpos : 1 ≤ st.activeTotal := List.countP_pos_iff.mpr ⟨(name, d), Assoc.mem_of_find h.found,
      hactive⟩
    rw [counter_eq, hlag, UInt32.add_zero]
    exact ofNat_ne_zero hpos hfits

/-! ## Runs -/

theorem lag_receive (hinv : Inv st) (hbalanced : Balanced cfg env { st with effects := [] } p)
    (hstep : receive cfg env st p = some st') : st'.lag = st.lag := by
  have hinv₀ : Inv { st with effects := [] } := hinv.of_eq rfl rfl rfl
  exact hbalanced.received hinv₀ (receive_cases hstep)

theorem lag_run {messages : List (Surroundings × Publication)}
    (hbalanced : ∀ pre m post before, messages = pre ++ m :: post → run cfg pre = some before →
      Balanced cfg m.1 { before with effects := [] } m.2) (hrun : run cfg messages = some st) :
      st.lag = 0 := by
  have hboth : Inv st ∧ st.lag = 0 := by
    refine Runs.invariant_of (fun st => Inv st ∧ st.lag = 0)
      (fun st m => Balanced cfg m.1 { st with effects := [] } m.2)
      ⟨inv_init, rfl⟩ ?_ hbalanced hrun
    rintro st m st' ⟨hinv, hlag⟩ hbalanced hstep
    exact ⟨hinv.receive hstep, (lag_receive hinv hbalanced hstep).trans hlag⟩
  exact hboth.2

/-- In a run whose messages adjust the counter only with a flag, and that does not make more
deployments active than the counter holds, it is the number of active deployments after every
message, and is not lowered at 0. -/
theorem active_deployments_exact {messages : List (Surroundings × Publication)}
    (hbalanced : ∀ pre m post before, messages = pre ++ m :: post → run cfg pre = some before →
      Balanced cfg m.1 { before with effects := [] } m.2)
    (hfits : ∀ pre post st, messages = pre ++ post → run cfg pre = some st →
      st.activeTotal < 4294967296) :
    (∀ pre post st, messages = pre ++ post → run cfg pre = some st →
      st.active_deployments.toNat = st.activeTotal) ∧
    ∀ pre m post before s, messages = pre ++ m :: post → run cfg pre = some before →
      Lowers cfg m.1 { before with effects := [] } m.2 s → s.active_deployments ≠ 0 := by
  have hlag : ∀ pre post st, messages = pre ++ post → run cfg pre = some st → st.lag = 0 := by
    intro pre post st heq hrun
    refine lag_run (fun pre' m post' before heq' => hbalanced pre' m (post' ++ post) before ?_) hrun
    rw [heq, heq', List.append_assoc, List.cons_append]
  constructor
  · intro pre post st heq hrun
    rw [counter_eq, hlag pre post st heq hrun, UInt32.add_zero]
    exact UInt32.toNat_ofNat_of_lt' (hfits pre post st heq hrun)
  · intro pre m post before s heq hrun hlowers
    have hinv : Inv { before with effects := [] } := (inv_run hrun).of_eq rfl rfl rfl
    exact hlowers.positive (hbalanced pre m post before heq hrun) hinv
      (hlag pre (m :: post) before heq hrun) (hfits pre (m :: post) before heq hrun)

theorem Retires.handler (h : Retires cfg env st p s name) :
    handlerOf p = some .deploymentCancelation ∨ handlerOf p = some .ttlTimeout := by
  cases h with
  | cancelled hp _ _ => exact Or.inl hp
  | expired hp _ => exact Or.inr hp

theorem balanced_of_executorUpdate (hp : handlerOf p = some .executorUpdate) :
    Balanced cfg env st p := by
  have hother : ∀ {handler}, handlerOf p = some handler → handler = .executorUpdate :=
    fun h => Option.some.inj (h.symm.trans hp)
  have hretires : ∀ {s name}, ¬ Retires cfg env st p s name := by
    intro s name h
    rcases h.handler with h | h
    · exact nomatch hother h
    · exact nomatch hother h
  refine ⟨fun s t st' name h => ?_, fun s name h => absurd h hretires, fun name d h =>
    (nomatch hother h.exits.handler), fun ⟨name, d, hexits, _⟩ => (nomatch hother hexits.handler),
    fun s t st' name d h => ?_⟩
  · cases h with
    | deregistered hp' _ _ => exact nomatch hother hp'
    | replaced hp' _ _ _ => exact nomatch hother hp'
    | retired h _ _ => exact absurd h hretires
    | exhausted h _ => exact nomatch hother h.exits.handler
  · cases h with
    | registered hp' _ _ => exact nomatch hother hp'
    | inserted hp' _ _ _ => exact nomatch hother hp'
    | replaced hp' _ _ _ => exact nomatch hother hp'

/-- A deployment that is started and cancelled. -/
def shortDeployment : List (Surroundings × Publication) :=
  inOrder [executorMessage, deploymentMessage "d" "u" "1" "", cancelationMessage "d"]

theorem active_deployments_exact_short :
    ∃ before after, run nodeSettings (shortDeployment.take 2) = some before ∧
    before.active_deployments = 1 ∧ before.activeTotal = 1 ∧
      run nodeSettings shortDeployment = some after ∧
    after.active_deployments.toNat = after.activeTotal ∧ after.activeTotal = 0 := by
  obtain ⟨before, after, hbefore, hcounter, htotal, hafter, hzero⟩ : ∃ before after,
      run nodeSettings (shortDeployment.take 2) = some before ∧ before.active_deployments = 1 ∧
      before.activeTotal = 1 ∧
      run nodeSettings shortDeployment = some after ∧ after.activeTotal = 0 :=
        ⟨_, _, rfl, rfl, rfl, rfl, rfl⟩
  refine ⟨before, after, hbefore, hcounter, htotal, hafter, ?_, hzero⟩
  refine (active_deployments_exact ?_ ?_).1 shortDeployment [] after (List.append_nil _).symm hafter
  · refine Runs.meets_cons rfl (balanced_of_executorUpdate rfl)
      (Runs.meets_cons rfl ⟨?_, ?_, ?_, ?_, ?_⟩
        (Runs.meets_cons rfl ⟨?_, ?_, ?_, ?_, ?_⟩ Runs.meets_nil))
    · intro s t st' name h
      cases h with
      | deregistered hp _ _ => exact nomatch hp
      | replaced hp hr hd _ =>
        obtain ⟨rfl, -⟩ := Prod.mk.inj (Option.some.inj (Option.some.inj hr))
        exact nomatch hd
      | retired h _ _ => rcases h.handler with hp | hp <;> exact nomatch hp
      | exhausted h _ => exact nomatch h.exits.handler
    · intro s name h
      rcases h.handler with hp | hp <;> exact nomatch hp
    · exact fun name d h => nomatch h.exits.handler
    · exact fun ⟨name, d, hexits, _⟩ => nomatch hexits.handler
    · intro s t st' name d h hactivates
      cases h with
      | registered hp _ _ => exact nomatch hp
      | inserted hp hr hnew hreq =>
        obtain ⟨rfl, -⟩ := Prod.mk.inj (Option.some.inj (Option.some.inj hr))
        exact absurd rfl hactivates.2.1.targets_ne_nil
      | replaced hp hr hd _ =>
        obtain ⟨rfl, -⟩ := Prod.mk.inj (Option.some.inj (Option.some.inj hr))
        exact nomatch hd
    · intro s t st' name h hdeactivates
      cases h with
      | deregistered hp _ _ => exact nomatch hp
      | replaced hp _ _ _ => exact nomatch hp
      | retired h hd hactive =>
        cases h with
        | cancelled hp hname _ =>
          obtain rfl := Option.some.inj hname
          obtain rfl := Option.some.inj hd
          exact absurd rfl hdeactivates.2.targets_ne_nil
        | expired hp _ => exact nomatch hp
      | exhausted h _ => exact nomatch h.exits.handler
    · intro s name h
      cases h with
      | cancelled hp hname _ =>
        obtain rfl := Option.some.inj hname
        exact ⟨_, rfl, _, rfl, rfl⟩
      | expired hp _ => exact nomatch hp
    · exact fun name d h => nomatch h.exits.handler
    · exact fun ⟨name, d, hexits, _⟩ => nomatch hexits.handler
    · intro s t st' name d h
      cases h with
      | registered hp _ _ => exact nomatch hp
      | inserted hp _ _ _ => exact nomatch hp
      | replaced hp _ _ _ => exact nomatch hp
  · intro pre post st heq hrun
    have hpre : pre = shortDeployment.take pre.length := by rw [heq, List.take_left]
    have hlength : pre.length ≤ 3 := by
      rw [hpre, List.length_take]
      exact Nat.min_le_right _ _
    rw [hpre] at hrun
    generalize pre.length = n at hlength hrun
    have hcases : n = 0 ∨ n = 1 ∨ n = 2 ∨ n = 3 := by omega
    rcases hcases with rfl | rfl | rfl | rfl <;> obtain rfl := Option.some.inj hrun <;> decide

/-- A deployment that waits for a type is cancelled, and the counter is lowered at 0. -/
theorem cancelled_while_waiting_lowered : ∃ before s after,
    run nodeSettings (inOrder [executorMessage, deploymentMessage "d" "u" "1" "t"]) = some before ∧
    before.active_deployments = 0 ∧ before.activeTotal = 0 ∧
    Lowers nodeSettings plainSurroundings { before with effects := [] } (cancelationMessage "d") s ∧
    s.active_deployments = 0 ∧
    receive nodeSettings plainSurroundings before (cancelationMessage "d") = some after ∧
    after.deployments = [] ∧ after.activeTotal = 0 ∧ after.active_deployments = 4294967295 :=
  ⟨_, _, _, rfl, rfl, rfl, .retired (.cancelled rfl rfl List.mem_cons_self), rfl, rfl, rfl,
    rfl, rfl⟩

end DeploymentManager

end UActor
