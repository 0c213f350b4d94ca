import UActor.Controllers.Requirements

/-!
# Cascades that come to an end

The calls from `increment_deployed_actor_type_count` to itself, and those of its counterpart, with
the depth of the recursion counted and the set that a loop goes through looked at after each step.
They succeed at a depth that the tables give, however the deployments require each other.
-/

namespace UActor

namespace DeploymentManager

variable (cfg : ManagerSettings) (env : Surroundings)

/-! ## Calls that may be cut off -/

def incrementWithM (added : DeploymentManager → String → Option DeploymentManager)
    (st : DeploymentManager) (actor_type : String) : Option DeploymentManager :=
  match Assoc.find actor_type st.deployed_actor_types with
  | some count => some (st.setCount actor_type (count + 1))
  | none => added (st.setCount actor_type 1) actor_type

def activateWithM (added : DeploymentManager → String → Option DeploymentManager)
    (st : DeploymentManager) (name : String) (executor : ExecutorIdentifier) :
    Option DeploymentManager :=
  match Assoc.find name st.deployments with
  | some d => (incrementWithM added st d.actor_type).map fun st =>
      startActive cfg env st name executor
  | none => some st

def visitAddedM (added : DeploymentManager → String → Option DeploymentManager)
    (st : DeploymentManager) (name : String) : Option DeploymentManager :=
  match st.readyOn name with
  | some (_, executors) =>
    (activateWithM cfg env added st name executors.front).map fun st =>
      { st with
        inactive_deployments := st.inactive_deployments - 1
        active_deployments := st.active_deployments + 1 }
  | none => some st

def decrementWithM (removed : DeploymentManager → String → Option DeploymentManager)
    (st : DeploymentManager) (actor_type : String) : Option DeploymentManager :=
  match Assoc.find actor_type st.deployed_actor_types with
  | some count =>
    if count = 1 then removed (st.dropCount actor_type) actor_type
    else some (st.setCount actor_type (count - 1))
  | none => some st

def deactivateWithM (removed : DeploymentManager → String → Option DeploymentManager)
    (st : DeploymentManager) (name : String) : Option DeploymentManager :=
  match Assoc.find name st.deployments with
  | some d =>
    (if d.active then (decrementWithM removed st d.actor_type).map fun st =>
      stopDeployment cfg st name
    else some st).map fun st => st.modify name fun d => { d with active := false }
  | none => some st

def visitRemovedM (removed : DeploymentManager → String → Option DeploymentManager)
    (st : DeploymentManager) (name : String) : Option DeploymentManager :=
  (deactivateWithM cfg removed st name).map fun st =>
    { st with
      active_deployments := st.active_deployments - 1
      inactive_deployments := st.inactive_deployments + 1 }

/-- The deployments that require the type are those from before. -/
def undisturbed (actor_type : String) (st st' : DeploymentManager) : Bool :=
  decide (Multimap.members actor_type st'.dependencies = Multimap.members actor_type
    st.dependencies)

def addedWithin : Nat → DeploymentManager → String → Option DeploymentManager :=
  Cascade.within (dependents env) (visitAddedM cfg env) undisturbed

def removedWithin : Nat → DeploymentManager → String → Option DeploymentManager :=
  Cascade.within (dependents env) (visitRemovedM cfg) undisturbed

/-- `increment_deployed_actor_type_count` at a depth of the recursion. -/
def incrementWithin (depth : Nat) : DeploymentManager → String → Option DeploymentManager :=
  incrementWithM (addedWithin cfg env depth)

def activateWithin (depth : Nat) :
    DeploymentManager → String → ExecutorIdentifier → Option DeploymentManager :=
  activateWithM cfg env (addedWithin cfg env depth)

/-- `decrement_deployed_actor_type_count` at a depth of the recursion. -/
def decrementWithin (depth : Nat) : DeploymentManager → String → Option DeploymentManager :=
  decrementWithM (removedWithin cfg env depth)

def deactivateWithin (depth : Nat) : DeploymentManager → String → Option DeploymentManager :=
  deactivateWithM cfg (removedWithin cfg env depth)

variable {cfg env} {st : DeploymentManager} {name : String}

/-! ## Steps -/

theorem waiting_le_length (st : DeploymentManager) : st.waiting ≤ st.deployments.length :=
  List.countP_le_length

theorem incrementWithM_eq {f : DeploymentManager → String → Option DeploymentManager}
    {g : DeploymentManager → String → DeploymentManager} {actor_type : String}
    (h : st.hasType actor_type = false →
      f (st.setCount actor_type 1) actor_type = some (g (st.setCount actor_type 1) actor_type)) :
    incrementWithM f st actor_type = some (incrementWith g st actor_type) := by
  unfold incrementWithM incrementWith
  cases hcount : Assoc.find actor_type st.deployed_actor_types with
  | some count => rfl
  | none => exact h (not_hasType_iff.mpr hcount)

theorem decrementWithM_eq {f : DeploymentManager → String → Option DeploymentManager}
    {g : DeploymentManager → String → DeploymentManager} {actor_type : String}
    (h : st.hasType actor_type = true →
      f (st.dropCount actor_type) actor_type = some (g (st.dropCount actor_type) actor_type)) :
    decrementWithM f st actor_type = some (decrementWith g st actor_type) := by
  unfold decrementWithM decrementWith
  cases hcount : Assoc.find actor_type st.deployed_actor_types with
  | some count =>
    dsimp only
    split
    · exact h (hasType_iff.mpr ⟨count, hcount⟩)
    · rfl
  | none => rfl

theorem activateWithM_eq {f : DeploymentManager → String → Option DeploymentManager}
    {g : DeploymentManager → String → DeploymentManager}
    (h : ∀ d, Assoc.find name st.deployments = some d → st.hasType d.actor_type = false →
      f (st.setCount d.actor_type 1) d.actor_type =
        some (g (st.setCount d.actor_type 1) d.actor_type))
    (executor : ExecutorIdentifier) :
    activateWithM cfg env f st name executor = some (activateWith cfg env g st name executor) := by
  unfold activateWithM activateWith
  cases hd : Assoc.find name st.deployments with
  | none => rfl
  | some d =>
    dsimp only
    rw [incrementWithM_eq (h d hd)]
    rfl

theorem deactivateWithM_eq {f : DeploymentManager → String → Option DeploymentManager}
    {g : DeploymentManager → String → DeploymentManager}
    (h : ∀ d : Deployment, st.hasType d.actor_type = true →
      f (st.dropCount d.actor_type) d.actor_type =
        some (g (st.dropCount d.actor_type) d.actor_type))
    (name : String) : deactivateWithM cfg f st name = some (deactivateWith cfg g st name) := by
  unfold deactivateWithM deactivateWith
  cases Assoc.find name st.deployments with
  | none => rfl
  | some d =>
    dsimp only
    cases d.active with
    | false => rfl
    | true =>
      rw [if_pos rfl, if_pos rfl, decrementWithM_eq (h d)]
      rfl

theorem visitAddedM_eq (f : DeploymentManager → String → Option DeploymentManager)
    (g : DeploymentManager → String → DeploymentManager) (st : DeploymentManager) (name : String)
    (h : ∀ st' t, st'.waiting < st.waiting → f st' t = some (g st' t)) :
    visitAddedM cfg env f st name = some (visitAdded cfg env g st name) := by
  unfold visitAddedM visitAdded
  cases st.readyOn name with
  | none => rfl
  | some r =>
    dsimp only
    rw [activateWithM_eq fun d hd hnew => h _ _ (waiting_setCount hd hnew 1)]
    rfl

theorem length_dropCount {t : String} (h : st.hasType t = true) :
    (st.dropCount t).deployed_actor_types.length < st.deployed_actor_types.length := by
  obtain ⟨count, hcount⟩ := hasType_iff.mp h
  exact Assoc.length_erase_lt hcount

theorem visitRemovedM_eq (f : DeploymentManager → String → Option DeploymentManager)
    (g : DeploymentManager → String → DeploymentManager) (st : DeploymentManager) (name : String)
    (h : ∀ st' t, st'.deployed_actor_types.length < st.deployed_actor_types.length →
      f st' t = some (g st' t)) :
    visitRemovedM cfg f st name = some (visitRemoved cfg g st name) := by
  have hdeactivate : deactivateWithM cfg f st name = some (deactivateWith cfg g st name) :=
    deactivateWithM_eq (fun d htype => h _ _ (length_dropCount htype)) name
  unfold visitRemovedM visitRemoved
  rw [hdeactivate]
  rfl

theorem undisturbed_of_frame {st st' st'' : DeploymentManager} {t : String}
    (h : undisturbed t st st' = true) (hframe : Frame st' st'') : undisturbed t st st'' = true := by
  unfold undisturbed at h ⊢
  rw [hframe.dependencies]
  exact h

/-! ## Cascades -/

theorem addedWithin_eq (cfg : ManagerSettings) (env : Surroundings) {n : Nat}
    {st : DeploymentManager} (hn : st.waiting < n) (actor_type : String) :
    addedWithin cfg env n st actor_type = some (actorTypeAdded cfg env st actor_type) := by
  refine Cascade.within_eq bounded_visitAdded visitAddedM_eq (fun _ _ => decide_eq_true rfl) ?_ n st
    actor_type hn
  intro t st st' name h
  exact undisturbed_of_frame h (grown_visitAdded fun _ _ _ => grown_actorTypeAdded _ _).frame

theorem removedWithin_eq (cfg : ManagerSettings) (env : Surroundings) {n : Nat}
    {st : DeploymentManager} (hn : st.deployed_actor_types.length < n) (actor_type : String) :
    removedWithin cfg env n st actor_type = some (actorTypeRemoved cfg env st actor_type) := by
  refine Cascade.within_eq bounded_visitRemoved visitRemovedM_eq (fun _ _ => decide_eq_true rfl) ?_
    n st actor_type hn
  intro t st st' name h
  have hframe : Frame st' (deactivateDeployment cfg env st' name) :=
    (declined_deactivate cfg env st' name).1.frame
  exact undisturbed_of_frame h (hframe.trans ⟨rfl, rfl, rfl, rfl⟩)

/-- The calls come to an end, and no loop sees its set change: from any tables, one more level than
there are deployments, or actor types, is enough. -/
theorem cascades_terminate (cfg : ManagerSettings) (env : Surroundings) (st : DeploymentManager) :
    (∀ actor_type depth, st.deployments.length < depth →
      incrementWithin cfg env depth st actor_type =
        some (incrementDeployedActorTypeCount cfg env st actor_type)) ∧
    (∀ name executor depth, st.deployments.length < depth →
      activateWithin cfg env depth st name executor =
        some (activateDeployment cfg env st name executor)) ∧
    (∀ actor_type depth, st.deployed_actor_types.length < depth →
      decrementWithin cfg env depth st actor_type =
        some (decrementDeployedActorTypeCount cfg env st actor_type)) ∧
    ∀ name depth, st.deployed_actor_types.length < depth →
      deactivateWithin cfg env depth st name = some (deactivateDeployment cfg env st name) := by
  have hadded : ∀ actor_type depth, st.deployments.length < depth → addedWithin cfg env depth
      (st.setCount actor_type 1) actor_type =
        some (actorTypeAdded cfg env (st.setCount actor_type 1) actor_type) :=
    fun actor_type depth hdepth => addedWithin_eq cfg env
      (Nat.lt_of_le_of_lt (waiting_le_length (st.setCount actor_type 1)) hdepth) actor_type
  have hremoved : ∀ actor_type depth, st.deployed_actor_types.length < depth →
      st.hasType actor_type = true →
      removedWithin cfg env depth (st.dropCount actor_type) actor_type =
        some (actorTypeRemoved cfg env (st.dropCount actor_type) actor_type) :=
    fun actor_type depth hdepth htype =>
      removedWithin_eq cfg env ((length_dropCount htype).trans hdepth) actor_type
  refine ⟨fun t n hn => ?_, fun name executor n hn => ?_, fun t n hn => ?_, fun name n hn => ?_⟩
  · exact incrementWithM_eq fun _ => hadded t n hn
  · exact activateWithM_eq (fun d _ _ => hadded d.actor_type n hn) executor
  · exact decrementWithM_eq fun htype => hremoved t n hn htype
  · exact deactivateWithM_eq (fun d htype => hremoved d.actor_type n hn htype) name

/-- Two deployments that require each other's types, and one that requires its own. -/
def circle : DeploymentManager :=
  { registerExecutor init "lua" ⟨"node", "lua_executor", "1"⟩ with
    deployments := [("a", ⟨"a", "t", "1", "lua", ["u"], 0, 7, -1, 0, false⟩),
      ("b", ⟨"b", "u", "1", "lua", ["t"], 0, 7, -1, 0, false⟩),
      ("c", ⟨"c", "v", "1", "lua", ["v", "t"], 0, 7, -1, 0, false⟩)]
    dependencies := [("t", ["b", "c"]), ("u", ["a"]), ("v", ["c"])] }

theorem cascades_terminate_circle :
    ∃ st, incrementWithin nodeSettings plainSurroundings 4 circle "t" = some st ∧
      st.deployed_actor_types = [("t", 2), ("u", 1)] ∧
      (st.deployments.map fun e => e.2.active) = [true, true, false] :=
  ⟨_, (cascades_terminate nodeSettings plainSurroundings circle).1 "t" 4 (by decide), rfl, rfl⟩

end DeploymentManager

end UActor
