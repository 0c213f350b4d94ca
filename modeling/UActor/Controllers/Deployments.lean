import UActor.Lib.Cascade
import UActor.Lib.Multimap
import UActor.PubSub.Filter

/-!
# The deployment manager

`deployment_manager.hpp` and `deployment_manager.cpp`. A deployment is active while the actor types
that it requires are there. The first actor of a type activates what waits for the type, the last
one takes it down again, and either may go on from there.

A deployment stands for the pointers to it by its name.
-/

namespace UActor

/-- `StringHelper::string_split`. -/
def stringSplit (input : String) : List String :=
  ((input.toList.splitOn ',').filter fun piece => piece ≠ []).map String.ofList

/-- `Publication::get_code`. -/
def Publication.getCode (p : Publication) (name : String) : Option String :=
  match p.getAttr name with
  | some (.str code) => some code
  | some (.bin code) => some (String.ofList (code.map fun b => Char.ofNat b.toNat))
  | _ => none

structure Deployment where
  name : String
  actor_type : String
  actor_version : String
  actor_runtime_type : String
  required_actors : List String
  lifetime_subscription_id : UInt32
  cancelation_subscription_id : UInt32
  restarts : Int32
  lifetime_end : UInt32
  active : Bool
deriving DecidableEq, Repr

structure ExecutorIdentifier where
  node_id : String
  actor_type : String
  instance_id : String
deriving DecidableEq, Repr

/-- `operator==`, which compares `instance_id` with itself. -/
def ExecutorIdentifier.same (e other : ExecutorIdentifier) : Bool :=
  other.node_id == e.node_id && other.actor_type == e.actor_type

/-- The executors of a runtime type. An empty list is not kept. -/
structure ExecutorList where
  front : ExecutorIdentifier
  rest : List ExecutorIdentifier
deriving DecidableEq, Repr

/-- What the manager asks of its actor and of the code store. -/
inductive Effect where
  | subscribe (f : Filter) (sub_id : UInt32)
  | unsubscribe (sub_id : UInt32)
  | publish (p : Publication)
  | delayedPublish (p : Publication) (delay : UInt32)
  | enqueueWakeup (delay : UInt32) (wakeup_id : String)
  | insertOrRefresh (actor_type actor_version actor_runtime_type : String)
      (lifetime_end : UInt32) (code : Option String)

/-- The names of the actor, and the options of the build. -/
structure ManagerSettings where
  node_id : String
  actor_type : String
  instance_id : String
  /-- `CONFIG_UACTOR_OPTIMIZATIONS_DIRECT_CODE_STORE`. -/
  direct_code_store : Bool

/-- What is around the manager while it handles a message: the clock, which may go on between two
readings, the ids that the router gives to filters, and the order of a set of pointers. -/
structure Surroundings where
  now : Nat → UInt32
  subscribe : Filter → UInt32
  visit : List String → List String
  perm : ∀ names, (visit names).Perm names

structure DeploymentManager where
  executors : List (String × ExecutorList)
  deployments : List (String × Deployment)
  subscriptions : List (UInt32 × String)
  dependencies : List (String × List String)
  labels : List (String × String)
  deployed_actor_types : List (String × UInt32)
  deployment_sub_id : UInt32
  ttl_end_times : List (UInt32 × List String)
  active_deployments : UInt32
  inactive_deployments : UInt32
  /-- Of the message that is handled. -/
  effects : List Effect

namespace DeploymentManager

def init : DeploymentManager := ⟨[], [], [], [], [], [], 0, [], 0, 0, []⟩

/-- `try_emplace` of a new key into a `std::map`. -/
def emplace {κ ν : Type} [LT κ] [DecidableLT κ] (k : κ) (v : ν) (m : List (κ × ν)) : List (κ × ν) :=
  m.takeWhile (fun e => decide (e.1 < k)) ++ (k, v) :: m.dropWhile (fun e => decide (e.1 < k))

def emit (st : DeploymentManager) (effect : Effect) : DeploymentManager :=
  { st with effects := st.effects ++ [effect] }

/-- Writes through a pointer to a deployment. -/
def modify (st : DeploymentManager) (name : String) (f : Deployment → Deployment) :
    DeploymentManager :=
  match Assoc.find name st.deployments with
  | some d => { st with deployments := Assoc.put name (f d) st.deployments }
  | none => st

/-- The type is a key of `deployed_actor_types`. -/
def hasType (st : DeploymentManager) (actor_type : String) : Bool :=
  (Assoc.find actor_type st.deployed_actor_types).isSome

def requirementsCheck (st : DeploymentManager) (d : Deployment) : Bool :=
  d.required_actors.all st.hasType

/-! ## Starting and stopping -/

def spawnMessage (d : Deployment) (executor : ExecutorIdentifier) : Publication :=
  (((((((Publication.empty.setAttr "command" (.str "spawn_lua_actor")).setAttr
    "spawn_actor_version" (.str d.actor_version)).setAttr
    "spawn_node_id" (.str executor.node_id)).setAttr
    "spawn_actor_type" (.str d.actor_type)).setAttr
    "spawn_instance_id" (.str d.name)).setAttr
    "node_id" (.str executor.node_id)).setAttr
    "actor_type" (.str executor.actor_type)).setAttr
    "instance_id" (.str executor.instance_id)

def exitMessage (node_id : String) (d : Deployment) : Publication :=
  (((Publication.empty.setAttr "type" (.str "exit")).setAttr
    "node_id" (.str node_id)).setAttr
    "actor_type" (.str d.actor_type)).setAttr
    "instance_id" (.str d.name)

def startDeployment (st : DeploymentManager) (name : String) (executor : ExecutorIdentifier)
    (delay : UInt32) :
    DeploymentManager :=
  match Assoc.find name st.deployments with
  | some d =>
    (st.emit (.delayedPublish (spawnMessage d executor) delay)).modify name fun d =>
      { d with restarts := d.restarts + 1 }
  | none => st

variable (cfg : ManagerSettings) (env : Surroundings)

def stopDeployment (st : DeploymentManager) (name : String) : DeploymentManager :=
  match Assoc.find name st.deployments with
  | some d => st.emit (.publish (exitMessage cfg.node_id d))
  | none => st

/-! ## Actor types that appear -/

def setCount (st : DeploymentManager) (actor_type : String) (count : UInt32) : DeploymentManager :=
  { st with deployed_actor_types := Assoc.put actor_type count st.deployed_actor_types }

/-- `increment_deployed_actor_type_count`, with `added` for `actor_type_added`. -/
def incrementWith (added : DeploymentManager → String → DeploymentManager) (st : DeploymentManager)
    (actor_type : String) : DeploymentManager :=
  match Assoc.find actor_type st.deployed_actor_types with
  | some count => st.setCount actor_type (count + 1)
  | none => added (st.setCount actor_type 1) actor_type

def lifetimeFilter (name : String) : Filter :=
  .ofConstraints [.str "category" "actor_lifetime" .EQ false, .str "lifetime_instance_id"
    name .EQ false, .str "publisher_node_id" cfg.node_id .EQ false]

def subscribeLifetime (st : DeploymentManager) (name : String) : DeploymentManager :=
  match Assoc.find name st.deployments with
  | some d =>
    if d.lifetime_subscription_id = 0 then
      let sub_id := env.subscribe (lifetimeFilter cfg d.name)
      ({ st with
        subscriptions :=
          if (Assoc.find sub_id st.subscriptions).isSome then st.subscriptions
          else emplace sub_id d.name st.subscriptions }.emit
        (.subscribe (lifetimeFilter cfg d.name) sub_id)).modify name
        fun d => { d with lifetime_subscription_id := sub_id }
    else st
  | none => st

def startActive (st : DeploymentManager) (name : String) (executor : ExecutorIdentifier) :
    DeploymentManager :=
  startDeployment (subscribeLifetime cfg env (st.modify name fun d => { d with active := true })
    name) name executor 0

/-- `activate_deployment`, whether or not the deployment is active. -/
def activateWith (added : DeploymentManager → String → DeploymentManager) (st : DeploymentManager)
    (name : String) (executor : ExecutorIdentifier) : DeploymentManager :=
  match Assoc.find name st.deployments with
  | some d => startActive cfg env (incrementWith added st d.actor_type) name executor
  | none => st

/-- What `actor_type_added` activates a deployment on. -/
def readyOn (st : DeploymentManager) (name : String) : Option (Deployment × ExecutorList) :=
  (Assoc.find name st.deployments).bind fun d =>
    if st.requirementsCheck d then
      (Assoc.find d.actor_runtime_type st.executors).map fun executors => (d, executors)
    else none

/-- The body of the loop of `actor_type_added`. -/
def visitAdded (added : DeploymentManager → String → DeploymentManager) (st : DeploymentManager)
    (name : String) :
    DeploymentManager :=
  match st.readyOn name with
  | some (_, executors) =>
    let st := activateWith cfg env added st name executors.front
    { st with
      inactive_deployments := st.inactive_deployments - 1
      active_deployments := st.active_deployments + 1 }
  | none => st

def dependents (st : DeploymentManager) (actor_type : String) : List String :=
  env.visit (Multimap.members actor_type st.dependencies)

/-- The deployments whose type is not there. -/
def waiting (st : DeploymentManager) : Nat :=
  st.deployments.countP fun e => !st.hasType e.2.actor_type

def actorTypeAdded : DeploymentManager → String → DeploymentManager :=
  Cascade.eval (dependents env) (visitAdded cfg env) waiting

def incrementDeployedActorTypeCount : DeploymentManager → String → DeploymentManager :=
  incrementWith (actorTypeAdded cfg env)

def activateDeployment : DeploymentManager → String → ExecutorIdentifier → DeploymentManager :=
  activateWith cfg env (actorTypeAdded cfg env)

/-! ## Actor types that disappear -/

def dropCount (st : DeploymentManager) (actor_type : String) : DeploymentManager :=
  { st with deployed_actor_types := Assoc.erase actor_type st.deployed_actor_types }

/-- `decrement_deployed_actor_type_count`, with `removed` for `actor_type_removed`. -/
def decrementWith (removed : DeploymentManager → String → DeploymentManager)
    (st : DeploymentManager) (actor_type : String) : DeploymentManager :=
  match Assoc.find actor_type st.deployed_actor_types with
  | some count =>
    if count = 1 then removed (st.dropCount actor_type) actor_type
    else st.setCount actor_type (count - 1)
  | none => st

/-- `deactivate_deployment`. The flag falls at the end. -/
def deactivateWith (removed : DeploymentManager → String → DeploymentManager)
    (st : DeploymentManager) (name : String) : DeploymentManager :=
  match Assoc.find name st.deployments with
  | some d =>
    (if d.active then stopDeployment cfg (decrementWith removed st d.actor_type) name
      else st).modify name fun d => { d with active := false }
  | none => st

/-- The body of the loop of `actor_type_removed`. -/
def visitRemoved (removed : DeploymentManager → String → DeploymentManager) (st : DeploymentManager)
    (name : String) :
    DeploymentManager :=
  let st := deactivateWith cfg removed st name
  { st with
    active_deployments := st.active_deployments - 1
    inactive_deployments := st.inactive_deployments + 1 }

def actorTypeRemoved : DeploymentManager → String → DeploymentManager :=
  Cascade.eval (dependents env) (visitRemoved cfg) fun st => st.deployed_actor_types.length

def decrementDeployedActorTypeCount : DeploymentManager → String → DeploymentManager :=
  decrementWith (actorTypeRemoved cfg env)

def deactivateDeployment : DeploymentManager → String → DeploymentManager :=
  deactivateWith cfg (actorTypeRemoved cfg env)

/-! ## Adding and removing -/

def addDeploymentDependencies (st : DeploymentManager) (d : Deployment) : DeploymentManager :=
  { st with
    dependencies := d.required_actors.foldl (fun m actor_type => Multimap.insert actor_type d.name
      m) st.dependencies }

/-- `remove_deployment`, without its assertion. -/
def removeDeployment (st : DeploymentManager) (name : String) : DeploymentManager :=
  match Assoc.find name st.deployments with
  | some d =>
    let st :=
      if 0 < d.lifetime_subscription_id then
        { st with subscriptions := Assoc.erase d.lifetime_subscription_id st.subscriptions }.emit
          (.unsubscribe d.lifetime_subscription_id)
      else st
    let st :=
      if 0 < d.cancelation_subscription_id then st.emit (.unsubscribe d.cancelation_subscription_id)
      else st
    { st with
      dependencies := d.required_actors.foldl
        (fun m actor_type => (Multimap.remove actor_type name m).1) st.dependencies
      deployments := Assoc.erase name st.deployments }
  | none => st

def enqueueLifetimeEndWakeup (st : DeploymentManager) (d : Deployment) (reading : Nat) :
    DeploymentManager :=
  { st with
    ttl_end_times := match Assoc.find d.lifetime_end st.ttl_end_times with
      | some names => Assoc.put d.lifetime_end (names ++ [d.name]) st.ttl_end_times
      | none => emplace d.lifetime_end [d.name] st.ttl_end_times }.emit
    (.enqueueWakeup (d.lifetime_end - env.now reading + 10) "lifetime_end")

/-- The attributes of a message about the code of a deployment. -/
def codeMessage (type : String) (d : Deployment) : Publication :=
  (((((Publication.ofPublisher cfg.node_id cfg.actor_type cfg.instance_id).setAttr
    "type" (.str type)).setAttr
    "actor_code_type" (.str d.actor_type)).setAttr
    "actor_code_version" (.str d.actor_version)).setAttr
    "actor_code_runtime_type" (.str d.actor_runtime_type)).setAttr
    "actor_code_lifetime_end" (.int d.lifetime_end.toInt32)

/-- `push_code_package` and `update_code_lifetime`, or `publish_code_package` and
`publish_code_lifetime_update`. -/
def codeEffect (d : Deployment) (actor_code : Option String) : Effect :=
  if cfg.direct_code_store then
    .insertOrRefresh d.actor_type d.actor_version d.actor_runtime_type d.lifetime_end actor_code
  else
    match actor_code with
    | some code => .publish ((codeMessage cfg "actor_code" d).setAttr "actor_code" (.str code))
    | none => .publish (codeMessage cfg "actor_code_lifetime_update" d)

/-! ## Deployments -/

/-- What `receive_deployment` reads of a publication. -/
structure Request where
  name : String
  actor_type : String
  actor_version : String
  actor_runtime_type : String
  required_actors : String
  ttl : Int32
  actor_code : Option String

/-- The labels of the node meet the constraints of a deployment. -/
def constraintsMet (st : DeploymentManager) (p : Publication) (constraints : String) : Bool :=
  (stringSplit constraints).all fun constraint =>
    match p.getStrAttr constraint, Assoc.find constraint st.labels with
    | some value, some label => value == label
    | _, _ => false

/-- The attributes of a deployment. `none` reads one that is not there. -/
def readAttributes (p : Publication) (actor_runtime_type : String) : Option Request :=
  (p.getStrAttr "deployment_name").bind fun name =>
    (p.getStrAttr "deployment_actor_type").bind fun actor_type =>
      (p.getStrAttr "deployment_actor_version").bind fun actor_version =>
        (p.getStrAttr "deployment_required_actors").bind fun required_actors =>
          (p.getIntAttr "deployment_ttl").bind fun ttl =>
            (p.getStrAttr "publisher_node_id").map fun _ =>
              ⟨name, actor_type, actor_version, actor_runtime_type, required_actors, ttl,
                p.getCode "deployment_actor_code"⟩

/-- A deployment for this node, and the executors for it. -/
def readDeployment (st : DeploymentManager) (p : Publication) :
    Option (Option (Request × ExecutorList)) :=
  (p.getStrAttr "deployment_actor_runtime_type").bind fun actor_runtime_type =>
    match Assoc.find actor_runtime_type st.executors with
    | none => some none
    | some executors =>
      if p.hasAttr "deployment_name" ∧ p.hasAttr "deployment_ttl" ∧
        p.hasAttr "deployment_actor_type" ∧
          p.hasAttr "deployment_actor_version" ∧ p.hasAttr "deployment_required_actors" then
        (if p.hasAttr "deployment_constraints" then
          (p.getStrAttr "deployment_constraints").map (st.constraintsMet p)
        else some true).bind fun met =>
          if met then (readAttributes p actor_runtime_type).map fun r => some (r, executors)
          else some none
      else some none

def cancelationFilter (name : String) : Filter :=
  .ofConstraints [.str "type" "deployment_cancelation" .EQ false, .str "node_id" cfg.node_id
    .EQ true, .str "deployment_name" name .EQ false]

/-- The constructor of `Deployment`. -/
def Request.deployment (r : Request) (end_time cancelation_subscription_id : UInt32) : Deployment :=
  ⟨r.name, r.actor_type, r.actor_version, r.actor_runtime_type, stringSplit r.required_actors, 0,
    cancelation_subscription_id, -1, end_time, false⟩

/-- A deployment with a new name, in the tables. -/
def recordDeployment (st : DeploymentManager) (r : Request) (end_time : UInt32) :
    DeploymentManager :=
  let sub_id := env.subscribe (cancelationFilter cfg r.name)
  let d := r.deployment end_time sub_id
  let st := { st with deployments := Assoc.put r.name d st.deployments }
  let st := (st.emit (.subscribe (cancelationFilter cfg r.name) sub_id)).emit
    (codeEffect cfg d r.actor_code)
  addDeploymentDependencies st d

def insertDeployment (st : DeploymentManager) (r : Request) (end_time : UInt32)
    (executors : ExecutorList) :
    DeploymentManager :=
  let st := recordDeployment cfg env st r end_time
  if st.requirementsCheck
      (r.deployment end_time (env.subscribe (cancelationFilter cfg r.name))) then
    let st := activateDeployment cfg env st r.name executors.front
    { st with active_deployments := st.active_deployments + 1 }
  else { st with inactive_deployments := st.inactive_deployments + 1 }

/-- The old type is taken back, whether or not the deployment is active. -/
def exchangeType (st : DeploymentManager) (d : Deployment) (r : Request) : DeploymentManager :=
  let st := stopDeployment cfg st r.name
  let st := decrementDeployedActorTypeCount cfg env st d.actor_type
  st.modify r.name fun d => { d with actor_type := r.actor_type, actor_version := r.actor_version }

/-- Another version or type of a deployment, whether or not it is active. -/
def replaceDeployment (st : DeploymentManager) (d : Deployment) (r : Request)
    (executors : ExecutorList) :
    DeploymentManager :=
  let st := incrementDeployedActorTypeCount cfg env (exchangeType cfg env st d r) r.actor_type
  startDeployment st r.name executors.front 0

/-- The request asks for another version or type. -/
def Request.replaces (r : Request) (d : Deployment) : Bool :=
  r.actor_version != d.actor_version || r.actor_type != d.actor_type

def updateDeployment (st : DeploymentManager) (d : Deployment) (r : Request) (end_time : UInt32)
    (executors : ExecutorList) : DeploymentManager :=
  let st := if r.replaces d then replaceDeployment cfg env st d r executors else st
  let st := st.modify r.name fun d => { d with lifetime_end := end_time }
  match Assoc.find r.name st.deployments with
  | some d => st.emit (codeEffect cfg d r.actor_code)
  | none => st

/-- The end of a deployment, and 0 for one that stays. -/
def Request.endTime (r : Request) : UInt32 := if 0 < r.ttl then env.now 0 + r.ttl.toUInt32 else 0

def deploy (st : DeploymentManager) (r : Request) (executors : ExecutorList) : DeploymentManager :=
  let end_time := r.endTime env
  let st := match Assoc.find r.name st.deployments with
    | none => insertDeployment cfg env st r end_time executors
    | some d => updateDeployment cfg env st d r end_time executors
  match Assoc.find r.name st.deployments with
  | some d => if 0 < d.lifetime_end then enqueueLifetimeEndWakeup env st d 1 else st
  | none => st

def receiveDeployment (st : DeploymentManager) (p : Publication) : Option DeploymentManager :=
  (st.readDeployment p).map fun
    | none => st
    | some (r, executors) => deploy cfg env st r executors

/-! ## The end of deployments -/

/-- A deployment that is cancelled or whose time is over. One that is active stays until its actor
has exited. -/
def retire (st : DeploymentManager) (name : String) : DeploymentManager :=
  match Assoc.find name st.deployments with
  | some d =>
    let st := deactivateDeployment cfg env st name
    let st := { st with active_deployments := st.active_deployments - 1 }
    if d.active then st else removeDeployment st name
  | none => st

def receiveDeploymentCancelation (st : DeploymentManager) (p : Publication) :
    Option DeploymentManager :=
  if p.hasAttr "deployment_name" then (p.getStrAttr "deployment_name").map (retire cfg env st)
  else some st

/-- The time of the deployment was over before this reading of the clock. -/
def Deployment.overdue (d : Deployment) (now : UInt32) : Bool :=
  decide (0 < d.lifetime_end) && decide (d.lifetime_end < now)

/-- An actor that did not exit cleanly. -/
def crashed (st : DeploymentManager) (name : String) (d : Deployment) : DeploymentManager :=
  if d.restarts < 3 then
    match Assoc.find d.actor_runtime_type st.executors with
    | some executors => startDeployment st name executors.front ((d.restarts + 1) * 1000).toUInt32
    | none => st
  else
    let st := if d.active then { st with active_deployments := st.active_deployments - 1 } else st
    removeDeployment (deactivateDeployment cfg env st name) name

def receiveLifetimeEvent (st : DeploymentManager) (p : Publication) : Option DeploymentManager :=
  if p.getStrAttr "type" = some "actor_exit" then
    (p.getStrAttr "lifetime_instance_id").bind fun deployment_id =>
      match Assoc.find deployment_id st.deployments with
      | none => some st
      | some d =>
        if Deployment.overdue d (env.now 0) then some (removeDeployment st deployment_id)
        else
          (p.getStrAttr "exit_reason").map fun exit_reason =>
            if exit_reason ≠ "clean_exit" then crashed cfg env st deployment_id d else st
  else some st

/-- One name at an end time that has passed. -/
def expire (end_time : UInt32) (st : DeploymentManager) (name : String) : DeploymentManager :=
  match Assoc.find name st.deployments with
  | some d => if end_time = d.lifetime_end then retire cfg env st name else st
  | none => st

/-- The loop of `receive_ttl_timeout`, which reads the clock for each end time. -/
def expireAll : List (UInt32 × List String) → Nat → DeploymentManager → DeploymentManager
  | [], _, st => st
  | (end_time, names) :: rest, reading, st =>
    if end_time < env.now reading then
      expireAll rest (reading + 1) { names.foldl (expire cfg env end_time) st with ttl_end_times :=
        rest }
    else st

def receiveTtlTimeout (st : DeploymentManager) : DeploymentManager :=
  expireAll cfg env st.ttl_end_times 0 st

/-! ## Labels, actors and executors -/

def hiddenLabels : List String := ["building", "floor", "wing", "room", "node_id"]

/-- The deployments that the node asks for. -/
def deploymentFilter (labels : List (String × String)) : Filter :=
  .ofConstraints (.str "type" "deployment" .EQ false ::
    (labels.filter fun label => label.1 ∉ hiddenLabels).map fun label =>
      .str label.1 label.2 .EQ true)

def updatedLabels (st : DeploymentManager) (p : Publication) : List (String × String) :=
  match p.getStrAttr "command", p.getStrAttr "key", p.getStrAttr "value" with
  | some "upsert", some key, some value => emplace key value (Assoc.erase key st.labels)
  | some "delete", some key, _ => Assoc.erase key st.labels
  | _, _, _ => st.labels

def setDeploymentSubId (st : DeploymentManager) (sub_id : UInt32) : DeploymentManager :=
  if sub_id ≠ st.deployment_sub_id then
    if 0 < st.deployment_sub_id then
      { st with deployment_sub_id := sub_id }.emit (.unsubscribe st.deployment_sub_id)
    else { st with deployment_sub_id := sub_id }
  else st

def receiveLabelUpdate (st : DeploymentManager) (p : Publication) : DeploymentManager :=
  let labels := updatedLabels st p
  let sub_id := env.subscribe (deploymentFilter labels)
  let st := setDeploymentSubId ({ st with labels }.emit
    (.subscribe (deploymentFilter labels) sub_id)) sub_id
  st.emit (.publish ((Publication.empty.setAttr "type" (.str "label_update_notification")).setAttr
    "node_id" (.str cfg.node_id)))

def receiveLabelGet (st : DeploymentManager) (p : Publication) : Option DeploymentManager :=
  match p.getStrAttr "key" with
  | none => some st
  | some key =>
    match Assoc.find key st.labels with
    | none => some st
    | some value =>
      (p.getStrAttr "publisher_node_id").bind fun publisher_node_id =>
        (p.getStrAttr "publisher_instance_id").bind fun publisher_instance_id =>
          (p.getStrAttr "publisher_actor_type").map fun publisher_actor_type =>
            st.emit (.publish ((((((Publication.empty.setAttr "type"
              (.str "label_response")).setAttr "key" (.str key)).setAttr
              "value" (.str value)).setAttr
              "node_id" (.str publisher_node_id)).setAttr
              "instance_id" (.str publisher_instance_id)).setAttr
              "actor_type" (.str publisher_actor_type)))

def receiveUnmanagedActorUpdate (st : DeploymentManager) (p : Publication) :
    Option DeploymentManager :=
  if p.getStrAttr "command" = some "register" then
    (p.getStrAttr "update_actor_type").map (incrementDeployedActorTypeCount cfg env st)
  else if p.getStrAttr "command" = some "deregister" then
    (p.getStrAttr "update_actor_type").map (decrementDeployedActorTypeCount cfg env st)
  else some st

/-- A string that was moved from is empty. -/
def movedFrom : ExecutorIdentifier := ⟨"", "", ""⟩

/-- `try_emplace` takes the identifier even if the runtime type is known. -/
def registerExecutor (st : DeploymentManager) (actor_runtime_type : String)
    (e : ExecutorIdentifier) :
    DeploymentManager :=
  { st with
    executors := match Assoc.find actor_runtime_type st.executors with
      | none => emplace actor_runtime_type ⟨e, []⟩ st.executors
      | some executors =>
        Assoc.put actor_runtime_type { executors with rest := executors.rest ++ [movedFrom] }
          st.executors }

/-- The first executor that compares equal is erased, and there has to be one. -/
def deregisterExecutor (st : DeploymentManager) (actor_runtime_type : String)
    (e : ExecutorIdentifier) :
    Option DeploymentManager :=
  match Assoc.find actor_runtime_type st.executors with
  | none => some st
  | some executors =>
    match (executors.front :: executors.rest).find? fun other => other.same e with
    | none => none
    | some _ =>
      some { st with
        executors := match (executors.front :: executors.rest).eraseP fun other => other.same e with
          | [] => Assoc.erase actor_runtime_type st.executors
          | front :: rest => Assoc.put actor_runtime_type ⟨front, rest⟩ st.executors }

def receiveExecutorUpdate (st : DeploymentManager) (p : Publication) : Option DeploymentManager :=
  match p.getStrAttr "actor_runtime_type", p.getStrAttr "update_node_id",
    p.getStrAttr "update_actor_type", p.getStrAttr "update_instance_id" with
  | some actor_runtime_type, some node_id, some actor_type, some instance_id =>
    if p.getStrAttr "command" = some "register" then
      some (registerExecutor st actor_runtime_type ⟨node_id, actor_type, instance_id⟩)
    else if p.getStrAttr "command" = some "deregister" then
      deregisterExecutor st actor_runtime_type ⟨node_id, actor_type, instance_id⟩
    else some st
  | _, _, _, _ => some st

/-! ## Messages -/

def updateTypes : List String :=
    ["label_update", "label_get", "unmanaged_actor_update", "executor_update"]

def nodeFilter (type : String) : Filter :=
  .ofConstraints [.str "node_id" cfg.node_id .EQ false, .str "type" type .EQ false]

def receiveInit (st : DeploymentManager) : DeploymentManager :=
  updateTypes.foldl (fun st type =>
    st.emit (.subscribe (nodeFilter cfg type) (env.subscribe (nodeFilter cfg type)))) st

/-- The handler that `receive` picks. -/
inductive Handler where
  | init
  | deployment
  | lifetimeEvent
  | ttlTimeout
  | labelUpdate
  | labelGet
  | unmanagedActorUpdate
  | executorUpdate
  | deploymentCancelation
deriving DecidableEq, Repr

def handlerOf (p : Publication) : Option Handler :=
  if p.getStrAttr "type" = some "init" then some .init
  else if p.getStrAttr "type" = some "deployment" then some .deployment
  else if p.getStrAttr "category" = some "actor_lifetime" then some .lifetimeEvent
  else if p.getStrAttr "type" = some "wakeup" ∧
      p.getStrAttr "wakeup_id" = some "lifetime_end" then some .ttlTimeout
  else if p.getStrAttr "type" = some "label_update" then some .labelUpdate
  else if p.getStrAttr "type" = some "label_get" then some .labelGet
  else if p.getStrAttr "type" = some "unmanaged_actor_update" then some .unmanagedActorUpdate
  else if p.getStrAttr "type" = some "executor_update" then some .executorUpdate
  else if p.getStrAttr "type" = some "deployment_cancelation" then some .deploymentCancelation
  else none

def handle (st : DeploymentManager) (p : Publication) : Option Handler → Option DeploymentManager
  | some .init => some (receiveInit cfg env st)
  | some .deployment => receiveDeployment cfg env st p
  | some .lifetimeEvent => receiveLifetimeEvent cfg env st p
  | some .ttlTimeout => some (receiveTtlTimeout cfg env st)
  | some .labelUpdate => some (receiveLabelUpdate cfg env st p)
  | some .labelGet => receiveLabelGet st p
  | some .unmanagedActorUpdate => receiveUnmanagedActorUpdate cfg env st p
  | some .executorUpdate => receiveExecutorUpdate st p
  | some .deploymentCancelation => receiveDeploymentCancelation cfg env st p
  | none => some st

/-- `DeploymentManager::receive`. `none` reads an attribute that is not there, or erases an executor
that is not there. -/
def receive (st : DeploymentManager) (p : Publication) : Option DeploymentManager :=
  handle cfg env { st with effects := [] } p (handlerOf p)

/-- The messages that a manager handles one after the other, each with its surroundings. -/
def run (messages : List (Surroundings × Publication)) : Option DeploymentManager :=
  messages.foldlM (fun st m => receive cfg m.1 st m.2) init

end DeploymentManager

end UActor
