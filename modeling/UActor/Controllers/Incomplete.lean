import UActor.Controllers.Executors

/-!
# Messages with attributes that are missing

The handlers of the deployment manager look whether some attributes are there, and take others for
granted. What they read of an attribute that is missing, or that holds a value of another type, is
not defined.
-/

namespace UActor

/-- A call reads an optional that holds nothing, or erases at the end of a list. -/
inductive Undefined where
  | absent
  | pastEnd
deriving DecidableEq, Repr

namespace Undefined

variable {α β : Type}

/-- `*value`. -/
def read : Option α → Except Undefined α
  | some a => .ok a
  | none => .error .absent

/-- All that can go wrong is a read. -/
def OnlyAbsent (x : Except Undefined α) : Prop := ∀ e, x = .error e → e = .absent

theorem onlyAbsent_read (o : Option α) : OnlyAbsent (read o) := by
  cases o with
  | none => exact fun e h => (Except.error.inj h).symm
  | some a => exact fun e h => nomatch h

theorem onlyAbsent_ok (a : α) : OnlyAbsent (.ok a) := fun _ h => nomatch h

theorem OnlyAbsent.bind {x : Except Undefined α} {f : α → Except Undefined β} (hx : OnlyAbsent x)
    (hf : ∀ a, OnlyAbsent (f a)) : OnlyAbsent (x.bind f) := by
  cases x with
  | error e => exact fun e' h => hx e' (by rw [← Except.error.inj h])
  | ok a => exact hf a

theorem OnlyAbsent.map {x : Except Undefined α} (hx : OnlyAbsent x) (f : α → β) :
    OnlyAbsent (x.map f) := by
  cases x with
  | error e => exact fun e' h => hx e' (by rw [← Except.error.inj h])
  | ok a => exact fun e h => nomatch h

theorem OnlyAbsent.iff {x : Except Undefined α} (hx : OnlyAbsent x) :
    x = .error .absent ↔ x.toOption = none := by
  cases x with
  | error e => simp [hx e rfl, Except.toOption]
  | ok a => simp [Except.toOption]

@[simp] theorem toOption_read (o : Option α) : (read o).toOption = o := by cases o <;> rfl

@[simp] theorem toOption_bind (x : Except Undefined α) (f : α → Except Undefined β) :
    (x.bind f).toOption = x.toOption.bind fun a => (f a).toOption := by
  cases x <;> rfl

@[simp] theorem toOption_map (x : Except Undefined α) (f : α → β) :
    (x.map f).toOption = x.toOption.map f := by
  cases x <;> rfl

end Undefined

namespace DeploymentManager

open Undefined

variable (cfg : ManagerSettings) (env : Surroundings)

/-! ## The handlers, with what goes wrong -/

def readAttributesOf (p : Publication) (actor_runtime_type : String) : Except Undefined Request :=
  (read (p.getStrAttr "deployment_name")).bind fun name =>
    (read (p.getStrAttr "deployment_actor_type")).bind fun actor_type =>
      (read (p.getStrAttr "deployment_actor_version")).bind fun actor_version =>
        (read (p.getStrAttr "deployment_required_actors")).bind fun required_actors =>
          (read (p.getIntAttr "deployment_ttl")).bind fun ttl =>
            (read (p.getStrAttr "publisher_node_id")).map fun _ =>
              ⟨name, actor_type, actor_version, actor_runtime_type, required_actors, ttl,
                p.getCode "deployment_actor_code"⟩

def readDeploymentOf (st : DeploymentManager) (p : Publication) :
    Except Undefined (Option (Request × ExecutorList)) :=
  (read (p.getStrAttr "deployment_actor_runtime_type")).bind fun actor_runtime_type =>
    match Assoc.find actor_runtime_type st.executors with
    | none => .ok none
    | some executors =>
      if p.hasAttr "deployment_name" ∧ p.hasAttr "deployment_ttl" ∧
        p.hasAttr "deployment_actor_type" ∧
          p.hasAttr "deployment_actor_version" ∧ p.hasAttr "deployment_required_actors" then
        (if p.hasAttr "deployment_constraints" then
          (read (p.getStrAttr "deployment_constraints")).map (st.constraintsMet p)
        else .ok true).bind fun met =>
          if met then (readAttributesOf p actor_runtime_type).map fun r => some (r, executors)
          else .ok none
      else .ok none

/-- Of the attributes that `receive_lifetime_event` reads, the last one only if the time of the
deployment is not over. -/
def handleLifetimeEvent (st : DeploymentManager) (p : Publication) :
    Except Undefined DeploymentManager :=
  if p.getStrAttr "type" = some "actor_exit" then
    (read (p.getStrAttr "lifetime_instance_id")).bind fun deployment_id =>
      match Assoc.find deployment_id st.deployments with
      | none => .ok st
      | some d =>
        if Deployment.overdue d (env.now 0) then .ok (removeDeployment st deployment_id)
        else
          (read (p.getStrAttr "exit_reason")).map fun exit_reason =>
            if exit_reason ≠ "clean_exit" then crashed cfg env st deployment_id d else st
  else .ok st

def handleLabelGet (st : DeploymentManager) (p : Publication) :
    Except Undefined DeploymentManager :=
  match p.getStrAttr "key" with
  | none => .ok st
  | some key =>
    match Assoc.find key st.labels with
    | none => .ok st
    | some value =>
      (read (p.getStrAttr "publisher_node_id")).bind fun publisher_node_id =>
        (read (p.getStrAttr "publisher_instance_id")).bind fun publisher_instance_id =>
          (read (p.getStrAttr "publisher_actor_type")).map fun publisher_actor_type =>
            st.emit (.publish ((((((Publication.empty.setAttr "type"
              (.str "label_response")).setAttr "key" (.str key)).setAttr
              "value" (.str value)).setAttr
              "node_id" (.str publisher_node_id)).setAttr
              "instance_id" (.str publisher_instance_id)).setAttr
              "actor_type" (.str publisher_actor_type)))

def handleUnmanagedActorUpdate (st : DeploymentManager) (p : Publication) :
    Except Undefined DeploymentManager :=
  if p.getStrAttr "command" = some "register" then
    (read (p.getStrAttr "update_actor_type")).map (incrementDeployedActorTypeCount cfg env st)
  else if p.getStrAttr "command" = some "deregister" then
    (read (p.getStrAttr "update_actor_type")).map (decrementDeployedActorTypeCount cfg env st)
  else .ok st

/-- The attributes are read after a look at all of them. What can go wrong is the erasure of an
executor that is not there. -/
def handleExecutorUpdate (st : DeploymentManager) (p : Publication) :
    Except Undefined DeploymentManager :=
  match readExecutorUpdate p with
  | none => .ok st
  | some u =>
    match u.apply st with
    | some st => .ok st
    | none => .error .pastEnd

def handleDeploymentCancelation (st : DeploymentManager) (p : Publication) :
    Except Undefined DeploymentManager :=
  if p.hasAttr "deployment_name" then
    (read (p.getStrAttr "deployment_name")).map (retire cfg env st)
  else .ok st

def handleRaising (st : DeploymentManager) (p : Publication) :
    Option Handler → Except Undefined DeploymentManager
  | some .init => .ok (receiveInit cfg env st)
  | some .deployment =>
    (readDeploymentOf st p).map fun
      | none => st
      | some (r, executors) => deploy cfg env st r executors
  | some .lifetimeEvent => handleLifetimeEvent cfg env st p
  | some .ttlTimeout => .ok (receiveTtlTimeout cfg env st)
  | some .labelUpdate => .ok (receiveLabelUpdate cfg env st p)
  | some .labelGet => handleLabelGet st p
  | some .unmanagedActorUpdate => handleUnmanagedActorUpdate cfg env st p
  | some .executorUpdate => handleExecutorUpdate st p
  | some .deploymentCancelation => handleDeploymentCancelation cfg env st p
  | none => .ok st

/-- `DeploymentManager::receive`, with what goes wrong. -/
def receiveRaising (st : DeploymentManager) (p : Publication) :
    Except Undefined DeploymentManager :=
  handleRaising cfg env { st with effects := [] } p (handlerOf p)

variable {cfg env} {st st' : DeploymentManager} {p : Publication}

theorem toOption_readAttributesOf (p : Publication) (t : String) :
    (readAttributesOf p t).toOption = readAttributes p t := by
  simp [readAttributesOf, readAttributes]

theorem toOption_readDeploymentOf (st : DeploymentManager) (p : Publication) :
    (readDeploymentOf st p).toOption = st.readDeployment p := by
  unfold readDeploymentOf readDeployment
  rw [toOption_bind, toOption_read]
  congr 1
  funext t
  cases Assoc.find t st.executors with
  | none => rfl
  | some executors =>
    dsimp only
    split
    · rw [toOption_bind]
      congr 1
      · split
        · rw [toOption_map, toOption_read]
        · rfl
      · funext met
        split
        · rw [toOption_map, toOption_readAttributesOf]
        · rfl
    · rfl

theorem toOption_handleExecutorUpdate (st : DeploymentManager) (p : Publication) :
    (handleExecutorUpdate st p).toOption = receiveExecutorUpdate st p := by
  rw [receiveExecutorUpdate_eq]
  unfold handleExecutorUpdate
  cases readExecutorUpdate p with
  | none => rfl
  | some u =>
    dsimp only
    cases u.apply st <;> rfl

/-- The same handlers as those that have no result when something goes wrong. -/
theorem toOption_receiveRaising (st : DeploymentManager) (p : Publication) :
    (receiveRaising cfg env st p).toOption = receive cfg env st p := by
  unfold receiveRaising receive
  generalize { st with effects := [] } = st
  cases handlerOf p with
  | none => rfl
  | some handler =>
    cases handler with
    | init | ttlTimeout | labelUpdate => rfl
    | deployment =>
      exact (toOption_map _ _).trans (congrArg _ (toOption_readDeploymentOf st p))
    | lifetimeEvent =>
      show (handleLifetimeEvent cfg env st p).toOption = receiveLifetimeEvent cfg env st p
      unfold handleLifetimeEvent receiveLifetimeEvent
      split
      · rw [toOption_bind, toOption_read]
        congr 1
        funext name
        cases Assoc.find name st.deployments with
        | none => rfl
        | some d =>
          dsimp only
          split
          · rfl
          · rw [toOption_map, toOption_read]
      · rfl
    | labelGet =>
      show (handleLabelGet st p).toOption = receiveLabelGet st p
      unfold handleLabelGet receiveLabelGet
      cases p.getStrAttr "key" with
      | none => rfl
      | some key =>
        dsimp only
        cases Assoc.find key st.labels with
        | none => rfl
        | some value => simp
    | unmanagedActorUpdate =>
      show (handleUnmanagedActorUpdate cfg env st p).toOption = receiveUnmanagedActorUpdate cfg
          env st p
      unfold handleUnmanagedActorUpdate receiveUnmanagedActorUpdate
      split
      · rw [toOption_map, toOption_read]
      · split
        · rw [toOption_map, toOption_read]
        · rfl
    | executorUpdate => exact toOption_handleExecutorUpdate st p
    | deploymentCancelation =>
      show (handleDeploymentCancelation cfg env st p).toOption = receiveDeploymentCancelation cfg
          env st p
      unfold handleDeploymentCancelation receiveDeploymentCancelation
      split
      · rw [toOption_map, toOption_read]
      · rfl

/-! ## Reads of what is missing -/

theorem onlyAbsent_readAttributesOf (p : Publication) (t : String) :
    OnlyAbsent (readAttributesOf p t) :=
  (onlyAbsent_read _).bind fun _ => (onlyAbsent_read _).bind fun _ =>
    (onlyAbsent_read _).bind fun _ =>
    (onlyAbsent_read _).bind fun _ => (onlyAbsent_read _).bind fun _ => (onlyAbsent_read _).map _

theorem onlyAbsent_readDeploymentOf (st : DeploymentManager) (p : Publication) :
    OnlyAbsent (readDeploymentOf st p) := by
  refine (onlyAbsent_read _).bind fun t => ?_
  cases Assoc.find t st.executors with
  | none => exact onlyAbsent_ok _
  | some executors =>
    dsimp only
    split
    · refine OnlyAbsent.bind ?_ fun met => ?_
      · split
        · exact (onlyAbsent_read _).map _
        · exact onlyAbsent_ok _
      · split
        · exact (onlyAbsent_readAttributesOf p t).map _
        · exact onlyAbsent_ok _
    · exact onlyAbsent_ok _

theorem onlyAbsent_receiveRaising (hp : handlerOf p ≠ some .executorUpdate) :
    OnlyAbsent (receiveRaising cfg env st p) := by
  unfold receiveRaising
  cases hhandler : handlerOf p with
  | none => exact onlyAbsent_ok _
  | some handler =>
    cases handler with
    | init | ttlTimeout | labelUpdate => exact onlyAbsent_ok _
    | deployment => exact (onlyAbsent_readDeploymentOf _ p).map _
    | lifetimeEvent =>
      show OnlyAbsent (handleLifetimeEvent _ _ _ _)
      unfold handleLifetimeEvent
      split
      · refine (onlyAbsent_read _).bind fun name => ?_
        split
        · exact onlyAbsent_ok _
        · split
          · exact onlyAbsent_ok _
          · exact (onlyAbsent_read _).map _
      · exact onlyAbsent_ok _
    | labelGet =>
      show OnlyAbsent (handleLabelGet _ _)
      unfold handleLabelGet
      split
      · exact onlyAbsent_ok _
      · split
        · exact onlyAbsent_ok _
        · exact (onlyAbsent_read _).bind fun _ => (onlyAbsent_read _).bind fun _ =>
            (onlyAbsent_read _).map _
    | unmanagedActorUpdate =>
      show OnlyAbsent (handleUnmanagedActorUpdate _ _ _ _)
      unfold handleUnmanagedActorUpdate
      split
      · exact (onlyAbsent_read _).map _
      · split
        · exact (onlyAbsent_read _).map _
        · exact onlyAbsent_ok _
    | executorUpdate => exact absurd hhandler hp
    | deploymentCancelation =>
      show OnlyAbsent (handleDeploymentCancelation _ _ _ _)
      unfold handleDeploymentCancelation
      split
      · exact (onlyAbsent_read _).map _
      · exact onlyAbsent_ok _

theorem handleExecutorUpdate_ne_absent (st : DeploymentManager) (p : Publication) :
    handleExecutorUpdate st p ≠ .error .absent := by
  unfold handleExecutorUpdate
  split
  · exact nofun
  · split
    · exact nofun
    · exact nofun

/-! ## What the handlers need -/

/-- An attribute that has to be there, with a value of a type. -/
inductive Need where
  | str (name : String)
  | int (name : String)
deriving DecidableEq, Repr

def Need.met (p : Publication) : Need → Bool
  | .str name => (p.getStrAttr name).isSome
  | .int name => (p.getIntAttr name).isSome

/-- The actor of a deployment whose time is over has exited. -/
def exitsOverdue (env : Surroundings) (st : DeploymentManager) (p : Publication) : Bool :=
  match (p.getStrAttr "lifetime_instance_id").bind fun name => Assoc.find name st.deployments with
  | some d => Deployment.overdue d (env.now 0)
  | none => false

/-- The attributes that a handler needs. The reason of an exit does not matter once the time of the
deployment is over. -/
def needs (env : Surroundings) (st : DeploymentManager) (p : Publication) : Handler → List Need
  | .deployment =>
    [.str "deployment_actor_runtime_type", .str "deployment_name", .str "deployment_actor_type",
      .str "deployment_actor_version", .str "deployment_required_actors", .int "deployment_ttl",
      .str "publisher_node_id"] ++
        if p.hasAttr "deployment_constraints" then [.str "deployment_constraints"] else []
  | .deploymentCancelation => [.str "deployment_name"]
  | .lifetimeEvent =>
    [.str "type", .str "lifetime_instance_id"] ++
      if exitsOverdue env st p then [] else [.str "exit_reason"]
  | .unmanagedActorUpdate => [.str "command", .str "update_actor_type"]
  | .executorUpdate =>
    [.str "command", .str "actor_runtime_type", .str "update_node_id", .str "update_actor_type",
      .str "update_instance_id"]
  | .init | .ttlTimeout | .labelUpdate | .labelGet => []

/-- Something that the handler of the message needs is missing, or has another type. -/
def Lacks (env : Surroundings) (st : DeploymentManager) (p : Publication) : Prop :=
  ∃ handler, handlerOf p = some handler ∧ ∃ need ∈ needs env st p handler, need.met p = false

/-- The tables are those from before, and nothing is published. -/
structure Unchanged (st st' : DeploymentManager) : Prop where
  deployments : st'.deployments = st.deployments
  dependencies : st'.dependencies = st.dependencies
  deployed_actor_types : st'.deployed_actor_types = st.deployed_actor_types
  executors : st'.executors = st.executors
  ttl_end_times : st'.ttl_end_times = st.ttl_end_times
  published : ∀ effect ∈ st'.effects, ∀ p, effect ≠ .publish p ∧
    ∀ delay, effect ≠ .delayedPublish p delay

/-- The message reads nothing that is missing, and changes nothing if it lacks something. -/
def Harmless (cfg : ManagerSettings) (env : Surroundings) (st : DeploymentManager)
    (p : Publication) : Prop :=
  receiveRaising cfg env st p ≠ .error .absent ∧
    (Lacks env st p → ∀ st', receiveRaising cfg env st p = .ok st' → Unchanged st st')

theorem Unchanged.cleared (st : DeploymentManager) : Unchanged st { st with effects := [] } :=
  ⟨rfl, rfl, rfl, rfl, rfl, fun _ h => nomatch h⟩

/-! ## What the handlers read -/

/-- A deployment message whose attributes can be read as far as they are. The runtime type is read
first, the constraints after a look for the five attributes, and the rest if the constraints are
met. -/
def DeploymentReadable (st : DeploymentManager) (p : Publication) : Prop :=
  ∃ t, p.getStrAttr "deployment_actor_runtime_type" = some t ∧
    ((Assoc.find t st.executors).isSome → p.hasAttr "deployment_name" → p.hasAttr "deployment_ttl" →
      p.hasAttr "deployment_actor_type" → p.hasAttr "deployment_actor_version" →
      p.hasAttr "deployment_required_actors" →
      (p.hasAttr "deployment_constraints" → (Need.str "deployment_constraints").met p) ∧
      ((∀ constraints, p.getStrAttr "deployment_constraints" = some constraints →
        st.constraintsMet p constraints) →
        ∀ need ∈ [Need.str "deployment_name", .str "deployment_actor_type",
          .str "deployment_actor_version", .str "deployment_required_actors", .int "deployment_ttl",
          .str "publisher_node_id"], need.met p))

/-- The message can be read as far as its handler reads it. -/
def Readable (env : Surroundings) (st : DeploymentManager) (p : Publication) : Handler → Prop
  | .deployment => DeploymentReadable st p
  | .deploymentCancelation => p.hasAttr "deployment_name" → (Need.str "deployment_name").met p
  | .lifetimeEvent => p.getStrAttr "type" = some "actor_exit" →
    ∃ name, p.getStrAttr "lifetime_instance_id" = some name ∧
      ∀ d, Assoc.find name st.deployments = some d →
      Deployment.overdue d (env.now 0) = false → (Need.str "exit_reason").met p
  | .unmanagedActorUpdate =>
    p.getStrAttr "command" = some "register" ∨ p.getStrAttr "command" = some "deregister" →
      (Need.str "update_actor_type").met p
  | .init | .ttlTimeout | .labelUpdate | .labelGet | .executorUpdate => True

theorem readAttributes_isSome (p : Publication) (t : String) : (readAttributes p t).isSome ↔
    ∀ need ∈ [Need.str "deployment_name", .str "deployment_actor_type",
      .str "deployment_actor_version", .str "deployment_required_actors", .int "deployment_ttl",
      .str "publisher_node_id"], need.met p := by
  simp only [List.forall_mem_cons, Need.met, List.not_mem_nil, false_implies, implies_true,
    and_true]
  unfold readAttributes
  cases p.getStrAttr "deployment_name" with
  | none => simp
  | some name =>
    cases p.getStrAttr "deployment_actor_type" with
    | none => simp
    | some actor_type =>
      cases p.getStrAttr "deployment_actor_version" with
      | none => simp
      | some actor_version =>
        cases p.getStrAttr "deployment_required_actors" with
        | none => simp
        | some required_actors =>
          cases p.getIntAttr "deployment_ttl" with
          | none => simp
          | some ttl => simp

theorem readDeployment_isSome (st : DeploymentManager) (p : Publication) :
    (st.readDeployment p).isSome ↔ DeploymentReadable st p := by
  unfold readDeployment DeploymentReadable
  cases ht : p.getStrAttr "deployment_actor_runtime_type" with
  | none => simp
  | some t =>
    simp only [Option.bind_some, Option.some.injEq, exists_eq_left']
    cases Assoc.find t st.executors with
    | none => simp
    | some executors =>
      dsimp only
      split
      · rename_i hpresent
        obtain ⟨hname, httl, htype, hversion, hrequired⟩ := hpresent
        simp only [Option.isSome_some, hname, httl, htype, hversion, hrequired, forall_const]
        rw [← readAttributes_isSome p t]
        cases hconstraints : p.getStrAttr "deployment_constraints" with
        | none =>
          cases hhas : p.hasAttr "deployment_constraints" with
          | true => simp [Need.met, hconstraints]
          | false => simp
        | some constraints =>
          have hhas : p.hasAttr "deployment_constraints" = true :=
            Publication.hasAttr_of_getStrAttr hconstraints
          simp only [hhas, if_true, Option.map_some, Option.bind_some, Need.met, hconstraints,
            Option.isSome_some, Option.some.injEq, forall_eq', forall_const, true_and]
          cases st.constraintsMet p constraints with
          | true => simp
          | false => simp
      · rename_i hpresent
        refine iff_of_true rfl fun _ hname httl htype hversion hrequired => ?_
        exact absurd ⟨hname, httl, htype, hversion, hrequired⟩ hpresent

theorem ne_absent_iff (hp : handlerOf p ≠ some .executorUpdate) :
    receiveRaising cfg env st p ≠ .error .absent ↔ (receive cfg env st p).isSome := by
  rw [ne_eq, (onlyAbsent_receiveRaising hp).iff, toOption_receiveRaising, Option.isSome_iff_ne_none]

/-- A message reads nothing that is missing exactly if it is readable. -/
theorem ne_absent_iff_readable {handler : Handler} (hp : handlerOf p = some handler)
    (hget : handler ≠ .labelGet) :
    receiveRaising cfg env st p ≠ .error .absent ↔ Readable env st p handler := by
  by_cases hexecutor : handler = .executorUpdate
  · subst hexecutor
    unfold receiveRaising
    rw [hp]
    exact iff_of_true (handleExecutorUpdate_ne_absent _ p) trivial
  rw [ne_absent_iff (by rw [hp]; simpa using hexecutor)]
  unfold receive
  rw [hp]
  cases handler with
  | init | ttlTimeout | labelUpdate => exact iff_of_true rfl trivial
  | labelGet => exact absurd rfl hget
  | executorUpdate => exact absurd rfl hexecutor
  | deployment =>
    show (receiveDeployment cfg env { st with effects := [] } p).isSome ↔ DeploymentReadable st p
    unfold receiveDeployment
    rw [Option.isSome_map]
    exact readDeployment_isSome { st with effects := [] } p
  | lifetimeEvent =>
    show (receiveLifetimeEvent cfg env { st with effects := [] } p).isSome ↔ _
    unfold receiveLifetimeEvent Readable
    split
    · rename_i hexit
      cases p.getStrAttr "lifetime_instance_id" with
      | none => simp [hexit]
      | some name =>
        simp only [Option.bind_some, hexit, Option.some.injEq, exists_eq_left', forall_const]
        cases hd : Assoc.find name st.deployments with
        | none => simp
        | some d =>
          simp only [Option.some.injEq, forall_eq']
          cases Deployment.overdue d (env.now 0) with
          | true => simp
          | false => simp [Need.met]
    · rename_i hexit
      simp [hexit]
  | unmanagedActorUpdate =>
    show (receiveUnmanagedActorUpdate cfg env { st with effects := [] } p).isSome ↔ _
    unfold receiveUnmanagedActorUpdate Readable
    split
    · rename_i hcommand
      simp [hcommand, Need.met]
    · split
      · rename_i hcommand
        simp [hcommand, Need.met]
      · rename_i hregister hderegister
        simp [hregister, hderegister]
  | deploymentCancelation =>
    show (receiveDeploymentCancelation cfg env { st with effects := [] } p).isSome ↔ _
    unfold receiveDeploymentCancelation Readable
    split
    · rename_i hhas
      simp [hhas, Need.met]
    · rename_i hhas
      simp [hhas]

/-! ## Messages that lack something -/

theorem met_of_readDeployment (env : Surroundings) {r : Request} {list : ExecutorList}
    (h : st.readDeployment p = some (some (r, list))) {need : Need}
    (hneed : need ∈ needs env st p .deployment) :
    need.met p = true := by
  unfold readDeployment at h
  obtain ⟨t, ht, h⟩ := Option.bind_eq_some_iff.mp h
  have hruntime : (Need.str "deployment_actor_runtime_type").met p = true := by simp [Need.met, ht]
  split at h
  · cases h
  · split at h
    · obtain ⟨met, hmet, h⟩ := Option.bind_eq_some_iff.mp h
      split at h
      · obtain ⟨r', hr', -⟩ := Option.map_eq_some_iff.mp h
        have hrest := (readAttributes_isSome p t).mp (by rw [hr']; rfl)
        rcases List.mem_append.mp hneed with hfixed | hconstraints
        · rcases List.mem_cons.mp hfixed with rfl | hrest'
          · exact hruntime
          · exact hrest need hrest'
        · split at hconstraints
          · rename_i hhas
            obtain rfl := List.mem_singleton.mp hconstraints
            rw [if_pos hhas] at hmet
            obtain ⟨constraints, hread, -⟩ := Option.map_eq_some_iff.mp hmet
            simp [Need.met, hread]
          · cases hconstraints
      · cases h
    · cases h

theorem met_of_readExecutorUpdate {u : ExecutorUpdate} (h : readExecutorUpdate p = some u)
    {need : Need} (hneed : need ∈ needs env st p .executorUpdate) : need.met p = true := by
  unfold readExecutorUpdate at h
  split at h
  · rename_i hruntime hnode htype hinstance
    have hcommand : (p.getStrAttr "command").isSome := by
      split at h
      · rename_i hcommand
        rw [hcommand]
        rfl
      · split at h
        · rename_i hcommand
          rw [hcommand]
          rfl
        · cases h
    simp only [needs, List.mem_cons, List.not_mem_nil, or_false] at hneed
    rcases hneed with rfl | rfl | rfl | rfl | rfl
    · exact hcommand
    · simp [Need.met, hruntime]
    · simp [Need.met, hnode]
    · simp [Need.met, htype]
    · simp [Need.met, hinstance]
  · cases h

theorem unchanged_lifetimeEvent {need : Need} (hneed : need ∈ needs env st p .lifetimeEvent)
    (hmissing : need.met p = false)
    (hreceive : receiveLifetimeEvent cfg env { st with effects := [] } p = some st') :
    Unchanged st st' := by
  unfold receiveLifetimeEvent at hreceive
  split at hreceive
  · rename_i hexit
    obtain ⟨name, hname, hreceive⟩ := Option.bind_eq_some_iff.mp hreceive
    have hreason : exitsOverdue env st p = false ∧ need = .str "exit_reason" := by
      unfold needs at hneed
      rcases List.mem_append.mp hneed with hfixed | hlast
      · simp only [List.mem_cons, List.not_mem_nil, or_false] at hfixed
        rcases hfixed with rfl | rfl
        · simp [Need.met, hexit] at hmissing
        · simp [Need.met, hname] at hmissing
      · split at hlast
        · cases hlast
        · rename_i hover
          exact ⟨by simpa using hover, List.mem_singleton.mp hlast⟩
    obtain ⟨hover, rfl⟩ := hreason
    have hnone : p.getStrAttr "exit_reason" = none := by simpa [Need.met] using hmissing
    dsimp only at hreceive
    cases hd : Assoc.find name st.deployments with
    | none =>
      rw [hd] at hreceive
      rw [← Option.some.inj hreceive]
      exact .cleared st
    | some d =>
      unfold exitsOverdue at hover
      rw [hname, Option.bind_some, hd] at hover
      rw [hd] at hreceive
      dsimp only at hreceive hover
      rw [if_neg (by simp [hover]), hnone] at hreceive
      cases hreceive
  · rw [← Option.some.inj hreceive]
    exact .cleared st

theorem unchanged_unmanagedActorUpdate {need : Need}
    (hneed : need ∈ needs env st p .unmanagedActorUpdate) (hmissing : need.met p = false)
    (hreceive : receiveUnmanagedActorUpdate cfg env { st with effects := [] } p = some st') :
    Unchanged st st' := by
  unfold receiveUnmanagedActorUpdate at hreceive
  have hmet : (Need.str "command").met p = true → p.getStrAttr "update_actor_type" = none := by
    intro hcommand
    simp only [needs, List.mem_cons, List.not_mem_nil, or_false] at hneed
    rcases hneed with rfl | rfl
    · rw [hcommand] at hmissing
      cases hmissing
    · simpa [Need.met] using hmissing
  split at hreceive
  · rename_i hcommand
    rw [hmet (by simp [Need.met, hcommand])] at hreceive
    cases hreceive
  · split at hreceive
    · rename_i hcommand
      rw [hmet (by simp [Need.met, hcommand])] at hreceive
      cases hreceive
    · rw [← Option.some.inj hreceive]
      exact .cleared st

theorem unchanged_deploymentCancelation {need : Need}
    (hneed : need ∈ needs env st p .deploymentCancelation) (hmissing : need.met p = false)
    (hreceive : receiveDeploymentCancelation cfg env { st with effects := [] } p = some st') :
    Unchanged st st' := by
  unfold receiveDeploymentCancelation at hreceive
  obtain rfl := List.mem_singleton.mp hneed
  have hnone : p.getStrAttr "deployment_name" = none := by simpa [Need.met] using hmissing
  rw [hnone] at hreceive
  split at hreceive
  · cases hreceive
  · rw [← Option.some.inj hreceive]
    exact .cleared st

theorem unchanged_of_lacks (hlacks : Lacks env st p)
    (hstep : receiveRaising cfg env st p = .ok st') :
    Unchanged st st' := by
  obtain ⟨handler, hp, need, hneed, hmissing⟩ := hlacks
  have hreceive : receive cfg env st p = some st' := by
    rw [← toOption_receiveRaising, hstep]
    rfl
  unfold receive at hreceive
  rw [hp] at hreceive
  cases handler with
  | init | ttlTimeout | labelUpdate | labelGet => cases hneed
  | deployment =>
    obtain ⟨read, hread, rfl⟩ := Option.map_eq_some_iff.mp
      (show receiveDeployment cfg env { st with effects := [] } p = some st' from hreceive)
    cases read with
    | none => exact .cleared st
    | some r =>
      rw [met_of_readDeployment env hread hneed] at hmissing
      cases hmissing
  | lifetimeEvent => exact unchanged_lifetimeEvent hneed hmissing hreceive
  | unmanagedActorUpdate => exact unchanged_unmanagedActorUpdate hneed hmissing hreceive
  | executorUpdate =>
    change receiveExecutorUpdate { st with effects := [] } p = some st' at hreceive
    rw [receiveExecutorUpdate_eq] at hreceive
    cases hread : readExecutorUpdate p with
    | none =>
      rw [hread] at hreceive
      rw [← Option.some.inj hreceive]
      exact .cleared st
    | some u =>
      rw [met_of_readExecutorUpdate hread hneed] at hmissing
      cases hmissing
  | deploymentCancelation => exact unchanged_deploymentCancelation hneed hmissing hreceive

/-! ## Harmless messages -/

/-- The messages that peers and the tools send to the manager. -/
def Concerned (p : Publication) : Prop :=
  p.getStrAttr "type" ∈ [some "deployment", some "deployment_cancelation",
    some "unmanaged_actor_update", some "executor_update"] ∨
      p.getStrAttr "category" = some "actor_lifetime"

theorem Concerned.handler (h : Concerned p) :
    ∃ handler, handlerOf p = some handler ∧ handler ≠ .labelGet := by
  unfold handlerOf
  rcases h with htype | hcategory
  · simp only [List.mem_cons, List.not_mem_nil, or_false] at htype
    rcases htype with htype | htype | htype | htype
    · exact ⟨.deployment, by simp [htype], by decide⟩
    · by_cases hcategory : p.getStrAttr "category" = some "actor_lifetime"
      · exact ⟨.lifetimeEvent, by simp [htype, hcategory], by decide⟩
      · exact ⟨.deploymentCancelation, by simp [htype, hcategory], by decide⟩
    · by_cases hcategory : p.getStrAttr "category" = some "actor_lifetime"
      · exact ⟨.lifetimeEvent, by simp [htype, hcategory], by decide⟩
      · exact ⟨.unmanagedActorUpdate, by simp [htype, hcategory], by decide⟩
    · by_cases hcategory : p.getStrAttr "category" = some "actor_lifetime"
      · exact ⟨.lifetimeEvent, by simp [htype, hcategory], by decide⟩
      · exact ⟨.executorUpdate, by simp [htype, hcategory], by decide⟩
  · by_cases hinit : p.getStrAttr "type" = some "init"
    · exact ⟨.init, by simp [hinit], by decide⟩
    · by_cases hdeployment : p.getStrAttr "type" = some "deployment"
      · exact ⟨.deployment, by simp [hdeployment], by decide⟩
      · exact ⟨.lifetimeEvent, by simp [hinit, hdeployment, hcategory], by decide⟩

/-- A message is harmless exactly if its handler finds all the attributes that it reads, each with
its type. -/
theorem harmless_iff (cfg : ManagerSettings) (env : Surroundings) (st : DeploymentManager)
    (hp : Concerned p) :
    Harmless cfg env st p ↔ ∀ handler, handlerOf p = some handler → Readable env st p handler := by
  obtain ⟨handler, hhandler, hget⟩ := hp.handler
  have hiff : receiveRaising cfg env st p ≠ .error .absent ↔ Readable env st p handler :=
    ne_absent_iff_readable hhandler hget
  constructor
  · intro h handler' hhandler'
    obtain rfl := Option.some.inj (hhandler.symm.trans hhandler')
    exact hiff.mp h.1
  · intro h
    exact ⟨hiff.mpr (h handler hhandler), fun hlacks _ hstep => unchanged_of_lacks hlacks hstep⟩

/-- A manager with an executor and a deployment. -/
def oneDeployed : DeploymentManager :=
  { registerExecutor init "lua" ⟨"node", "lua_executor", "1"⟩ with
    deployments := [("d", ⟨"d", "t", "1", "lua", [], 7, 7, 0, 0, true⟩)] }

theorem harmless_complete :
    Harmless nodeSettings plainSurroundings oneDeployed (deploymentMessage "e" "t" "1" "") := by
  refine (harmless_iff _ _ _ (Or.inl (by decide))).mpr fun handler hhandler => ?_
  obtain rfl : .deployment = handler := Option.some.inj hhandler
  refine ⟨"lua", rfl, fun _ _ _ _ _ _ => ⟨fun hconstraints => absurd hconstraints (by decide),
    fun _ => ?_⟩⟩
  decide

/-- A deployment that does not say who has sent it. -/
def unsignedDeployment : Publication :=
  ⟨[("type", .str "deployment"), ("deployment_name", .str "e"), ("deployment_ttl", .int 0),
    ("deployment_actor_type", .str "t"), ("deployment_actor_version", .str "1"),
    ("deployment_actor_runtime_type", .str "lua"),
    ("deployment_required_actors", .str "")], by decide⟩

/-- Of each handler that reads what it has not looked for, a message. -/
theorem harmful_incomplete :
    ¬ Harmless nodeSettings plainSurroundings init ⟨[("type", .str "deployment")], by decide⟩ ∧
    ¬ Harmless nodeSettings plainSurroundings oneDeployed unsignedDeployment ∧
    ¬ Harmless nodeSettings plainSurroundings init
      ⟨[("type", .str "deployment_cancelation"), ("deployment_name", .int 1)], by decide⟩ ∧
    ¬ Harmless nodeSettings plainSurroundings oneDeployed
      ⟨[("category", .str "actor_lifetime"), ("type", .str "actor_exit"),
        ("lifetime_instance_id", .str "d")], by decide⟩ ∧
    ¬ Harmless nodeSettings plainSurroundings init
      ⟨[("type", .str "unmanaged_actor_update"), ("command", .str "register")], by decide⟩ :=
  ⟨fun h => h.1 rfl, fun h => h.1 rfl, fun h => h.1 rfl, fun h => h.1 rfl, fun h => h.1 rfl⟩

end DeploymentManager

end UActor
