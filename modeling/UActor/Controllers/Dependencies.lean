import UActor.Controllers.Removals
import UActor.Lib.Tagged

/-!
# Dependencies

`dependencies` holds pointers into `deployments`. Here a deployment has an identity besides its
name, so that a pointer to an erased deployment is none to a later one of the same name. After every
message, the index holds exactly the deployments that require a type, by their names and by their
identities.
-/

namespace UActor

namespace DeploymentManager

variable {cfg : ManagerSettings} {env : Surroundings} {st st₁ st' : DeploymentManager}
  {name : String}

/-! ## Edits -/

/-- A change of `deployments` that `dependencies` has to follow. -/
inductive Edit where
  | stored (name : String) (required_actors : List String)
  | removed (name : String)

/-- `deployments` and `dependencies`, with pointers. A number stands for the identity of a
deployment: the memory of an erased one is used again, its number is not. -/
structure PointerTables where
  next : Nat
  tables : Tagged String Nat String
  erased : List Nat

namespace PointerTables

def init : PointerTables := ⟨0, .empty, []⟩

/-- The loops of `add_deployment_dependencies` and `remove_deployment`, over pointers. -/
def edit (t : PointerTables) : Edit → PointerTables
  | .stored name required_actors => { t with next := t.next + 1, tables := t.tables.add name t.next required_actors }
  | .removed name =>
    { t with
      tables := t.tables.remove name
      erased := t.erased ++ ((Assoc.find name t.tables.items).map Prod.fst).toList }

end PointerTables

/-- The same tables with names for pointers, as the manager has them here. -/
def named (st : DeploymentManager) : Tagged String String String :=
  ⟨st.deployments.map fun e => (e.1, e.1, e.2.required_actors), st.dependencies⟩

/-- What happens to the two tables while a message is handled. In between, nothing is stored,
removed or required. -/
inductive Edits (cfg : ManagerSettings) (env : Surroundings) :
    DeploymentManager → List Edit → DeploymentManager → Prop
  | unedited {st st' : DeploymentManager} (h : st'.named = st.named) : Edits cfg env st [] st'
  | stored {st : DeploymentManager} (r : Request) (end_time : UInt32)
    (hnew : Assoc.find r.name st.deployments = none) :
    Edits cfg env st [.stored r.name (stringSplit r.required_actors)]
    (recordDeployment cfg env st r end_time)
  | removed {st : DeploymentManager} {name : String} (hthere : name ∈ Assoc.keys st.deployments) :
    Edits cfg env st [.removed name] (removeDeployment st name)
  | append {st₁ st₂ st₃ : DeploymentManager} {edits edits' : List Edit}
      (h : Edits cfg env st₁ edits st₂)
    (h' : Edits cfg env st₂ edits' st₃) : Edits cfg env st₁ (edits ++ edits') st₃

/-- The pointers of the manager after its messages. -/
inductive Pointed (cfg : ManagerSettings) :
    List (Surroundings × Publication) → DeploymentManager → PointerTables → Prop
  | init : Pointed cfg [] init .init
  | receive {messages : List (Surroundings × Publication)} {st st' : DeploymentManager}
      {t : PointerTables}
    {m : Surroundings × Publication} {edits : List Edit} (h : Pointed cfg messages st t)
    (hstep : receive cfg m.1 st m.2 = some st')
    (hedits : Edits cfg m.1 { st with effects := [] } edits st') :
    Pointed cfg (messages ++ [m]) st' (edits.foldl PointerTables.edit t)

/-! ## What is not edited -/

theorem Frame.named (h : Frame st st') : st'.named = st.named := by
  have hitems := congrArg (List.map fun e => (e.1, e.1, e.2.required_actors)) h.deployments
  unfold fixedDeployments at hitems
  rw [List.map_map, List.map_map] at hitems
  unfold DeploymentManager.named
  rw [h.dependencies]
  exact congrArg (Tagged.mk · st.dependencies) hitems

theorem named_modify (name : String) (f : Deployment → Deployment)
    (hf : ∀ d, (f d).required_actors = d.required_actors) :
    (st.modify name f).named = st.named := by
  unfold modify
  split
  · rename_i d hd
    unfold named
    exact congrArg (Tagged.mk · st.dependencies) (Assoc.map_put_of_find _ hd (by rw [hf]))
  · rfl

theorem named_startDeployment (executor : ExecutorIdentifier) (delay : UInt32) :
    (st.startDeployment name executor delay).named = st.named := by
  unfold startDeployment
  split
  · exact named_modify name _ fun _ => rfl
  · rfl

theorem named_replaceDeployment (d : Deployment) (r : Request) (executors : ExecutorList) :
    (replaceDeployment cfg env st d r executors).named = st.named := by
  unfold replaceDeployment
  dsimp only
  rw [named_startDeployment, (grown_increment cfg env _ _).frame.named]
  have hstopped : (stopDeployment cfg st r.name).named = st.named := by
    unfold stopDeployment
    split
    · rfl
    · rfl
  refine (named_modify r.name _ ?_).trans ((declined_decrement cfg env _ _).frame.named.trans
    hstopped)
  exact fun _ => rfl

theorem named_updateDeployment (d : Deployment) (r : Request) (end_time : UInt32)
    (executors : ExecutorList) :
    (updateDeployment cfg env st d r end_time executors).named = st.named := by
  have hreplaced : (if r.replaces d then replaceDeployment cfg env st d r executors else st).named =
      st.named := by
    split
    · exact named_replaceDeployment d r executors
    · rfl
  have hend : ((if r.replaces d then replaceDeployment cfg env st d r executors else st).modify
      r.name fun d => { d with lifetime_end := end_time }).named = st.named := by
    refine (named_modify r.name _ ?_).trans hreplaced
    exact fun _ => rfl
  unfold updateDeployment
  dsimp only
  split
  · exact hend
  · exact hend

theorem named_deactivate (cfg : ManagerSettings) (env : Surroundings) (st : DeploymentManager)
    (name : String) :
    (deactivateDeployment cfg env st name).named = st.named :=
  (declined_deactivate cfg env st name).1.frame.named

/-! ## The edits of a message -/

theorem edits_retire (st : DeploymentManager) (name : String) :
    ∃ edits, Edits cfg env st edits (retire cfg env st name) := by
  cases hd : Assoc.find name st.deployments with
  | none =>
    rw [retire_absent hd]
    exact ⟨[], .unedited rfl⟩
  | some d =>
    have hnamed : (deactivateDeployment cfg env st name).lessActive.named = st.named :=
      named_deactivate cfg env st name
    have hkeys : name ∈ Assoc.keys
        (deactivateDeployment cfg env st name).lessActive.deployments := by
      show name ∈ Assoc.keys (deactivateDeployment cfg env st name).deployments
      rw [keys_deactivate]
      exact Assoc.mem_keys_iff.mpr ⟨d, hd⟩
    rw [retire_eq hd]
    split
    · exact ⟨[], .unedited hnamed⟩
    · exact ⟨_, .append (.unedited hnamed) (.removed hkeys)⟩

theorem edits_crashed {d : Deployment} (hd : Assoc.find name st.deployments = some d) :
    ∃ edits, Edits cfg env st edits (crashed cfg env st name d) := by
  by_cases hmany : d.restarts < 3
  · refine ⟨[], .unedited ?_⟩
    unfold crashed
    rw [if_pos hmany]
    split
    · exact named_startDeployment _ _
    · rfl
  · rw [crashed_exhausted hmany]
    have hless : (if d.active then st.lessActive else st).named = st.named := by
      split <;> rfl
    have hkeys : name ∈ Assoc.keys
        (deactivateDeployment cfg env (if d.active then st.lessActive else st)
          name).deployments := by
      rw [keys_deactivate]
      split <;> exact Assoc.mem_keys_iff.mpr ⟨d, hd⟩
    exact ⟨_, .append (.unedited ((named_deactivate cfg env _ name).trans hless)) (.removed hkeys)⟩

theorem edits_deploy (r : Request) (executors : ExecutorList) :
    ∃ edits, Edits cfg env st edits (deploy cfg env st r executors) := by
  obtain ⟨ends, effects, hdeploy⟩ := deploy_tables cfg env st r executors
  rw [hdeploy]
  cases hd : Assoc.find r.name st.deployments with
  | none =>
    refine ⟨_, .append (.stored r (r.endTime env) hd) (.unedited ?_)⟩
    show (insertDeployment cfg env st r (r.endTime env) executors).named = _
    unfold insertDeployment
    dsimp only
    split
    · exact (frame_activate cfg env (Assoc.find_put_self _ _ _) executors.front).named
    · rfl
  | some d => exact ⟨[], .unedited (named_updateDeployment d r (r.endTime env) executors)⟩

theorem edits_expireAll (ends : List (UInt32 × List String)) (reading : Nat)
    (st : DeploymentManager) :
    ∃ edits, Edits cfg env st edits (expireAll cfg env ends reading st) := by
  refine expireAll_rel (R := fun st st' => ∃ edits, Edits cfg env st edits st')
    (fun st => ⟨[], .unedited rfl⟩) ?_ (fun st ends => ⟨[], .unedited rfl⟩) fun s name _ =>
      edits_retire s name
  rintro st₁ st₂ st₃ ⟨edits, h⟩ ⟨edits', h'⟩
  exact ⟨_, .append h h'⟩

theorem Received.edits {p : Publication} (h : Received cfg env st p st') :
    ∃ edits, Edits cfg env st edits st' := by
  cases h with
  | quiet hquiet =>
    refine ⟨[], .unedited ?_⟩
    unfold named
    rw [hquiet.deployments, hquiet.dependencies]
  | deployed hp hr => exact edits_deploy _ _
  | cancelled hp hname => exact edits_retire _ _
  | expired hp => exact edits_expireAll _ _ _
  | overdue hp hexit hname hd hover => exact ⟨_, .removed (Assoc.mem_keys_iff.mpr ⟨_, hd⟩)⟩
  | crashed hp hexit hname hd hover hreason hcrash => exact edits_crashed hd
  | registered hp hcommand htype => exact ⟨[], .unedited (grown_increment cfg env st _).frame.named⟩
  | deregistered hp hcommand htype =>
      exact ⟨[], .unedited (declined_decrement cfg env st _).frame.named⟩

/-- Whatever the manager handles, its pointers can be followed. -/
theorem pointed_of_run {messages : List (Surroundings × Publication)}
    (hrun : run cfg messages = some st) :
    ∃ t, Pointed cfg messages st t := by
  induction messages using List.reverseRecOn generalizing st with
  | nil =>
    obtain rfl : init = st := Option.some.inj hrun
    exact ⟨_, .init⟩
  | append_singleton messages m ih =>
    unfold run at hrun
    rw [Runs.foldlM_snoc] at hrun
    obtain ⟨before, hbefore, hstep⟩ := Option.bind_eq_some_iff.mp hrun
    obtain ⟨t, ht⟩ := ih hbefore
    obtain ⟨edits, hedits⟩ := (receive_cases hstep).edits
    exact ⟨_, .receive ht hstep hedits⟩

/-! ## The index -/

/-- The tables with pointers are those of the manager, and both indexes are exact. -/
structure Mirrored (st : DeploymentManager) (t : PointerTables) : Prop where
  names : st.named.Exact
  pointers : t.tables.Exact
  shape : t.tables.shape = st.named.shape
  fresh : ∀ name i required, Assoc.find name t.tables.items = some (i, required) → i < t.next
  /-- A number that is gone does not come again. -/
  erased : ∀ i ∈ t.erased, i < t.next ∧ ∀ name required, Assoc.find name t.tables.items ≠ some
    (i, required)

variable {t : PointerTables}

theorem find_named (st : DeploymentManager) (name : String) : Assoc.find name st.named.items =
    (Assoc.find name st.deployments).map fun d => (name, d.required_actors) :=
  Assoc.find_map_keyed name (fun key (d : Deployment) => (key, d.required_actors)) st.deployments

theorem find_shape {ι : Type} (t : Tagged String ι String) (name : String) :
    Assoc.find name t.shape = (Assoc.find name t.items).map Prod.snd :=
  Assoc.find_map name Prod.snd t.items

theorem Mirrored.find (h : Mirrored st t) (name : String) :
    (Assoc.find name t.tables.items).map Prod.snd = (Assoc.find name st.deployments).map
      (·.required_actors) := by
  rw [← find_shape, h.shape, find_shape, find_named, Option.map_map]
  rfl

theorem mirrored_init : Mirrored init .init :=
  ⟨Tagged.exact_empty, Tagged.exact_empty, rfl, by simp [PointerTables.init, Tagged.empty],
    by simp [PointerTables.init]⟩

theorem Mirrored.unedited (h : Mirrored st t) (hnamed : st'.named = st.named) : Mirrored st' t := by
  refine ⟨?_, h.pointers, ?_, h.fresh, h.erased⟩
  · rw [hnamed]
    exact h.names
  · rw [hnamed]
    exact h.shape

theorem named_recordDeployment (cfg : ManagerSettings) (env : Surroundings) (r : Request)
    (end_time : UInt32) (hnew : Assoc.find r.name st.deployments = none) :
    (recordDeployment cfg env st r end_time).named = st.named.add r.name r.name
      (stringSplit r.required_actors) := by
  have hitems : Assoc.find r.name st.named.items = none := by rw [find_named, hnew, Option.map_none]
  unfold Tagged.add
  rw [Assoc.put_of_absent (Assoc.find_eq_none.mp hitems)]
  unfold recordDeployment addDeploymentDependencies named
  dsimp only [emit]
  rw [Assoc.put_of_absent (Assoc.find_eq_none.mp hnew), List.map_append]
  rfl

theorem named_removeDeployment {d : Deployment} (hd : Assoc.find name st.deployments = some d) :
    (removeDeployment st name).named = st.named.remove name := by
  obtain ⟨hdeployments, hdependencies, -, -, -⟩ := removeDeployment_tables hd
  have hitems : Assoc.find name st.named.items = some (name, d.required_actors) := by
    rw [find_named, hd, Option.map_some]
  unfold Tagged.remove
  rw [hitems]
  unfold named Assoc.erase
  rw [hdeployments, hdependencies, List.filter_map]
  rfl

theorem Mirrored.stored (h : Mirrored st t) (r : Request) (end_time : UInt32)
    (hnew : Assoc.find r.name st.deployments = none) :
    Mirrored (recordDeployment cfg env st r end_time) (t.edit (.stored r.name (stringSplit r.required_actors))) := by
  have hnamed := named_recordDeployment cfg env r end_time hnew
  have hitems : Assoc.find r.name t.tables.items = none := by
    have hfind := h.find r.name
    rw [hnew, Option.map_none, Option.map_eq_none_iff] at hfind
    exact hfind
  have hfresh : ∀ name required, Assoc.find name t.tables.items ≠ some (t.next, required) :=
    fun name required hfind => Nat.lt_irrefl _ (h.fresh name t.next required hfind)
  have hfind : ∀ {name i required},
      Assoc.find name (t.tables.add r.name t.next (stringSplit r.required_actors)).items = some (i, required) →
        i = t.next ∨ Assoc.find name t.tables.items = some (i, required) := by
    intro name i required hsome
    rcases (Tagged.find_add_eq_some hitems).mp hsome with ⟨-, heq⟩ | hold
    · exact Or.inl (Prod.mk.inj heq).1
    · exact Or.inr hold
  refine ⟨?_, h.pointers.add hitems hfresh _, ?_, ?_, ?_⟩
  · rw [hnamed]
    refine h.names.add (by rw [find_named, hnew, Option.map_none]) ?_ _
    intro name required hsome
    rw [find_named] at hsome
    obtain ⟨d, hd, hpair⟩ := Option.map_eq_some_iff.mp hsome
    rw [(Prod.mk.inj hpair).1, hnew] at hd
    exact absurd hd (by simp)
  · rw [hnamed, Tagged.shape_add, ← h.shape]
    exact Tagged.shape_add _ _ _
  · intro name i required hsome
    rcases hfind hsome with rfl | hold
    · exact Nat.lt_succ_self _
    · exact Nat.lt_succ_of_lt (h.fresh name i required hold)
  · intro i hi
    obtain ⟨hlt, hgone⟩ := h.erased i hi
    refine ⟨Nat.lt_succ_of_lt hlt, fun name required hsome => ?_⟩
    rcases hfind hsome with rfl | hold
    · exact Nat.lt_irrefl _ hlt
    · exact hgone name required hold

theorem Mirrored.removed (h : Mirrored st t) (hthere : name ∈ Assoc.keys st.deployments) :
    Mirrored (removeDeployment st name) (t.edit (.removed name)) := by
  obtain ⟨d, hd⟩ := Assoc.mem_keys_iff.mp hthere
  have hnamed := named_removeDeployment hd
  refine ⟨?_, h.pointers.remove name, ?_, ?_, ?_⟩
  · rw [hnamed]
    exact h.names.remove name
  · rw [hnamed, Tagged.shape_remove, ← h.shape]
    exact Tagged.shape_remove _
  · intro name' i required hsome
    exact h.fresh name' i required (Tagged.find_remove_eq_some.mp hsome).2
  · intro i hi
    rcases List.mem_append.mp hi with hi | hi
    · obtain ⟨hlt, hgone⟩ := h.erased i hi
      exact ⟨hlt, fun name' required hsome => hgone name' required (Tagged.find_remove_eq_some.mp hsome).2⟩
    · rw [Option.mem_toList] at hi
      obtain ⟨⟨i', required⟩, hsome, rfl⟩ := Option.map_eq_some_iff.mp hi
      refine ⟨h.fresh name i' required hsome, fun name' required' hsome' => ?_⟩
      obtain ⟨hne, hold⟩ := Tagged.find_remove_eq_some.mp hsome'
      exact hne (h.pointers.apart name name' i' required required' hsome hold)

theorem Edits.mirrored {edits : List Edit} (h : Edits cfg env st edits st') (hst : Mirrored st t) :
    Mirrored st' (edits.foldl PointerTables.edit t) := by
  induction h generalizing t with
  | unedited hnamed => exact hst.unedited hnamed
  | stored r end_time hnew => exact hst.stored r end_time hnew
  | removed hthere => exact hst.removed hthere
  | append h h' ih ih' =>
    rw [List.foldl_append]
    exact ih' (ih hst)

theorem Pointed.mirrored {messages : List (Surroundings × Publication)}
    (h : Pointed cfg messages st t) :
    Mirrored st t := by
  induction h with
  | init => exact mirrored_init
  | receive h hstep hedits ih => exact hedits.mirrored (ih.unedited rfl)

/-- `dependencies` holds the entries of `deployments` that require a type, under their types. -/
structure ExactDependencies (st : DeploymentManager) (t : PointerTables) : Prop where
  /-- The pointers are to the deployments of the manager. -/
  deployments : ∀ name, (Assoc.find name t.tables.items).map Prod.snd =
    (Assoc.find name st.deployments).map (·.required_actors)
  names : ∀ actor_type name, name ∈ Multimap.members actor_type st.dependencies ↔
    ∃ d, Assoc.find name st.deployments = some d ∧ actor_type ∈ d.required_actors
  pointers : ∀ actor_type i, i ∈ Multimap.members actor_type t.tables.index ↔
    ∃ name required, Assoc.find name t.tables.items = some (i, required) ∧ actor_type ∈ required
  keys : ∀ actor_type, actor_type ∈ Assoc.keys st.dependencies ↔
    ∃ name d, Assoc.find name st.deployments = some d ∧ actor_type ∈ d.required_actors
  pointerKeys : ∀ actor_type, actor_type ∈ Assoc.keys t.tables.index ↔
    actor_type ∈ Assoc.keys st.dependencies
  live : ∀ i ∈ t.erased, ∀ actor_type, i ∉ Multimap.members actor_type t.tables.index

theorem Mirrored.exact (h : Mirrored st t) : ExactDependencies st t := by
  have hfind : ∀ {name i required}, Assoc.find name st.named.items = some (i, required) ↔
      i = name ∧ ∃ d, Assoc.find name st.deployments = some d ∧ d.required_actors = required := by
    intro name i required
    rw [find_named, Option.map_eq_some_iff]
    constructor
    · rintro ⟨d, hd, hpair⟩
      obtain ⟨rfl, rfl⟩ := Prod.mk.inj hpair
      exact ⟨rfl, d, hd, rfl⟩
    · rintro ⟨rfl, d, hd, rfl⟩
      exact ⟨d, hd, rfl⟩
  have hkeys : ∀ actor_type, actor_type ∈ Assoc.keys st.dependencies ↔
      ∃ name d, Assoc.find name st.deployments = some d ∧ actor_type ∈ d.required_actors := by
    intro actor_type
    refine h.names.mem_keys.trans ⟨?_, ?_⟩
    · rintro ⟨name, i, required, hsome, hmem⟩
      obtain ⟨-, d, hd, rfl⟩ := hfind.mp hsome
      exact ⟨name, d, hd, hmem⟩
    · rintro ⟨name, d, hd, hmem⟩
      exact ⟨name, name, _, hfind.mpr ⟨rfl, d, hd, rfl⟩, hmem⟩
  refine ⟨h.find, ?_, h.pointers.index, hkeys, ?_, ?_⟩
  · intro actor_type name
    refine (h.names.index actor_type name).trans ⟨?_, ?_⟩
    · rintro ⟨name', required, hsome, hmem⟩
      obtain ⟨rfl, d, hd, rfl⟩ := hfind.mp hsome
      exact ⟨d, hd, hmem⟩
    · rintro ⟨d, hd, hmem⟩
      exact ⟨name, _, hfind.mpr ⟨rfl, d, hd, rfl⟩, hmem⟩
  · intro actor_type
    rw [h.pointers.mem_keys, hkeys]
    constructor
    · rintro ⟨name, i, required, hsome, hmem⟩
      have hshape := h.find name
      rw [hsome, Option.map_some] at hshape
      obtain ⟨d, hd, rfl⟩ := Option.map_eq_some_iff.mp hshape.symm
      exact ⟨name, d, hd, hmem⟩
    · rintro ⟨name, d, hd, hmem⟩
      have hshape := h.find name
      rw [hd, Option.map_some] at hshape
      obtain ⟨⟨i, required⟩, hsome, heq⟩ := Option.map_eq_some_iff.mp hshape
      exact ⟨name, i, required, hsome, by rwa [show required = d.required_actors from heq]⟩
  · intro i hi actor_type hmem
    obtain ⟨name, required, hsome, -⟩ := (h.pointers.index actor_type i).mp hmem
    exact (h.erased i hi).2 name required hsome

/-- After any messages, the index of dependencies is exact, and no pointer in it is to an erased
deployment. -/
theorem dependencies_exact {messages : List (Surroundings × Publication)}
    (hrun : run cfg messages = some st) :
    (∃ t, Pointed cfg messages st t) ∧ ∀ t, Pointed cfg messages st t → ExactDependencies st t :=
  ⟨pointed_of_run hrun, fun _ h => h.mirrored.exact⟩

/-- A deployment requires a type twice, is cancelled and comes again. -/
def twiceDeployed : List (Surroundings × Publication) :=
  inOrder [executorMessage, deploymentMessage "d" "u" "1" "t,t", cancelationMessage "d",
    deploymentMessage "d" "u" "1" "t,s"]

theorem dependencies_exact_again : ∃ st, run nodeSettings twiceDeployed = some st ∧
    st.dependencies = [("t", ["d"]), ("s", ["d"])] ∧
    (∃ t, Pointed nodeSettings twiceDeployed st t) ∧
    ∀ t, Pointed nodeSettings twiceDeployed st t → ExactDependencies st t := by
  obtain ⟨st, hrun, hdependencies⟩ : ∃ st, run nodeSettings twiceDeployed = some st ∧
      st.dependencies = [("t", ["d"]), ("s", ["d"])] := ⟨_, rfl, rfl⟩
  exact ⟨st, hrun, hdependencies, dependencies_exact hrun⟩

end DeploymentManager

end UActor
