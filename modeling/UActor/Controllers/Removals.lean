import UActor.Controllers.Spawns
import UActor.Controllers.TypeCounts

/-!
# Removals

Where the manager calls `remove_deployment`, and whether the deployment is active there. Three of
the places have looked at the flag or have lowered it. The fourth one takes a deployment whose time
is over for one that is deactivated already, and the wakeup that does so comes later than the end
time.
-/

namespace UActor

namespace DeploymentManager

variable {cfg : ManagerSettings} {env : Surroundings} {st st' s : DeploymentManager}
  {p : Publication} {name : String} {ends : List (UInt32 × List String)} {reading : Nat}

/-! ## The loop over end times -/

/-- The loop of `receive_ttl_timeout` comes to a deployment whose end time it is, in this state. -/
inductive Expires (cfg : ManagerSettings) (env : Surroundings) :
    List (UInt32 × List String) → Nat → DeploymentManager → DeploymentManager → String → Prop
  | now {end_time : UInt32} {pre post : List String} {rest : List (UInt32 × List String)}
      {reading : Nat}
    {st : DeploymentManager} {name : String} {d : Deployment} (hover : end_time < env.now reading)
    (hd : Assoc.find name (pre.foldl (expire cfg env end_time) st).deployments = some d)
    (hend : end_time = d.lifetime_end) :
    Expires cfg env ((end_time, pre ++ name :: post) :: rest) reading st
      (pre.foldl (expire cfg env end_time) st) name
  | later {end_time : UInt32} {names : List String} {rest : List (UInt32 × List String)}
      {reading : Nat}
    {st s : DeploymentManager} {name : String} (hover : end_time < env.now reading)
    (h : Expires cfg env rest (reading + 1)
      { names.foldl (expire cfg env end_time) st with ttl_end_times := rest } s name) :
    Expires cfg env ((end_time, names) :: rest) reading st s name

theorem expire_eq {d : Deployment} (hd : Assoc.find name st.deployments = some d) :
    expire cfg env d.lifetime_end st name = retire cfg env st name := by
  unfold expire
  rw [hd]
  exact if_pos rfl

theorem expire_waits {end_time : UInt32}
    (h : ∀ d, Assoc.find name st.deployments = some d → end_time ≠ d.lifetime_end) :
    expire cfg env end_time st name = st := by
  unfold expire
  cases hd : Assoc.find name st.deployments with
  | none => rfl
  | some d => exact if_neg (h d hd)

section

variable {R : DeploymentManager → DeploymentManager → Prop} (hrefl : ∀ st, R st st)
  (htrans : ∀ {st₁ st₂ st₃}, R st₁ st₂ → R st₂ st₃ → R st₁ st₃)

include hrefl htrans

theorem expire_names_rel {end_time : UInt32} {names : List String}
    (hretire : ∀ pre name post d, names = pre ++ name :: post →
      Assoc.find name (pre.foldl (expire cfg env end_time) st).deployments = some d →
        end_time = d.lifetime_end →
      R (pre.foldl (expire cfg env end_time) st)
      (retire cfg env (pre.foldl (expire cfg env end_time) st) name)) :
    R st (names.foldl (expire cfg env end_time) st) := by
  refine Cascade.foldl_rel_of hrefl htrans fun pre name post heq => ?_
  by_cases h : ∃ d, Assoc.find name (pre.foldl (expire cfg env end_time) st).deployments = some d ∧
    end_time = d.lifetime_end
  · obtain ⟨d, hd, hend⟩ := h
    have hkept := hretire pre name post d heq hd hend
    rw [hend] at hd hkept ⊢
    rw [expire_eq hd]
    exact hkept
  · rw [expire_waits fun d hd hend => h ⟨d, hd, hend⟩]
    exact hrefl _

variable (htable : ∀ st ends, R st { st with ttl_end_times := ends })

include htable

/-- What each deployment keeps that the loop comes to, the loop keeps. -/
theorem expireAll_rel (hretire : ∀ s name, Expires cfg env ends reading st s name →
    R s (retire cfg env s name)) :
    R st (expireAll cfg env ends reading st) := by
  induction ends generalizing reading st with
  | nil => exact hrefl st
  | cons e ends ih =>
    obtain ⟨end_time, names⟩ := e
    unfold expireAll
    split
    · rename_i hover
      have hnames : R st (names.foldl (expire cfg env end_time) st) := by
        refine expire_names_rel hrefl htrans fun pre name post d heq hd hend => hretire _ name ?_
        rw [heq]
        exact .now hover hd hend
      exact htrans hnames (htrans (htable _ ends) (ih fun s name h =>
        hretire s name (.later hover h)))
    · exact hrefl st

theorem Expires.reached (h : Expires cfg env ends reading st s name)
    (hretire : ∀ s name, Expires cfg env ends reading st s name → R s (retire cfg env s name)) :
    R st s := by
  induction h with
  | @now end_time pre post rest reading st name d hover hd hend =>
    refine expire_names_rel hrefl htrans fun pre' name' post' d' heq hd' hend' => hretire _ name' ?_
    have hsplit : pre ++ name :: post = pre' ++ name' :: (post' ++ name :: post) := by
      rw [heq, List.append_assoc, List.cons_append]
    rw [hsplit]
    exact .now hover hd' hend'
  | @later end_time names rest reading st s name hover h ih =>
    have hnames : R st (names.foldl (expire cfg env end_time) st) := by
      refine expire_names_rel hrefl htrans fun pre name post d heq hd hend => hretire _ name ?_
      rw [heq]
      exact .now hover hd hend
    exact htrans hnames (htrans (htable _ rest) (ih fun s name h =>
      hretire s name (.later hover h)))

theorem Expires.after (h : Expires cfg env ends reading st s name)
    (hretire : ∀ s name, R s (retire cfg env s name)) :
    R (retire cfg env s name) (expireAll cfg env ends reading st) := by
  have hexpire : ∀ end_time s name, R s (expire cfg env end_time s name) := by
    intro end_time s name
    unfold expire
    split
    · split
      · exact hretire s name
      · exact hrefl s
    · exact hrefl s
  induction h with
  | @now end_time pre post rest reading st name d hover hd hend =>
    unfold expireAll
    rw [if_pos hover, List.foldl_append, List.foldl_cons]
    have hfirst : expire cfg env end_time (pre.foldl (expire cfg env end_time) st) name =
        retire cfg env (pre.foldl (expire cfg env end_time) st) name := by
      rw [hend] at hd ⊢
      exact expire_eq hd
    rw [hfirst]
    refine htrans (Cascade.foldl_rel hrefl htrans (hexpire end_time) post _)
      (htrans (htable _ rest) ?_)
    exact expireAll_rel hrefl htrans htable fun s name _ => hretire s name
  | later hover h ih =>
    unfold expireAll
    rw [if_pos hover]
    exact ih

end

/-! ## The places -/

/-- The message cancels the deployment or finds its time over, in this state. -/
inductive Retires (cfg : ManagerSettings) (env : Surroundings) (st : DeploymentManager)
    (p : Publication) :
    DeploymentManager → String → Prop
  | cancelled {name : String} (hp : handlerOf p = some .deploymentCancelation)
    (hname : p.getStrAttr "deployment_name" = some name)
    (hthere : name ∈ Assoc.keys st.deployments) :
    Retires cfg env st p st name
  | expired {s : DeploymentManager} {name : String} (hp : handlerOf p = some .ttlTimeout)
    (h : Expires cfg env st.ttl_end_times 0 st s name) : Retires cfg env st p s name

/-- The message says that the actor of the deployment has exited. -/
structure Exits (p : Publication) (name : String) : Prop where
  handler : handlerOf p = some .lifetimeEvent
  exit : p.getStrAttr "type" = some "actor_exit"
  instance_id : p.getStrAttr "lifetime_instance_id" = some name

/-- The actor did not exit cleanly. -/
def Crashes (p : Publication) : Prop := ∃ reason, p.getStrAttr "exit_reason" = some reason ∧
    reason ≠ "clean_exit"

/-- The actor has crashed, and is not started again. -/
structure Exhausts (env : Surroundings) (st : DeploymentManager) (p : Publication) (name : String)
    (d : Deployment) :
    Prop where
  exits : Exits p name
  found : Assoc.find name st.deployments = some d
  inTime : Deployment.overdue d (env.now 0) = false
  crashes : Crashes p
  many : ¬ d.restarts < 3

/-- `_active_deployments--`. -/
def lessActive (st : DeploymentManager) : DeploymentManager :=
  { st with active_deployments := st.active_deployments - 1 }

/-- The message calls `remove_deployment`, in this state. -/
inductive Removes (cfg : ManagerSettings) (env : Surroundings) (st : DeploymentManager)
    (p : Publication) :
    DeploymentManager → String → Prop
  | retired {s : DeploymentManager} {name : String} {d : Deployment}
      (h : Retires cfg env st p s name)
    (hd : Assoc.find name s.deployments = some d) (hinactive : d.active = false) :
    Removes cfg env st p (deactivateDeployment cfg env s name).lessActive name
  | overdue {name : String} {d : Deployment} (hexits : Exits p name)
      (hd : Assoc.find name st.deployments = some d)
    (hover : Deployment.overdue d (env.now 0) = true) : Removes cfg env st p st name
  | exhausted {name : String} {d : Deployment} (h : Exhausts env st p name d) :
    Removes cfg env st p (deactivateDeployment cfg env (if d.active then st.lessActive else st)
      name) name

theorem retire_eq {d : Deployment} (hd : Assoc.find name st.deployments = some d) :
    retire cfg env st name =
    if d.active then (deactivateDeployment cfg env st name).lessActive
    else removeDeployment (deactivateDeployment cfg env st name).lessActive name := by
  unfold retire
  rw [hd]
  rfl

theorem retire_absent (hd : Assoc.find name st.deployments = none) :
    retire cfg env st name = st := by
  unfold retire
  rw [hd]

theorem crashed_exhausted {d : Deployment} (hmany : ¬ d.restarts < 3) : crashed cfg env st name d =
    removeDeployment (deactivateDeployment cfg env (if d.active then st.lessActive else st) name)
      name := by
  unfold crashed
  rw [if_neg hmany]
  rfl

/-! ## Who is lost -/

/-- No deployment is new. -/
def Within (st st' : DeploymentManager) : Prop :=
  ∀ name ∈ Assoc.keys st'.deployments, name ∈ Assoc.keys st.deployments

theorem Within.refl (st : DeploymentManager) : Within st st := fun _ h => h

theorem Within.trans {st₁ st₂ st₃ : DeploymentManager} (h : Within st₁ st₂) (h' : Within st₂ st₃) :
    Within st₁ st₃ :=
  fun name hname => h name (h' name hname)

theorem keys_removeDeployment (st : DeploymentManager) (name name' : String) :
    name' ∈ Assoc.keys (removeDeployment st name).deployments ↔ name ≠ name' ∧
    name' ∈ Assoc.keys st.deployments := by
  rw [Assoc.mem_keys_iff, Assoc.mem_keys_iff]
  cases hd : Assoc.find name st.deployments with
  | none =>
    have hsame : removeDeployment st name = st := by
      unfold removeDeployment
      rw [hd]
    rw [hsame]
    refine ⟨fun h => ⟨?_, h⟩, fun h => h.2⟩
    rintro rfl
    obtain ⟨d, hd'⟩ := h
    rw [hd] at hd'
    exact absurd hd' (by simp)
  | some d =>
    rw [(removeDeployment_tables hd).1, Assoc.find_erase]
    split
    · rename_i heq
      simp [heq]
    · rename_i hne
      simp [hne]

theorem keys_deactivate (cfg : ManagerSettings) (env : Surroundings) (st : DeploymentManager)
    (name : String) :
    Assoc.keys (deactivateDeployment cfg env st name).deployments = Assoc.keys st.deployments :=
  (declined_deactivate cfg env st name).1.frame.keys

theorem keys_retire {d : Deployment} (hd : Assoc.find name st.deployments = some d)
    (name' : String) :
    name' ∈ Assoc.keys (retire cfg env st name).deployments ↔
      name' ∈ Assoc.keys st.deployments ∧ (name = name' → d.active = true) := by
  have hkeys : Assoc.keys (deactivateDeployment cfg env st name).lessActive.deployments =
      Assoc.keys st.deployments :=
    keys_deactivate cfg env st name
  rw [retire_eq hd]
  cases hactive : d.active with
  | true => simp [hkeys]
  | false =>
    rw [if_neg (by simp), keys_removeDeployment, hkeys]
    simp [and_comm]

theorem within_retire (st : DeploymentManager) (name : String) :
    Within st (retire cfg env st name) := by
  intro name' hname'
  cases hd : Assoc.find name st.deployments with
  | none => rwa [retire_absent hd] at hname'
  | some d => exact ((keys_retire hd name').mp hname').1

theorem within_expireAll (ends : List (UInt32 × List String)) (reading : Nat)
    (st : DeploymentManager) :
    Within st (expireAll cfg env ends reading st) :=
  expireAll_rel Within.refl Within.trans (fun st _ => Within.refl st) fun s name _ =>
    within_retire s name

theorem Expires.there (h : Expires cfg env ends reading st s name) :
    name ∈ Assoc.keys s.deployments := by
  induction h with
  | now hover hd hend => exact Assoc.mem_keys_iff.mpr ⟨_, hd⟩
  | later hover h ih => exact ih

theorem Retires.there (h : Retires cfg env st p s name) : name ∈ Assoc.keys s.deployments := by
  cases h with
  | cancelled hp hname hthere => exact hthere
  | expired hp h => exact h.there

theorem Expires.of_lost (hthere : name ∈ Assoc.keys st.deployments)
    (hlost : name ∉ Assoc.keys (expireAll cfg env ends reading st).deployments) :
    ∃ s d, Expires cfg env ends reading st s name ∧ Assoc.find name s.deployments = some d ∧
    d.active = false := by
  by_contra hnone
  refine hlost (expireAll_rel (R := fun st st' => name ∈ Assoc.keys st.deployments →
    name ∈ Assoc.keys st'.deployments) (fun _ h => h) (fun h h' hname => h' (h hname))
      (fun _ _ h => h) (fun s name' h hname => ?_) hthere)
  obtain ⟨d, hd⟩ := Assoc.mem_keys_iff.mp h.there
  refine (keys_retire hd name).mpr ⟨hname, ?_⟩
  rintro rfl
  cases hactive : d.active with
  | true => rfl
  | false => exact absurd ⟨s, d, h, hd, hactive⟩ hnone

theorem keys_modify (f : Deployment → Deployment) :
    Assoc.keys (st.modify name f).deployments = Assoc.keys st.deployments := by
  cases hd : Assoc.find name st.deployments with
  | none =>
    unfold modify
    rw [hd]
  | some d =>
    rw [modify_eq hd]
    show Assoc.keys (Assoc.put name (f d) st.deployments) = _
    rw [Assoc.keys_put, if_pos (Assoc.mem_keys_iff.mpr ⟨d, hd⟩)]

theorem keys_startDeployment (executor : ExecutorIdentifier) (delay : UInt32) :
    Assoc.keys (st.startDeployment name executor delay).deployments =
      Assoc.keys st.deployments := by
  unfold startDeployment
  split
  · rename_i d _
    have hmodify : Assoc.keys ((st.emit (.delayedPublish (spawnMessage d executor) delay)).modify
        name fun d =>
        { d with restarts := d.restarts + 1 }).deployments = Assoc.keys st.deployments :=
          keys_modify _
    exact hmodify
  · rfl

theorem keys_replaceDeployment (d : Deployment) (r : Request) (executors : ExecutorList) :
    Assoc.keys (replaceDeployment cfg env st d r executors).deployments =
      Assoc.keys st.deployments := by
  unfold replaceDeployment
  dsimp only
  rw [keys_startDeployment, (grown_increment cfg env _ _).frame.keys]
  unfold exchangeType
  dsimp only
  rw [keys_modify, (declined_decrement cfg env _ _).frame.keys, stopDeployment_deployments]

theorem keys_updateDeployment (d : Deployment) (r : Request) (end_time : UInt32)
    (executors : ExecutorList) :
    Assoc.keys (updateDeployment cfg env st d r end_time executors).deployments =
      Assoc.keys st.deployments := by
  have hreplaced : Assoc.keys (if r.replaces d then replaceDeployment cfg env st d r executors
      else st).deployments =
      Assoc.keys st.deployments := by
    split
    · exact keys_replaceDeployment d r executors
    · rfl
  have hend : Assoc.keys ((if r.replaces d then replaceDeployment cfg env st d r executors
      else st).modify r.name fun d => { d with lifetime_end := end_time }).deployments =
        Assoc.keys st.deployments :=
    (keys_modify _).trans hreplaced
  unfold updateDeployment
  dsimp only
  split
  · exact hend
  · exact hend

theorem frame_activate (cfg : ManagerSettings) (env : Surroundings) {d : Deployment}
    (hd : Assoc.find name st.deployments = some d) (executor : ExecutorIdentifier) :
    Frame st (activateDeployment cfg env st name executor) := by
  have hgrown := grown_increment cfg env st d.actor_type
  obtain ⟨d', -, -, hstarted⟩ := hgrown.started cfg env hd executor
  unfold activateDeployment activateWith
  rw [hd]
  exact hgrown.frame.trans hstarted.frame

theorem keys_insertDeployment (r : Request) (end_time : UInt32) (executors : ExecutorList)
    (name : String) :
    name ∈ Assoc.keys (insertDeployment cfg env st r end_time executors).deployments ↔
      name = r.name ∨ name ∈ Assoc.keys st.deployments := by
  have hrecorded : name ∈ Assoc.keys (recordDeployment cfg env st r end_time).deployments ↔
      name = r.name ∨ name ∈ Assoc.keys st.deployments := by
    show name ∈ Assoc.keys (Assoc.put r.name _ st.deployments) ↔ _
    rw [Assoc.mem_keys_iff, Assoc.mem_keys_iff, Assoc.find_put]
    split
    · rename_i heq
      simp [heq]
    · rename_i hne
      simp [Ne.symm hne]
  rw [← hrecorded]
  unfold insertDeployment
  dsimp only
  split
  · exact iff_of_eq (congrArg (name ∈ ·) (frame_activate cfg env (Assoc.find_put_self _ _ _)
      executors.front).keys)
  · rfl

theorem keys_deploy (r : Request) (executors : ExecutorList) (name : String) :
    name ∈ Assoc.keys (deploy cfg env st r executors).deployments ↔ name = r.name ∨
    name ∈ Assoc.keys st.deployments := by
  obtain ⟨ends, effects, hdeploy⟩ := deploy_tables cfg env st r executors
  rw [hdeploy]
  cases hd : Assoc.find r.name st.deployments with
  | none => exact keys_insertDeployment r _ executors name
  | some d =>
    refine (iff_of_eq (congrArg (name ∈ ·) (keys_updateDeployment d r _ executors))).trans
      ⟨Or.inr, ?_⟩
    rintro (rfl | hname)
    · exact Assoc.mem_keys_iff.mpr ⟨d, hd⟩
    · exact hname

theorem keys_crashed {d : Deployment} (hfew : d.restarts < 3) :
    Assoc.keys (crashed cfg env st name d).deployments = Assoc.keys st.deployments := by
  unfold crashed
  rw [if_pos hfew]
  split
  · exact keys_startDeployment _ _
  · rfl

/-! ## Messages that remove -/

theorem receive_cancels (hp : handlerOf p = some .deploymentCancelation)
    (hname : p.getStrAttr "deployment_name" = some name) :
    receive cfg env st p = some (retire cfg env { st with effects := [] } name) := by
  unfold receive
  rw [hp]
  show receiveDeploymentCancelation cfg env { st with effects := [] } p = _
  unfold receiveDeploymentCancelation
  rw [if_pos (Publication.hasAttr_of_getStrAttr hname), hname]
  rfl

theorem receive_expires (hp : handlerOf p = some .ttlTimeout) :
    receive cfg env st p = some (receiveTtlTimeout cfg env { st with effects := [] }) := by
  unfold receive
  rw [hp]
  rfl

theorem Removes.lost {st' : DeploymentManager}
    (h : Removes cfg env { st with effects := [] } p s name)
    (hstep : receive cfg env st p = some st') : name ∉ Assoc.keys st'.deployments := by
  have hretired : ∀ {s name d}, Assoc.find name s.deployments = some d → d.active = false →
      name ∉ Assoc.keys (retire cfg env s name).deployments := by
    intro s name d hd hinactive hkept
    have hactive := ((keys_retire hd name).mp hkept).2 rfl
    rw [hinactive] at hactive
    exact absurd hactive (by simp)
  have hremoved : ∀ s name, name ∉ Assoc.keys (removeDeployment s name).deployments :=
    fun s name hkept => ((keys_removeDeployment s name name).mp hkept).1 rfl
  cases h with
  | @retired s name d h hd hinactive =>
    cases h with
    | cancelled hp hname hthere =>
      rw [receive_cancels hp hname] at hstep
      rw [← Option.some.inj hstep]
      exact hretired hd hinactive
    | expired hp h =>
      rw [receive_expires hp] at hstep
      rw [← Option.some.inj hstep]
      have hafter : Within (retire cfg env s name) (receiveTtlTimeout cfg env { st with effects :=
        [] }) :=
        h.after Within.refl Within.trans (fun st _ => Within.refl st) within_retire
      exact fun hkept => hretired hd hinactive (hafter name hkept)
  | @overdue name d hexits hd hover =>
    have hd' : Assoc.find name st.deployments = some d := hd
    rw [receive_exit hexits.handler hexits.exit hexits.instance_id hd', if_pos hover] at hstep
    rw [← Option.some.inj hstep]
    exact hremoved _ name
  | @exhausted name d h =>
    obtain ⟨reason, hreason, hcrash⟩ := h.crashes
    have hd' : Assoc.find name st.deployments = some d := h.found
    obtain ⟨hp, hexit, hname⟩ := h.exits
    rw [receive_exit hp hexit hname hd', if_neg (by rw [h.inTime]; simp), hreason, Option.map_some,
      if_pos hcrash, crashed_exhausted h.many] at hstep
    rw [← Option.some.inj hstep]
    exact hremoved _ name

theorem Received.removes (h : Received cfg env st p st') (hthere : name ∈ Assoc.keys st.deployments)
    (hlost : name ∉ Assoc.keys st'.deployments) : ∃ s, Removes cfg env st p s name := by
  cases h with
  | quiet hquiet =>
    rw [hquiet.deployments] at hlost
    exact absurd hthere hlost
  | deployed hp hr => exact absurd ((keys_deploy _ _ name).mpr (Or.inr hthere)) hlost
  | @cancelled name' hp hname =>
    cases hd : Assoc.find name' st.deployments with
    | none =>
      rw [retire_absent hd] at hlost
      exact absurd hthere hlost
    | some d =>
      rw [keys_retire hd] at hlost
      have heq : name' = name := by
        by_contra hne
        exact hlost ⟨hthere, fun h => absurd h hne⟩
      subst heq
      cases hactive : d.active with
      | true => exact absurd ⟨hthere, fun _ => hactive⟩ hlost
      | false => exact ⟨_, .retired (.cancelled hp hname hthere) hd hactive⟩
  | expired hp =>
    obtain ⟨s, d, hexpires, hd, hinactive⟩ := Expires.of_lost hthere hlost
    exact ⟨_, .retired (.expired hp hexpires) hd hinactive⟩
  | @overdue name' d hp hexit hname hd hover =>
    rw [keys_removeDeployment] at hlost
    have heq : name' = name := by
      by_contra hne
      exact hlost ⟨hne, hthere⟩
    subst heq
    exact ⟨_, .overdue ⟨hp, hexit, hname⟩ hd hover⟩
  | @crashed name' d reason hp hexit hname hd hover hreason hcrash =>
    by_cases hmany : d.restarts < 3
    · rw [keys_crashed hmany] at hlost
      exact absurd hthere hlost
    · rw [crashed_exhausted hmany, keys_removeDeployment, keys_deactivate] at hlost
      have hkeys : name ∈ Assoc.keys (if d.active then st.lessActive else st).deployments := by
        split <;> exact hthere
      have heq : name' = name := by
        by_contra hne
        exact hlost ⟨hne, hkeys⟩
      subst heq
      exact ⟨_, .exhausted ⟨⟨hp, hexit, hname⟩, hd, hover, ⟨reason, hreason, hcrash⟩, hmany⟩⟩
  | registered hp hcommand htype =>
    rw [(grown_increment cfg env st _).frame.keys] at hlost
    exact absurd hthere hlost
  | deregistered hp hcommand htype =>
    rw [(declined_decrement cfg env st _).frame.keys] at hlost
    exact absurd hthere hlost

theorem lost_iff_removes (hstep : receive cfg env st p = some st')
    (hthere : name ∈ Assoc.keys st.deployments) :
    name ∉ Assoc.keys st'.deployments ↔ ∃ s, Removes cfg env { st with effects := [] } p s name :=
  ⟨fun hlost => (receive_cases hstep).removes hthere hlost, fun ⟨_, h⟩ => h.lost hstep⟩

/-! ## The assertion -/

/-- What is counted of a type besides its active deployments. -/
def surplus (st : DeploymentManager) (t : String) : Int := st.count t - st.activeCount t

/-- The assertion of `remove_deployment` holds, and the removal leaves no actor of the deployment
counted. -/
structure Sound (st : DeploymentManager) (name : String) : Prop where
  inactive : ¬ st.IsActive name
  uncounted : ∀ t, (removeDeployment st name).surplus t = st.surplus t

theorem sound_of_inactive (hunique : (Assoc.keys st.deployments).Nodup)
    (hinactive : ¬ st.IsActive name) :
    Sound st name := by
  refine ⟨hinactive, fun t => ?_⟩
  cases hd : Assoc.find name st.deployments with
  | none =>
    unfold removeDeployment
    rw [hd]
  | some d =>
    obtain ⟨hdeployments, -, htypes, -, -⟩ := removeDeployment_tables hd
    have herase := Assoc.countP_erase (counts t) hunique hd
    rw [counts_eq_false fun hactive => absurd ⟨d, hd, hactive⟩ hinactive, Bool.toNat_false,
      Nat.add_zero] at herase
    unfold surplus activeCount
    rw [count_of_tables htypes, hdeployments, herase]

/-- An actor has exited after the end of its deployment, which is still active. -/
def ExitsLate (env : Surroundings) (st : DeploymentManager) (p : Publication) : Prop :=
  ∃ name d, Exits p name ∧ Assoc.find name st.deployments = some d ∧
    Deployment.overdue d (env.now 0) = true ∧
    d.active = true

theorem Removes.inactive (h : Removes cfg env st p s name) (hlate : ¬ ExitsLate env st p) :
    ¬ s.IsActive name := by
  cases h with
  | @retired s name d h hd hinactive => exact (declined_deactivate cfg env s name).2
  | @overdue name d hexits hd hover =>
    rintro ⟨d', hd', hactive⟩
    obtain rfl := Option.some.inj (hd.symm.trans hd')
    exact hlate ⟨name, d, hexits, hd, hover, hactive⟩
  | exhausted h => exact (declined_deactivate cfg env _ _).2

theorem Removes.unique (h : Removes cfg env st p s name) (hinv : Inv st) :
    (Assoc.keys s.deployments).Nodup := by
  cases h with
  | @retired s name d h hd hinactive =>
    show (Assoc.keys (deactivateDeployment cfg env s name).deployments).Nodup
    rw [keys_deactivate]
    cases h with
    | cancelled hp hname hthere => exact hinv.unique
    | expired hp h =>
      have hreached : Inv st → Inv s := h.reached (R := fun s s' => Inv s → Inv s') (fun _ h => h)
        (fun h h' hinv => h' (h hinv)) (fun _ _ h => h.of_eq rfl rfl rfl) fun s name _ h =>
          h.retire name
      exact (hreached hinv).unique
  | overdue hexits hd hover => exact hinv.unique
  | @exhausted name d h =>
    rw [keys_deactivate]
    split <;> exact hinv.unique

/-- In a run, every deployment that is removed is inactive and leaves nothing counted exactly if no
actor exits between the end of its deployment and the wakeup for it. -/
theorem removals_sound_iff {messages : List (Surroundings × Publication)} :
    (∀ pre m post before s name, messages = pre ++ m :: post → run cfg pre = some before →
      Removes cfg m.1 { before with effects := [] } m.2 s name → Sound s name) ↔
    ∀ pre m post before, messages = pre ++ m :: post → run cfg pre = some before →
    ¬ ExitsLate m.1 before m.2 := by
  constructor
  · intro h pre m post before heq hrun hlate
    obtain ⟨name, d, hexits, hd, hover, hactive⟩ := hlate
    exact (h pre m post before _ name heq hrun (.overdue hexits hd hover)).inactive ⟨d, hd, hactive⟩
  · intro h pre m post before s name heq hrun hremoves
    have hinv : Inv { before with effects := [] } := (inv_run hrun).of_eq rfl rfl rfl
    exact sound_of_inactive (hremoves.unique hinv)
      (hremoves.inactive (h pre m post before heq hrun))

def surroundingsAt (now : UInt32) : Surroundings := { plainSurroundings with now := fun _ => now }

def timedMessage (name t required : String) (ttl : Int32) : Publication :=
  (deploymentMessage name t "1" required).setAttr "deployment_ttl" (.int ttl)

/-- A deployment ends at 15, its actor exits at 16, and the wakeup is due at 25. -/
theorem active_removed : ∃ before s after,
    run nodeSettings [(surroundingsAt 5, executorMessage),
      (surroundingsAt 5, timedMessage "d" "u" "" 10)] =
    some before ∧
    before.effects.getLast? = some (.enqueueWakeup 20 "lifetime_end") ∧
    Removes nodeSettings (surroundingsAt 16) { before with effects := [] }
    (exitEvent "d" "clean_exit") s "d" ∧
    s.IsActive "d" ∧
    receive nodeSettings (surroundingsAt 16) before (exitEvent "d" "clean_exit") = some after ∧
    after.deployments = [] ∧ s.surplus "u" = 0 ∧ after.surplus "u" = 1 :=
  ⟨_, _, _, rfl, rfl, .overdue ⟨rfl, rfl, rfl⟩ rfl rfl, ⟨_, rfl, rfl⟩, rfl, rfl, rfl, rfl⟩

end DeploymentManager

end UActor
