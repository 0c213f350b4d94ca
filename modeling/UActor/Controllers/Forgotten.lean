import UActor.Controllers.Confluence
import UActor.Controllers.Removals

/-!
# Deployments that are forgotten

A deployment that ends while it is active waits for the exit of its actor. The exit removes it if
the end time is past or if the actor has crashed too often, and leaves it in the tables otherwise,
whichever way it has ended.
-/

namespace UActor

namespace DeploymentManager

variable {cfg : ManagerSettings} {env : Surroundings} {st st' : DeploymentManager} {p : Publication}
  {name : String}

/-! ## Deployments that are not there -/

/-- The run goes on from a state. -/
def onwards (cfg : ManagerSettings) (st : DeploymentManager)
    (messages : List (Surroundings × Publication)) :
    Option DeploymentManager :=
  messages.foldlM (fun st m => receive cfg m.1 st m.2) st

/-- The message was handled as one about a deployment that is new: its record, its place in the
index, and its start if its requirements hold. -/
structure New (cfg : ManagerSettings) (env : Surroundings) (st : DeploymentManager) (r : Request)
    (st' : DeploymentManager) : Prop where
  recorded : ∃ d, Assoc.find r.name st'.deployments = some d ∧
    d.fixed = (r.deployment (r.endTime env) (env.subscribe (cancelationFilter cfg r.name))).fixed
  indexed : ∀ t ∈ stringSplit r.required_actors, r.name ∈ Multimap.members t st'.dependencies
  active : st'.IsActive r.name ↔ ∀ t ∈ stringSplit r.required_actors, st.hasType t = true
  spawned : (∃ x ∈ st'.spawns, spawnedName x.1 = some r.name) ↔ ∀ t ∈ stringSplit r.required_actors,
    st.hasType t = true

/-- Nothing refers to the deployment, and the next message that asks for it finds it new. -/
structure Forgotten (cfg : ManagerSettings) (st : DeploymentManager) (name : String) : Prop where
  absent : name ∉ Assoc.keys st.deployments
  unindexed : ∀ t, name ∉ Multimap.members t st.dependencies
  anew : ∀ messages later env p r executors after, onwards cfg st messages = some later →
    (∀ pre m post before, messages = pre ++ m :: post → onwards cfg st pre = some before →
      ¬ Redeploys before m.2 name) →
    handlerOf p = some .deployment → later.readDeployment p = some (some (r, executors)) →
    r.name = name →
    receive cfg env later p = some after → New cfg env later r after

theorem Received.there (h : Received cfg env st p st')
    (hthere : name ∈ Assoc.keys st'.deployments) :
    name ∈ Assoc.keys st.deployments ∨ Redeploys st p name := by
  cases h with
  | quiet hquiet =>
    rw [hquiet.deployments] at hthere
    exact Or.inl hthere
  | @deployed r executors hp hr =>
    rcases (keys_deploy r executors name).mp hthere with rfl | hthere
    · exact Or.inr ⟨hp, r, executors, hr, rfl⟩
    · exact Or.inl hthere
  | cancelled hp hname => exact Or.inl (within_retire st _ name hthere)
  | expired hp => exact Or.inl (within_expireAll _ _ st name hthere)
  | overdue hp hexit hname hd hover => exact Or.inl ((keys_removeDeployment st _ name).mp hthere).2
  | @crashed name' d reason hp hexit hname hd hover hreason hcrash =>
    refine Or.inl ?_
    by_cases hmany : d.restarts < 3
    · rwa [keys_crashed hmany] at hthere
    · rw [crashed_exhausted hmany, keys_removeDeployment, keys_deactivate] at hthere
      obtain ⟨-, hthere⟩ := hthere
      split at hthere
      · exact hthere
      · exact hthere
  | registered hp hcommand htype =>
    rw [(grown_increment cfg env st _).frame.keys] at hthere
    exact Or.inl hthere
  | deregistered hp hcommand htype =>
    rw [(declined_decrement cfg env st _).frame.keys] at hthere
    exact Or.inl hthere

theorem receive_there (hstep : receive cfg env st p = some st')
    (hthere : name ∈ Assoc.keys st'.deployments) :
    name ∈ Assoc.keys st.deployments ∨ Redeploys st p name :=
  (receive_cases hstep).there hthere

theorem deploy_recorded (cfg : ManagerSettings) (env : Surroundings) {r : Request}
    (executors : ExecutorList) (hnew : Assoc.find r.name st.deployments = none) :
    ∃ d, Assoc.find r.name (deploy cfg env st r executors).deployments = some d ∧
      d.fixed = (r.deployment (r.endTime env)
        (env.subscribe (cancelationFilter cfg r.name))).fixed := by
  have hd : Assoc.find r.name (recordDeployment cfg env st r (r.endTime env)).deployments =
      some (r.deployment (r.endTime env) (env.subscribe (cancelationFilter cfg r.name))) :=
        Assoc.find_put_self _ _ _
  obtain ⟨ends, effects, hdeploy⟩ := deploy_tables cfg env st r executors
  rw [hdeploy, hnew]
  unfold insertDeployment
  dsimp only
  split
  · exact (frame_activate cfg env hd executors.front).find hd
  · exact ⟨_, hd, rfl⟩

theorem new_of_absent (hinv : Inv st) (hempty : st.spawns = []) {r : Request}
    (executors : ExecutorList) (hnew : Assoc.find r.name st.deployments = none) :
    New cfg env st r (deploy cfg env st r executors) := by
  obtain ⟨d, hd, hfixed⟩ := deploy_recorded cfg env executors hnew
  have hrecorded : (recordDeployment cfg env st r (r.endTime env)).spawns = [] :=
    (spawns_recordDeployment r _).trans hempty
  have hrequired : (recordDeployment cfg env st r (r.endTime env)).requirementsCheck
      (r.deployment (r.endTime env) (env.subscribe (cancelationFilter cfg r.name))) = true ↔
      ∀ t ∈ stringSplit r.required_actors, st.hasType t = true := requirementsCheck_iff
  have hboth : ((deploy cfg env st r executors).IsActive r.name ↔
    ∀ t ∈ stringSplit r.required_actors, st.hasType t = true) ∧
      ((∃ x ∈ (deploy cfg env st r executors).spawns, spawnedName x.1 = some r.name) ↔
        ∀ t ∈ stringSplit r.required_actors, st.hasType t = true) := by
    rw [← hrequired]
    by_cases hreq : (recordDeployment cfg env st r (r.endTime env)).requirementsCheck
        (r.deployment (r.endTime env) (env.subscribe (cancelationFilter cfg r.name))) = true
    · obtain ⟨d', -, hname, hfollows⟩ := deploy_inserted executors hnew hreq
      refine ⟨iff_of_true ((hfollows.active r.name).mpr (Or.inr (by simp))) hreq,
        iff_of_true ⟨(spawnMessage d' executors.front, 0), ?_, ?_⟩ hreq⟩
      · rw [hfollows.spawns]
        exact List.mem_append_right _ (List.mem_singleton.mpr rfl)
      · rw [spawnedName_spawnMessage, hname]
    · obtain ⟨halike, -⟩ := deploy_waiting executors hnew hreq
      refine ⟨iff_of_false ?_ hreq, iff_of_false ?_ hreq⟩
      · rw [halike.active]
        rintro ⟨d', hd', hactive⟩
        change Assoc.find r.name (Assoc.put r.name _ st.deployments) = some d' at hd'
        rw [Assoc.find_put_self] at hd'
        rw [← Option.some.inj hd'] at hactive
        exact absurd hactive (by simp [Request.deployment])
      · rw [halike.spawns, hrecorded]
        simp
  refine ⟨⟨d, hd, hfixed⟩, fun t ht => ?_, hboth.1, hboth.2⟩
  refine ((hinv.deploy r executors).index t r.name).mpr ⟨d, hd, ?_⟩
  rw [Deployment.required_of_fixed hfixed]
  exact ht

theorem forgotten_of_absent (hinv : Inv st) (habsent : name ∉ Assoc.keys st.deployments) :
    Forgotten cfg st name := by
  refine ⟨habsent, fun t hmem => ?_, ?_⟩
  · obtain ⟨d, hd, -⟩ := (hinv.index t name).mp hmem
    exact habsent (Assoc.mem_keys_iff.mpr ⟨d, hd⟩)
  · intro messages later env p r executors after hrun hquiet hp hr hname hstep
    have hlater : Inv later ∧ name ∉ Assoc.keys later.deployments := by
      refine Runs.invariant_of (fun st => Inv st ∧ name ∉ Assoc.keys st.deployments)
        (fun st m => ¬ Redeploys st m.2 name) ⟨hinv, habsent⟩ ?_ hquiet hrun
      rintro st m st' ⟨hinv, habsent⟩ hnot hstep
      refine ⟨hinv.receive hstep, fun hthere => ?_⟩
      rcases receive_there hstep hthere with hbefore | hredeploys
      · exact habsent hbefore
      · exact hnot hredeploys
    obtain ⟨hinv', habsent'⟩ := hlater
    subst hname
    have hr' : readDeployment { later with effects := [] } p = some (some (r, executors)) := hr
    rw [receive_deployed hp hr'] at hstep
    rw [← Option.some.inj hstep]
    have hinv₀ : Inv { later with effects := [] } := hinv'.of_eq rfl rfl rfl
    obtain ⟨hrecorded, hindexed, hactive, hspawned⟩ :=
      new_of_absent hinv₀ rfl executors (Assoc.find_eq_none.mpr habsent')
    exact ⟨hrecorded, hindexed, hactive, hspawned⟩

/-! ## Exits -/

/-- The deployment was cancelled or its time is over, and nobody has asked for it since. -/
inductive EndedSince (cfg : ManagerSettings) : List (Surroundings × Publication) → String → Prop
  | now {messages : List (Surroundings × Publication)} {m : Surroundings × Publication}
      {before after : DeploymentManager}
    {name : String} (hrun : run cfg messages = some before)
    (hstep : receive cfg m.1 before m.2 = some after)
    (hthere : name ∈ Assoc.keys before.deployments) (hends : Ends before after m.2 name) :
    EndedSince cfg (messages ++ [m]) name
  | still {messages : List (Surroundings × Publication)} {m : Surroundings × Publication}
      {before after : DeploymentManager}
    {name : String} (hended : EndedSince cfg messages name) (hrun : run cfg messages = some before)
    (hstep : receive cfg m.1 before m.2 = some after) (hquiet : ¬ Redeploys before m.2 name) :
    EndedSince cfg (messages ++ [m]) name

theorem run_snoc {messages : List (Surroundings × Publication)} {m : Surroundings × Publication}
    (hrun : run cfg messages = some st) (hstep : receive cfg m.1 st m.2 = some st') :
    run cfg (messages ++ [m]) = some st' := by
  unfold run at hrun ⊢
  rw [Runs.foldlM_snoc, hrun]
  exact hstep

theorem EndedSince.waits {messages : List (Surroundings × Publication)}
    (h : EndedSince cfg messages name) (hrun : run cfg messages = some st)
    (hthere : name ∈ Assoc.keys st.deployments) : Ended cfg messages name := by
  induction h generalizing st with
  | now hrun' hstep _ hends =>
    obtain rfl := Option.some.inj ((run_snoc hrun' hstep).symm.trans hrun)
    exact .now hrun' hstep hends hthere
  | still hended hrun' hstep hquiet ih =>
    obtain rfl := Option.some.inj ((run_snoc hrun' hstep).symm.trans hrun)
    have hbefore := (receive_there hstep hthere).resolve_right hquiet
    exact .still (ih hrun' hbefore) hrun' hstep hquiet hthere

theorem Ended.there {messages : List (Surroundings × Publication)} (h : Ended cfg messages name)
    (hrun : run cfg messages = some st) : name ∈ Assoc.keys st.deployments := by
  cases h with
  | now hrun' hstep hends hkept =>
    obtain rfl := Option.some.inj ((run_snoc hrun' hstep).symm.trans hrun)
    exact hkept
  | still hended hrun' hstep hquiet hkept =>
    obtain rfl := Option.some.inj ((run_snoc hrun' hstep).symm.trans hrun)
    exact hkept

/-- The exit of its actor removes the deployment: its time is over, or the actor has crashed too
often. -/
def Completes (env : Surroundings) (st : DeploymentManager) (p : Publication) (name : String) :
    Prop :=
  ∃ d, Assoc.find name st.deployments = some d ∧
    (Deployment.overdue d (env.now 0) = true ∨ (Crashes p ∧ ¬ d.restarts < 3))

theorem completes_iff (hexits : Exits p name) (hthere : name ∈ Assoc.keys st.deployments)
    (hstep : receive cfg env st p = some st') :
    name ∉ Assoc.keys st'.deployments ↔ Completes env st p name := by
  have hp := hexits.handler
  have hinstance := hexits.instance_id
  rw [lost_iff_removes hstep hthere]
  constructor
  · rintro ⟨s, h⟩
    cases h with
    | retired h _ _ =>
      cases h with
      | cancelled hp' _ _ => exact absurd (hp.symm.trans hp') (by decide)
      | expired hp' _ => exact absurd (hp.symm.trans hp') (by decide)
    | overdue _ hd hover => exact ⟨_, hd, Or.inl hover⟩
    | exhausted h => exact ⟨_, h.found, Or.inr ⟨h.crashes, h.many⟩⟩
  · rintro ⟨d, hd, hcause⟩
    cases hover : Deployment.overdue d (env.now 0) with
    | true => exact ⟨_, .overdue hexits hd hover⟩
    | false =>
      obtain ⟨hcrashes, hmany⟩ := hcause.resolve_left (by rw [hover]; simp)
      exact ⟨_, .exhausted ⟨hexits, hd, hover, hcrashes, hmany⟩⟩

/-- When the actor of a deployment that has ended exits, the deployment is forgotten exactly if it
was removed before, its time is over, or its actor has crashed too often. -/
theorem ended_forgotten_iff {messages : List (Surroundings × Publication)}
    (hended : EndedSince cfg messages name) (hrun : run cfg messages = some st)
    (hexits : Exits p name) (hstep : receive cfg env st p = some st') :
    Forgotten cfg st' name ↔ (Ended cfg messages name → Completes env st p name) := by
  constructor
  · intro h hwaits
    exact (completes_iff hexits (hwaits.there hrun) hstep).mp h.absent
  · intro h
    refine forgotten_of_absent ((inv_run hrun).receive hstep) ?_
    by_cases hthere : name ∈ Assoc.keys st.deployments
    · exact (completes_iff hexits hthere hstep).mpr (h (hended.waits hrun hthere))
    · intro hafter
      rcases receive_there hstep hafter with hbefore | ⟨hp, -⟩
      · exact hthere hbefore
      · exact absurd (hexits.handler.symm.trans hp) (by decide)

def wakeupMessage : Publication :=
    ⟨[("type", .str "wakeup"), ("wakeup_id", .str "lifetime_end")], by decide⟩

/-- A deployment that ends at 15 and is taken down at 26. -/
def expiredDeployment : List (Surroundings × Publication) :=
  [(surroundingsAt 5, executorMessage), (surroundingsAt 5, timedMessage "d" "u" "" 10)] ++
    [(surroundingsAt 26, wakeupMessage)]

theorem expired_forgotten : ∃ st after, run nodeSettings expiredDeployment = some st ∧
    Assoc.keys st.deployments = ["d"] ∧
    receive nodeSettings (surroundingsAt 27) st (exitEvent "d" "clean_exit") = some after ∧
    Forgotten nodeSettings after "d" := by
  obtain ⟨before, st, hbefore, hstep, hthere, hends⟩ : ∃ before st,
      run nodeSettings [(surroundingsAt 5, executorMessage),
        (surroundingsAt 5, timedMessage "d" "u" "" 10)] =
      some before ∧
      receive nodeSettings (surroundingsAt 26) before wakeupMessage = some st ∧
      "d" ∈ Assoc.keys before.deployments ∧ Ends before st wakeupMessage "d" :=
    ⟨_, _, rfl, rfl, List.mem_cons_self, Or.inr ⟨rfl, _, _, rfl, rfl, List.mem_cons_self, rfl⟩⟩
  obtain ⟨last, hrun, hkeys, after, hafter, hcompletes⟩ :
      ∃ last, run nodeSettings expiredDeployment = some last ∧
      Assoc.keys last.deployments = ["d"] ∧ ∃ after,
      receive nodeSettings (surroundingsAt 27) last (exitEvent "d" "clean_exit") = some after ∧
      Completes (surroundingsAt 27) last (exitEvent "d" "clean_exit") "d" :=
        ⟨_, rfl, rfl, _, rfl, _, rfl, Or.inl rfl⟩
  have hended : EndedSince nodeSettings expiredDeployment "d" := .now hbefore hstep hthere hends
  exact ⟨last, after, hrun, hkeys, hafter,
    (ended_forgotten_iff hended hrun ⟨rfl, rfl, rfl⟩ hafter).mpr fun _ => hcompletes⟩

/-- A deployment that is cancelled. -/
def cancelledDeployment : List (Surroundings × Publication) :=
  inOrder [executorMessage, registerMessage "t", deploymentMessage "d" "u" "1" "t"] ++
    [(plainSurroundings, cancelationMessage "d")]

/-- A deployment that is cancelled stays when its actor exits, and is not started again when it is
asked for. -/
theorem cancelled_not_forgotten :
    ∃ st after again, EndedSince nodeSettings cancelledDeployment "d" ∧
    run nodeSettings cancelledDeployment = some st ∧ Exits (exitEvent "d" "clean_exit") "d" ∧
    receive nodeSettings plainSurroundings st (exitEvent "d" "clean_exit") = some after ∧
    Assoc.keys after.deployments = ["d"] ∧ Multimap.members "t" after.dependencies = ["d"] ∧
    ¬ Forgotten nodeSettings after "d" ∧
    receive nodeSettings plainSurroundings after (deploymentMessage "d" "u" "1" "t") = some again ∧
    again.hasType "t" = true ∧ again.spawns = [] ∧
    (Assoc.find "d" again.deployments).map Deployment.active = some false := by
  obtain ⟨before, after, hbefore, hstep, hthere⟩ : ∃ before after,
      run nodeSettings (inOrder [executorMessage, registerMessage "t", deploymentMessage "d" "u"
        "1" "t"]) =
      some before ∧
      receive nodeSettings plainSurroundings before (cancelationMessage "d") = some after ∧
      "d" ∈ Assoc.keys before.deployments := ⟨_, _, rfl, rfl, List.mem_cons_self⟩
  have hended : EndedSince nodeSettings cancelledDeployment "d" :=
    .now hbefore hstep hthere (Or.inl ⟨rfl, rfl⟩)
  refine ⟨_, _, _, hended, rfl, ⟨rfl, rfl, rfl⟩, rfl, rfl, rfl, ?_, rfl, rfl, rfl, rfl⟩
  intro h
  exact h.absent List.mem_cons_self

end DeploymentManager

end UActor
