import Mathlib.Data.List.Perm.Basic
import Mathlib.Logic.Function.Iterate
import UActor.Controllers.Spawns
import UActor.Controllers.TypeCounts

/-!
# What a cascade starts

The deployments that a cascade starts, in the order of their messages. Which ones it starts does not
depend on the order of the sets. If none is active when the cascade comes to it, each of them is
started once.
-/

namespace UActor

namespace DeploymentManager

variable {cfg : ManagerSettings} {env : Surroundings} {st st' st'' : DeploymentManager}
  {name u : String} {names types : List String}

/-! ## What stays in a frame -/

theorem Frame.bind_find {ρ : Type} (h : Frame st st') (g : Deployment → Option ρ)
    (hg : ∀ d : Deployment, g d.fixed = g d)
    (name : String) : (Assoc.find name st'.deployments).bind g =
      (Assoc.find name st.deployments).bind g := by
  have hfixed : ∀ st : DeploymentManager,
      (Assoc.find name st.fixedDeployments).bind g = (Assoc.find name st.deployments).bind g := by
    intro st
    rw [find_fixed]
    cases Assoc.find name st.deployments with
    | none => rfl
    | some d => exact hg d
  rw [← hfixed st', h.deployments, hfixed st]

/-- The message that a cascade starts a deployment with. -/
def startOf (st : DeploymentManager) (name : String) : Option (Publication × UInt32) :=
  (Assoc.find name st.deployments).bind fun d =>
    (Assoc.find d.actor_runtime_type st.executors).map fun executors =>
      (spawnMessage d executors.front, 0)

def typeOf (st : DeploymentManager) (name : String) : Option String :=
  (Assoc.find name st.deployments).bind fun d => some d.actor_type

theorem Frame.startOf (h : Frame st st') : startOf st' = startOf st := by
  funext name
  unfold DeploymentManager.startOf
  rw [h.executors]
  refine h.bind_find _ (fun d => ?_) name
  have hmessage : ∀ executor, spawnMessage d.fixed executor = spawnMessage d executor :=
    spawnMessage_of_fixed (show d.fixed.fixed = d.fixed from rfl)
  simp only [hmessage]
  rfl

theorem Frame.typeOf (h : Frame st st') : typeOf st' = typeOf st :=
  funext fun name => h.bind_find (fun d => some d.actor_type) (fun _ => rfl) name

theorem typeOf_eq {d : Deployment} (hd : Assoc.find name st.deployments = some d) :
    typeOf st name = some d.actor_type := by
  unfold typeOf
  rw [hd]
  rfl

theorem startOf_eq {d : Deployment} {executors : ExecutorList}
    (hd : Assoc.find name st.deployments = some d)
    (hex : Assoc.find d.actor_runtime_type st.executors = some executors) :
    startOf st name = some (spawnMessage d executors.front, 0) := by
  unfold startOf
  rw [hd, Option.bind_some, hex]
  rfl

theorem spawnedName_startOf (hinv : Inv st) {x : Publication × UInt32}
    (h : startOf st name = some x) :
    spawnedName x.1 = some name := by
  obtain ⟨d, hd, hx⟩ := Option.bind_eq_some_iff.mp h
  obtain ⟨executors, -, rfl⟩ := Option.map_eq_some_iff.mp hx
  rw [spawnedName_spawnMessage, hinv.names name d hd]

/-! ## Launches -/

/-- One more of a type. -/
def more : Option UInt32 → Option UInt32
  | none => some 1
  | some count => some (count + 1)

/-- Deployments that are started one after the other, and types that are counted up. -/
structure Launched (st : DeploymentManager) (names types : List String) (st' : DeploymentManager) :
    Prop where
  frame : Frame st st'
  active : ∀ name, st'.IsActive name ↔ st.IsActive name ∨ name ∈ names
  known : ∀ name ∈ names, (startOf st name).isSome = true
  spawns : st'.spawns = st.spawns ++ names.filterMap (startOf st)
  counts : ∀ t, Assoc.find t st'.deployed_actor_types =
    more^[types.count t] (Assoc.find t st.deployed_actor_types)

theorem Launched.refl (st : DeploymentManager) : Launched st [] [] st :=
  ⟨.refl st, by simp, by simp, by simp, fun _ => rfl⟩

theorem Launched.trans {names' types' : List String} (h : Launched st names types st')
    (h' : Launched st' names' types' st'') :
    Launched st (names ++ names') (types ++ types') st'' := by
  refine ⟨h.frame.trans h'.frame, fun name => ?_, fun name hname => ?_, ?_, fun t => ?_⟩
  · rw [h'.active, h.active, List.mem_append, or_assoc]
  · rcases List.mem_append.mp hname with hname | hname
    · exact h.known name hname
    · rw [← h.frame.startOf]
      exact h'.known name hname
  · rw [h'.spawns, h.spawns, h.frame.startOf, List.filterMap_append, List.append_assoc]
  · rw [h'.counts, h.counts, List.count_append, Nat.add_comm, Function.iterate_add_apply]

theorem launched_setCount {c : UInt32}
    (hcount : more (Assoc.find u st.deployed_actor_types) = some c) :
    Launched st [] [u] (st.setCount u c) := by
  refine ⟨frame_setCount _ _, fun name => by simp; rfl, by simp, by simp; rfl, fun t => ?_⟩
  show Assoc.find t (Assoc.put u c st.deployed_actor_types) = _
  rw [Assoc.find_put, List.count_singleton]
  by_cases heq : u = t
  · subst heq
    rw [if_pos rfl, if_pos (by simp), ← hcount]
    rfl
  · rw [if_neg heq, if_neg (by simpa using heq)]
    rfl

theorem launched_numbers (active inactive : UInt32) :
    Launched st [] [] { st with active_deployments := active, inactive_deployments := inactive } :=
  ⟨⟨rfl, rfl, rfl, rfl⟩, fun name => by simp; rfl, by simp, by simp; rfl, fun _ => rfl⟩

theorem Started.launched {d : Deployment} {executors : ExecutorList}
    (hd : Assoc.find name st.deployments = some d)
    (hex : Assoc.find d.actor_runtime_type st.executors = some executors)
    (h : Started st name d executors.front st') : Launched st [name] [] st' := by
  have hstart : startOf st name = some (spawnMessage d executors.front, 0) := startOf_eq hd hex
  refine ⟨h.frame, fun name' => ?_, fun name' hname' => ?_, ?_, fun t => ?_⟩
  · rw [h.isActive_iff, List.mem_singleton, or_comm]
  · rw [List.mem_singleton.mp hname', hstart]
    rfl
  · rw [h.spawns, List.filterMap_cons, hstart]
    rfl
  · rw [h.deployed_actor_types]
    rfl

/-- What counts up are the types of what is started. -/
def Fills (st : DeploymentManager) (names types : List String) : Prop :=
  types.Perm (names.filterMap (typeOf st))

/-- None of them is active before, and each is started once. -/
def Fresh (st : DeploymentManager) (names : List String) : Prop :=
  names.Nodup ∧ ∀ name ∈ names, ¬ st.IsActive name

theorem fresh_nil (st : DeploymentManager) : Fresh st [] := ⟨List.nodup_nil, by simp⟩

theorem Fresh.trans {names' : List String} (h : Fresh st names)
    (hlaunched : Launched st names types st') (h' : Fresh st' names') :
    Fresh st (names ++ names') := by
  refine ⟨List.nodup_append.mpr ⟨h.1, h'.1, ?_⟩, fun name hname => ?_⟩
  · rintro name hname _ hname' rfl
    exact h'.2 name hname' ((hlaunched.active name).mpr (Or.inr hname))
  · rcases List.mem_append.mp hname with hname | hname
    · exact h.2 name hname
    · exact fun ha => h'.2 name hname ((hlaunched.active name).mpr (Or.inl ha))

theorem Fills.trans {names' types' : List String} (h : Fills st names types) (hframe : Frame st st')
    (h' : Fills st' names' types') : Fills st (names ++ names') (types ++ types') := by
  unfold Fills at h h' ⊢
  rw [List.filterMap_append, ← hframe.typeOf]
  rw [← hframe.typeOf] at h
  exact h.append h'

/-! ## Cascades -/

/-- No deployment is active when the cascade comes to it. -/
def Singly (cfg : ManagerSettings) (env : Surroundings) (st : DeploymentManager) (u : String) :
    Prop :=
  ∀ st' name d executors, Cascade.Turn (dependents env) (visitAdded cfg env) waiting callsAdded st u
    st' name →
    st'.readyOn name = some (d, executors) → d.active = false

/-- What a call launches. If the condition is met, it launches each deployment once. -/
def Calls (C : Prop) (st st' : DeploymentManager) : Prop :=
  ∃ names types, Launched st names types st' ∧ Fills st names types ∧ (C → Fresh st names)

theorem Calls.trans {C : Prop} (h : Calls C st st') (h' : Calls C st' st'') : Calls C st st'' := by
  obtain ⟨names, types, hlaunched, hfills, hfresh⟩ := h
  obtain ⟨names', types', hlaunched', hfills', hfresh'⟩ := h'
  exact ⟨names ++ names', types ++ types', hlaunched.trans hlaunched', hfills.trans hlaunched.frame
    hfills', fun hC => (hfresh hC).trans hlaunched (hfresh' hC)⟩

theorem launched_incrementWith {C : Prop} (st : DeploymentManager) (u : String)
    {added : DeploymentManager → String → DeploymentManager}
    (hcall : st.hasType u = false → Calls C (st.setCount u 1) (added (st.setCount u 1) u)) :
    ∃ names types, Launched st names (u :: types) (incrementWith added st u) ∧
    Fills st names types ∧
      (C → Fresh st names) := by
  unfold incrementWith
  cases hcount : Assoc.find u st.deployed_actor_types with
  | some c => exact ⟨[], [], launched_setCount (by rw [hcount]; rfl), .refl _, fun _ =>
      fresh_nil st⟩
  | none =>
    obtain ⟨names, types, hlaunched, hfills, hfresh⟩ := hcall (not_hasType_iff.mpr hcount)
    have hset : Launched st [] [u] (st.setCount u 1) := launched_setCount (by rw [hcount]; rfl)
    exact ⟨names, types, hset.trans hlaunched, hfills, hfresh⟩

theorem Launched.started {d d' : Deployment} {executors : ExecutorList}
    (h : Launched st names (d.actor_type :: types) st')
    (hfills : Fills st names types) (hd : Assoc.find name st.deployments = some d)
    (hex : Assoc.find d.actor_runtime_type st.executors = some executors)
    (hd' : Assoc.find name st'.deployments = some d')
    (hstarted : Started st' name d' executors.front st'') :
    Launched st (names ++ [name]) (d.actor_type :: types) st'' ∧
    Fills st (names ++ [name]) (d.actor_type :: types) := by
  obtain ⟨d₁, hd₁, hfixed⟩ := h.frame.find hd
  obtain rfl : d₁ = d' := Option.some.inj (hd₁.symm.trans hd')
  have hruntime : d₁.actor_runtime_type = d.actor_runtime_type :=
    Deployment.of_fixed Deployment.actor_runtime_type (fun _ => rfl) hfixed
  have hex' : Assoc.find d₁.actor_runtime_type st'.executors = some executors := by
    rw [hruntime, h.frame.executors, hex]
  constructor
  · have hboth := h.trans (hstarted.launched hd' hex')
    rwa [List.append_nil] at hboth
  · have hown : [name].filterMap (typeOf st) = [d.actor_type] := by
      rw [List.filterMap_cons, typeOf_eq hd]
      rfl
    unfold Fills at hfills ⊢
    rw [List.filterMap_append, hown]
    exact (hfills.cons d.actor_type).trans (List.perm_append_singleton _ _).symm

theorem calls_visitAdded {C : Prop} (st : DeploymentManager) (name : String)
    (hinactive : C → Inv st ∧ ∀ d executors, st.readyOn name = some (d, executors) →
      d.active = false)
    (hcalls : ∀ st' t, callsAdded st name st' t → st'.waiting < st.waiting →
      Calls C st' (actorTypeAdded cfg env st' t)) :
    Calls C st (visitAdded cfg env (actorTypeAdded cfg env) st name) := by
  cases hready : st.readyOn name with
  | none =>
    rw [visitAdded_waits hready]
    exact ⟨[], [], .refl st, .refl _, fun _ => fresh_nil st⟩
  | some r =>
    obtain ⟨d, executors⟩ := r
    obtain ⟨hd, hreq, hex⟩ := readyOn_eq.mp hready
    obtain ⟨names, types, hlaunched, hfills, hfresh⟩ := launched_incrementWith st d.actor_type
      fun hnew => hcalls _ d.actor_type ⟨d, executors, hready, rfl, hnew, rfl⟩
        (waiting_setCount hd hnew 1)
    obtain ⟨d', st₁, hd', -, hstarted, active, inactive, hvisit⟩ :=
      visitAdded_started cfg env hready
    obtain ⟨hboth, hfills'⟩ := hlaunched.started hfills hd hex hd' hstarted
    refine ⟨names ++ [name], d.actor_type :: types, ?_, hfills', fun hC => ?_⟩
    · rw [hvisit]
      have hnumbers := hboth.trans (launched_numbers active inactive)
      rwa [List.append_nil, List.append_nil] at hnumbers
    · obtain ⟨hinv, hflag⟩ := hinactive hC
      refine (hfresh hC).trans hlaunched ⟨List.nodup_singleton name, fun name' hname' => ?_⟩
      obtain rfl := List.mem_singleton.mp hname'
      -- the cascade of its own type has left it alone
      rintro ⟨d₂, hd₂, hactive⟩
      obtain rfl := Option.some.inj ((untouched_increment hinv hd hreq d.actor_type).symm.trans hd₂)
      rw [hflag d executors hready] at hactive
      exact absurd hactive (by simp)

theorem calls_actorTypeAdded (cfg : ManagerSettings) (env : Surroundings) (st : DeploymentManager)
    (u : String) :
    Calls (Inv st ∧ Singly cfg env st u) st (actorTypeAdded cfg env st u) := by
  refine (actorTypeAdded_ind (P := fun st u _ st' => (Inv st → Inv st') ∧
    Calls (Inv st ∧ Singly cfg env st u) st st')
      (fun st u => ⟨id, [], [], .refl st, .refl _, fun _ => fresh_nil st⟩)
    (fun st u pre name post heq hpre hcalls => ?_) st u).2
  obtain ⟨hmid, hcalled⟩ := hpre
  refine ⟨fun hinv => (hmid hinv).visitAdded name, hcalled.trans (calls_visitAdded _ name ?_ ?_)⟩
  · rintro ⟨hinv, hsingly⟩
    exact ⟨hmid hinv, fun d executors => hsingly _ name d executors (.own heq)⟩
  · intro st' t hcall hlt
    obtain ⟨names, types, hlaunched, hfills, hfresh⟩ := (hcalls st' t hlt).2
    refine ⟨names, types, hlaunched, hfills, fun hC => hfresh ⟨?_, ?_⟩⟩
    · obtain ⟨d, executors, -, -, -, rfl⟩ := hcall
      exact (hmid hC.1).setCount _ _
    · exact fun st₁ name₁ d executors hturn => hC.2 st₁ name₁ d executors (.nested heq hcall hturn)

theorem launched_increment (cfg : ManagerSettings) (env : Surroundings) (st : DeploymentManager)
    (u : String) :
    ∃ names types, Launched st names (u :: types) (incrementDeployedActorTypeCount cfg env st u) ∧
    Fills st names types ∧
      (Inv st → (∀ st' name d, Activates cfg env st u st' name d → d.active = false) →
        Fresh st names) := by
  obtain ⟨names, types, hlaunched, hfills, hfresh⟩ := launched_incrementWith st u
    (C := Inv st ∧ ∀ st' name d, Activates cfg env st u st' name d → d.active = false)
      fun hnew => by
      obtain ⟨names, types, hlaunched, hfills, hfresh⟩ :=
        calls_actorTypeAdded cfg env (st.setCount u 1) u
      refine ⟨names, types, hlaunched, hfills, fun hC => hfresh ⟨hC.1.setCount u 1, ?_⟩⟩
      exact fun st' name d executors hturn hready =>
        hC.2 st' name d ⟨hnew, hturn, executors, hready⟩
  exact ⟨names, types, hlaunched, hfills, fun hinv hsingle => hfresh ⟨hinv, hsingle⟩⟩

/-! ## Starts that are repeated -/

/-- The names in the messages. -/
def spawnedNames (st : DeploymentManager) : List (Option String) :=
  st.spawns.map fun x => spawnedName x.1

theorem Launched.spawnedNames (hinv : Inv st) (h : Launched st names types st') :
    st'.spawnedNames = st.spawnedNames ++ names.map some := by
  have hknown := h.known
  unfold DeploymentManager.spawnedNames
  rw [h.spawns, List.map_append]
  congr 1
  clear h
  induction names with
  | nil => rfl
  | cons name names ih =>
    obtain ⟨x, hx⟩ := Option.isSome_iff_exists.mp (hknown name List.mem_cons_self)
    rw [List.filterMap_cons, hx, List.map_cons, List.map_cons, spawnedName_startOf hinv hx,
      ih fun name' hname' => hknown name' (List.mem_cons_of_mem _ hname')]

/-- Deployments are launched, and none is forgotten. -/
def Extends (st st' : DeploymentManager) : Prop := ∃ names types, Launched st names types st'

theorem Extends.refl (st : DeploymentManager) : Extends st st := ⟨[], [], .refl st⟩

theorem Extends.trans (h : Extends st st') (h' : Extends st' st'') : Extends st st'' := by
  obtain ⟨names, types, hlaunched⟩ := h
  obtain ⟨names', types', hlaunched'⟩ := h'
  exact ⟨names ++ names', types ++ types', hlaunched.trans hlaunched'⟩

theorem extends_visitAdded (st : DeploymentManager) (name : String) :
    Extends st (visitAdded cfg env (actorTypeAdded cfg env) st name) := by
  obtain ⟨names, types, hlaunched, -, -⟩ := calls_visitAdded (C := False) st name False.elim fun st'
    t _ _ => by
      obtain ⟨names, types, hlaunched, hfills, -⟩ := calls_actorTypeAdded cfg env st' t
      exact ⟨names, types, hlaunched, hfills, False.elim⟩
  exact ⟨names, types, hlaunched⟩

theorem extends_callsAdded {t : String} (hcall : callsAdded st name st' t) : Extends st st' := by
  obtain ⟨d, executors, -, -, hnew, rfl⟩ := hcall
  exact ⟨[], [t], launched_setCount (by rw [not_hasType_iff.mp hnew]; rfl)⟩

theorem visitAdded_last (cfg : ManagerSettings) (env : Surroundings) {d : Deployment}
    {executors : ExecutorList} (hready : st.readyOn name = some (d, executors)) :
    ∃ st₁, st₁ = incrementDeployedActorTypeCount cfg env st d.actor_type ∧ Extends st st₁ ∧
      Launched st₁ [name] [] (visitAdded cfg env (actorTypeAdded cfg env) st name) := by
  obtain ⟨hd, -, hex⟩ := readyOn_eq.mp hready
  obtain ⟨names, types, hlaunched, -, -⟩ := launched_increment cfg env st d.actor_type
  obtain ⟨d', st₂, hd', hfixed, hstarted, active, inactive, hvisit⟩ :=
    visitAdded_started cfg env hready
  have hruntime : d'.actor_runtime_type = d.actor_runtime_type :=
    Deployment.of_fixed Deployment.actor_runtime_type (fun _ => rfl) hfixed
  refine ⟨_, rfl, ⟨names, _, hlaunched⟩, ?_⟩
  rw [hvisit]
  have hboth := (hstarted.launched hd' (by rw [hruntime, hlaunched.frame.executors, hex])).trans
    (launched_numbers active inactive)
  rwa [List.append_nil, List.append_nil] at hboth

theorem extends_call {t : String} (hcall : callsAdded st name st' t) :
    Extends (actorTypeAdded cfg env st' t) (visitAdded cfg env (actorTypeAdded cfg env) st
      name) := by
  obtain ⟨d, executors, hready, rfl, hnew, rfl⟩ := hcall
  obtain ⟨st₁, heq, -, hlast⟩ := visitAdded_last cfg env hready
  have hincrement : st₁ = actorTypeAdded cfg env (st.setCount d.actor_type 1) d.actor_type := by
    rw [heq]
    unfold incrementDeployedActorTypeCount incrementWith
    rw [not_hasType_iff.mp hnew]
  rw [← hincrement]
  exact ⟨_, _, hlast⟩

theorem turn_inactive {st₀ : DeploymentManager} (hinv : Inv st₀) (hframe : Frame st₀ st)
    (hgrown : ∀ t, st₀.hasType t = true → st.hasType t = true) (hnew : st₀.hasType u = false)
    (hturn : Cascade.Turn (dependents env) (visitAdded cfg env) waiting callsAdded st u st' name) :
    ¬ st₀.IsActive name := by
  induction hturn with
  | @own st u pre name post heq =>
    rintro ⟨d, hd, hactive⟩
    have hmem : name ∈ dependents env st u := by
      rw [heq]
      simp
    rw [mem_dependents, hframe.dependencies, hinv.index] at hmem
    obtain ⟨d', hd', hu⟩ := hmem
    obtain rfl := Option.some.inj (hd.symm.trans hd')
    rw [hinv.provided name d hd hactive u hu] at hnew
    exact absurd hnew (by simp)
  | @nested st u pre b post s' s'' t c heq hcall _ ih =>
    have hpre : Grown st (pre.foldl (visitAdded cfg env (actorTypeAdded cfg env)) st) :=
      Cascade.foldl_rel Grown.refl Grown.trans
      (fun _ _ => grown_visitAdded fun _ _ _ => grown_actorTypeAdded _ _) pre st
    obtain ⟨d, executors, -, -, habsent, rfl⟩ := hcall
    refine ih ?_ (fun t' ht' => ?_) ?_
    · exact (hframe.trans hpre.frame).trans (frame_setCount _ _)
    · exact (grown_setCount _ _).types t' (hpre.types t' (hgrown t' ht'))
    · cases ht : st₀.hasType t with
      | false => rfl
      | true => exact absurd (habsent.symm.trans (hpre.types t (hgrown t ht))) (by simp)

theorem Activates.split {d : Deployment} (h : Activates cfg env st u st' name d) :
    ∃ before behind types types', Launched st before types st' ∧
      Launched st (before ++ behind) types' (incrementDeployedActorTypeCount cfg env st u) ∧
      name ∈ behind := by
  obtain ⟨hnew, hturn, executors, hready⟩ := h
  have hset : Launched st [] [u] (st.setCount u 1) :=
    launched_setCount (by rw [not_hasType_iff.mp hnew]; rfl)
  obtain ⟨before, types, hbefore⟩ : Extends (st.setCount u 1) st' :=
    hturn.before Extends.refl Extends.trans extends_visitAdded extends_callsAdded
  obtain ⟨st₁, -, ⟨inner, types₁, hinner⟩, hlast⟩ := visitAdded_last cfg env hready
  obtain ⟨rest, types₂, hrest⟩ : Extends (visitAdded cfg env (actorTypeAdded cfg env) st' name)
      (actorTypeAdded cfg env (st.setCount u 1) u) :=
    hturn.after bounded_visitAdded Extends.refl Extends.trans extends_visitAdded extends_call
  have hall := (hset.trans hbefore).trans ((hinner.trans hlast).trans hrest)
  have hincrement : incrementDeployedActorTypeCount cfg env st u =
      actorTypeAdded cfg env (st.setCount u 1) u := by
    unfold incrementDeployedActorTypeCount incrementWith
    rw [not_hasType_iff.mp hnew]
  rw [hincrement]
  exact ⟨before, inner ++ [name] ++ rest, _, _, hset.trans hbefore, hall, by simp⟩

theorem Activates.inactive_of_nodup {d : Deployment} (hinv : Inv st)
    (hnodup : (incrementDeployedActorTypeCount cfg env st u).spawnedNames.Nodup)
    (h : Activates cfg env st u st' name d) : d.active = false := by
  obtain ⟨before, behind, types, types', hbefore, hall, hmem⟩ := h.split
  obtain ⟨hnew, hturn, executors, hready⟩ := h
  rw [hall.spawnedNames hinv] at hnodup
  cases hactive : d.active with
  | false => rfl
  | true =>
    rcases (hbefore.active name).mp ⟨d, (readyOn_eq.mp hready).1, hactive⟩ with hold | hstarted
    · exact absurd hold (turn_inactive hinv (frame_setCount _ _) (grown_setCount u 1).types
        hnew hturn)
    · have hnames : (before ++ behind).Nodup := (List.nodup_append.mp hnodup).2.1.of_map some
      exact absurd rfl ((List.nodup_append.mp hnames).2.2 name hstarted name hmem)

/-! ## What is started -/

/-- The deployment has all that it requires, and there is an executor for it. -/
def Ready (st : DeploymentManager) (name : String) : Prop := (st.readyOn name).isSome = true

def Requires (st : DeploymentManager) (name t : String) : Prop :=
  ∃ d, Assoc.find name st.deployments = some d ∧ t ∈ d.required_actors

theorem ready_iff : st.Ready name ↔ ∃ d, Assoc.find name st.deployments = some d ∧
    (∀ t ∈ d.required_actors, st.hasType t = true) ∧
    (Assoc.find d.actor_runtime_type st.executors).isSome = true := by
  unfold Ready
  constructor
  · intro h
    obtain ⟨⟨d, executors⟩, hready⟩ := Option.isSome_iff_exists.mp h
    obtain ⟨hd, hreq, hex⟩ := readyOn_eq.mp hready
    exact ⟨d, hd, requirementsCheck_iff.mp hreq, Option.isSome_iff_exists.mpr ⟨executors, hex⟩⟩
  · rintro ⟨d, hd, hreq, hex⟩
    obtain ⟨executors, hex⟩ := Option.isSome_iff_exists.mp hex
    exact Option.isSome_iff_exists.mpr
      ⟨(d, executors), readyOn_eq.mpr ⟨hd, requirementsCheck_iff.mpr hreq, hex⟩⟩

theorem Ready.of_frame (h : st.Ready name) (hframe : Frame st st')
    (htypes : ∀ t, st.Requires name t → st.hasType t = true → st'.hasType t = true) :
    st'.Ready name := by
  obtain ⟨d, hd, hreq, hex⟩ := ready_iff.mp h
  obtain ⟨d', hd', hfixed⟩ := hframe.find hd
  refine ready_iff.mpr ⟨d', hd', fun t ht => ?_, ?_⟩
  · rw [Deployment.required_of_fixed hfixed] at ht
    exact htypes t ⟨d, hd, ht⟩ (hreq t ht)
  · rw [Deployment.of_fixed Deployment.actor_runtime_type (fun _ => rfl) hfixed, hframe.executors]
    exact hex

theorem Frame.symm (h : Frame st st') : Frame st' st :=
  ⟨h.executors.symm, h.dependencies.symm, h.ttl_end_times.symm, h.deployments.symm⟩

theorem Frame.requires {t : String} (h : Frame st st') :
    st'.Requires name t ↔ st.Requires name t := by
  constructor
  · rintro ⟨d', hd', ht⟩
    obtain ⟨d, hd, hfixed⟩ := h.find_back hd'
    exact ⟨d, hd, by rwa [← Deployment.required_of_fixed hfixed]⟩
  · rintro ⟨d, hd, ht⟩
    obtain ⟨d', hd', hfixed⟩ := h.find hd
    exact ⟨d', hd', by rwa [Deployment.required_of_fixed hfixed]⟩

theorem exists_absent (h : st'.Ready name) (hframe : Frame st st') (hnot : ¬ st.Ready name) :
    ∃ t, st.Requires name t ∧ st.hasType t = false := by
  by_contra hall
  refine hnot (h.of_frame hframe.symm fun t ht _ => ?_)
  cases hhas : st.hasType t with
  | true => rfl
  | false => exact absurd ⟨t, hframe.requires.mp ht, hhas⟩ hall

/-- What a cascade has come to is active if it is ready, and so is what was short of a type before
it. -/
def Complete (st : DeploymentManager) (visited : List String) (st' : DeploymentManager) : Prop :=
  ∀ name, (name ∈ visited ∨ ∃ t, st.Requires name t ∧ st.hasType t = false) → st'.Ready name →
    st'.IsActive name

theorem Complete.visitAdded {visited : List String} {b : String} (hinv : Inv st')
    (h : Complete st visited st')
    (hcalls : ∀ st₁ t, callsAdded st' b st₁ t → st₁.waiting < st'.waiting →
      Complete st₁ (dependents env st₁ t) (actorTypeAdded cfg env st₁ t)) :
    Complete st (visited ++ [b]) (visitAdded cfg env (actorTypeAdded cfg env) st' b) := by
  intro name hname hready
  rw [List.mem_append, List.mem_singleton, or_right_comm] at hname
  cases hb : st'.readyOn b with
  | none =>
    rw [visitAdded_waits hb] at hready ⊢
    rcases hname with hname | rfl
    · exact h name hname hready
    · unfold Ready at hready
      rw [hb] at hready
      exact absurd hready (by simp)
  | some r =>
    obtain ⟨d, executors⟩ := r
    obtain ⟨st₁, heq, ⟨names, types, hincrement⟩, hlast⟩ := visitAdded_last cfg env hb
    rcases hname with hname | rfl
    · by_cases hbefore : st'.Ready name
      · exact (hlast.active name).mpr
          (Or.inl ((hincrement.active name).mpr (Or.inl (h name hname hbefore))))
      · have hready₁ : st₁.Ready name := hready.of_frame hlast.frame.symm fun t _ ht => by
          unfold hasType at ht ⊢
          rwa [hlast.counts t] at ht
        -- a type that came with this visit has made it ready
        obtain ⟨t, hrequires, habsent⟩ := exists_absent hready₁ hincrement.frame hbefore
        refine (hlast.active name).mpr (Or.inl ?_)
        rw [heq] at hready₁ ⊢
        unfold incrementDeployedActorTypeCount incrementWith at hready₁ ⊢
        cases hcount : Assoc.find d.actor_type st'.deployed_actor_types with
        | some c =>
          rw [hcount] at hready₁
          refine absurd (hready₁.of_frame (frame_setCount _ _).symm fun t _ ht => ?_) hbefore
          rwa [hasType_setCount_of_find hcount] at ht
        | none =>
          rw [hcount] at hready₁
          have hnew := not_hasType_iff.mpr hcount
          have hbelow := hcalls _ d.actor_type ⟨d, executors, hb, rfl, hnew, rfl⟩
            (waiting_setCount (readyOn_eq.mp hb).1 hnew 1)
          refine hbelow name ?_ hready₁
          by_cases hown : d.actor_type = t
          · subst hown
            exact Or.inl (mem_dependents.mpr ((hinv.index _ _).mpr hrequires))
          · refine Or.inr ⟨t, hrequires, ?_⟩
            rw [hasType_setCount, habsent]
            simp [hown]
    · exact (hlast.active name).mpr (Or.inr (List.mem_singleton.mpr rfl))

theorem complete_actorTypeAdded (cfg : ManagerSettings) (env : Surroundings) (hinv : Inv st)
    (u : String) :
    Complete st (dependents env st u) (actorTypeAdded cfg env st u) := by
  refine (actorTypeAdded_ind (P := fun st _ pre st' => Inv st → Inv st' ∧ Complete st pre st')
    (fun st u hinv => ?_) (fun st u pre name post _ hpre hcalls hinv => ?_) st u hinv).2
  · refine ⟨hinv, fun name hname hready => ?_⟩
    rcases hname with hname | ⟨t, ⟨d, hd, ht⟩, habsent⟩
    · exact absurd hname (by simp)
    · obtain ⟨d', hd', hreq, -⟩ := ready_iff.mp hready
      obtain rfl := Option.some.inj (hd.symm.trans hd')
      rw [hreq t ht] at habsent
      exact absurd habsent (by simp)
  · obtain ⟨hmid, hcomplete⟩ := hpre hinv
    refine ⟨hmid.visitAdded name, hcomplete.visitAdded hmid fun st₁ t hcall hlt =>
      (hcalls st₁ t hlt ?_).2⟩
    obtain ⟨d, executors, -, -, -, rfl⟩ := hcall
    exact hmid.setCount _ _

theorem complete_increment (cfg : ManagerSettings) (env : Surroundings) (hinv : Inv st)
    (hshort : ∃ t, st.Requires name t ∧ st.hasType t = false)
    (hready : (incrementDeployedActorTypeCount cfg env st u).Ready name) :
    (incrementDeployedActorTypeCount cfg env st u).IsActive name := by
  obtain ⟨t, hrequires, habsent⟩ := hshort
  unfold incrementDeployedActorTypeCount incrementWith at hready ⊢
  cases hcount : Assoc.find u st.deployed_actor_types with
  | some c =>
    rw [hcount] at hready
    obtain ⟨d, hd, ht⟩ := hrequires
    obtain ⟨d', hd', hreq, -⟩ := ready_iff.mp hready
    obtain rfl := Option.some.inj (hd.symm.trans hd')
    have hhas := hreq t ht
    rw [hasType_setCount_of_find hcount, habsent] at hhas
    exact absurd hhas (by simp)
  | none =>
    rw [hcount] at hready
    refine complete_actorTypeAdded cfg env (hinv.setCount u 1) u name ?_ hready
    by_cases heq : u = t
    · subst heq
      exact Or.inl (mem_dependents.mpr ((hinv.index _ _).mpr hrequires))
    · refine Or.inr ⟨t, hrequires, ?_⟩
      rw [hasType_setCount, habsent]
      simp [heq]

/-! ## What is not started -/

/-- All that is there and active in one state is so in the other one. -/
structure Below (st st' : DeploymentManager) : Prop where
  types : ∀ t, st.hasType t = true → st'.hasType t = true
  active : ∀ name, st.IsActive name → st'.IsActive name

/-- A cascade from the first state cannot get beyond the other one. -/
def Closed (st st' : DeploymentManager) : Prop :=
  ∀ name, (∃ t, st.Requires name t ∧ st.hasType t = false) → st'.Ready name →
    st'.IsActive name ∧ ∀ t, typeOf st name = some t → st'.hasType t = true

theorem below_setCount {c : UInt32} {bound : DeploymentManager} (h : Below st bound)
    (hu : bound.hasType u = true) :
    Below (st.setCount u c) bound := by
  refine ⟨fun t ht => ?_, h.active⟩
  rw [hasType_setCount, Bool.or_eq_true, decide_eq_true_eq] at ht
  rcases ht with rfl | ht
  · exact hu
  · exact h.types t ht

theorem Below.visitAdded {st₀ bound : DeploymentManager} {b : String}
    (hclosed : Closed st₀ bound) (hbound : Frame st₀ bound)
    (hframe : Frame st₀ st) (hshort : ∃ t, st₀.Requires b t ∧ st₀.hasType t = false)
    (h : Below st bound) (hcalls : ∀ st' t, callsAdded st b st' t → st'.waiting < st.waiting →
      Below st' bound →
      Below (actorTypeAdded cfg env st' t) bound) :
    Below (visitAdded cfg env (actorTypeAdded cfg env) st b) bound := by
  cases hb : st.readyOn b with
  | none =>
    rw [visitAdded_waits hb]
    exact h
  | some r =>
    obtain ⟨d, executors⟩ := r
    have hd := (readyOn_eq.mp hb).1
    have hready : st.Ready b := by
      unfold Ready
      rw [hb]
      rfl
    obtain ⟨hactive, htype⟩ := hclosed b hshort (hready.of_frame (hframe.symm.trans hbound) fun t
      _ => h.types t)
    have hhas : bound.hasType d.actor_type = true :=
      htype _ (by rw [← hframe.typeOf]; exact typeOf_eq hd)
    obtain ⟨st₁, heq, -, hlast⟩ := visitAdded_last cfg env hb
    have hincrement : Below st₁ bound := by
      rw [heq]
      unfold incrementDeployedActorTypeCount incrementWith
      cases hcount : Assoc.find d.actor_type st.deployed_actor_types with
      | some c => exact below_setCount h hhas
      | none =>
        have hnew := not_hasType_iff.mpr hcount
        exact hcalls _ d.actor_type ⟨d, executors, hb, rfl, hnew, rfl⟩
          (waiting_setCount hd hnew 1) (below_setCount h hhas)
    refine ⟨fun t ht => hincrement.types t ?_, fun name hname => ?_⟩
    · unfold hasType at ht ⊢
      rwa [hlast.counts t] at ht
    · rcases (hlast.active name).mp hname with hname | hname
      · exact hincrement.active name hname
      · rw [List.mem_singleton.mp hname]
        exact hactive

theorem below_actorTypeAdded (cfg : ManagerSettings) (env : Surroundings)
    {st₀ bound : DeploymentManager} (hinv : Inv st₀)
    (hclosed : Closed st₀ bound) (hbound : Frame st₀ bound) (hgrown : Grown st₀ st)
    (hnew : st₀.hasType u = false) (h : Below st bound) :
    Below (actorTypeAdded cfg env st u) bound := by
  refine (actorTypeAdded_ind (P := fun st u _ st' => Grown st₀ st → st₀.hasType u = false →
    Below st bound →
    Grown st₀ st' ∧ Below st' bound) (fun st u hgrown _ h => ⟨hgrown, h⟩)
    (fun st u pre name post heq hpre hcalls hgrown hnew h => ?_) st u hgrown hnew h).2
  obtain ⟨hmid, hbelow⟩ := hpre hgrown hnew h
  have hmem : name ∈ dependents env st u := by
    rw [heq]
    simp
  rw [mem_dependents, hgrown.frame.dependencies, hinv.index] at hmem
  refine ⟨hmid.trans (grown_visitAdded fun _ _ _ => grown_actorTypeAdded _ _), ?_⟩
  refine hbelow.visitAdded hclosed hbound hmid.frame ⟨u, hmem, hnew⟩ fun st' t hcall hlt hbelow' =>
    ?_
  obtain ⟨d, executors, -, -, habsent, rfl⟩ := hcall
  refine (hcalls _ t hlt (hmid.trans (grown_setCount _ _)) ?_ hbelow').2
  cases ht : st₀.hasType t with
  | false => rfl
  | true => exact absurd (habsent.symm.trans (hmid.types t ht)) (by simp)

end DeploymentManager

end UActor
