import Mathlib.Logic.Function.Iterate
import UActor.Controllers.Activations

/-!
# What a cascade takes down

A deployment that is taken down gives its type back before its flag falls, and the cascade may come
to it again in between. The type is gone by then, so no order of the sets takes it back twice.
-/

namespace UActor

namespace DeploymentManager

variable {cfg : ManagerSettings} {env : Surroundings} {st₀ st bound : DeploymentManager}
  {name u : String}

/-! ## Counting down -/

/-- One less of a type. The last one takes the type away. -/
def less : Option UInt32 → Option UInt32
  | none => none
  | some count => if count = 1 then none else some (count - 1)

theorem less_iterate_none (n : Nat) : less^[n] none = none := by
  induction n with
  | zero => rfl
  | succ n ih => exact ih

/-- Types are taken back. The count of a type that is still there says how often: once for each
deployment that is not active any more, and once more for the type that all began with. -/
structure Lowered (st₀ : DeploymentManager) (u : String) (st : DeploymentManager) : Prop where
  frame : Frame st₀ st
  active : ∀ name, st.IsActive name → st₀.IsActive name
  types : ∀ t, st.hasType t = true → st₀.hasType t = true
  counts : ∀ t, st.hasType t = true → ∃ n, st.activeCount t + n = st₀.activeCount t +
    (if u = t then 1 else 0) ∧
    Assoc.find t st.deployed_actor_types = less^[n] (Assoc.find t st₀.deployed_actor_types)

theorem Lowered.of_tables {st' : DeploymentManager} (h : Lowered st₀ u st) (hframe : Frame st st')
    (hdeployments : st'.deployments = st.deployments)
    (htypes : st'.deployed_actor_types = st.deployed_actor_types) :
    Lowered st₀ u st' := by
  have hhas : ∀ t, st'.hasType t = st.hasType t := by
    intro t
    unfold hasType
    rw [htypes]
  refine ⟨h.frame.trans hframe, fun name hname => ?_, fun t ht =>
    h.types t ((hhas t).symm.trans ht), fun t ht => ?_⟩
  · unfold IsActive at hname
    rw [hdeployments] at hname
    exact h.active name hname
  · unfold activeCount
    rw [hdeployments, htypes]
    exact h.counts t ((hhas t).symm.trans ht)

theorem Lowered.stopped (h : Lowered st₀ u st) (name : String) :
    Lowered st₀ u (stopDeployment cfg st name) :=
  h.of_tables declined_stopDeployment.frame stopDeployment_deployments
    stopDeployment_deployed_actor_types

theorem Lowered.lower (h : Lowered st₀ u st)
    (hgone : ∀ d, Assoc.find name st.deployments = some d → d.active = true →
      st.hasType d.actor_type = false) :
    Lowered st₀ u (st.lower name) := by
  have htypes : (st.lower name).deployed_actor_types = st.deployed_actor_types :=
    modify_deployed_actor_types _
  refine ⟨h.frame.trans declined_lower.frame, fun name' hname' =>
    h.active name' (isActive_lower.mp hname').2, fun t ht =>
      h.types t ((hasType_lower t).symm.trans ht), fun t ht => ?_⟩
  rw [hasType_lower] at ht
  rw [htypes]
  cases hd : Assoc.find name st.deployments with
  | none =>
    have hsame : st.lower name = st := by
      unfold DeploymentManager.lower modify
      rw [hd]
    rw [hsame]
    exact h.counts t ht
  | some d =>
    have hcounts := activeCount_lower hd t
    rw [counts_eq_false fun hactive heq => by
      subst heq
      exact absurd (ht.symm.trans (hgone d hd hactive)) (by simp), Bool.toNat_false,
        Nat.add_zero] at hcounts
    rw [hcounts]
    exact h.counts t ht

theorem Lowered.counted (h : Lowered st₀ u st) {d : Deployment} {c : UInt32}
    (hd : Assoc.find name st.deployments = some d) (hactive : d.active = true)
    (hcount : Assoc.find d.actor_type st.deployed_actor_types = some c) (hmany : c ≠ 1) :
    Lowered st₀ u ((stopDeployment cfg (st.setCount d.actor_type (c - 1)) name).lower name) := by
  have htypes : ((stopDeployment cfg (st.setCount d.actor_type (c - 1)) name).lower
      name).deployed_actor_types =
      Assoc.put d.actor_type (c - 1) st.deployed_actor_types :=
    (modify_deployed_actor_types _).trans stopDeployment_deployed_actor_types
  obtain ⟨hhas, -, hactives⟩ :=
    stopped_lower cfg (show Assoc.find name (st.setCount d.actor_type (c - 1)).deployments =
      some d from hd)
  refine ⟨?_, fun name' hname' => ?_, fun t ht => ?_, fun t ht => ?_⟩
  · exact ((h.frame.trans (frame_setCount _ _)).trans declined_stopDeployment.frame).trans
      declined_lower.frame
  · have hback : (st.setCount d.actor_type (c - 1)).IsActive name' :=
      declined_stopDeployment.active name' (isActive_lower.mp hname').2
    exact h.active name' hback
  · rw [hhas, hasType_setCount_of_find hcount] at ht
    exact h.types t ht
  · rw [hhas, hasType_setCount_of_find hcount] at ht
    have hsum : _ = st.activeCount t := hactives t
    obtain ⟨n, hn, hfind⟩ := h.counts t ht
    rw [htypes, Assoc.find_put]
    by_cases heq : d.actor_type = t
    · subst heq
      rw [counts_eq_true hactive, Bool.toNat_true] at hsum
      refine ⟨n + 1, by omega, ?_⟩
      rw [if_pos rfl, Function.iterate_succ_apply', ← hfind, hcount]
      exact (if_neg hmany).symm
    · rw [counts_eq_false fun _ => heq, Bool.toNat_false] at hsum
      rw [if_neg heq]
      exact ⟨n, by omega, hfind⟩

theorem Lowered.dropCount (h : Lowered st₀ u st) (t : String) : Lowered st₀ u (st.dropCount t) := by
  have hhas : ∀ t', (st.dropCount t).hasType t' = true → t ≠ t' ∧ st.hasType t' = true := by
    intro t' ht'
    rwa [hasType_dropCount, Bool.and_eq_true, decide_eq_true_eq] at ht'
  refine ⟨h.frame.trans (frame_dropCount t), h.active, fun t' ht' => h.types t' (hhas t' ht').2,
    fun t' ht' => ?_⟩
  obtain ⟨hne, hold⟩ := hhas t' ht'
  show ∃ n, st.activeCount t' + n = _ ∧ Assoc.find t' (Assoc.erase t st.deployed_actor_types) = _
  rw [Assoc.find_erase, if_neg hne]
  exact h.counts t' hold

/-! ## No further than necessary -/

/-- The outcome of another order, in which nothing is active that requires a type that is gone. -/
structure Outcome (st₀ : DeploymentManager) (u : String) (bound : DeploymentManager) : Prop where
  lowered : Lowered st₀ u bound
  cleared : ∀ t name, st₀.hasType t = true → bound.hasType t = false →
    name ∈ Multimap.members t st₀.dependencies →
    ¬ bound.IsActive name

theorem Below.lower (h : Below bound st) (hinactive : ¬ bound.IsActive name) :
    Below bound (st.lower name) := by
  refine ⟨fun t ht => (hasType_lower t).trans (h.types t ht),
    fun name' hname' => isActive_lower.mpr ⟨?_, h.active name' hname'⟩⟩
  rintro rfl
  exact hinactive hname'

theorem Below.stopped (h : Below bound st) (name : String) :
    Below bound (stopDeployment cfg st name) := by
  refine ⟨fun t ht => ?_, fun name' hname' => ?_⟩
  · unfold hasType
    rw [stopDeployment_deployed_actor_types]
    exact h.types t ht
  · unfold IsActive
    rw [stopDeployment_deployments]
    exact h.active name' hname'

theorem Outcome.gone {d : Deployment} (hbound : Outcome st₀ u bound) (hlowered : Lowered st₀ u st)
    (h : Below bound st) (hunique : (Assoc.keys st₀.deployments).Nodup)
    (hd : Assoc.find name st.deployments = some d) (hactive : d.active = true)
    (hlast : Assoc.find d.actor_type st.deployed_actor_types = some 1)
    (hinactive : ¬ bound.IsActive name) : bound.hasType d.actor_type = false := by
  cases hhas : bound.hasType d.actor_type with
  | false => rfl
  | true =>
    obtain ⟨m, hm, hfind⟩ := hbound.lowered.counts d.actor_type hhas
    obtain ⟨n, hn, hfind'⟩ := hlowered.counts d.actor_type (hasType_iff.mpr ⟨1, hlast⟩)
    have hframe : Frame (st.lower name) bound :=
      (hlowered.frame.trans declined_lower.frame).symm.trans hbound.lowered.frame
    have hkeys : (Assoc.keys (st.lower name).deployments).Nodup := by
      rw [(hlowered.frame.trans declined_lower.frame).keys]
      exact hunique
    have hle := hframe.activeCount_le (h.lower hinactive).active hkeys d.actor_type
    have hsum := activeCount_lower hd d.actor_type
    rw [counts_eq_true hactive, Bool.toNat_true] at hsum
    obtain ⟨k, rfl⟩ : ∃ k, m = k + (n + 1) := ⟨m - (n + 1), by omega⟩
    rw [Function.iterate_add_apply, Function.iterate_succ_apply', ← hfind', hlast] at hfind
    have hnone : Assoc.find d.actor_type bound.deployed_actor_types = none :=
      hfind.trans (less_iterate_none k)
    exact absurd (hhas.symm.trans (not_hasType_iff.mpr hnone)) (by simp)

theorem Lowered.deactivateWith {removed : DeploymentManager → String → DeploymentManager}
    (h : Lowered st₀ u st) (hremoved : ∀ t, st.hasType t = true → Lowered st₀ u (st.dropCount t) →
      Lowered st₀ u (removed (st.dropCount t) t) ∧
      (removed (st.dropCount t) t).hasType t = false) (name : String) :
    Lowered st₀ u (deactivateWith cfg removed st name) := by
  have hcases := deactivateWith_cases cfg removed st name
  generalize DeploymentManager.deactivateWith cfg removed st name = st' at hcases ⊢
  cases hcases with
  | absent => exact h
  | inactive d hd hactive =>
    refine h.lower fun d' hd' hactive' => ?_
    obtain rfl := Option.some.inj (hd.symm.trans hd')
    exact absurd hactive' hactive
  | uncounted d hd hactive hcount =>
    refine (h.stopped name).lower fun d' hd' _ => ?_
    rw [stopDeployment_deployments] at hd'
    obtain rfl := Option.some.inj (hd.symm.trans hd')
    unfold hasType
    rw [stopDeployment_deployed_actor_types, hcount]
    rfl
  | last d hd hactive hcount =>
    obtain ⟨hbelow, hgone⟩ := hremoved d.actor_type (hasType_iff.mpr ⟨1, hcount⟩)
      (h.dropCount d.actor_type)
    refine (hbelow.stopped name).lower fun d' hd' _ => ?_
    have hframe : Frame st (removed (st.dropCount d.actor_type) d.actor_type) :=
      h.frame.symm.trans hbelow.frame
    obtain ⟨d₁, hd₁, hfixed⟩ := hframe.find hd
    rw [stopDeployment_deployments] at hd'
    obtain rfl := Option.some.inj (hd₁.symm.trans hd')
    unfold hasType
    rw [stopDeployment_deployed_actor_types, Deployment.type_of_fixed hfixed]
    exact hgone
  | counted d c hd hactive hcount hone => exact h.counted hd hactive hcount hone

theorem below_dropCount {t : String} (h : Below bound st) (hgone : bound.hasType t = false) :
    Below bound (st.dropCount t) := by
  refine ⟨fun t' ht' => ?_, h.active⟩
  rw [hasType_dropCount, h.types t' ht', Bool.and_true, decide_eq_true_eq]
  rintro rfl
  rw [hgone] at ht'
  exact absurd ht' (by simp)

theorem Below.deactivateWith {removed : DeploymentManager → String → DeploymentManager}
    (hbound : Outcome st₀ u bound) (hlowered : Lowered st₀ u st)
    (hunique : (Assoc.keys st₀.deployments).Nodup) (hinactive : ¬ bound.IsActive name)
    (h : Below bound st) (hremoved : ∀ t, st.hasType t = true → bound.hasType t = false →
      Below bound (st.dropCount t) →
      Below bound (removed (st.dropCount t) t)) :
    Below bound (deactivateWith cfg removed st name) := by
  have hcases := deactivateWith_cases cfg removed st name
  generalize DeploymentManager.deactivateWith cfg removed st name = st' at hcases ⊢
  cases hcases with
  | absent => exact h
  | inactive => exact h.lower hinactive
  | uncounted => exact (h.stopped name).lower hinactive
  | last d hd hactive hcount =>
    have hgone := hbound.gone hlowered h hunique hd hactive hcount hinactive
    have hbelow := hremoved d.actor_type (hasType_iff.mpr ⟨1, hcount⟩) hgone
      (below_dropCount h hgone)
    exact (hbelow.stopped name).lower hinactive
  | counted d c hd hactive hcount hone =>
    have hbelow : Below bound (st.setCount d.actor_type (c - 1)) :=
      ⟨fun t ht => (hasType_setCount_of_find hcount _ t).trans (h.types t ht), h.active⟩
    exact (hbelow.stopped name).lower hinactive

/-! ## Cascades -/

theorem lowered_actorTypeRemoved (cfg : ManagerSettings) (env : Surroundings) (h : Lowered st₀ u st)
    (t : String) :
    Lowered st₀ u (actorTypeRemoved cfg env st t) := by
  refine actorTypeRemoved_ind (P := fun st _ _ st' => Lowered st₀ u st → Lowered st₀ u st')
    (fun st _ h => h) (fun st t pre name post _ hpre hcalls h => ?_) st t h
  have hmid := hpre h
  generalize pre.foldl _ st = mid at hmid hcalls ⊢
  have hvisit : Lowered st₀ u (deactivateWith cfg (actorTypeRemoved cfg env) mid name) := by
    refine hmid.deactivateWith (fun t ht hdropped =>
      ⟨?_, (cleared_actorTypeRemoved cfg env mid t).1.dropped⟩) name
    obtain ⟨count, hcount⟩ := hasType_iff.mp ht
    exact hcalls _ t (Assoc.length_erase_lt hcount) hdropped
  exact hvisit.of_tables ⟨rfl, rfl, rfl, rfl⟩ rfl rfl

theorem below_actorTypeRemoved (cfg : ManagerSettings) (env : Surroundings)
    (hbound : Outcome st₀ u bound) (hunique : (Assoc.keys st₀.deployments).Nodup)
    (hlowered : Lowered st₀ u st) {t : String} (hold : st₀.hasType t = true)
    (hgone : bound.hasType t = false) (h : Below bound st) :
    Below bound (actorTypeRemoved cfg env st t) := by
  refine (actorTypeRemoved_ind (P := fun st t _ st' => Lowered st₀ u st →
    st₀.hasType t = true → bound.hasType t = false →
    Below bound st → Lowered st₀ u st' ∧ Below bound st') (fun st _ hlowered _ _ h => ⟨hlowered, h⟩)
    (fun st t pre name post heq hpre hcalls hlowered hold hgone h => ?_) st t hlowered hold
      hgone h).2
  obtain ⟨hmid, hbelow⟩ := hpre hlowered hold hgone h
  have hmem : name ∈ dependents env st t := by
    rw [heq]
    simp
  rw [mem_dependents, hlowered.frame.dependencies] at hmem
  have hinactive := hbound.cleared t name hold hgone hmem
  generalize pre.foldl _ st = mid at hmid hbelow hcalls ⊢
  have hlower : ∀ t, mid.hasType t = true → Lowered st₀ u (mid.dropCount t) →
      Lowered st₀ u (actorTypeRemoved cfg env (mid.dropCount t) t) ∧
        (actorTypeRemoved cfg env (mid.dropCount t) t).hasType t = false :=
    fun t _ hdropped => ⟨lowered_actorTypeRemoved cfg env hdropped t,
      (cleared_actorTypeRemoved cfg env mid t).1.dropped⟩
  have hvisit : Below bound (deactivateWith cfg (actorTypeRemoved cfg env) mid name) := by
    refine Below.deactivateWith hbound hmid hunique hinactive hbelow fun t ht hgone hdropped => ?_
    obtain ⟨count, hcount⟩ := hasType_iff.mp ht
    exact (hcalls _ t (Assoc.length_erase_lt hcount) (hmid.dropCount t) (hmid.types t ht) hgone
      hdropped).2
  have hlowered' : Lowered st₀ u (deactivateWith cfg (actorTypeRemoved cfg env) mid name) :=
    hmid.deactivateWith hlower name
  exact ⟨hlowered'.of_tables ⟨rfl, rfl, rfl, rfl⟩ rfl rfl, hvisit.types, hvisit.active⟩

theorem lowered_dropCount (st : DeploymentManager) (u : String) :
    Lowered st u (st.dropCount u) := by
  refine ⟨frame_dropCount u, fun _ h => h, fun t ht => ?_, fun t ht => ⟨0, ?_, ?_⟩⟩
  all_goals rw [hasType_dropCount, Bool.and_eq_true, decide_eq_true_eq] at ht
  · exact ht.2
  · rw [if_neg ht.1]
    rfl
  · show Assoc.find t (Assoc.erase u st.deployed_actor_types) = _
    rw [Assoc.find_erase, if_neg ht.1]
    rfl

theorem lowered_of_absent (st : DeploymentManager) (hu : st.hasType u = false) :
    Lowered st u st := by
  refine ⟨.refl st, fun _ h => h, fun _ h => h, fun t ht => ⟨0, ?_, rfl⟩⟩
  rw [if_neg]
  rintro rfl
  rw [hu] at ht
  exact absurd ht (by simp)

theorem outcome_decrement (cfg : ManagerSettings) (env : Surroundings) (st : DeploymentManager)
    (u : String) :
    Outcome st u (decrementDeployedActorTypeCount cfg env st u) := by
  refine ⟨?_, (declined_decrement cfg env st u).cleared⟩
  unfold decrementDeployedActorTypeCount decrementWith
  cases hcount : Assoc.find u st.deployed_actor_types with
  | none => exact lowered_of_absent st (not_hasType_iff.mpr hcount)
  | some c =>
    dsimp only
    by_cases hone : c = 1
    · rw [if_pos hone]
      exact lowered_actorTypeRemoved cfg env (lowered_dropCount st u) u
    · rw [if_neg hone]
      refine ⟨frame_setCount _ _, fun _ h => h, fun t ht =>
        (hasType_setCount_of_find hcount _ t).symm.trans ht, fun t _ => ?_⟩
      show ∃ n, st.activeCount t + n = _ ∧
          Assoc.find t (Assoc.put u (c - 1) st.deployed_actor_types) = _
      rw [Assoc.find_put]
      by_cases heq : u = t
      · subst heq
        rw [if_pos rfl, if_pos rfl]
        refine ⟨1, rfl, ?_⟩
        show some (c - 1) = less (Assoc.find u st.deployed_actor_types)
        rw [hcount]
        exact (if_neg hone).symm
      · rw [if_neg heq, if_neg heq]
        exact ⟨0, rfl, rfl⟩

theorem below_decrement (cfg : ManagerSettings) (env env' : Surroundings)
    (hunique : (Assoc.keys st.deployments).Nodup) (u : String) :
    Below (decrementDeployedActorTypeCount cfg env' st u)
    (decrementDeployedActorTypeCount cfg env st u) := by
  have hbound := outcome_decrement cfg env' st u
  have hdeclined := declined_decrement cfg env' st u
  have hlowered := (outcome_decrement cfg env st u).lowered
  have hstart : Below (decrementDeployedActorTypeCount cfg env' st u) st :=
    ⟨hdeclined.types, hdeclined.active⟩
  have hcounts : ∀ c, Assoc.find u st.deployed_actor_types = some c → c = 1 →
      (decrementDeployedActorTypeCount cfg env' st u).hasType u = false := by
    intro c hcount hone
    unfold decrementDeployedActorTypeCount decrementWith
    rw [hcount]
    dsimp only
    rw [if_pos hone]
    exact (cleared_actorTypeRemoved cfg env' st u).1.dropped
  generalize decrementDeployedActorTypeCount cfg env' st u = bound at *
  unfold decrementDeployedActorTypeCount decrementWith
  cases hcount : Assoc.find u st.deployed_actor_types with
  | none => exact hstart
  | some c =>
    dsimp only
    by_cases hone : c = 1
    · rw [if_pos hone]
      have hgone := hcounts c hcount hone
      exact below_actorTypeRemoved cfg env hbound hunique (lowered_dropCount st u)
        (hasType_iff.mpr ⟨c, hcount⟩) hgone (below_dropCount hstart hgone)
    · rw [if_neg hone]
      exact ⟨fun t ht => (hasType_setCount_of_find hcount _ t).trans (hstart.types t ht),
        hstart.active⟩

end DeploymentManager

end UActor
