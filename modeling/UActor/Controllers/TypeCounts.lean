import UActor.Controllers.Requirements

/-!
# Counts of actor types

What `deployed_actor_types` counts: the actors that are not managed and the active deployments. The
counts stay exact as long as no deployment is activated twice, no inactive one is replaced and no
active one is removed.
-/

namespace UActor

namespace DeploymentManager

variable {cfg : ManagerSettings} {env : Surroundings} {st st' : DeploymentManager} {name : String}
  {extra : String → Int} {u v : String}

/-! ## Counting -/

/-- `deployed_actor_types[t]`, 0 when absent. -/
def count (st : DeploymentManager) (t : String) : Nat :=
  ((Assoc.find t st.deployed_actor_types).map UInt32.toNat).getD 0

def counts (t : String) (e : String × Deployment) : Bool := e.2.active && e.2.actor_type == t

/-- The active deployments of a type. -/
def activeCount (st : DeploymentManager) (t : String) : Nat := st.deployments.countP (counts t)

/-- The counts are those of the active deployments, and a number for the rest. -/
def Counted (extra : String → Int) (st : DeploymentManager) : Prop :=
  ∀ t, (st.count t : Int) = extra t + st.activeCount t

theorem count_of_find {t : String} {c : UInt32}
    (h : Assoc.find t st.deployed_actor_types = some c) :
    st.count t = c.toNat := by
  unfold count
  rw [h]
  rfl

theorem count_of_absent {t : String} (h : st.hasType t = false) : st.count t = 0 := by
  unfold count
  rw [not_hasType_iff.mp h]
  rfl

theorem count_setCount (u : String) (c : UInt32) (t : String) :
    (st.setCount u c).count t = if u = t then c.toNat else st.count t := by
  unfold count setCount
  rw [Assoc.find_put]
  split <;> rfl

theorem count_dropCount (u t : String) :
    (st.dropCount u).count t = if u = t then 0 else st.count t := by
  unfold count dropCount
  rw [Assoc.find_erase]
  split <;> rfl

theorem activeCount_pos {d : Deployment} (hd : Assoc.find name st.deployments = some d)
    (hactive : d.active = true) :
    1 ≤ st.activeCount d.actor_type :=
  List.countP_pos_iff.mpr ⟨(name, d), Assoc.mem_of_find hd, by simp [counts, hactive]⟩

theorem activeCount_eq_zero {t : String} (hunique : (Assoc.keys st.deployments).Nodup) :
    st.activeCount t = 0 ↔
    ∀ name d, Assoc.find name st.deployments = some d → d.active = true → d.actor_type ≠ t := by
  unfold activeCount
  rw [List.countP_eq_zero]
  constructor
  · intro h name d hd hactive htype
    exact h (name, d) (Assoc.mem_of_find hd) (by simp [counts, hactive, htype])
  · rintro h ⟨name, d⟩ hmem hcounts
    unfold counts at hcounts
    simp only [Bool.and_eq_true, beq_iff_eq] at hcounts
    exact h name d (Assoc.find_of_mem hunique hmem) hcounts.1 hcounts.2

theorem eq_of_activeCount_one {d d' : Deployment} {name' : String}
    (hone : st.activeCount d.actor_type = 1) (hd : Assoc.find name st.deployments = some d)
    (hactive : d.active = true) (hd' : Assoc.find name' st.deployments = some d')
    (hactive' : d'.active = true) (htype : d'.actor_type = d.actor_type) : name' = name := by
  unfold activeCount at hone
  rw [List.countP_eq_length_filter] at hone
  obtain ⟨e, he⟩ := List.length_eq_one_iff.mp hone
  have hmem : (name, d) ∈ st.deployments.filter (counts d.actor_type) :=
    List.mem_filter.mpr ⟨Assoc.mem_of_find hd, by simp [counts, hactive]⟩
  have hmem' : (name', d') ∈ st.deployments.filter (counts d.actor_type) :=
    List.mem_filter.mpr ⟨Assoc.mem_of_find hd', by simp [counts, hactive', htype]⟩
  rw [he, List.mem_singleton] at hmem hmem'
  rw [← hmem] at hmem'
  exact congrArg Prod.fst hmem'

theorem activeCount_lower {d : Deployment} (hd : Assoc.find name st.deployments = some d)
    (t : String) :
    (st.lower name).activeCount t + (counts t (name, d)).toNat = st.activeCount t := by
  unfold lower activeCount
  rw [modify_eq hd]
  have hput := Assoc.countP_put (counts t) hd { d with active := false }
  simpa [counts] using hput

/-- The counts of types that are there. -/
def Partly (extra : String → Int) (st : DeploymentManager) : Prop :=
  ∀ t, st.hasType t = true → (st.count t : Int) = extra t + st.activeCount t

theorem Declined.unique (h : Declined st st') (hunique : (Assoc.keys st.deployments).Nodup) :
    (Assoc.keys st'.deployments).Nodup := by
  rw [h.frame.keys]
  exact hunique

theorem Frame.find_active (h : Frame st st')
    (hactives : ∀ name, st'.IsActive name → st.IsActive name) {d' : Deployment}
    (hd' : Assoc.find name st'.deployments = some d') (hactive : d'.active = true) :
    ∃ d, Assoc.find name st.deployments = some d ∧ d.active = true ∧
      d.actor_type = d'.actor_type := by
  obtain ⟨d, hd, hactive₀⟩ := hactives name ⟨d', hd', hactive⟩
  obtain ⟨d₁, hd₁, hfixed⟩ := h.find_back hd'
  obtain rfl : d₁ = d := Option.some.inj (hd₁.symm.trans hd)
  exact ⟨d₁, hd, hactive₀, (Deployment.type_of_fixed hfixed).symm⟩

theorem Declined.find_active (h : Declined st st') {d' : Deployment}
    (hd' : Assoc.find name st'.deployments = some d') (hactive : d'.active = true) :
    ∃ d, Assoc.find name st.deployments = some d ∧ d.active = true ∧ d.actor_type = d'.actor_type :=
  h.frame.find_active h.active hd' hactive

theorem Declined.activeCount_zero (h : Declined st st')
    (hunique : (Assoc.keys st.deployments).Nodup) {t : String} (hzero : st.activeCount t = 0) :
    st'.activeCount t = 0 := by
  rw [activeCount_eq_zero (h.unique hunique)]
  intro name d' hd' hactive htype
  obtain ⟨d, hd, hactive₀, htype₀⟩ := h.find_active hd' hactive
  exact (activeCount_eq_zero hunique).mp hzero name d hd hactive₀ (htype₀.trans htype)

/-! ## Types that disappear -/

/-- The types that are gone have left nothing behind. -/
def Settled (extra : String → Int) (st st' : DeploymentManager) : Prop :=
  ∀ t, st.hasType t = true → st'.hasType t = false → extra t = 0 ∧ st'.activeCount t = 0

theorem count_of_tables (htypes : st'.deployed_actor_types = st.deployed_actor_types) (t : String) :
    st'.count t = st.count t := by
  unfold count
  rw [htypes]

theorem counts_eq_false {t : String} {d : Deployment} (h : d.active = true → d.actor_type ≠ t) :
    counts t (name, d) = false := by
  unfold counts
  cases hactive : d.active with
  | false => rfl
  | true => simpa using h hactive

theorem counts_eq_true {d : Deployment} (h : d.active = true) :
    counts d.actor_type (name, d) = true := by
  simp [counts, h]

theorem stopped_lower (cfg : ManagerSettings) {d : Deployment}
    (hd : Assoc.find name st.deployments = some d) :
    (∀ t, ((stopDeployment cfg st name).lower name).hasType t = st.hasType t) ∧
      (∀ t, ((stopDeployment cfg st name).lower name).count t = st.count t) ∧
      ∀ t, ((stopDeployment cfg st name).lower name).activeCount t + (counts t (name, d)).toNat =
        st.activeCount t := by
  have htypes : ((stopDeployment cfg st name).lower name).deployed_actor_types =
      st.deployed_actor_types :=
    (modify_deployed_actor_types _).trans stopDeployment_deployed_actor_types
  refine ⟨fun t => ?_, fun t => count_of_tables htypes t, fun t => ?_⟩
  · unfold hasType
    rw [htypes]
  · have hstopped : (stopDeployment cfg st name).deployments = st.deployments :=
      stopDeployment_deployments
    rw [activeCount_lower (by rw [hstopped]; exact hd)]
    unfold activeCount
    rw [hstopped]

theorem settled_of_types (h : ∀ t, st'.hasType t = st.hasType t) : Settled extra st st' := by
  intro t ht hnot
  rw [h, ht] at hnot
  exact absurd hnot (by simp)

theorem count_lower (t : String) : (st.lower name).count t = st.count t :=
  count_of_tables (modify_deployed_actor_types _) t

theorem partly_lower_absent (cfg : ManagerSettings) (h : Partly extra st) {d : Deployment}
    (hd : Assoc.find name st.deployments = some d) (habsent : st.hasType d.actor_type = false) :
    Partly extra ((stopDeployment cfg st name).lower name) := by
  obtain ⟨htypes, hcounts, hactives⟩ := stopped_lower cfg hd
  intro t ht
  rw [htypes] at ht
  have hne : d.actor_type ≠ t := by
    rintro rfl
    rw [habsent] at ht
    exact absurd ht (by simp)
  have hsame := hactives t
  rw [counts_eq_false fun _ => hne, Bool.toNat_false, Nat.add_zero] at hsame
  rw [hcounts, hsame]
  exact h t ht

theorem toNat_pred {c : UInt32} (h : 1 ≤ c.toNat) : (c - 1).toNat = c.toNat - 1 := by
  have hle : (1 : UInt32) ≤ c := UInt32.le_iff_toNat_le.mpr (by rw [UInt32.toNat_one]; exact h)
  rw [UInt32.toNat_sub_of_le c 1 hle, UInt32.toNat_one]

theorem partly_lower_counted (cfg : ManagerSettings) (h : Partly extra st) {d : Deployment}
    (hd : Assoc.find name st.deployments = some d) (hactive : d.active = true) {c : UInt32}
    (hcount : Assoc.find d.actor_type st.deployed_actor_types = some c) (hpos : 1 ≤ c.toNat) :
    Partly extra ((stopDeployment cfg (st.setCount d.actor_type (c - 1)) name).lower name) := by
  have hd' : Assoc.find name (st.setCount d.actor_type (c - 1)).deployments = some d := hd
  obtain ⟨htypes, hcounts, hactives⟩ := stopped_lower cfg hd'
  intro t ht
  rw [htypes, hasType_setCount_of_find hcount] at ht
  have hsum : _ = st.activeCount t := hactives t
  have htotal := h t ht
  rw [hcounts, count_setCount]
  by_cases heq : d.actor_type = t
  · subst heq
    rw [counts_eq_true hactive, Bool.toNat_true] at hsum
    rw [count_of_find hcount] at htotal
    rw [if_pos rfl, toNat_pred hpos]
    omega
  · rw [counts_eq_false fun _ => heq, Bool.toNat_false] at hsum
    rw [if_neg heq, htotal]
    omega

theorem partly_dropCount (h : Partly extra st) (u : String) : Partly extra (st.dropCount u) := by
  intro t ht
  rw [hasType_dropCount, Bool.and_eq_true, decide_eq_true_eq] at ht
  rw [count_dropCount, if_neg ht.1]
  exact h t ht.2

theorem Declined.dropped {u : String} (h : Declined (st.dropCount u) st') :
    st'.hasType u = false := by
  cases hback : st'.hasType u with
  | false => rfl
  | true =>
    have hdrop := h.types u hback
    rw [hasType_dropCount] at hdrop
    simp at hdrop

/-- The last deployment of a type, behind the cascade that it sets off. -/
theorem settled_lower_last (cfg : ManagerSettings) (hunique : (Assoc.keys st.deployments).Nodup)
    {d : Deployment} (hd : Assoc.find name st.deployments = some d) (hactive : d.active = true)
    (hone : st.activeCount d.actor_type = 1) (hextra : extra d.actor_type = 0)
    (hdeclined : Declined (st.dropCount d.actor_type) st')
    (hsettled : Settled extra (st.dropCount d.actor_type) st') :
    Settled extra st ((stopDeployment cfg st' name).lower name) := by
  have hall : Declined (st.dropCount d.actor_type) ((stopDeployment cfg st' name).lower name) :=
    (hdeclined.trans declined_stopDeployment).trans declined_lower
  have hlast : Declined st' ((stopDeployment cfg st' name).lower name) :=
    declined_stopDeployment.trans declined_lower
  obtain ⟨d', hd', -⟩ := hdeclined.frame.find
    (show Assoc.find name (st.dropCount d.actor_type).deployments = some d from hd)
  obtain ⟨htypes, -, -⟩ := stopped_lower cfg hd'
  intro t ht hnot
  rw [htypes] at hnot
  by_cases hne : d.actor_type = t
  · subst hne
    refine ⟨hextra, ?_⟩
    rw [activeCount_eq_zero (hall.unique hunique)]
    intro name₁ d₁ hd₁ hactive₁ htype₁
    obtain ⟨d₀, hd₀, hactive₀, htype₀⟩ := hall.find_active hd₁ hactive₁
    have hname := eq_of_activeCount_one hone hd hactive hd₀ hactive₀ (htype₀.trans htype₁)
    exact (isActive_lower.mp ⟨d₁, hd₁, hactive₁⟩).1 hname
  · obtain ⟨hzero, hnone⟩ := hsettled t (by rw [hasType_dropCount, ht]; simp [hne]) hnot
    exact ⟨hzero, hlast.activeCount_zero (hdeclined.unique hunique) hnone⟩

theorem partly_deactivateWith (cfg : ManagerSettings) (name : String)
    {removed : DeploymentManager → String → DeploymentManager}
    (hunique : (Assoc.keys st.deployments).Nodup) (hextra : ∀ t, st.hasType t = true → 0 ≤ extra t)
    (h : Partly extra st)
    (hremoved : ∀ t, st.hasType t = true → Declined (st.dropCount t) (removed (st.dropCount t) t) ∧
      (Partly extra (st.dropCount t) → Partly extra (removed (st.dropCount t) t) ∧
        Settled extra (st.dropCount t) (removed (st.dropCount t) t))) :
    Partly extra (deactivateWith cfg removed st name) ∧
    Settled extra st (deactivateWith cfg removed st name) := by
  have hcases := deactivateWith_cases cfg removed st name
  generalize deactivateWith cfg removed st name = st' at hcases ⊢
  cases hcases with
  | absent => exact ⟨h, settled_of_types fun _ => rfl⟩
  | inactive d hd hactive =>
    refine ⟨fun t ht => ?_, settled_of_types hasType_lower⟩
    have hsum := activeCount_lower hd t
    rw [counts_eq_false fun h => absurd h hactive, Bool.toNat_false, Nat.add_zero] at hsum
    rw [hasType_lower] at ht
    rw [count_lower, hsum]
    exact h t ht
  | uncounted d hd hactive hcount =>
    exact ⟨partly_lower_absent cfg h hd (not_hasType_iff.mpr hcount),
      settled_of_types (stopped_lower cfg hd).1⟩
  | last d hd hactive hcount =>
    have hhas : st.hasType d.actor_type = true := hasType_iff.mpr ⟨1, hcount⟩
    have htotal := h d.actor_type hhas
    have hpos := activeCount_pos hd hactive
    have hnonneg := hextra d.actor_type hhas
    have hone : (1 : UInt32).toNat = 1 := rfl
    rw [count_of_find hcount, hone] at htotal
    obtain ⟨hdeclined, hcalls⟩ := hremoved d.actor_type hhas
    obtain ⟨hpartly, hsettled⟩ := hcalls (partly_dropCount h d.actor_type)
    obtain ⟨d', hd', hfixed⟩ :=
      hdeclined.frame.find (show Assoc.find name (st.dropCount d.actor_type).deployments =
        some d from hd)
    refine ⟨partly_lower_absent cfg hpartly hd' ?_, ?_⟩
    · rw [Deployment.type_of_fixed hfixed]
      exact hdeclined.dropped
    · exact settled_lower_last cfg hunique hd hactive (by omega) (by omega) hdeclined hsettled
  | counted d c hd hactive hcount hone =>
    have htotal := h d.actor_type (hasType_iff.mpr ⟨c, hcount⟩)
    have hpos := activeCount_pos hd hactive
    have hnonneg := hextra d.actor_type (hasType_iff.mpr ⟨c, hcount⟩)
    rw [count_of_find hcount] at htotal
    have hd' : Assoc.find name (st.setCount d.actor_type (c - 1)).deployments = some d := hd
    refine ⟨partly_lower_counted cfg h hd hactive hcount (by omega), settled_of_types fun t => ?_⟩
    exact ((stopped_lower cfg hd').1 t).trans (hasType_setCount_of_find hcount _ t)

theorem Settled.trans {st₁ st₂ st₃ : DeploymentManager} (h : Settled extra st₁ st₂)
    (h' : Settled extra st₂ st₃) (hdeclined : Declined st₂ st₃)
    (hunique : (Assoc.keys st₂.deployments).Nodup) : Settled extra st₁ st₃ := by
  intro t ht hnot
  cases hmid : st₂.hasType t with
  | false =>
    obtain ⟨hzero, hnone⟩ := h t ht hmid
    exact ⟨hzero, hdeclined.activeCount_zero hunique hnone⟩
  | true => exact h' t hmid hnot

theorem partly_actorTypeRemoved (cfg : ManagerSettings) (env : Surroundings)
    (hunique : (Assoc.keys st.deployments).Nodup) (hextra : ∀ t, st.hasType t = true → 0 ≤ extra t)
    (h : Partly extra st)
    (u : String) : Partly extra (actorTypeRemoved cfg env st u) ∧
    Settled extra st (actorTypeRemoved cfg env st u) := by
  refine (actorTypeRemoved_ind (P := fun st _ _ st' => Declined st st' ∧
    ((Assoc.keys st.deployments).Nodup → (∀ t, st.hasType t = true → 0 ≤ extra t) →
      Partly extra st →
      Partly extra st' ∧ Settled extra st st'))
      (fun st _ => ⟨.refl st, fun _ _ h => ⟨h, settled_of_types fun _ => rfl⟩⟩)
    (fun st u pre name post _ hpre hcalls => ?_) st u).2 hunique hextra h
  generalize pre.foldl _ st = mid at hpre hcalls ⊢
  obtain ⟨hdeclined, hpartly⟩ := hpre
  have hvisit : Declined mid (visitRemoved cfg (actorTypeRemoved cfg env) mid name) := by
    obtain ⟨hframe, htypes, hactive, hcleared⟩ := (declined_deactivate cfg env mid name).1
    exact ⟨⟨hframe.executors, hframe.dependencies, hframe.ttl_end_times, hframe.deployments⟩,
      htypes, hactive, hcleared⟩
  refine ⟨hdeclined.trans hvisit, fun hunique hextra h => ?_⟩
  have hunique' := hdeclined.unique hunique
  have hextra' : ∀ t, mid.hasType t = true → 0 ≤ extra t := fun t ht =>
    hextra t (hdeclined.types t ht)
  obtain ⟨hmid, hsettled⟩ := hpartly hunique hextra h
  obtain ⟨hafter, hsettled'⟩ := partly_deactivateWith cfg name hunique' hextra' hmid fun t ht => by
    obtain ⟨c, hc⟩ := hasType_iff.mp ht
    obtain ⟨hbelow, hcall⟩ := hcalls (mid.dropCount t) t (Assoc.length_erase_lt hc)
    refine ⟨hbelow, hcall hunique' fun t' ht' => hextra' t' ?_⟩
    rw [hasType_dropCount, Bool.and_eq_true] at ht'
    exact ht'.2
  exact ⟨hafter, hsettled.trans hsettled' hvisit hunique'⟩

theorem count_declined {t : String} (h : (st.count t : Int) = extra t + st.activeCount t)
    (hextra : 0 ≤ extra t) (hunique : (Assoc.keys st.deployments).Nodup)
    (hdeclined : Declined st st')
    (hpartly : st'.hasType t = true → (st'.count t : Int) = extra t + st'.activeCount t)
    (hsettled : st.hasType t = true → st'.hasType t = false → extra t = 0 ∧ st'.activeCount t = 0) :
    (st'.count t : Int) = extra t + st'.activeCount t := by
  cases ht' : st'.hasType t with
  | true => exact hpartly ht'
  | false =>
    rw [count_of_absent ht']
    cases ht : st.hasType t with
    | true =>
      obtain ⟨hzero, hnone⟩ := hsettled ht ht'
      omega
    | false =>
      rw [count_of_absent ht] at h
      have hnone := hdeclined.activeCount_zero hunique (show st.activeCount t = 0 by omega)
      omega

theorem Counted.partly (h : Counted extra st) : Partly extra st := fun t _ => h t

theorem partly_removed (cfg : ManagerSettings) (env : Surroundings)
    (hunique : (Assoc.keys st.deployments).Nodup) (hextra : ∀ t, 0 ≤ extra t) (u : String)
    (h : Partly extra (st.dropCount u)) :
    Partly extra (actorTypeRemoved cfg env (st.dropCount u) u) ∧
      Settled extra (st.dropCount u) (actorTypeRemoved cfg env (st.dropCount u) u) := by
  have hunique' : (Assoc.keys (st.dropCount u).deployments).Nodup := hunique
  exact partly_actorTypeRemoved cfg env hunique' (fun t _ => hextra t) h u

theorem Counted.deactivate (h : Counted extra st) (hextra : ∀ t, 0 ≤ extra t) (hinv : Inv st)
    (name : String) :
    Counted extra (deactivateDeployment cfg env st name) := by
  have hremoved : ∀ t, st.hasType t = true →
      Declined (st.dropCount t) (actorTypeRemoved cfg env (st.dropCount t) t) ∧
      (Partly extra (st.dropCount t) → Partly extra (actorTypeRemoved cfg env (st.dropCount t) t) ∧
        Settled extra (st.dropCount t) (actorTypeRemoved cfg env (st.dropCount t) t)) := fun t _ =>
    ⟨(cleared_actorTypeRemoved cfg env st t).1, partly_removed cfg env hinv.unique hextra t⟩
  obtain ⟨hpartly, hsettled⟩ := partly_deactivateWith cfg name hinv.unique (fun t _ => hextra t)
    h.partly hremoved
  intro t
  exact count_declined (h t) (hextra t) hinv.unique (declined_deactivate cfg env st name).1
    (hpartly t) (hsettled t)

/-- Some more of one type. -/
def plus (extra : String → Int) (u : String) (n : Int) (t : String) : Int :=
  if u = t then extra t + n else extra t

/-- One less of a type. If it was the last one, then no active deployment of the type is lost. -/
theorem Counted.decrement (h : Counted extra st) (hextra : ∀ t, 0 ≤ extra t) (hinv : Inv st)
    {u : String} (hpos : 1 ≤ st.count u) (hkept : st.count u = 1 →
      (decrementDeployedActorTypeCount cfg env st u).activeCount u = st.activeCount u) :
    Counted (plus extra u (-1)) (decrementDeployedActorTypeCount cfg env st u) := by
  have hdeclined := declined_decrement cfg env st u
  unfold decrementDeployedActorTypeCount decrementWith at hkept hdeclined ⊢
  unfold plus
  cases hcount : Assoc.find u st.deployed_actor_types with
  | none =>
    rw [count_of_absent (not_hasType_iff.mpr hcount)] at hpos
    omega
  | some c =>
    rw [hcount] at hkept hdeclined
    dsimp only at hkept hdeclined ⊢
    have htotal := h u
    rw [count_of_find hcount] at htotal hpos hkept
    intro t
    dsimp only
    by_cases hone : c = 1
    · rw [if_pos hone] at hkept hdeclined ⊢
      by_cases heq : u = t
      · subst heq
        have hc : c.toNat = 1 := by rw [hone]; rfl
        rw [count_of_absent (cleared_actorTypeRemoved cfg env st u).1.dropped, hkept hc, if_pos rfl]
        omega
      · rw [if_neg heq]
        obtain ⟨hpartly, hsettled⟩ := partly_removed cfg env hinv.unique hextra u
          (partly_dropCount h.partly u)
        refine count_declined (h t) (hextra t) hinv.unique hdeclined (hpartly t) fun ht hnot => ?_
        exact hsettled t (by rw [hasType_dropCount, ht]; simp [heq]) hnot
    · rw [if_neg hone, count_setCount]
      have htotal_t : (st.count t : Int) = extra t + (st.setCount u (c - 1)).activeCount t := h t
      by_cases heq : u = t
      · subst heq
        rw [count_of_find hcount] at htotal_t
        rw [if_pos rfl, if_pos rfl, toNat_pred hpos]
        omega
      · rw [if_neg heq, if_neg heq]
        exact htotal_t

/-! ## Types that appear -/

theorem Started.activeCount {d : Deployment} {executor : ExecutorIdentifier}
    (h : Started st name d executor st') (hd : Assoc.find name st.deployments = some d)
    (hinactive : d.active = false) (t : String) :
    st'.activeCount t = st.activeCount t + if d.actor_type = t then 1 else 0 := by
  obtain ⟨sub_id, hdeployments⟩ := h.deployments
  unfold DeploymentManager.activeCount
  rw [hdeployments]
  have hput := Assoc.countP_put (counts t) hd
    { d with active := true, lifetime_subscription_id := sub_id, restarts := d.restarts + 1 }
  simp only [counts, hinactive, Bool.false_and, Bool.toNat_false, Nat.add_zero,
    Bool.true_and] at hput
  rw [hput]
  by_cases heq : d.actor_type = t <;> simp [heq]

theorem Counted.started {d : Deployment} {executor : ExecutorIdentifier}
    (h : Counted (plus extra d.actor_type 1) st) (hd : Assoc.find name st.deployments = some d)
    (hinactive : d.active = false) (hstarted : Started st name d executor st') :
    Counted extra st' := by
  intro t
  rw [count_of_tables hstarted.deployed_actor_types, hstarted.activeCount hd hinactive, h t]
  unfold plus
  by_cases heq : d.actor_type = t
  · rw [if_pos heq, if_pos heq]
    omega
  · rw [if_neg heq, if_neg heq]
    omega

theorem toNat_succ {c : UInt32} (h : c.toNat + 1 < 4294967296) : (c + 1).toNat = c.toNat + 1 := by
  rw [UInt32.toNat_add, UInt32.toNat_one]
  exact Nat.mod_eq_of_lt h

/-- One more of a type, if the cascade that it sets off leaves the counts right. -/
theorem counted_incrementWith {added : DeploymentManager → String → DeploymentManager} {u : String}
    (h : Counted extra st) (hmax : st.count u + 1 < 4294967296)
    (hadded : st.hasType u = false → Counted (plus extra u 1) (st.setCount u 1) →
      Counted (plus extra u 1) (added (st.setCount u 1) u)) :
    Counted (plus extra u 1) (incrementWith added st u) := by
  have hset : ∀ c : UInt32, c.toNat = st.count u + 1 →
      Counted (plus extra u 1) (st.setCount u c) := by
    intro c hc t
    have htotal : (st.count t : Int) = extra t + (st.setCount u c).activeCount t := h t
    unfold plus
    rw [count_setCount]
    by_cases heq : u = t
    · subst heq
      rw [if_pos rfl, if_pos rfl, hc]
      omega
    · rw [if_neg heq, if_neg heq]
      exact htotal
  unfold incrementWith
  cases hcount : Assoc.find u st.deployed_actor_types with
  | some c =>
    rw [count_of_find hcount] at hset hmax
    exact hset _ (toNat_succ hmax)
  | none =>
    have hnew := not_hasType_iff.mpr hcount
    rw [count_of_absent hnew] at hset
    exact hadded hnew (hset 1 rfl)

/-- What is activated was not active, and its count does not overflow. -/
def Countable (st : DeploymentManager) (d : Deployment) : Prop :=
  d.active = false ∧ st.count d.actor_type + 1 < 4294967296

theorem untouched_increment (hinv : Inv st) {d : Deployment}
    (hd : Assoc.find name st.deployments = some d) (hreq : st.requirementsCheck d = true)
    (u : String) :
    Assoc.find name (incrementDeployedActorTypeCount cfg env st u).deployments = some d := by
  unfold incrementDeployedActorTypeCount incrementWith
  cases hcount : Assoc.find u st.deployed_actor_types with
  | some c => exact hd
  | none =>
    refine untouched_actorTypeAdded (hinv.setCount _ _) hd fun r hr => ?_
    have hhas := requirementsCheck_iff.mp hreq r hr
    refine ⟨(grown_setCount u 1).types r hhas, ?_⟩
    rintro rfl
    rw [not_hasType_iff.mpr hcount] at hhas
    exact absurd hhas (by simp)

/-- The invariant holds on, and the counts stay exact. -/
def KeptCounted (st st' : DeploymentManager) : Prop :=
  Inv st → ∀ extra, Counted extra st → Inv st' ∧ Counted extra st'

theorem KeptCounted.refl (st : DeploymentManager) : KeptCounted st st := fun hinv _ h => ⟨hinv, h⟩

theorem KeptCounted.trans {st₁ st₂ st₃ : DeploymentManager} (h : KeptCounted st₁ st₂)
    (h' : KeptCounted st₂ st₃) :
    KeptCounted st₁ st₃ := by
  intro hinv extra hcounted
  obtain ⟨hinv₂, hcounted₂⟩ := h hinv extra hcounted
  exact h' hinv₂ extra hcounted₂

theorem counted_visitAdded (hown : ∀ d executors, st.readyOn name = some (d, executors) →
    Countable st d) (hcalls : ∀ st' t, callsAdded st name st' t → st'.waiting < st.waiting →
      KeptCounted st' (actorTypeAdded cfg env st' t)) :
    KeptCounted st (visitAdded cfg env (actorTypeAdded cfg env) st name) := by
  intro hinv extra hcounted
  refine ⟨hinv.visitAdded name, ?_⟩
  cases hready : st.readyOn name with
  | none =>
    rw [visitAdded_waits hready]
    exact hcounted
  | some r =>
    obtain ⟨d, executors⟩ := r
    obtain ⟨hinactive, hmax⟩ := hown d executors hready
    obtain ⟨d', st₁, hd', -, hstarted, active, inactive, hvisit⟩ :=
      visitAdded_started cfg env hready
    have hincrement : Counted (plus extra d.actor_type 1)
      (incrementDeployedActorTypeCount cfg env st d.actor_type) := by
      refine counted_incrementWith hcounted hmax fun hnew hset => ?_
      have hlt := waiting_setCount (readyOn_eq.mp hready).1 hnew 1
      exact (hcalls _ _ ⟨d, executors, hready, rfl, hnew, rfl⟩ hlt (hinv.setCount _ _) _ hset).2
    obtain ⟨hd, hreq, -⟩ := readyOn_eq.mp hready
    obtain rfl : d' = d := Option.some.inj
      (hd'.symm.trans (untouched_increment hinv hd hreq d.actor_type))
    have hafter : Counted extra st₁ := hincrement.started hd' hinactive hstarted
    rw [hvisit]
    exact hafter

theorem counted_actorTypeAdded (cfg : ManagerSettings) (env : Surroundings) (hinv : Inv st)
    {u : String} (h : Counted extra st) (hturns : ∀ st' name d executors,
      Cascade.Turn (dependents env) (visitAdded cfg env) waiting callsAdded st u st' name →
        st'.readyOn name = some (d, executors) → Countable st' d) :
    Counted extra (actorTypeAdded cfg env st u) := by
  have hkept : KeptCounted st (actorTypeAdded cfg env st u) :=
    Cascade.eval_rel_of_turns bounded_visitAdded KeptCounted.refl KeptCounted.trans
      (fun _ _ hown hcalls => counted_visitAdded hown hcalls) fun st' name hturn d executors =>
        hturns st' name d executors hturn
  exact (hkept hinv extra h).2

/-- The cascade of a type keeps the counts: what it activates was not active, and no count
overflows. -/
def Orderly (cfg : ManagerSettings) (env : Surroundings) (st : DeploymentManager) (u : String) :
    Prop :=
  st.count u + 1 < 4294967296 ∧ ∀ st' name d, Activates cfg env st u st' name d → Countable st' d

theorem Counted.increment (h : Counted extra st) (hinv : Inv st) {u : String}
    (horderly : Orderly cfg env st u) :
    Counted (plus extra u 1) (incrementDeployedActorTypeCount cfg env st u) := by
  refine counted_incrementWith h horderly.1 fun hnew hset => ?_
  refine counted_actorTypeAdded cfg env (hinv.setCount _ _) hset fun st' name d executors hturn
    hready => ?_
  exact horderly.2 st' name d ⟨hnew, hturn, executors, hready⟩

/-! ## Messages -/

/-- An actor that is not managed says that it is there. -/
def registers (t : String) (p : Publication) : Bool :=
  decide (handlerOf p = some .unmanagedActorUpdate ∧ p.getStrAttr "command" = some "register" ∧
    p.getStrAttr "update_actor_type" = some t)

def deregisters (t : String) (p : Publication) : Bool :=
  decide (handlerOf p = some .unmanagedActorUpdate ∧ p.getStrAttr "command" = some "deregister" ∧
    p.getStrAttr "update_actor_type" = some t)

def registered (t : String) (messages : List (Surroundings × Publication)) : Nat :=
  messages.countP fun m => registers t m.2

def deregistered (t : String) (messages : List (Surroundings × Publication)) : Nat :=
  messages.countP fun m => deregisters t m.2

/-- The message does not come to a place where a count and a flag go apart. -/
def KeepsCounts (cfg : ManagerSettings) (env : Surroundings) (st : DeploymentManager)
    (p : Publication) : Prop :=
  (∀ r executors, handlerOf p = some .deployment →
    st.readDeployment p = some (some (r, executors)) →
    match Assoc.find r.name st.deployments with
    | none =>
      (recordDeployment cfg env st r (r.endTime env)).requirementsCheck
        (r.deployment (r.endTime env) (env.subscribe (cancelationFilter cfg r.name))) = true →
      Orderly cfg env (recordDeployment cfg env st r (r.endTime env)) r.actor_type
    | some d => r.replaces d = true →
      (decrementDeployedActorTypeCount cfg env (stopDeployment cfg st r.name) d.actor_type).IsActive
        r.name ∧
        Orderly cfg env (exchangeType cfg env st d r) r.actor_type) ∧
  (∀ name d, handlerOf p = some .lifetimeEvent → p.getStrAttr "type" = some "actor_exit" →
    p.getStrAttr "lifetime_instance_id" = some name → Assoc.find name st.deployments = some d →
    Deployment.overdue d (env.now 0) = true → d.active = false) ∧
  ∀ t, registers t p = true → Orderly cfg env st t

theorem Counted.of_tables (h : Counted extra st) (hdeployments : st'.deployments = st.deployments)
    (htypes : st'.deployed_actor_types = st.deployed_actor_types) : Counted extra st' := by
  intro t
  rw [count_of_tables htypes, h t]
  unfold activeCount
  rw [hdeployments]

theorem Counted.modify (h : Counted extra st) (name : String) {f : Deployment → Deployment}
    (hactive : ∀ d, (f d).active = d.active) (htype : ∀ d, (f d).actor_type = d.actor_type) :
    Counted extra (st.modify name f) := by
  cases hd : Assoc.find name st.deployments with
  | none =>
    unfold DeploymentManager.modify
    rw [hd]
    exact h
  | some d =>
    rw [modify_eq hd]
    intro t
    have hput := Assoc.countP_put (counts t) hd (f d)
    have hsame : counts t (name, f d) = counts t (name, d) := by simp [counts, hactive, htype]
    rw [hsame] at hput
    show (st.count t : Int) = extra t +
        ((Assoc.put name (f d) st.deployments).countP (counts t) : Nat)
    rw [Nat.add_right_cancel hput]
    exact h t

theorem Counted.startDeployment (h : Counted extra st) (name : String)
    (executor : ExecutorIdentifier) (delay : UInt32) :
    Counted extra (st.startDeployment name executor delay) := by
  unfold DeploymentManager.startDeployment
  split
  · rename_i d _
    have hemitted : Counted extra (st.emit (.delayedPublish (spawnMessage d executor) delay)) :=
      h.of_tables rfl rfl
    exact hemitted.modify name (fun _ => rfl) fun _ => rfl
  · exact h

theorem Counted.remove (h : Counted extra st) (hinv : Inv st) (hinactive : ¬ st.IsActive name) :
    Counted extra (removeDeployment st name) := by
  cases hd : Assoc.find name st.deployments with
  | none =>
    unfold removeDeployment
    rw [hd]
    exact h
  | some d =>
    obtain ⟨hdeployments, -, htypes, -, -⟩ := removeDeployment_tables hd
    intro t
    have herase := Assoc.countP_erase (counts t) hinv.unique hd
    rw [counts_eq_false fun hactive => absurd ⟨d, hd, hactive⟩ hinactive, Bool.toNat_false,
      Nat.add_zero] at herase
    rw [count_of_tables htypes, h t]
    unfold activeCount
    rw [hdeployments, herase]

theorem Counted.retire (h : Counted extra st) (hextra : ∀ t, 0 ≤ extra t) (hinv : Inv st)
    (name : String) :
    Counted extra (retire cfg env st name) := by
  unfold DeploymentManager.retire
  split
  · rename_i d hd
    obtain ⟨hdeclined, hinactive⟩ := declined_deactivate cfg env st name
    have hcounted : Counted extra (deactivateDeployment cfg env st name) :=
      h.deactivate hextra hinv name
    dsimp only
    split
    · exact hcounted.of_tables rfl rfl
    · refine Counted.remove ?_ ?_ hinactive
      · exact hcounted.of_tables rfl rfl
      · exact (hinv.declined hdeclined).of_eq rfl rfl rfl
  · exact h

theorem Counted.expireAll (h : Counted extra st) (hextra : ∀ t, 0 ≤ extra t) (hinv : Inv st)
    (ends : List (UInt32 × List String)) (reading : Nat) :
    Counted extra (expireAll cfg env ends reading st) := by
  have hexpire : ∀ end_time name st, Inv st ∧ Counted extra st →
      Inv (expire cfg env end_time st name) ∧ Counted extra (expire cfg env end_time st name) := by
    rintro end_time name st ⟨hinv, h⟩
    refine ⟨hinv.expire end_time name, ?_⟩
    unfold expire
    split
    · split
      · exact h.retire hextra hinv name
      · exact h
    · exact h
  have hfold : ∀ end_time (names : List String) st, Inv st ∧ Counted extra st →
      Inv (names.foldl (expire cfg env end_time) st) ∧
      Counted extra (names.foldl (expire cfg env end_time) st) := by
    intro end_time names
    induction names with
    | nil => exact fun _ h => h
    | cons name names ih => exact fun st h => ih _ (hexpire end_time name st h)
  induction ends generalizing reading st with
  | nil => exact h
  | cons e ends ih =>
    unfold DeploymentManager.expireAll
    split
    · obtain ⟨hinv', h'⟩ := hfold e.1 e.2 st ⟨hinv, h⟩
      refine ih ?_ ?_ (reading + 1)
      · exact h'.of_tables rfl rfl
      · exact hinv'.of_eq rfl rfl rfl
    · exact h

theorem Counted.crashed (h : Counted extra st) (hextra : ∀ t, 0 ≤ extra t) (hinv : Inv st)
    (name : String) (d : Deployment) : Counted extra (crashed cfg env st name d) := by
  unfold DeploymentManager.crashed
  split
  · split
    · exact h.startDeployment _ _ _
    · exact h
  · generalize hst : (if d.active then { st with active_deployments := st.active_deployments - 1 }
      else st) = st₁
    have htables : st₁.deployments = st.deployments ∧
        st₁.deployed_actor_types = st.deployed_actor_types ∧
        st₁.dependencies = st.dependencies := by
      rw [← hst]
      split <;> exact ⟨rfl, rfl, rfl⟩
    have hinv₁ : Inv st₁ := hinv.of_eq htables.1 htables.2.2 htables.2.1
    obtain ⟨hdeclined, hinactive⟩ := declined_deactivate cfg env st₁ name
    exact ((h.of_tables htables.1 htables.2.1).deactivate hextra hinv₁ name).remove
      (hinv₁.declined hdeclined) hinactive

theorem activeCount_keys (hunique : (Assoc.keys st.deployments).Nodup) (t : String) :
    st.activeCount t =
    (Assoc.keys st.deployments).countP fun name =>
      (Assoc.find name st.deployments).any fun d => d.active && d.actor_type == t := by
  unfold activeCount Assoc.keys
  rw [List.countP_map]
  refine List.countP_congr fun e he => ?_
  rw [Function.comp, Assoc.find_of_mem hunique he]
  rfl

theorem Frame.activeCount_le (h : Frame st st')
    (hactives : ∀ name, st'.IsActive name → st.IsActive name)
    (hunique : (Assoc.keys st.deployments).Nodup) (t : String) :
    st'.activeCount t ≤ st.activeCount t := by
  have hunique' : (Assoc.keys st'.deployments).Nodup := by
    rw [h.keys]
    exact hunique
  rw [activeCount_keys hunique', activeCount_keys hunique, h.keys]
  refine List.countP_mono_left fun name _ hcounts => ?_
  cases hd' : Assoc.find name st'.deployments with
  | none => simp [hd'] at hcounts
  | some d' =>
    rw [hd', Option.any_some, Bool.and_eq_true, beq_iff_eq] at hcounts
    obtain ⟨d, hd, hactive, htype⟩ := h.find_active hactives hd' hcounts.1
    rw [hd]
    simp [hactive, htype, hcounts.2]

theorem Counted.recordDeployment (h : Counted extra st) (r : Request)
    (hnew : Assoc.find r.name st.deployments = none) (end_time : UInt32) :
    Counted extra (recordDeployment cfg env st r end_time) := by
  intro t
  show (st.count t : Int) = extra t +
    ((Assoc.put r.name (r.deployment end_time _) st.deployments).countP (counts t) : Nat)
  rw [Assoc.put_of_absent (Assoc.find_eq_none.mp hnew), List.countP_append, List.countP_singleton,
    h t]
  simp [counts, Request.deployment, activeCount]

theorem Counted.insertDeployment (h : Counted extra st) (hinv : Inv st) (r : Request)
    (hnew : Assoc.find r.name st.deployments = none) (executors : ExecutorList)
    (horderly : (DeploymentManager.recordDeployment cfg env st r (r.endTime env)).requirementsCheck
        (r.deployment (r.endTime env) (env.subscribe (cancelationFilter cfg r.name))) = true →
      Orderly cfg env (DeploymentManager.recordDeployment cfg env st r (r.endTime env))
        r.actor_type) :
    Counted extra (insertDeployment cfg env st r (r.endTime env) executors) := by
  have hrecorded : Counted extra (DeploymentManager.recordDeployment cfg env st r
      (r.endTime env)) :=
    h.recordDeployment r hnew _
  have hinv₁ : Inv (DeploymentManager.recordDeployment cfg env st r (r.endTime env)) :=
    hinv.recordDeployment r hnew _
  have hd : Assoc.find r.name (DeploymentManager.recordDeployment cfg env st r
      (r.endTime env)).deployments =
      some (r.deployment (r.endTime env) (env.subscribe (cancelationFilter cfg r.name))) :=
        Assoc.find_put_self _ _ _
  unfold DeploymentManager.insertDeployment
  dsimp only
  split
  · rename_i hreq
    have hincrement := hrecorded.increment hinv₁ (horderly hreq)
    obtain ⟨d', hd', -, hstarted⟩ :=
      (grown_increment cfg env (DeploymentManager.recordDeployment cfg env st r (r.endTime env))
        r.actor_type).started cfg env hd executors.front
    obtain rfl := Option.some.inj (hd'.symm.trans (untouched_increment hinv₁ hd hreq r.actor_type))
    have hafter := Counted.started hincrement hd' rfl hstarted
    have hactivated : Counted extra (activateDeployment cfg env
        (DeploymentManager.recordDeployment cfg env st r (r.endTime env)) r.name
          executors.front) := by
      unfold activateDeployment activateWith
      rw [hd]
      exact hafter
    exact hactivated.of_tables rfl rfl
  · exact hrecorded.of_tables rfl rfl

theorem Counted.exchanged (h : Counted (plus extra u (-1)) st) {d : Deployment}
    (hd : Assoc.find name st.deployments = some d) (hactive : d.active = true)
    (htype : d.actor_type = u) {f : Deployment → Deployment} (hfactive : (f d).active = true)
    (hftype : (f d).actor_type = v) :
    Counted (plus extra v (-1)) (st.modify name f) := by
  rw [modify_eq hd]
  intro t
  have htotal := h t
  have hput := Assoc.countP_put (counts t) hd (f d)
  show (st.count t : Int) = plus extra v (-1) t +
      ((Assoc.put name (f d) st.deployments).countP (counts t) : Nat)
  unfold plus activeCount at *
  simp only [counts, hactive, hfactive, htype, hftype, Bool.true_and] at hput htotal ⊢
  have hbool : ∀ a : String, (a == t).toNat = if a = t then 1 else 0 := by
    intro a
    by_cases heq : a = t <;> simp [heq]
  rw [hbool, hbool] at hput
  split_ifs at hput htotal ⊢ <;> omega

theorem Counted.replaceDeployment (h : Counted extra st) (hextra : ∀ t, 0 ≤ extra t) (hinv : Inv st)
    {d : Deployment} {r : Request} (hd : Assoc.find r.name st.deployments = some d)
    (hactive : (decrementDeployedActorTypeCount cfg env (stopDeployment cfg st r.name)
      d.actor_type).IsActive r.name)
    (horderly : Orderly cfg env (exchangeType cfg env st d r) r.actor_type)
    (executors : ExecutorList) :
    Counted extra (replaceDeployment cfg env st d r executors) := by
  have hstopped : Counted extra (stopDeployment cfg st r.name) :=
    h.of_tables stopDeployment_deployments stopDeployment_deployed_actor_types
  have hinv₁ : Inv (stopDeployment cfg st r.name) := hinv.declined declined_stopDeployment
  have hdeclined := declined_decrement cfg env (stopDeployment cfg st r.name) d.actor_type
  have hd₁ : Assoc.find r.name (stopDeployment cfg st r.name).deployments = some d := by
    rw [stopDeployment_deployments]
    exact hd
  obtain ⟨d₂, hd₂, hactive₂⟩ := hactive
  obtain ⟨d₀, hd₀, hactive₀, htype₀⟩ := hdeclined.find_active hd₂ hactive₂
  obtain rfl : d₀ = d := Option.some.inj (hd₀.symm.trans hd₁)
  have hpos := activeCount_pos hd₀ hactive₀
  have hpos₂ := activeCount_pos hd₂ hactive₂
  rw [← htype₀] at hpos₂
  have htotal := hstopped d₀.actor_type
  have hnonneg := hextra d₀.actor_type
  have hle := hdeclined.frame.activeCount_le hdeclined.active hinv₁.unique d₀.actor_type
  have hdecremented : Counted (plus extra d₀.actor_type (-1))
      (decrementDeployedActorTypeCount cfg env (stopDeployment cfg st r.name) d₀.actor_type) :=
    hstopped.decrement hextra hinv₁ (by omega) fun hone => by omega
  have hexchanged : Counted (plus extra r.actor_type (-1)) (exchangeType cfg env st d₀ r) :=
    hdecremented.exchanged hd₂ hactive₂ htype₀.symm hactive₂ rfl
  have hincrement := hexchanged.increment (hinv.exchangeType d₀ r) horderly
  refine Counted.startDeployment (fun t => ?_) _ _ _
  rw [hincrement t]
  unfold plus
  split <;> omega

theorem Counted.deploy (h : Counted extra st) (hextra : ∀ t, 0 ≤ extra t) (hinv : Inv st)
    {p : Publication} {r : Request} {executors : ExecutorList} (hp : handlerOf p = some .deployment)
    (hr : st.readDeployment p = some (some (r, executors))) (hkeeps : KeepsCounts cfg env st p) :
    Counted extra (deploy cfg env st r executors) := by
  have hkeep := hkeeps.1 r executors hp hr
  have hdeployed : Counted extra (match Assoc.find r.name st.deployments with
      | none => DeploymentManager.insertDeployment cfg env st r (r.endTime env) executors
      | some d => updateDeployment cfg env st d r (r.endTime env) executors) := by
    cases hd : Assoc.find r.name st.deployments with
    | none =>
      rw [hd] at hkeep
      exact h.insertDeployment hinv r hd executors hkeep
    | some d =>
      rw [hd] at hkeep
      have hreplaced : Counted extra
          (if r.replaces d then DeploymentManager.replaceDeployment cfg env st d r executors
            else st) := by
        split
        · rename_i hreplaces
          obtain ⟨hactive, horderly⟩ := hkeep hreplaces
          exact h.replaceDeployment hextra hinv hd hactive horderly executors
        · exact h
      have hend := hreplaced.modify r.name (f := fun d => { d with lifetime_end := r.endTime env })
        (fun _ => rfl) fun _ => rfl
      dsimp only
      unfold updateDeployment
      dsimp only
      split
      · exact hend.of_tables rfl rfl
      · exact hend
  obtain ⟨ends, effects, hdeploy⟩ := deploy_tables cfg env st r executors
  rw [hdeploy]
  exact hdeployed.of_tables rfl rfl

theorem receive_registers {p : Publication} {t : String} (h : registers t p = true) :
    receive cfg env st p =
    some (incrementDeployedActorTypeCount cfg env { st with effects := [] } t) := by
  obtain ⟨hp, hcommand, htype⟩ := of_decide_eq_true h
  rw [receive_register hp hcommand, htype]
  rfl

theorem receive_deregisters {p : Publication} {t : String} (h : deregisters t p = true) :
    receive cfg env st p =
    some (decrementDeployedActorTypeCount cfg env { st with effects := [] } t) := by
  obtain ⟨hp, hcommand, htype⟩ := of_decide_eq_true h
  rw [receive_deregister hp hcommand, htype]
  rfl

theorem registers_iff {p : Publication} {t : String} (h : registers t p = true) (t' : String) :
    registers t' p = decide (t = t') ∧ deregisters t' p = false := by
  obtain ⟨hp, hcommand, htype⟩ := of_decide_eq_true h
  unfold registers deregisters
  rw [hp, hcommand, htype]
  by_cases heq : t = t' <;> simp [heq]

theorem deregisters_iff {p : Publication} {t : String} (h : deregisters t p = true) (t' : String) :
    deregisters t' p = decide (t = t') ∧ registers t' p = false := by
  obtain ⟨hp, hcommand, htype⟩ := of_decide_eq_true h
  unfold registers deregisters
  rw [hp, hcommand, htype]
  by_cases heq : t = t' <;> simp [heq]

theorem Counted.receive {p : Publication} (h : Counted extra st) (hextra : ∀ t, 0 ≤ extra t) (hinv : Inv st)
    (hknown : ∀ t, deregisters t p = true → 1 ≤ extra t) (hkeeps : KeepsCounts cfg env { st with effects := [] } p)
    (hstep : receive cfg env st p = some st') :
    Counted (fun t => extra t + (registers t p).toNat - (deregisters t p).toNat) st' := by
  have h₀ : Counted extra { st with effects := [] } := h.of_tables rfl rfl
  have hinv₀ : Inv { st with effects := [] } := hinv.of_eq rfl rfl rfl
  by_cases hreg : ∃ t, registers t p = true
  · obtain ⟨t, ht⟩ := hreg
    rw [receive_registers ht] at hstep
    rw [← Option.some.inj hstep]
    intro t'
    obtain ⟨hthis, hother⟩ := registers_iff ht t'
    rw [h₀.increment hinv₀ (hkeeps.2.2 t ht) t']
    dsimp only
    rw [hthis, hother]
    unfold plus
    by_cases heq : t = t' <;> simp [heq]
  · by_cases hdereg : ∃ t, deregisters t p = true
    · obtain ⟨t, ht⟩ := hdereg
      rw [receive_deregisters ht] at hstep
      rw [← Option.some.inj hstep]
      have htotal := h₀ t
      have hone := hknown t ht
      have hdeclined := declined_decrement cfg env { st with effects := [] } t
      have hcounted : Counted (plus extra t (-1))
        (decrementDeployedActorTypeCount cfg env { st with effects := [] } t) := by
        refine h₀.decrement hextra hinv₀ (by omega) fun hlast => ?_
        have hnone : activeCount { st with effects := [] } t = 0 := by omega
        rw [hnone]
        exact hdeclined.activeCount_zero hinv₀.unique hnone
      intro t'
      obtain ⟨hthis, hother⟩ := deregisters_iff ht t'
      rw [hcounted t']
      dsimp only
      rw [hthis, hother]
      unfold plus
      by_cases heq : t = t' <;> simp [heq]
      omega
    · have hsame : ∀ t, extra t + ((registers t p).toNat : Int) - (deregisters t p).toNat = extra t := by
        intro t
        cases hr : registers t p with
        | true => exact absurd ⟨t, hr⟩ hreg
        | false =>
          cases hd : deregisters t p with
          | true => exact absurd ⟨t, hd⟩ hdereg
          | false => simp
      simp only [hsame]
      cases receive_cases hstep with
      | quiet hquiet => exact h₀.of_tables hquiet.deployments hquiet.deployed_actor_types
      | deployed hp hr => exact h₀.deploy hextra hinv₀ hp hr hkeeps
      | cancelled hp hname => exact h₀.retire hextra hinv₀ _
      | expired hp => exact h₀.expireAll hextra hinv₀ _ _
      | overdue hp hexit hname hd hover =>
        refine h₀.remove hinv₀ ?_
        rintro ⟨d', hd', hactive⟩
        obtain rfl := Option.some.inj (hd.symm.trans hd')
        rw [hkeeps.2.1 _ _ hp hexit hname hd hover] at hactive
        exact absurd hactive (by simp)
      | crashed hp hexit hname hd hover hreason hcrash => exact h₀.crashed hextra hinv₀ _ _
      | registered hp hcommand htype => exact absurd ⟨_, decide_eq_true ⟨hp, hcommand, htype⟩⟩ hreg
      | deregistered hp hcommand htype => exact absurd ⟨_, decide_eq_true ⟨hp, hcommand, htype⟩⟩ hdereg

/-- In a run whose messages keep counts and flags together, every count is exact. -/
theorem type_counts_exact {messages : List (Surroundings × Publication)}
    (hrun : run cfg messages = some st)
    (hknown : ∀ pre m post t, messages = pre ++ m :: post → deregisters t m.2 = true →
      deregistered t pre < registered t pre)
    (hkeeps : ∀ pre m post before, messages = pre ++ m :: post → run cfg pre = some before →
      KeepsCounts cfg m.1 { before with effects := [] } m.2) (t : String) :
    st.count t = (registered t messages - deregistered t messages) + st.activeCount t := by
  have hmain : (∀ t, deregistered t messages ≤ registered t messages) ∧
      Counted (fun t => (registered t messages : Int) - deregistered t messages) st := by
    induction messages using List.reverseRecOn generalizing st with
    | nil =>
      obtain rfl : init = st := Option.some.inj hrun
      exact ⟨fun _ => Nat.le_refl _, fun _ => rfl⟩
    | append_singleton messages m ih =>
      unfold run at hrun
      rw [Runs.foldlM_snoc] at hrun
      obtain ⟨before, hbefore, hstep⟩ := Option.bind_eq_some_iff.mp hrun
      have hlast : messages ++ [m] = messages ++ m :: [] := rfl
      obtain ⟨hle, hcounted⟩ := ih hbefore
        (fun pre m' post t heq => hknown pre m' (post ++ [m]) t (by rw [heq]; simp))
        (fun pre m' post before' heq => hkeeps pre m' (post ++ [m]) before' (by rw [heq]; simp))
      have hknown_m : ∀ t, deregisters t m.2 = true → deregistered t messages < registered t
          messages :=
        fun t => hknown messages m [] t hlast
      have hafter := hcounted.receive (fun t => by have := hle t; omega) (inv_run hbefore)
        (fun t ht => by have := hknown_m t ht; omega) (hkeeps messages m [] before hlast hbefore)
          hstep
      have hreg : ∀ t, registered t (messages ++ [m]) = registered t messages +
          (registers t m.2).toNat := by
        intro t
        unfold registered
        rw [List.countP_append, List.countP_singleton]
        cases registers t m.2 <;> rfl
      have hdereg : ∀ t, deregistered t (messages ++ [m]) = deregistered t messages +
          (deregisters t m.2).toNat := by
        intro t
        unfold deregistered
        rw [List.countP_append, List.countP_singleton]
        cases deregisters t m.2 <;> rfl
      refine ⟨fun t => ?_, fun t => ?_⟩
      · rw [hreg, hdereg]
        cases hd : deregisters t m.2 with
        | true =>
          have := hknown_m t hd
          simp only [Bool.toNat_true]
          omega
        | false =>
          have := hle t
          simp only [Bool.toNat_false]
          omega
      · rw [hafter t]
        dsimp only
        rw [hreg, hdereg]
        push_cast
        omega
  have htotal := hmain.2 t
  have hle := hmain.1 t
  dsimp only at htotal
  omega

theorem orderly_of_no_dependents {t : String} (hcount : st.count t + 1 < 4294967296)
    (hnone : dependents env (st.setCount t 1) t = []) : Orderly cfg env st t := by
  refine ⟨hcount, fun st' name d h => ?_⟩
  obtain ⟨-, hturn, -⟩ := h
  exact absurd hnone hturn.targets_ne_nil

/-- A deployment and a new version of it. -/
def redeployment : List (Surroundings × Publication) :=
  inOrder [executorMessage, registerMessage "t", deploymentMessage "d" "u" "1" "t",
    deploymentMessage "d" "u" "2" "t"]

theorem type_counts_exact_redeployment :
    ∃ st, run nodeSettings redeployment = some st ∧ st.count "u" = 1 ∧
    st.activeCount "u" = 1 ∧ ∀ t, st.count t =
      (registered t redeployment - deregistered t redeployment) + st.activeCount t := by
  obtain ⟨st, hrun, hcount, hactive⟩ : ∃ st, run nodeSettings redeployment = some st ∧
      st.count "u" = 1 ∧
    st.activeCount "u" = 1 := ⟨_, rfl, rfl, rfl⟩
  refine ⟨st, hrun, hcount, hactive, type_counts_exact hrun ?_ ?_⟩
  · intro pre m post t hsplit hm
    have hmem : m ∈ redeployment := by simp [hsplit]
    obtain ⟨-, hcommand, -⟩ := of_decide_eq_true hm
    simp only [redeployment, inOrder, List.map_cons, List.map_nil, List.mem_cons, List.not_mem_nil,
      or_false] at hmem
    rcases hmem with rfl | rfl | rfl | rfl <;> exact absurd hcommand (by decide)
  · refine Runs.meets_cons rfl ?_ (Runs.meets_cons rfl ?_
      (Runs.meets_cons rfl ?_ (Runs.meets_cons rfl ?_ Runs.meets_nil)))
    · exact ⟨nofun, nofun, nofun⟩
    · refine ⟨nofun, nofun, fun t ht => ?_⟩
      obtain ⟨-, -, htype⟩ := of_decide_eq_true ht
      obtain rfl : "t" = t := Option.some.inj htype
      exact orderly_of_no_dependents (by decide) rfl
    · refine ⟨fun r executors _ hr => ?_, nofun, nofun⟩
      obtain ⟨rfl, -⟩ := Prod.mk.inj (Option.some.inj (Option.some.inj hr))
      exact fun _ => orderly_of_no_dependents (by decide) rfl
    · refine ⟨fun r executors _ hr => ?_, nofun, nofun⟩
      obtain ⟨rfl, -⟩ := Prod.mk.inj (Option.some.inj (Option.some.inj hr))
      exact fun _ => ⟨⟨_, rfl, rfl⟩, orderly_of_no_dependents (by decide) rfl⟩

/-- A new version of a deployment that waits for another type is counted, and no deployment is
active. -/
theorem redeployed_while_waiting_counted : ∃ st,
    run nodeSettings (inOrder [executorMessage, deploymentMessage "d" "u" "1" "t",
      deploymentMessage "d" "u" "2" "t"]) =
      some st ∧
    (∀ t, registered t (inOrder [executorMessage, deploymentMessage "d" "u" "1" "t",
      deploymentMessage "d" "u" "2" "t"]) = 0) ∧
    (∀ t, deregistered t (inOrder [executorMessage, deploymentMessage "d" "u" "1" "t",
      deploymentMessage "d" "u" "2" "t"]) = 0) ∧
    st.activeCount "u" = 0 ∧ st.count "u" = 1 :=
  ⟨_, rfl, fun _ => rfl, fun _ => rfl, rfl, rfl⟩

end DeploymentManager

end UActor
