import UActor.Controllers.Requirements

/-!
# The executor registry

`executors` should hold the executors of a runtime type in the order in which they registered. The
second one of a type enters it after its strings were moved away, and which one leaves is decided
without a look at the instance.
-/

namespace UActor

def ExecutorList.toList (executors : ExecutorList) : List ExecutorIdentifier :=
  executors.front :: executors.rest

namespace DeploymentManager

variable {cfg : ManagerSettings} {st st' : DeploymentManager} {t t' : String}
  {e : ExecutorIdentifier}

/-! ## What the messages say -/

inductive RegistryCommand where
  | register
  | deregister
deriving DecidableEq, Repr

/-- What `receive_executor_update` reads of a message that it does not pass over. -/
structure ExecutorUpdate where
  command : RegistryCommand
  actor_runtime_type : String
  executor : ExecutorIdentifier
deriving DecidableEq, Repr

def readExecutorUpdate (p : Publication) : Option ExecutorUpdate :=
  match p.getStrAttr "actor_runtime_type", p.getStrAttr "update_node_id",
    p.getStrAttr "update_actor_type", p.getStrAttr "update_instance_id" with
  | some actor_runtime_type, some node_id, some actor_type, some instance_id =>
    if p.getStrAttr "command" = some "register" then
      some ⟨.register, actor_runtime_type, ⟨node_id, actor_type, instance_id⟩⟩
    else if p.getStrAttr "command" = some "deregister" then
      some ⟨.deregister, actor_runtime_type, ⟨node_id, actor_type, instance_id⟩⟩
    else none
  | _, _, _, _ => none

def executorUpdate (p : Publication) : Option ExecutorUpdate :=
  if handlerOf p = some .executorUpdate then readExecutorUpdate p else none

/-- A set in the order of registration: an executor that is there registers to no effect. -/
def ExecutorUpdate.follow (u : ExecutorUpdate) (executors : List ExecutorIdentifier) :
    List ExecutorIdentifier :=
  match u.command with
  | .register => if u.executor ∈ executors then executors else executors ++ [u.executor]
  | .deregister => executors.filter fun e => e ≠ u.executor

/-- The executors of a runtime type after one more message. -/
def registryStep (t : String) (executors : List ExecutorIdentifier)
    (m : Surroundings × Publication) :
    List ExecutorIdentifier :=
  match executorUpdate m.2 with
  | some u => if u.actor_runtime_type = t then u.follow executors else executors
  | none => executors

/-- The executors registered for a runtime type whose registrations were not cancelled since. -/
def registeredExecutors (t : String) (messages : List (Surroundings × Publication)) :
    List ExecutorIdentifier :=
  messages.foldl (registryStep t) []

theorem registeredExecutors_snoc (t : String) (messages : List (Surroundings × Publication))
    (m : Surroundings × Publication) :
    registeredExecutors t (messages ++ [m]) = registryStep t (registeredExecutors t messages)
      m := by
  unfold registeredExecutors
  rw [List.foldl_append, List.foldl_cons, List.foldl_nil]

theorem ExecutorUpdate.nodup_follow (u : ExecutorUpdate) {executors : List ExecutorIdentifier}
    (h : executors.Nodup) : (u.follow executors).Nodup := by
  unfold follow
  split
  · split
    · exact h
    · rename_i hnew
      have hother : ∀ a ∈ executors, a ≠ u.executor := fun a ha heq => hnew (heq ▸ ha)
      exact List.nodup_append.mpr ⟨h, List.nodup_singleton _, by simpa using hother⟩
  · exact h.filter _

theorem nodup_registeredExecutors (t : String) (messages : List (Surroundings × Publication)) :
    (registeredExecutors t messages).Nodup := by
  induction messages using List.reverseRecOn with
  | nil => exact List.nodup_nil
  | append_singleton messages m ih =>
    rw [registeredExecutors_snoc]
    unfold registryStep
    split
    · split
      · exact ExecutorUpdate.nodup_follow _ ih
      · exact ih
    · exact ih

/-- No more executors are registered than messages about executors have come. -/
theorem length_registeredExecutors_le (t : String) (messages : List (Surroundings × Publication)) :
    (registeredExecutors t messages).length ≤ messages.countP fun m =>
      (executorUpdate m.2).isSome := by
  induction messages using List.reverseRecOn with
  | nil => exact Nat.zero_le _
  | append_singleton messages m ih =>
    rw [registeredExecutors_snoc, List.countP_append, List.countP_singleton]
    unfold registryStep
    cases hu : executorUpdate m.2 with
    | none => exact ih
    | some u =>
      have hfollow : (u.follow (registeredExecutors t messages)).length ≤
        (registeredExecutors t messages).length + 1 := by
        unfold ExecutorUpdate.follow
        split
        · split
          · omega
          · rw [List.length_append, List.length_singleton]
        · exact (List.length_filter_le _ _).trans (Nat.le_succ _)
      rw [Option.isSome_some, if_pos rfl]
      dsimp only
      split
      · omega
      · omega

/-! ## What the registry does -/

theorem find_emplace {ν : Type} {k : String} {m : List (String × ν)} (h : Assoc.find k m = none)
    (v : ν) (k' : String) : Assoc.find k' (emplace k v m) = if k = k' then some v else Assoc.find
      k' m := by
  unfold emplace
  rw [Assoc.find_append, Assoc.find]
  have hsplit : Assoc.find k' m = (Assoc.find k' (m.takeWhile fun e => decide (e.1 < k))).or
      (Assoc.find k' (m.dropWhile fun e => decide (e.1 < k))) := by
    rw [← Assoc.find_append, List.takeWhile_append_dropWhile]
  split
  · rename_i heq
    subst heq
    rw [hsplit, Option.or_eq_none_iff] at h
    rw [h.1, Option.none_or]
  · exact hsplit.symm

/-- The executors of a runtime type in the registry. -/
def executorsOf (st : DeploymentManager) (t : String) : List ExecutorIdentifier :=
  (Assoc.find t st.executors).elim [] ExecutorList.toList

theorem executorsOf_nil_iff : executorsOf st t = [] ↔ Assoc.find t st.executors = none := by
  unfold executorsOf ExecutorList.toList
  cases Assoc.find t st.executors with
  | none => simp
  | some executors => simp

def ExecutorUpdate.apply (u : ExecutorUpdate) (st : DeploymentManager) : Option DeploymentManager :=
  match u.command with
  | .register => some (registerExecutor st u.actor_runtime_type u.executor)
  | .deregister => deregisterExecutor st u.actor_runtime_type u.executor

theorem receiveExecutorUpdate_eq (st : DeploymentManager) (p : Publication) :
    receiveExecutorUpdate st p =
    match readExecutorUpdate p with
    | some u => u.apply st
    | none => some st := by
  unfold receiveExecutorUpdate readExecutorUpdate
  cases p.getStrAttr "actor_runtime_type" with
  | none => rfl
  | some t =>
    cases p.getStrAttr "update_node_id" with
    | none => rfl
    | some node_id =>
      cases p.getStrAttr "update_actor_type" with
      | none => rfl
      | some actor_type =>
        cases p.getStrAttr "update_instance_id" with
        | none => rfl
        | some instance_id =>
          dsimp only
          split
          · rfl
          · split
            · rfl
            · rfl

theorem executorsOf_registerExecutor (st : DeploymentManager) (t t' : String)
    (e : ExecutorIdentifier) :
    executorsOf (registerExecutor st t e) t' =
      if t = t' then if executorsOf st t = [] then [e] else executorsOf st t ++ [movedFrom]
      else executorsOf st t' := by
  unfold registerExecutor executorsOf
  cases ht : Assoc.find t st.executors with
  | none =>
    dsimp only
    rw [find_emplace ht]
    by_cases heq : t = t'
    · rw [if_pos heq, if_pos heq, Option.elim_some, Option.elim_none, if_pos rfl]
      rfl
    · rw [if_neg heq, if_neg heq]
  | some executors =>
    dsimp only
    rw [Assoc.find_put]
    by_cases heq : t = t'
    · rw [if_pos heq, if_pos heq, Option.elim_some, Option.elim_some,
        if_neg (by simp [ExecutorList.toList])]
      rfl
    · rw [if_neg heq, if_neg heq]

theorem executorsOf_deregisterExecutor (h : deregisterExecutor st t e = some st') (t' : String) :
    executorsOf st' t' =
      if t = t' then (executorsOf st t).eraseP fun other => other.same e
      else executorsOf st t' := by
  unfold deregisterExecutor at h
  unfold executorsOf
  cases ht : Assoc.find t st.executors with
  | none =>
    rw [ht] at h
    rw [← Option.some.inj h]
    by_cases heq : t = t'
    · rw [if_pos heq, ← heq, ht, Option.elim_none, List.eraseP_nil]
    · rw [if_neg heq]
  | some executors =>
    rw [ht] at h
    dsimp only at h
    rw [Option.elim_some, ExecutorList.toList]
    cases hfind : (executors.front :: executors.rest).find? fun other => other.same e with
    | none =>
      rw [hfind] at h
      cases h
    | some other =>
      rw [hfind] at h
      rw [← Option.some.inj h]
      cases herase : (executors.front :: executors.rest).eraseP fun other => other.same e with
      | nil =>
        dsimp only
        rw [Assoc.find_erase]
        by_cases heq : t = t'
        · rw [if_pos heq, if_pos heq, Option.elim_none]
        · rw [if_neg heq, if_neg heq]
      | cons front rest =>
        dsimp only
        rw [Assoc.find_put]
        by_cases heq : t = t'
        · rw [if_pos heq, if_pos heq, Option.elim_some, ExecutorList.toList]
        · rw [if_neg heq, if_neg heq]

theorem deregisterExecutor_eq_none_iff : deregisterExecutor st t e = none ↔
    executorsOf st t ≠ [] ∧ (executorsOf st t).find? (fun other => other.same e) = none := by
  unfold deregisterExecutor executorsOf
  cases Assoc.find t st.executors with
  | none => simp
  | some executors =>
    dsimp only
    rw [Option.elim_some, ExecutorList.toList]
    cases (executors.front :: executors.rest).find? fun other => other.same e with
    | none => simp
    | some other => simp

/-! ## One update -/

/-- The update does to these executors of its type what it does to the registry. -/
def ExecutorUpdate.Kept (u : ExecutorUpdate) (executors : List ExecutorIdentifier) : Prop :=
  match u.command with
  | .register => executors = [] ∨ u.executor = movedFrom ∧ u.executor ∉ executors
  | .deregister => executors = [] ∨ executors.find? (fun other => other.same u.executor) =
      some u.executor

instance : (u : ExecutorUpdate) → (executors : List ExecutorIdentifier) →
    Decidable (u.Kept executors)
  | ⟨.register, _, e⟩, executors =>
      inferInstanceAs (Decidable (executors = [] ∨ e = movedFrom ∧ e ∉ executors))
  | ⟨.deregister, _, e⟩, executors =>
    inferInstanceAs (Decidable (executors = [] ∨
      executors.find? (fun other => other.same e) = some e))

theorem register_kept_iff (executors : List ExecutorIdentifier) (e : ExecutorIdentifier) :
    (if executors = [] then [e] else executors ++ [movedFrom]) =
        (if e ∈ executors then executors else executors ++ [e]) ↔
      executors = [] ∨ e = movedFrom ∧ e ∉ executors := by
  by_cases hnil : executors = []
  · simp [hnil]
  · by_cases hmem : e ∈ executors
    · simp [hnil, hmem]
    · simp [hnil, hmem, eq_comm]

theorem deregister_kept_iff {executors : List ExecutorIdentifier} (h : executors.Nodup)
    {other : ExecutorIdentifier}
    (hfind : executors.find? (fun other => other.same e) = some other) :
    executors.eraseP (fun other => other.same e) = executors.filter (fun other => other ≠ e) ↔
    other = e := by
  obtain ⟨hsame, pre, post, rfl, hpre⟩ := List.find?_eq_some_iff_append.mp hfind
  have hnone : ∀ x ∈ pre, ¬ x.same e = true := by simpa using hpre
  have herase : (other :: post).eraseP (fun x => x.same e) = post := by
    rw [List.eraseP_cons, hsame, cond_true]
  rw [List.eraseP_append_right _ hnone, herase]
  constructor
  · intro heq
    by_contra hne
    have hmem : other ∈ (pre ++ other :: post).filter fun other => decide (other ≠ e) :=
      List.mem_filter.mpr ⟨by simp, by simpa using hne⟩
    rw [← heq] at hmem
    exact (List.nodup_middle.mp h).notMem hmem
  · rintro rfl
    have hrest : ∀ x ∈ pre ++ post, x ≠ other := by
      rintro x hx rfl
      exact (List.nodup_middle.mp h).notMem hx
    rw [List.filter_append, List.filter_cons_of_neg (by simp), ← List.filter_append]
    exact (List.filter_eq_self.mpr fun x hx => by simpa using hrest x hx).symm

/-- The registry has these executors, each type in its order. -/
def Holds (st : DeploymentManager) (executors : String → List ExecutorIdentifier) : Prop :=
  ∀ t, executorsOf st t = executors t ∧ (Assoc.find t st.executors = none ↔ executors t = [])

theorem holds_iff {executors : String → List ExecutorIdentifier} :
    Holds st executors ↔ ∀ t, executorsOf st t = executors t :=
  ⟨fun h t => (h t).1, fun h t => ⟨h t, by rw [← h t, executorsOf_nil_iff]⟩⟩

theorem forall_changed_iff {executors changed changed' : String → List ExecutorIdentifier} :
    (∀ t', (if t = t' then changed t' else executors t') =
        if t = t' then changed' t' else executors t') ↔
      changed t = changed' t := by
  constructor
  · intro hall
    have ht := hall t
    rwa [if_pos rfl, if_pos rfl] at ht
  · intro heq t'
    split
    · rename_i ht
      rw [← ht]
      exact heq
    · rfl

theorem ExecutorUpdate.holds_apply_iff {u : ExecutorUpdate}
    {executors : String → List ExecutorIdentifier} (h : Holds st executors)
    (hnodup : (executors u.actor_runtime_type).Nodup) :
    (∃ st', u.apply st = some st' ∧
        Holds st' fun t => if u.actor_runtime_type = t then u.follow (executors t)
          else executors t) ↔
      u.Kept (executors u.actor_runtime_type) := by
  obtain ⟨command, t, e⟩ := u
  have hexec : ∀ t, executorsOf st t = executors t := holds_iff.mp h
  cases command with
  | register =>
    refine Iff.trans ?_ (register_kept_iff (executors t) e)
    simp only [apply, Option.some.injEq, exists_eq_left', holds_iff, executorsOf_registerExecutor,
      hexec]
    exact forall_changed_iff
  | deregister =>
    show (∃ st', deregisterExecutor st t e = some st' ∧ _) ↔
      executors t = [] ∨ (executors t).find? (fun other => other.same e) = some e
    cases hdereg : deregisterExecutor st t e with
    | none =>
      obtain ⟨hne, hfind⟩ := deregisterExecutor_eq_none_iff.mp hdereg
      rw [hexec] at hne hfind
      simp [hne, hfind]
    | some st' =>
      have hafter := executorsOf_deregisterExecutor hdereg
      have hiff : Holds st' (fun t' => if t = t' then follow ⟨.deregister, t, e⟩ (executors t')
          else executors t') ↔
          (executors t).eraseP (fun other => other.same e) = (executors t).filter fun other =>
            other ≠ e := by
        simp only [holds_iff, hafter, hexec]
        exact forall_changed_iff
      simp only [Option.some.injEq, exists_eq_left', hiff]
      by_cases hnil : executors t = []
      · simp [hnil]
      · cases hfind : (executors t).find? fun other => other.same e with
        | none =>
          rw [deregisterExecutor_eq_none_iff.mpr ⟨by rwa [hexec], by rwa [hexec]⟩] at hdereg
          cases hdereg
        | some other =>
          rw [deregister_kept_iff hnodup hfind]
          simp [hnil]

/-! ## Runs -/

/-- After every message the registry has the registered executors, and a message about an executor
that is not registered leaves it alone. -/
def RegistryFaithful (cfg : ManagerSettings) (messages : List (Surroundings × Publication)) :
    Prop :=
  (∀ pre post, messages = pre ++ post → ∃ st, run cfg pre = some st ∧ Holds st fun t =>
    registeredExecutors t pre) ∧
  ∀ pre m post u before after, messages = pre ++ m :: post → executorUpdate m.2 = some u →
    u.command = .deregister → u.executor ∉ registeredExecutors u.actor_runtime_type pre →
    run cfg pre = some before → run cfg (pre ++ [m]) = some after →
      after.executors = before.executors

theorem receive_executorUpdate {env : Surroundings} {p : Publication}
    (hp : handlerOf p = some .executorUpdate) :
    receive cfg env st p =
      match executorUpdate p with
      | some u => u.apply { st with effects := [] }
      | none => some { st with effects := [] } := by
  unfold receive executorUpdate
  rw [hp, if_pos rfl]
  exact receiveExecutorUpdate_eq _ p

theorem holds_step_iff {pre : List (Surroundings × Publication)} {m : Surroundings × Publication}
    (hp : handlerOf m.2 = some .executorUpdate) (h : Holds st fun t => registeredExecutors t pre) :
    (∃ st', receive cfg m.1 st m.2 = some st' ∧ Holds st' fun t =>
      registeredExecutors t (pre ++ [m])) ↔
      ∀ u ∈ executorUpdate m.2, u.Kept (registeredExecutors u.actor_runtime_type pre) := by
  have hcleared : Holds { st with effects := [] } fun t => registeredExecutors t pre := h
  simp only [receive_executorUpdate hp, registeredExecutors_snoc]
  unfold registryStep
  cases hu : executorUpdate m.2 with
  | none =>
    refine iff_of_true ⟨_, rfl, h⟩ ?_
    intro u hu
    cases hu
  | some u =>
    refine (ExecutorUpdate.holds_apply_iff hcleared (nodup_registeredExecutors _ pre)).trans ?_
    simp

/-- The registry follows the messages exactly if no executor registers beside another one of its
type, other than an executor without names, and the first executor with the node and the type of one
that leaves is the one that leaves. -/
theorem registry_faithful_iff (messages : List (Surroundings × Publication))
    (h : ∀ m ∈ messages, handlerOf m.2 = some .executorUpdate) : RegistryFaithful cfg messages ↔
      ∀ pre m post, messages = pre ++ m :: post →
        ∀ u ∈ executorUpdate m.2, u.Kept (registeredExecutors u.actor_runtime_type pre) := by
  have hiff : (∀ pre post, messages = pre ++ post → ∃ st, run cfg pre = some st ∧
        Holds st fun t => registeredExecutors t pre) ↔
      ∀ pre m post, messages = pre ++ m :: post →
        ∀ u ∈ executorUpdate m.2, u.Kept (registeredExecutors u.actor_runtime_type pre) :=
    Runs.history_iff (fun pre st => Holds st fun t => registeredExecutors t pre) _
      (holds_iff.mpr fun _ => rfl)
    fun pre m post st heq hst => holds_step_iff (h m (by simp [heq])) hst
  refine ⟨fun hfaithful => hiff.mp hfaithful.1, fun hkept => ⟨hiff.mpr hkept, ?_⟩⟩
  intro pre m post u before after heq hu hcommand hnot hbefore hafter
  have hp := h m (by simp [heq])
  obtain ⟨st, hst, hholds⟩ := hiff.mpr hkept pre (m :: post) heq
  obtain rfl : st = before := Option.some.inj (hst.symm.trans hbefore)
  unfold run at hafter hbefore
  rw [Runs.foldlM_snoc, hbefore, Option.bind_some, receive_executorUpdate hp, hu] at hafter
  have hnil : registeredExecutors u.actor_runtime_type pre = [] := by
    have hu := hkept pre m post heq u hu
    unfold ExecutorUpdate.Kept at hu
    rw [hcommand] at hu
    exact hu.resolve_right fun hfind => hnot (List.mem_of_find?_eq_some hfind)
  have hnone : Assoc.find u.actor_runtime_type st.executors = none := (hholds _).2.mpr hnil
  simp only [ExecutorUpdate.apply, hcommand, deregisterExecutor, hnone, Option.some.injEq] at hafter
  rw [← hafter]

def registryMessage (command t node_id actor_type instance_id : String) : Publication :=
  ⟨[("type", .str "executor_update"), ("command", .str command), ("actor_runtime_type", .str t),
    ("update_node_id", .str node_id), ("update_actor_type", .str actor_type),
    ("update_instance_id", .str instance_id)], by simp [Assoc.keys]⟩

/-- Each type has one executor at a time. -/
def oneAtATime : List (Surroundings × Publication) :=
  inOrder [registryMessage "register" "lua" "node" "lua_executor" "1",
    registryMessage "register" "wasm" "node" "wasm_executor" "1",
    registryMessage "deregister" "native" "node" "native_executor" "1",
    registryMessage "deregister" "lua" "node" "lua_executor" "1",
    registryMessage "register" "lua" "node" "lua_executor" "2"]

theorem registry_faithful_oneAtATime : RegistryFaithful nodeSettings oneAtATime := by
  refine (registry_faithful_iff oneAtATime (by decide)).mpr (Runs.forall_split_iff.mpr ?_)
  decide

/-- Two executors of a type. -/
def twoOfAType : List (Surroundings × Publication) :=
  inOrder [registryMessage "register" "lua" "node" "lua_executor" "1",
    registryMessage "register" "lua" "node" "lua_executor" "2"]

/-- The second executor of a type registers without its names. A deregistration under another
instance erases the executor that is there, and one of an unknown executor erases at the end of the
list. -/
theorem registry_unfaithful :
    (∃ st, run nodeSettings twoOfAType = some st ∧
      executorsOf st "lua" = [⟨"node", "lua_executor", "1"⟩, movedFrom] ∧
      registeredExecutors "lua" twoOfAType =
        [⟨"node", "lua_executor", "1"⟩, ⟨"node", "lua_executor", "2"⟩]) ∧
    (∃ st, run nodeSettings (inOrder [registryMessage "register" "lua" "node" "lua_executor" "1",
        registryMessage "deregister" "lua" "node" "lua_executor" "2"]) = some st ∧
        executorsOf st "lua" = []) ∧
    run nodeSettings (inOrder [registryMessage "register" "lua" "node" "lua_executor" "1",
      registryMessage "deregister" "lua" "other" "lua_executor" "1"]) = none ∧
    ¬ RegistryFaithful nodeSettings twoOfAType := by
  refine ⟨⟨_, rfl, by decide, by decide⟩, ⟨_, rfl, by decide⟩, by decide, fun hfaithful => ?_⟩
  obtain ⟨st, hrun, hholds⟩ := hfaithful.1 twoOfAType [] (by simp)
  obtain rfl : _ = st := Option.some.inj
    ((show run nodeSettings twoOfAType = some _ from rfl).symm.trans hrun)
  exact absurd (hholds "lua").1 (by decide)

end DeploymentManager

end UActor
