import UActor.Lib.Ordered
import UActor.Lib.Runs
import UActor.PubSub.Subscription
import UActor.Runtime.CodeStore
import Mathlib.Data.Prod.Lex
import Mathlib.Data.String.Basic

/-!
# Misses of code

`operator<` of `code_identifier.hpp`, and the functions of `code_store_actor.cpp` that look for code
elsewhere. A miss is passed on unless one for the same identifier was within the last five seconds:
`code_miss_debounce` is a map with this comparison.
-/

namespace UActor

namespace CodeIdentifier

/-- `operator<`. The last line does not look at the types. -/
def lt (a other : CodeIdentifier) : Bool :=
  decide (a.type < other.type) ||
    (a.type == other.type && decide (a.version < other.version)) ||
    (a.version == other.version && decide (a.runtime_type < other.runtime_type))

/-- The fields in the order in which they are compared. -/
def key (a : CodeIdentifier) : String ×ₗ String ×ₗ String :=
    toLex (a.type, toLex (a.version, a.runtime_type))

theorem key_injective (a b : CodeIdentifier) (h : a.key = b.key) : a = b := by
  have hpair : (a.type, toLex (a.version, a.runtime_type)) =
      (b.type, toLex (b.version, b.runtime_type)) :=
    toLex.injective h
  obtain ⟨htype, hrest⟩ := Prod.mk.inj hpair
  obtain ⟨hversion, hruntime⟩ := Prod.mk.inj (toLex.injective hrest)
  cases a
  cases b
  simp_all

theorem key_lt_iff (a b : CodeIdentifier) : a.key < b.key ↔ a.type < b.type ∨
    (a.type = b.type ∧ (a.version < b.version ∨
      (a.version = b.version ∧ a.runtime_type < b.runtime_type))) := by
  unfold key
  rw [Prod.Lex.lt_iff, Prod.Lex.lt_iff]
  rfl

theorem lt_iff (a b : CodeIdentifier) : a.lt b = true ↔
    a.key < b.key ∨ (a.version = b.version ∧ a.runtime_type < b.runtime_type) := by
  rw [key_lt_iff]
  unfold lt
  simp only [Bool.or_eq_true, Bool.and_eq_true, decide_eq_true_eq, beq_iff_eq]
  tauto

theorem lt_self (a : CodeIdentifier) : a.lt a = false := by
  rw [Bool.eq_false_iff, Ne, lt_iff]
  rintro (h | ⟨-, h⟩)
  · exact lt_asymm h h
  · exact lt_asymm h h

/-- The two have one version, and their types and their runtime types are in opposite orders. -/
def Crossed (a b : CodeIdentifier) : Prop :=
  a.version = b.version ∧ a.type < b.type ∧ b.runtime_type < a.runtime_type

theorem crossed_iff (a b : CodeIdentifier) : Crossed a b ↔ a.key < b.key ∧ b.lt a = true := by
  rw [lt_iff]
  constructor
  · rintro ⟨hversion, htype, hruntime⟩
    exact ⟨(key_lt_iff a b).mpr (Or.inl htype), Or.inr ⟨hversion.symm, hruntime⟩⟩
  · rintro ⟨hab, hba | ⟨hversion, hruntime⟩⟩
    · exact absurd hab (not_lt_of_gt hba)
    · rcases (key_lt_iff a b).mp hab with htype | ⟨-, hless | ⟨-, hless⟩⟩
      · exact ⟨hversion.symm, htype, hruntime⟩
      · exact absurd hversion.symm (ne_of_lt hless)
      · exact absurd hruntime (not_lt_of_gt hless)

/-- The comparison is a strict total order exactly where no two identifiers are crossed. -/
theorem strictTotal_iff {S : CodeIdentifier → Prop} :
    Ordered.StrictTotal lt S ↔ ∀ a b, S a → S b → ¬ Crossed a b := by
  rw [Ordered.strictTotal_iff key_injective lt_self fun a b hab => (lt_iff a b).mpr (Or.inl hab)]
  refine forall_congr' fun a => forall_congr' fun b => forall_congr' fun _ => forall_congr' fun _ =>
    ?_
  rw [crossed_iff, not_and, Bool.not_eq_true]

end CodeIdentifier

/-- `code_miss_debounce`: the time until which misses of an identifier are not passed on. -/
structure CodeStoreActor where
  code_miss_debounce : List (CodeIdentifier × UInt32)
deriving DecidableEq, Repr

namespace CodeStoreActor

/-- What is around the actor while it handles a message: the clock, which may go on between two
readings, and the code store of the node. -/
structure Surroundings where
  now : Nat → UInt32
  store : CodeStore

def init : CodeStoreActor := ⟨[]⟩

section Messages

variable (actor : ActorIdentifier) (env : Surroundings) (st : CodeStoreActor)

def codeFetchRequest (identifier : CodeIdentifier) : Publication :=
  (((((Publication.ofPublisher actor.node_id actor.actor_type actor.instance_id).setAttr
    "type" (.str "code_fetch_request")).setAttr
    "fetch_actor_type" (.str identifier.type)).setAttr
    "fetch_actor_version" (.str identifier.version)).setAttr
    "fetch_actor_runtime_type" (.str identifier.runtime_type)).setAttr
    "last_cache_miss_node_id" (.str actor.node_id)

def codeFetchResponse (identifier : CodeIdentifier) (code node_id actor_type instance_id : String) :
    Publication :=
  ((((((((Publication.ofPublisher actor.node_id actor.actor_type actor.instance_id).setAttr
    "fetch_actor_code" (.str code)).setAttr
    "type" (.str "code_fetch_response")).setAttr
    "node_id" (.str node_id)).setAttr
    "actor_type" (.str actor_type)).setAttr
    "instance_id" (.str instance_id)).setAttr
    "fetch_actor_type" (.str identifier.type)).setAttr
    "fetch_actor_version" (.str identifier.version)).setAttr
    "fetch_actor_runtime_type" (.str identifier.runtime_type)

/-- What both handlers do with a miss: the new state and what is published. -/
def miss (identifier : CodeIdentifier) : Option (CodeStoreActor × List Publication) :=
  (Ordered.tryEmplace CodeIdentifier.lt identifier (env.now 0 + 5000) st.code_miss_debounce).map
    fun debounce =>
    if debounce.inserted then (⟨debounce.write (env.now 1 + 5000)⟩,
      [codeFetchRequest actor identifier])
    else if debounce.entry.2 < env.now 1 then
      (⟨debounce.write (env.now 2 + 5000)⟩, [codeFetchRequest actor identifier])
    else (st, [])

/-- The version is asked for twice, and the runtime type is read unasked. -/
def receiveCodeUnavailableNotification (p : Publication) :
    Option (CodeStoreActor × List Publication) :=
  if p.hasAttr "unavailable_actor_type" && p.hasAttr "unavailable_actor_version" &&
      p.hasAttr "unavailable_actor_version" then do
    let type ← p.getStrAttr "unavailable_actor_type"
    let version ← p.getStrAttr "unavailable_actor_version"
    let runtime_type ← p.getStrAttr "unavailable_actor_runtime_type"
    miss actor env st ⟨type, version, runtime_type⟩
  else some (st, [])

def receiveCodeFetchRequest (p : Publication) : Option (CodeStoreActor × List Publication) :=
  if p.hasAttr "fetch_actor_type" && p.hasAttr "fetch_actor_version" &&
      p.hasAttr "fetch_actor_runtime_type" then do
    let type ← p.getStrAttr "fetch_actor_type"
    let version ← p.getStrAttr "fetch_actor_version"
    let runtime_type ← p.getStrAttr "fetch_actor_runtime_type"
    match env.store.retrieve ⟨type, version, runtime_type⟩ with
    | some code =>
      let node_id ← p.getStrAttr "publisher_node_id"
      let actor_type ← p.getStrAttr "publisher_actor_type"
      let instance_id ← p.getStrAttr "publisher_instance_id"
      some (st, [codeFetchResponse actor ⟨type, version, runtime_type⟩ code node_id actor_type
        instance_id])
    | none => miss actor env st ⟨type, version, runtime_type⟩
  else some (st, [])

/-- The loops of `cleanup`. The clock is read for each entry. -/
def cleanup : Option CodeStoreActor :=
  let to_delete := (st.code_miss_debounce.zipIdx.filter fun e => decide (e.1.2 < env.now e.2)).map
    fun e => e.1.1
  (to_delete.foldlM (fun debounce identifier => Ordered.erase CodeIdentifier.lt identifier debounce)
    st.code_miss_debounce).map CodeStoreActor.mk

/-- `receive`. The messages that are left out store code or subscribe, and do not look at
`code_miss_debounce`. -/
def receive (p : Publication) : Option (CodeStoreActor × List Publication) :=
  if p.getStrAttr "type" = some "wakeup" ∧ p.getStrAttr "wakeup_id" = some "periodic_cleanup" then
    (cleanup env st).map fun st => (st, [])
  else if p.getStrAttr "type" = some "code_unavailable" then
    receiveCodeUnavailableNotification actor env st p
  else if p.getStrAttr "type" = some "code_fetch_request" then
    receiveCodeFetchRequest actor env st p
  else some (st, [])

/-- The messages that the actor handles one after the other, each with its surroundings. -/
def run (messages : List (Surroundings × Publication)) : Option CodeStoreActor :=
  messages.foldlM (fun st m => (receive actor m.1 st m.2).map Prod.fst) init

end Messages

/-! ## Misses -/

/-- A complete message about the code of this identifier. -/
inductive Asks (p : Publication) (identifier : CodeIdentifier) : Prop
  | unavailable (hp : p.getStrAttr "type" = some "code_unavailable")
    (htype : p.getStrAttr "unavailable_actor_type" = some identifier.type)
    (hversion : p.getStrAttr "unavailable_actor_version" = some identifier.version)
    (hruntime : p.getStrAttr "unavailable_actor_runtime_type" = some identifier.runtime_type)
  | fetch {node_id actor_type instance_id : String}
      (hp : p.getStrAttr "type" = some "code_fetch_request")
    (htype : p.getStrAttr "fetch_actor_type" = some identifier.type)
    (hversion : p.getStrAttr "fetch_actor_version" = some identifier.version)
    (hruntime : p.getStrAttr "fetch_actor_runtime_type" = some identifier.runtime_type)
    (hnode : p.getStrAttr "publisher_node_id" = some node_id)
    (hactor : p.getStrAttr "publisher_actor_type" = some actor_type)
    (hinstance : p.getStrAttr "publisher_instance_id" = some instance_id)

/-- The code is not here. -/
structure Misses (env : Surroundings) (p : Publication) (identifier : CodeIdentifier) : Prop where
  asks : Asks p identifier
  lacks : p.getStrAttr "type" = some "code_fetch_request" → env.store.retrieve identifier = none

/-- The wakeup of the cleanup. -/
structure CleansUp (p : Publication) : Prop where
  type : p.getStrAttr "type" = some "wakeup"
  wakeup_id : p.getStrAttr "wakeup_id" = some "periodic_cleanup"

/-- The messages are about identifiers of the set, and cleanups. -/
def About (S : CodeIdentifier → Prop) (messages : List (Surroundings × Publication)) : Prop :=
  ∀ m ∈ messages, CleansUp m.2 ∨ ∃ identifier, S identifier ∧ Asks m.2 identifier

/-- The comparison is a strict total order on the identifiers, and the first miss of each one is
passed on. -/
structure PassesOnMisses (actor : ActorIdentifier) (S : CodeIdentifier → Prop) : Prop where
  ordered : Ordered.StrictTotal CodeIdentifier.lt S
  first : ∀ messages env p identifier, About S messages → S identifier → Misses env p identifier →
    (∀ m ∈ messages, ¬ Misses m.1 m.2 identifier) →
    ∃ st st', run actor messages = some st ∧ Assoc.find identifier st.code_miss_debounce = none ∧
      receive actor env st p = some (st', [codeFetchRequest actor identifier])

variable {actor : ActorIdentifier} {env : Surroundings} {st : CodeStoreActor} {p : Publication}
  {identifier : CodeIdentifier} {S : CodeIdentifier → Prop}

theorem receive_unavailable (hp : p.getStrAttr "type" = some "code_unavailable")
    (htype : p.getStrAttr "unavailable_actor_type" = some identifier.type)
    (hversion : p.getStrAttr "unavailable_actor_version" = some identifier.version)
    (hruntime : p.getStrAttr "unavailable_actor_runtime_type" = some identifier.runtime_type) :
    receive actor env st p = miss actor env st identifier := by
  unfold receive
  rw [if_neg (by simp [hp]), if_pos hp]
  unfold receiveCodeUnavailableNotification
  rw [if_pos (by simp [Publication.hasAttr_of_getStrAttr htype, Publication.hasAttr_of_getStrAttr
    hversion]), htype, hversion, hruntime]
  rfl

theorem receive_fetch {node_id actor_type instance_id : String}
    (hp : p.getStrAttr "type" = some "code_fetch_request")
    (htype : p.getStrAttr "fetch_actor_type" = some identifier.type)
    (hversion : p.getStrAttr "fetch_actor_version" = some identifier.version)
    (hruntime : p.getStrAttr "fetch_actor_runtime_type" = some identifier.runtime_type)
    (hnode : p.getStrAttr "publisher_node_id" = some node_id)
    (hactor : p.getStrAttr "publisher_actor_type" = some actor_type)
    (hinstance : p.getStrAttr "publisher_instance_id" = some instance_id) :
      receive actor env st p = match env.store.retrieve identifier with
      | some code => some (st, [codeFetchResponse actor identifier code node_id actor_type
          instance_id])
      | none => miss actor env st identifier := by
  unfold receive
  rw [if_neg (by simp [hp]), if_neg (by simp [hp]), if_pos hp]
  unfold receiveCodeFetchRequest
  rw [if_pos (by simp [Publication.hasAttr_of_getStrAttr htype, Publication.hasAttr_of_getStrAttr
    hversion, Publication.hasAttr_of_getStrAttr hruntime]), htype, hversion, hruntime, hnode,
    hactor, hinstance]
  rfl

theorem receive_miss (h : Misses env p identifier) :
    receive actor env st p = miss actor env st identifier := by
  cases h.asks with
  | unavailable hp htype hversion hruntime => exact receive_unavailable hp htype hversion hruntime
  | fetch hp htype hversion hruntime hnode hactor hinstance =>
    rw [receive_fetch hp htype hversion hruntime hnode hactor hinstance, h.lacks hp]

theorem receive_served (actor : ActorIdentifier) (st : CodeStoreActor) (h : Asks p identifier)
    (hserved : ¬ Misses env p identifier) :
    ∃ published, receive actor env st p = some (st, published) := by
  cases h with
  | unavailable hp htype hversion hruntime =>
    exact absurd ⟨.unavailable hp htype hversion hruntime, fun hfetch => by simp [hp] at hfetch⟩
      hserved
  | fetch hp htype hversion hruntime hnode hactor hinstance =>
    cases hcode : env.store.retrieve identifier with
    | none => exact absurd ⟨.fetch hp htype hversion hruntime hnode hactor hinstance, fun _ =>
        hcode⟩ hserved
    | some code =>
      rw [receive_fetch hp htype hversion hruntime hnode hactor hinstance, hcode]
      exact ⟨_, rfl⟩

theorem miss_keys (actor : ActorIdentifier) (env : Surroundings)
    (h : Ordered.StrictTotal CodeIdentifier.lt S) (hidentifier : S identifier)
    (hst : ∀ a ∈ Assoc.keys st.code_miss_debounce, S a) : ∃ st' published,
      miss actor env st identifier = some (st', published) ∧
        ∀ a ∈ Assoc.keys st'.code_miss_debounce, a = identifier ∨
        a ∈ Assoc.keys st.code_miss_debounce := by
  obtain ⟨debounce, hdebounce⟩ := Ordered.tryEmplace_defined h hidentifier hst (env.now 0 + 5000)
  unfold miss
  rw [hdebounce, Option.map_some]
  split
  · exact ⟨_, _, rfl, fun a ha => Ordered.tryEmplace_keys hdebounce ha⟩
  · split
    · exact ⟨_, _, rfl, fun a ha => Ordered.tryEmplace_keys hdebounce ha⟩
    · exact ⟨_, _, rfl, fun a ha => Or.inr ha⟩

theorem miss_first (actor : ActorIdentifier) (env : Surroundings)
    (h : Ordered.StrictTotal CodeIdentifier.lt S) (hidentifier : S identifier)
    (hst : ∀ a ∈ Assoc.keys st.code_miss_debounce, S a)
    (habsent : identifier ∉ Assoc.keys st.code_miss_debounce) :
    ∃ st', miss actor env st identifier = some (st', [codeFetchRequest actor identifier]) := by
  obtain ⟨debounce, hdebounce⟩ := Ordered.tryEmplace_defined h hidentifier hst (env.now 0 + 5000)
  unfold miss
  rw [hdebounce, Option.map_some,
    if_pos (Ordered.tryEmplace_absent h hidentifier hst habsent hdebounce)]
  exact ⟨_, rfl⟩

theorem cleanup_keys (env : Surroundings) (h : Ordered.StrictTotal CodeIdentifier.lt S)
    (hst : ∀ a ∈ Assoc.keys st.code_miss_debounce, S a) : ∃ st', cleanup env st = some st' ∧
      ∀ a ∈ Assoc.keys st'.code_miss_debounce, a ∈ Assoc.keys st.code_miss_debounce := by
  have hdeleted : ∀ a ∈ (st.code_miss_debounce.zipIdx.filter fun e =>
      decide (e.1.2 < env.now e.2)).map fun e => e.1.1, S a := by
    intro a ha
    obtain ⟨⟨e, i⟩, he, rfl⟩ := List.mem_map.mp ha
    have hmem := List.mem_filter.mp he
    exact hst _ (List.mem_map.mpr ⟨e, List.fst_mem_of_mem_zipIdx hmem.1, rfl⟩)
  obtain ⟨debounce, hrun, hkeys⟩ := Ordered.eraseAll_keys h hdeleted hst
  refine ⟨⟨debounce⟩, ?_, hkeys⟩
  unfold cleanup
  exact Option.map_eq_some_iff.mpr ⟨debounce, hrun, rfl⟩

/-- In a run about identifiers that the comparison orders, the identifiers of the map have been
missed. -/
theorem run_missed (actor : ActorIdentifier) (h : Ordered.StrictTotal CodeIdentifier.lt S)
    {messages : List (Surroundings × Publication)} (hmessages : About S messages) :
    ∃ st, run actor messages = some st ∧
      ∀ a ∈ Assoc.keys st.code_miss_debounce, S a ∧ ∃ m ∈ messages, Misses m.1 m.2 a := by
  induction messages using List.reverseRecOn with
  | nil => exact ⟨init, rfl, fun a ha => by simp [init, Assoc.keys] at ha⟩
  | append_singleton messages m ih =>
    obtain ⟨hbefore, hlast⟩ := List.forall_mem_append.mp hmessages
    obtain ⟨st, hrun, hst⟩ := ih hbefore
    have hS : ∀ a ∈ Assoc.keys st.code_miss_debounce, S a := fun a ha => (hst a ha).1
    have hold : ∀ a ∈ Assoc.keys st.code_miss_debounce, S a ∧ ∃ m' ∈ messages ++ [m],
        Misses m'.1 m'.2 a := by
      intro a ha
      obtain ⟨hSa, m', hm', hmissed⟩ := hst a ha
      exact ⟨hSa, m', List.mem_append_left _ hm', hmissed⟩
    have hstep : ∀ st' published, receive actor m.1 st m.2 = some (st', published) →
        run actor (messages ++ [m]) = some st' := by
      intro st' published hreceive
      unfold run at hrun ⊢
      rw [Runs.foldlM_snoc, hrun, Option.bind_some, hreceive, Option.map_some]
    rcases hlast m (by simp) with hcleanup | ⟨identifier, hidentifier, hasks⟩
    · obtain ⟨st', hcleaned, hkeys⟩ := cleanup_keys m.1 h hS
      have hreceive : receive actor m.1 st m.2 = some (st', []) := by
        unfold receive
        rw [if_pos ⟨hcleanup.type, hcleanup.wakeup_id⟩, hcleaned, Option.map_some]
      exact ⟨st', hstep st' _ hreceive, fun a ha => hold a (hkeys a ha)⟩
    · by_cases hmissed : Misses m.1 m.2 identifier
      · obtain ⟨st', published, hmiss, hkeys⟩ := miss_keys actor m.1 h hidentifier hS
        refine ⟨st', hstep st' published ((receive_miss hmissed).trans hmiss), fun a ha => ?_⟩
        rcases hkeys a ha with rfl | ha
        · exact ⟨hidentifier, m, by simp, hmissed⟩
        · exact hold a ha
      · obtain ⟨published, hserved⟩ := receive_served actor st hasks hmissed
        exact ⟨st, hstep st published hserved, hold⟩

/-- Misses are passed on exactly if no two identifiers have one version, and types and runtime types
in opposite orders. -/
theorem misses_passed_on_iff :
    PassesOnMisses actor S ↔ ∀ a b, S a → S b → ¬ CodeIdentifier.Crossed a b := by
  rw [← CodeIdentifier.strictTotal_iff]
  refine ⟨fun h => h.ordered, fun h => ⟨h, ?_⟩⟩
  intro messages env p identifier hmessages hidentifier hmisses hfirst
  obtain ⟨st, hrun, hst⟩ := run_missed actor h hmessages
  have habsent : identifier ∉ Assoc.keys st.code_miss_debounce := by
    intro hmem
    obtain ⟨-, m, hm, hmissed⟩ := hst identifier hmem
    exact hfirst m hm hmissed
  obtain ⟨st', hmiss⟩ := miss_first actor env h hidentifier (fun a ha => (hst a ha).1) habsent
  exact ⟨st, st', hrun, Assoc.find_eq_none.mpr habsent, (receive_miss hmisses).trans hmiss⟩

def unavailableMessage (identifier : CodeIdentifier) : Publication :=
  ⟨[("type", .str "code_unavailable"), ("unavailable_actor_type", .str identifier.type),
    ("unavailable_actor_version", .str identifier.version),
    ("unavailable_actor_runtime_type", .str identifier.runtime_type)], by simp [Assoc.keys]⟩

def atStart : Surroundings := ⟨fun _ => 5, .empty⟩

/-- Each of the two is less than the other one, so a map that holds one of them cannot look for the
other. -/
theorem crossed_not_passed_on :
    CodeIdentifier.lt ⟨"actuator", "1", "wasm"⟩ ⟨"sensor", "1", "lua"⟩ = true ∧
      CodeIdentifier.lt ⟨"sensor", "1", "lua"⟩ ⟨"actuator", "1", "wasm"⟩ = true ∧
      CodeIdentifier.lt ⟨"actuator", "1", "wasm"⟩ ⟨"actuator", "1", "wasm"⟩ = false ∧
      run ⟨"node", "code_store", "1"⟩ [(atStart, unavailableMessage ⟨"actuator", "1", "wasm"⟩),
        (atStart, unavailableMessage ⟨"sensor", "1", "lua"⟩)] = none ∧
      ¬ PassesOnMisses ⟨"node", "code_store", "1"⟩ fun _ => True := by
  refine ⟨by decide, by decide, by decide, by decide, ?_⟩
  intro h
  have hless := h.ordered.asymm ⟨"actuator", "1", "wasm"⟩ ⟨"sensor", "1", "lua"⟩ trivial trivial
    (by decide)
  revert hless
  decide

end CodeStoreActor

end UActor
