import UActor.Runtime.CodeDistribution

/-!
# Requests for code

How often a code store asks the others for the same code. The map of the misses is that of the
identifiers, as long as the comparison orders those that the messages name.
-/

namespace UActor

namespace CodeStoreActor

/-- The message names this identifier to the functions that look for it. -/
def Names (p : Publication) (identifier : CodeIdentifier) : Prop :=
  (p.getStrAttr "type" = some "code_unavailable" ∧
    p.getStrAttr "unavailable_actor_type" = some identifier.type ∧
      p.getStrAttr "unavailable_actor_version" = some identifier.version ∧
      p.getStrAttr "unavailable_actor_runtime_type" = some identifier.runtime_type) ∨
    (p.getStrAttr "type" = some "code_fetch_request" ∧
      p.getStrAttr "fetch_actor_type" = some identifier.type ∧
      p.getStrAttr "fetch_actor_version" = some identifier.version ∧
      p.getStrAttr "fetch_actor_runtime_type" = some identifier.runtime_type)

/-- The map is in order, and knows only identifiers of the set. -/
structure Tidy (S : CodeIdentifier → Prop) (st : CodeStoreActor) : Prop where
  sorted : Ordered.Sorted CodeIdentifier.lt st.code_miss_debounce
  keys : ∀ a ∈ Assoc.keys st.code_miss_debounce, S a

/-- Until when misses of the identifier are not passed on. -/
def heldUntil (st : CodeStoreActor) (identifier : CodeIdentifier) : Option UInt32 :=
  Assoc.find identifier st.code_miss_debounce

/-- What can become of an entry: a request is sent only when the time is over, and sets it anew;
without one it stays, or is removed when the time is over. -/
structure Lapses (now : Nat → UInt32) (before after : Option UInt32) (asks : Prop) : Prop where
  asked : asks → (∀ d, before = some d → d < now 1) ∧ ∃ i, 1 ≤ i ∧ after = some (now i + 5000)
  silent : ¬ asks → after = before ∨ (after = none ∧ ∃ d i, before = some d ∧ d < now i)

section

variable {who : ActorIdentifier} {env : Surroundings} {st st' : CodeStoreActor}
  {S : CodeIdentifier → Prop} {identifier : CodeIdentifier} {ps : List Publication}

theorem Lapses.stays {now : Nat → UInt32} {entry : Option UInt32} {asks : Prop} (h : ¬ asks) :
    Lapses now entry entry asks :=
  ⟨fun hasks => absurd hasks h, fun _ => Or.inl rfl⟩

theorem codeFetchRequest_injective {identifier' : CodeIdentifier}
    (h : codeFetchRequest who identifier = codeFetchRequest who identifier') :
    identifier = identifier' := by
  have hget : ∀ name, (codeFetchRequest who identifier).getStrAttr name =
      (codeFetchRequest who identifier').getStrAttr name := fun name => by rw [h]
  have htype := hget "fetch_actor_type"
  have hversion := hget "fetch_actor_version"
  have hruntime := hget "fetch_actor_runtime_type"
  simp only [codeFetchRequest, CodeNetwork.getStrAttr_setAttr] at htype hversion hruntime
  cases identifier
  cases identifier'
  simp_all

theorem miss_spec (h : Ordered.StrictTotal CodeIdentifier.lt S) (hS : S identifier) (ht : Tidy S st)
    (hmiss : miss who env st identifier = some (st', ps)) :
    Tidy S st' ∧ ∀ k, Lapses env.now (st.heldUntil k) (st'.heldUntil k)
    (codeFetchRequest who k ∈ ps) := by
  obtain ⟨p, hp, hmiss⟩ := Option.map_eq_some_iff.mp hmiss
  obtain ⟨hfind, hwrite⟩ := Ordered.tryEmplace_find h hS ht.keys ht.sorted hp
  have htidy : ∀ v, Tidy S ⟨p.write v⟩ := by
    intro v
    refine ⟨(hwrite v).1, fun a ha => ?_⟩
    rcases Ordered.tryEmplace_keys hp ha with rfl | ha
    · exact hS
    · exact ht.keys a ha
  have hsent : ∀ v, (∀ d, st.heldUntil identifier = some d → d < env.now 1) →
      (∃ i, 1 ≤ i ∧ v = env.now i + 5000) → ∀ k, Lapses env.now (st.heldUntil k)
        (heldUntil ⟨p.write v⟩ k) (codeFetchRequest who k ∈ [codeFetchRequest who identifier]) := by
    rintro v hover ⟨i, hi, rfl⟩ k
    have hk : heldUntil ⟨p.write (env.now i + 5000)⟩ k =
        if identifier = k then some (env.now i + 5000) else st.heldUntil k := (hwrite _).2 k
    rw [hk, List.mem_singleton]
    by_cases heq : identifier = k
    · subst heq
      rw [if_pos rfl]
      exact ⟨fun _ => ⟨hover, i, hi, rfl⟩, fun hne => absurd rfl hne⟩
    · rw [if_neg heq]
      exact .stays fun hsame => heq (codeFetchRequest_injective hsame).symm
  split at hmiss
  · rename_i hinserted
    obtain ⟨rfl, rfl⟩ := Prod.mk.inj hmiss
    refine ⟨htidy _, hsent _ (fun d hd => ?_) ⟨1, Nat.le_refl 1, rfl⟩⟩
    rw [heldUntil, hfind, if_pos hinserted] at hd
    cases hd
  · rename_i hthere
    split at hmiss
    · rename_i hover
      obtain ⟨rfl, rfl⟩ := Prod.mk.inj hmiss
      refine ⟨htidy _, hsent _ (fun d hd => ?_) ⟨2, by decide, rfl⟩⟩
      rw [heldUntil, hfind, if_neg hthere] at hd
      exact Option.some.inj hd ▸ hover
    · obtain ⟨rfl, rfl⟩ := Prod.mk.inj hmiss
      exact ⟨ht, fun k => .stays (List.not_mem_nil)⟩

theorem cleanup_spec (h : Ordered.StrictTotal CodeIdentifier.lt S) (ht : Tidy S st)
    (hcleanup : cleanup env st = some st') :
    Tidy S st' ∧ ∀ k, Lapses env.now (st.heldUntil k) (st'.heldUntil k) False := by
  unfold cleanup at hcleanup
  dsimp only at hcleanup
  generalize hdelete : ((st.code_miss_debounce.zipIdx.filter fun e =>
    decide (e.1.2 < env.now e.2)).map fun e => e.1.1) = to_delete at hcleanup
  have hover : ∀ k ∈ to_delete, ∃ d i, st.heldUntil k = some d ∧ d < env.now i := by
    intro k hk
    rw [← hdelete] at hk
    obtain ⟨⟨e, i⟩, he, rfl⟩ := List.mem_map.mp hk
    obtain ⟨hmem, hless⟩ := List.mem_filter.mp he
    have hfind : st.heldUntil e.1 = some e.2 :=
      Assoc.find_of_mem (ht.sorted.keys_nodup h ht.keys) (List.fst_mem_of_mem_zipIdx hmem)
    exact ⟨e.2, i, hfind, by simpa using hless⟩
  have hS : ∀ k ∈ to_delete, S k := by
    intro k hk
    obtain ⟨d, -, hfind, -⟩ := hover k hk
    exact ht.keys k (Assoc.mem_keys_iff.mpr ⟨d, hfind⟩)
  obtain ⟨m, hrun, hsorted, hfind⟩ := Ordered.eraseAll_find h hS ht.keys ht.sorted
  rw [hrun] at hcleanup
  obtain rfl : ⟨m⟩ = st' := Option.some.inj hcleanup
  have hheld : ∀ k, heldUntil ⟨m⟩ k = if k ∈ to_delete then none else st.heldUntil k := hfind
  refine ⟨⟨hsorted, fun a ha => ?_⟩, fun k => ⟨False.elim, fun _ => ?_⟩⟩
  · obtain ⟨d, hd⟩ := Assoc.mem_keys_iff.mp ha
    rw [hfind a] at hd
    split at hd
    · cases hd
    · exact ht.keys a (Assoc.mem_keys_iff.mpr ⟨d, hd⟩)
  · rw [hheld]
    split
    · rename_i hk
      exact Or.inr ⟨rfl, hover k hk⟩
    · exact Or.inl rfl

end

end CodeStoreActor

/-! ## The node -/

namespace CodeNode

open CodeStoreActor (Names Tidy Lapses codeFetchRequest)

section

variable {S : CodeIdentifier → Prop} {who : ActorIdentifier} {o : Occasion} {n n' : CodeNode}
  {p : Publication} {calls : List Call}

/-- The node sends a request for the identifier. -/
def Requests (who : ActorIdentifier) (calls : List Call) (identifier : CodeIdentifier) : Prop :=
  .publish (codeFetchRequest who identifier) ∈ calls

/-- What a message does to the misses. -/
structure Debounced (S : CodeIdentifier → Prop) (who : ActorIdentifier) (o : Occasion)
    (n n' : CodeNode) (calls : List Call) : Prop where
  tidy : Tidy S n'.actor
  lapses : ∀ k, Lapses o.now (n.actor.heldUntil k) (n'.actor.heldUntil k) (Requests who calls k)

theorem Debounced.other (ht : Tidy S n.actor) (hactor : n'.actor = n.actor)
    (hcalls : ∀ q, .publish q ∉ calls) :
    Debounced S who o n n' calls :=
  ⟨hactor ▸ ht, fun k => by rw [hactor]; exact .stays (hcalls _)⟩

theorem Debounced.published {r : Option (CodeStoreActor × List Publication)}
    (h : n.published r = some (n', calls)) (hr : ∀ st ps, r = some (st, ps) →
      Tidy S st ∧ ∀ k, Lapses o.now (n.actor.heldUntil k) (st.heldUntil k)
      (codeFetchRequest who k ∈ ps)) :
    Debounced S who o n n' calls := by
  obtain ⟨⟨st, ps⟩, hst, heq⟩ := Option.map_eq_some_iff.mp h
  obtain ⟨rfl, rfl⟩ := Prod.mk.inj heq
  obtain ⟨htidy, hlapses⟩ := hr st ps hst
  refine ⟨htidy, fun k => ?_⟩
  have hiff : Requests who (ps.map .publish) k ↔ codeFetchRequest who k ∈ ps := by simp [Requests]
  exact ⟨fun hasks => (hlapses k).asked (hiff.mp hasks), fun hasks =>
    (hlapses k).silent (mt hiff.mpr hasks)⟩

theorem Debounced.unavailable (h : Ordered.StrictTotal CodeIdentifier.lt S) (ht : Tidy S n.actor)
    (hp : p.getStrAttr "type" = some "code_unavailable")
    (hnames : ∀ identifier, Names p identifier → S identifier)
    (hr : n.published (CodeStoreActor.receiveCodeUnavailableNotification who ⟨o.now, n.store⟩
      n.actor p) =
      some (n', calls)) : Debounced S who o n n' calls := by
  refine .published hr fun st ps hst => ?_
  unfold CodeStoreActor.receiveCodeUnavailableNotification at hst
  split at hst
  · obtain ⟨type, htype, hst⟩ := Option.bind_eq_some_iff.mp hst
    obtain ⟨version, hversion, hst⟩ := Option.bind_eq_some_iff.mp hst
    obtain ⟨runtime_type, hruntime, hst⟩ := Option.bind_eq_some_iff.mp hst
    exact CodeStoreActor.miss_spec h (hnames _ (Or.inl ⟨hp, htype, hversion, hruntime⟩)) ht hst
  · obtain ⟨rfl, rfl⟩ := Prod.mk.inj (Option.some.inj hst)
    exact ⟨ht, fun k => .stays List.not_mem_nil⟩

theorem request_ne_response {identifier identifier' : CodeIdentifier}
    {code node_id actor_type instance_id : String} :
    codeFetchRequest who identifier ≠
      CodeStoreActor.codeFetchResponse who identifier' code node_id actor_type instance_id := by
  intro h
  have htype := congrArg (fun q => q.getStrAttr "type") h
  simp [codeFetchRequest, CodeStoreActor.codeFetchResponse, CodeNetwork.getStrAttr_setAttr] at htype

theorem Debounced.fetch (h : Ordered.StrictTotal CodeIdentifier.lt S) (ht : Tidy S n.actor)
    (hp : p.getStrAttr "type" = some "code_fetch_request")
    (hnames : ∀ identifier, Names p identifier → S identifier)
    (hr : n.published (CodeStoreActor.receiveCodeFetchRequest who ⟨o.now, n.store⟩ n.actor p) =
      some (n', calls)) :
    Debounced S who o n n' calls := by
  refine .published hr fun st ps hst => ?_
  unfold CodeStoreActor.receiveCodeFetchRequest at hst
  split at hst
  · obtain ⟨type, htype, hst⟩ := Option.bind_eq_some_iff.mp hst
    obtain ⟨version, hversion, hst⟩ := Option.bind_eq_some_iff.mp hst
    obtain ⟨runtime_type, hruntime, hst⟩ := Option.bind_eq_some_iff.mp hst
    split at hst
    · obtain ⟨node_id, -, hst⟩ := Option.bind_eq_some_iff.mp hst
      obtain ⟨actor_type, -, hst⟩ := Option.bind_eq_some_iff.mp hst
      obtain ⟨instance_id, -, hst⟩ := Option.bind_eq_some_iff.mp hst
      obtain ⟨rfl, rfl⟩ := Prod.mk.inj (Option.some.inj hst)
      exact ⟨ht, fun k => .stays fun hmem => request_ne_response (List.mem_singleton.mp hmem)⟩
    · exact CodeStoreActor.miss_spec h (hnames _ (Or.inr ⟨hp, htype, hversion, hruntime⟩)) ht hst
  · obtain ⟨rfl, rfl⟩ := Prod.mk.inj (Option.some.inj hst)
    exact ⟨ht, fun k => .stays List.not_mem_nil⟩

theorem stored_actor {store : Option CodeStore} (h : n.stored store = some (n', calls)) :
    n'.actor = n.actor ∧ calls = [] := by
  obtain ⟨st, -, heq⟩ := Option.map_eq_some_iff.mp h
  obtain ⟨rfl, rfl⟩ := Prod.mk.inj heq
  exact ⟨rfl, rfl⟩

theorem receive_debounced (h : Ordered.StrictTotal CodeIdentifier.lt S) (ht : Tidy S n.actor)
    (hnames : ∀ identifier, Names p identifier → S identifier)
    (hr : receive who o n p = some (n', calls)) :
    Debounced S who o n n' calls := by
  have hstored : ∀ {store}, n.stored store = some (n', calls) → Debounced S who o n n' calls := by
    intro store hst
    obtain ⟨hactor, rfl⟩ := stored_actor hst
    exact .other ht hactor (by simp)
  unfold receive at hr
  split at hr
  · obtain ⟨rfl, rfl⟩ := Prod.mk.inj (Option.some.inj hr)
    exact .other ht rfl (by simp [nextCleanup])
  · split at hr
    · obtain ⟨actor, hactor, heq⟩ := Option.map_eq_some_iff.mp hr
      obtain ⟨rfl, rfl⟩ := Prod.mk.inj heq
      obtain ⟨htidy, hlapses⟩ := CodeStoreActor.cleanup_spec h ht hactor
      have hno : ∀ k, ¬ Requests who [nextCleanup o] k := fun k => by simp [Requests, nextCleanup]
      exact ⟨htidy, fun k => ⟨fun hasks => absurd hasks (hno k), fun _ =>
        (hlapses k).silent not_false⟩⟩
    · split at hr
      · exact hstored hr
      · split at hr
        · exact hstored hr
        · split at hr
          · rename_i hp
            exact .unavailable h ht hp hnames hr
          · split at hr
            · rename_i hp
              exact .fetch h ht hp hnames hr
            · split at hr
              · exact hstored hr
              · split at hr
                · obtain ⟨-, hactor, hcalls⟩ := command_same hr
                  exact .other ht hactor hcalls
                · obtain ⟨rfl, rfl⟩ := Prod.mk.inj (Option.some.inj hr)
                  exact .other ht rfl (by simp)

end

end CodeNode

/-! ## The network -/

namespace CodeNetwork

open CodeStoreActor (Names Tidy Lapses)

/-- What the code store of a node handles in a step. -/
def handledAt (node_id : String) : Event → Option (CodeNode.Occasion × Publication)
  | .executor id o p => if id = node_id then some (o, p) else none
  | .deliver id o _ q => if id = node_id then some (o, q) else none
  | .publish _ | .push .. | .retrieve .. => none

/-- The messages that the code store of a node handles. -/
def inbox (node_id : String) (events : List Event) : List (CodeNode.Occasion × Publication) :=
  events.filterMap (handledAt node_id)

/-- The clock of the node never goes back, and is not about to start again. -/
structure Clocked (inbox : List (CodeNode.Occasion × Publication)) : Prop where
  across : inbox.Pairwise fun a b => ∀ i j, a.1.now i ≤ b.1.now j
  within : ∀ a ∈ inbox, ∀ i j, i ≤ j → a.1.now i ≤ a.1.now j
  room : ∀ a ∈ inbox, ∀ i, (a.1.now i).toNat + 5000 < 2 ^ 32

/-- In this step the code store of the node sends a request for the identifier, and looks at the
clock before. -/
def Asks (net : CodeNetwork) (node_id : String) (identifier : CodeIdentifier) (ev : Event)
    (t : UInt32) : Prop :=
  ∃ o p n calls, handledAt node_id ev = some (o, p) ∧
    (net.nodes node_id).receive (codeStore node_id) o p = some (n, calls) ∧
    CodeNode.Requests (codeStore node_id) calls identifier ∧ t = o.now 1

section

variable {S : CodeIdentifier → Prop} {net net' : CodeNetwork} {node_id : String} {ev : Event}

theorem handle_node (node_id : String) {id : String} {o : CodeNode.Occasion} {p : Publication}
    (h : net.handle id o p = some net') :
    if id = node_id then
      ∃ calls, (net.nodes node_id).receive (codeStore node_id) o p =
        some (net'.nodes node_id, calls)
    else net'.nodes node_id = net.nodes node_id := by
  obtain ⟨⟨n, calls⟩, hreceive, rfl⟩ := Option.map_eq_some_iff.mp h
  split
  · rename_i hid
    subst hid
    exact ⟨calls, by simpa [setNode] using hreceive⟩
  · rename_i hid
    simp [setNode, Ne.symm hid]

theorem step_node (node_id : String) (h : net.step ev = some net') :
    match handledAt node_id ev with
    | some (o, p) => ∃ calls, (net.nodes node_id).receive (codeStore node_id) o p =
        some (net'.nodes node_id, calls)
    | none => (net'.nodes node_id).actor = (net.nodes node_id).actor := by
  have hhandle : ∀ {id o p}, net.handle id o p = some net' →
      match (if id = node_id then some (o, p) else none : Option
        (CodeNode.Occasion × Publication)) with
      | some (o, p) => ∃ calls, (net.nodes node_id).receive (codeStore node_id) o p =
          some (net'.nodes node_id, calls)
      | none => (net'.nodes node_id).actor = (net.nodes node_id).actor := by
    intro id o p hstep
    have hnode := handle_node node_id hstep
    split at hnode
    · rename_i hid
      rw [if_pos hid]
      exact hnode
    · rename_i hid
      rw [if_neg hid, hnode]
  cases ev with
  | publish p =>
    simp only [CodeNetwork.step] at h
    split at h
    · cases h
    · rw [← Option.some.inj h]
      rfl
  | push id identifier lifetime_end code =>
    rw [← Option.some.inj h]
    simp only [handledAt, setNode]
    split
    · rename_i hid
      rw [hid]
    · rfl
  | retrieve id identifier =>
    simp only [CodeNetwork.step] at h
    split at h
    · rw [← Option.some.inj h]
      rfl
    · rw [← Option.some.inj h]
      rfl
  | executor id o p =>
    simp only [CodeNetwork.step] at h
    split at h
    · exact hhandle h
    · cases h
  | deliver id o i q =>
    obtain ⟨p, -, h⟩ := Option.bind_eq_some_iff.mp h
    split at h
    · exact hhandle h
    · cases h

theorem step_lapses (h : Ordered.StrictTotal CodeIdentifier.lt S)
    (hnames : ∀ o p, handledAt node_id ev = some (o, p) → ∀ identifier, Names p identifier →
      S identifier)
    (ht : Tidy S (net.nodes node_id).actor) (hstep : net.step ev = some net') :
    Tidy S (net'.nodes node_id).actor ∧ ∀ k,
      (handledAt node_id ev = none ∧
          (net'.nodes node_id).actor.heldUntil k = (net.nodes node_id).actor.heldUntil k) ∨
        ∃ o p asks, handledAt node_id ev = some (o, p) ∧
          Lapses o.now ((net.nodes node_id).actor.heldUntil k)
          ((net'.nodes node_id).actor.heldUntil k) asks ∧
          (asks ↔ Asks net node_id k ev (o.now 1)) := by
  have hnode := step_node node_id hstep
  cases hhandled : handledAt node_id ev with
  | none =>
    rw [hhandled] at hnode
    exact ⟨hnode ▸ ht, fun k => Or.inl ⟨rfl, by rw [hnode]⟩⟩
  | some m =>
    obtain ⟨o, p⟩ := m
    rw [hhandled] at hnode
    obtain ⟨calls, hreceive⟩ := hnode
    obtain ⟨htidy, hlapses⟩ := CodeNode.receive_debounced h ht (hnames o p hhandled) hreceive
    refine ⟨htidy, fun k => Or.inr ⟨o, p, _, rfl, hlapses k, fun hasks => ?_, ?_⟩⟩
    · exact ⟨o, p, _, calls, hhandled, hreceive, hasks, rfl⟩
    · rintro ⟨o', p', n, calls', hhandled', hreceive', hasks, -⟩
      obtain ⟨rfl, rfl⟩ := Prod.mk.inj (Option.some.inj (hhandled.symm.trans hhandled'))
      rw [hreceive] at hreceive'
      obtain ⟨-, rfl⟩ := Prod.mk.inj (Option.some.inj hreceive')
      exact hasks

theorem tidy_run {events : List Event} (h : Ordered.StrictTotal CodeIdentifier.lt S)
    (hnames : ∀ m ∈ inbox node_id events, ∀ identifier, Names m.2 identifier → S identifier)
    (hrun : run events = some net) : Tidy S (net.nodes node_id).actor := by
  refine Runs.invariant_of (fun net => Tidy S (net.nodes node_id).actor) (fun _ ev => ev ∈ events)
    ?_ ?_ ?_ hrun
  · refine ⟨List.Pairwise.nil, fun a ha => ?_⟩
    cases ha
  · intro net ev net' ht hmem hstep
    exact (step_lapses h (fun o p hp => hnames (o, p) (List.mem_filterMap.mpr ⟨ev, hmem, hp⟩)) ht
      hstep).1
  · rintro pre ev post before rfl -
    simp

theorem toNat_until {t : UInt32} (h : t.toNat + 5000 < 2 ^ 32) :
    (t + 5000).toNat = t.toNat + 5000 := by
  rw [UInt32.toNat_add]
  exact Nat.mod_eq_of_lt h

/-- Misses of the identifier are held at least until then, or `t` is later. -/
def Held (node_id : String) (identifier : CodeIdentifier) (least : Nat) (t : UInt32)
    (net : CodeNetwork) : Prop :=
  (∃ d, (net.nodes node_id).actor.heldUntil identifier = some d ∧ least ≤ d.toNat) ∨ least < t.toNat

theorem Held.step {identifier : CodeIdentifier} {least : Nat} {t : UInt32}
    (h : Ordered.StrictTotal CodeIdentifier.lt S)
    (hnames : ∀ o p, handledAt node_id ev = some (o, p) → ∀ identifier, Names p identifier →
      S identifier)
    (hbefore : ∀ o p, handledAt node_id ev = some (o, p) → ∀ i, o.now i ≤ t)
    (ht : Tidy S (net.nodes node_id).actor) (hheld : Held node_id identifier least t net)
    (hstep : net.step ev = some net') :
    Held node_id identifier least t net' := by
  rcases hheld with ⟨d, hd, hleast⟩ | hover
  · -- an entry goes or changes only after its time
    have hlate : ∀ o p i, handledAt node_id ev = some (o, p) → d < o.now i → least < t.toNat := by
      intro o p i hhandled hless
      have hle := UInt32.le_iff_toNat_le.mp (hbefore o p hhandled i)
      have hlt := UInt32.lt_iff_toNat_lt.mp hless
      omega
    rcases (step_lapses h hnames ht hstep).2 identifier with ⟨-, hsame⟩ | ⟨o, p, asks, hhandled,
        hlapses, -⟩
    · exact Or.inl ⟨d, hsame.trans hd, hleast⟩
    · by_cases hasks : asks
      · exact Or.inr (hlate o p 1 hhandled ((hlapses.asked hasks).1 d hd))
      · rcases hlapses.silent hasks with hsame | ⟨-, d', i, hd', hless⟩
        · exact Or.inl ⟨d, hsame.trans hd, hleast⟩
        · obtain rfl := Option.some.inj (hd.symm.trans hd')
          exact Or.inr (hlate o p i hhandled hless)
  · exact Or.inr hover

/-- A code store asks for the same code at most once in five seconds, whatever else it handles. -/
theorem requests_apart {events pre mid post : List Event} {ev₁ ev₂ : Event}
    {net₁ net₂ : CodeNetwork} {identifier : CodeIdentifier} {t₁ t₂ : UInt32}
    (h : Ordered.StrictTotal CodeIdentifier.lt S)
    (hnames : ∀ m ∈ inbox node_id events, ∀ identifier, Names m.2 identifier → S identifier)
    (hclock : Clocked (inbox node_id events))
    (hevents : events = pre ++ ev₁ :: (mid ++ ev₂ :: post)) (h₁ : run pre = some net₁)
    (hasks₁ : Asks net₁ node_id identifier ev₁ t₁) (h₂ : run (pre ++ ev₁ :: mid) = some net₂)
    (hasks₂ : Asks net₂ node_id identifier ev₂ t₂) :
    t₁.toNat + 5000 < t₂.toNat := by
  have hnamed : ∀ ev ∈ events, ∀ o p, handledAt node_id ev = some (o, p) → ∀ identifier,
      Names p identifier →
      S identifier := fun ev hev o p hp => hnames (o, p) (List.mem_filterMap.mpr ⟨ev, hev, hp⟩)
  have ⟨o₁, p₁, _, _, hhandled₁, _, _, ht₁⟩ := hasks₁
  have ⟨o₂, p₂, _, _, hhandled₂, _, _, ht₂⟩ := hasks₂
  have hinbox : inbox node_id events =
      inbox node_id pre ++ (o₁, p₁) :: (inbox node_id mid ++ (o₂, p₂) :: inbox node_id post) := by
    simp [hevents, inbox, hhandled₁, hhandled₂]
  have hpairs := hclock.across
  rw [hinbox, List.pairwise_append, List.pairwise_cons, List.pairwise_append] at hpairs
  obtain ⟨-, ⟨hfirst, -, -, hmiddle⟩, -⟩ := hpairs
  have hmem₁ : (o₁, p₁) ∈ inbox node_id events := by rw [hinbox]; simp
  have hheld : Tidy S (net₂.nodes node_id).actor ∧ Held node_id identifier (t₁.toNat + 5000) t₂
      net₂ := by
    unfold run at h₁ h₂
    rw [List.foldlM_append, h₁, Option.bind_eq_bind, Option.bind_some, List.foldlM_cons] at h₂
    obtain ⟨net, hstep, hmid⟩ := Option.bind_eq_some_iff.mp h₂
    have htidy₁ : Tidy S (net₁.nodes node_id).actor := by
      refine tidy_run h (fun m hm => hnames m ?_) h₁
      rw [hinbox]
      exact List.mem_append_left _ hm
    obtain ⟨htidy, hlapses⟩ := step_lapses h (hnamed ev₁ (by simp [hevents])) htidy₁ hstep
    refine Runs.invariant_of
      (fun net => Tidy S (net.nodes node_id).actor ∧
        Held node_id identifier (t₁.toNat + 5000) t₂ net)
      (fun _ ev => ev ∈ mid) ⟨htidy, ?_⟩ ?_ ?_ hmid
    · rcases hlapses identifier with ⟨hnone, -⟩ | ⟨o, p, asks, hhandled, hentry, hiff⟩
      · rw [hhandled₁] at hnone
        cases hnone
      · obtain ⟨rfl, rfl⟩ := Prod.mk.inj (Option.some.inj (hhandled₁.symm.trans hhandled))
        obtain ⟨-, i, hi, hset⟩ := hentry.asked (hiff.mpr (ht₁ ▸ hasks₁))
        refine Or.inl ⟨_, hset, ?_⟩
        rw [toNat_until (hclock.room _ hmem₁ i), ht₁]
        exact Nat.add_le_add_right (UInt32.le_iff_toNat_le.mp (hclock.within _ hmem₁ 1 i hi)) 5000
    · rintro net ev net' ⟨htidy, hheld⟩ hmem hstep
      have hev : ev ∈ events := by simp [hevents, hmem]
      refine ⟨(step_lapses h (hnamed ev hev) htidy hstep).1, hheld.step h (hnamed ev hev) ?_
        htidy hstep⟩
      intro o p hp i
      rw [ht₂]
      exact hmiddle (o, p) (List.mem_filterMap.mpr ⟨ev, hmem, hp⟩) (o₂, p₂) List.mem_cons_self i 1
    · rintro pre' ev post' before rfl -
      simp
  rcases hheld.2 with ⟨d, hd, hleast⟩ | hover
  · obtain ⟨o, p, n, calls, hhandled, hreceive, hrequests, ht⟩ := hasks₂
    have hev : ev₂ ∈ events := by simp [hevents]
    have hentry := (CodeNode.receive_debounced h hheld.1 (hnamed ev₂ hev o p hhandled)
      hreceive).lapses identifier
    have hless := UInt32.lt_iff_toNat_lt.mp ((hentry.asked hrequests).1 d hd)
    rw [ht]
    omega
  · exact hover

end

def missed (t : UInt32) : Event := .deliver "a" (atTime t) 0 (codeUnavailable "a" sensorCode)

theorem requests_apart_missed :
    ∃ net₁ net₂, run [.retrieve "a" sensorCode] = some net₁ ∧
    Asks net₁ "a" sensorCode (missed 5) 5 ∧
      run [.retrieve "a" sensorCode, missed 5, missed 100] = some net₂ ∧
      Asks net₂ "a" sensorCode (missed 6000) 6000 ∧ (5 : UInt32).toNat +
        5000 < (6000 : UInt32).toNat := by
  obtain ⟨net₁, net₂, h₁, hasks₁, h₂, hasks₂⟩ :
      ∃ net₁ net₂, run [.retrieve "a" sensorCode] = some net₁ ∧
      Asks net₁ "a" sensorCode (missed 5) 5 ∧
        run [.retrieve "a" sensorCode, missed 5, missed 100] = some net₂ ∧
      Asks net₂ "a" sensorCode (missed 6000) 6000 :=
    ⟨_, _, rfl, ⟨_, _, _, _, rfl, rfl, List.mem_cons_self, rfl⟩, rfl,
      ⟨_, _, _, _, rfl, rfl, List.mem_cons_self, rfl⟩⟩
  refine ⟨net₁, net₂, h₁, hasks₁, h₂, hasks₂, ?_⟩
  have horder : Ordered.StrictTotal CodeIdentifier.lt fun identifier => identifier =
      sensorCode := by
    refine CodeIdentifier.strictTotal_iff.mpr ?_
    rintro a b rfl rfl ⟨-, hless, -⟩
    exact lt_irrefl _ hless
  have hevents : [Event.retrieve "a" sensorCode, missed 5, missed 100, missed 6000] =
      [.retrieve "a" sensorCode] ++ missed 5 :: ([missed 100] ++ missed 6000 :: []) := rfl
  have hinbox : inbox "a" [.retrieve "a" sensorCode, missed 5, missed 100, missed 6000] =
      [(atTime 5, codeUnavailable "a" sensorCode), (atTime 100, codeUnavailable "a" sensorCode),
        (atTime 6000, codeUnavailable "a" sensorCode)] := rfl
  refine requests_apart horder ?_ ?_ hevents h₁ hasks₁ h₂ hasks₂
  · have hnames : ∀ identifier, Names (codeUnavailable "a" sensorCode) identifier →
        identifier = sensorCode := by
      rintro ⟨type, version, runtime_type⟩ (⟨-, htype, hversion, hruntime⟩ | ⟨hp, -⟩)
      · obtain rfl : "sensor" = type := Option.some.inj htype
        obtain rfl : "1" = version := Option.some.inj hversion
        obtain rfl : "lua" = runtime_type := Option.some.inj hruntime
        rfl
      · rw [type_codeUnavailable] at hp
        exact absurd (Option.some.inj hp) (by decide)
    rw [hinbox]
    simpa using hnames
  · rw [hinbox]
    exact ⟨by simp [atTime], by simp [atTime], by simp [atTime]⟩

end CodeNetwork

end UActor
