import UActor.PubSub.RouterInv

/-!
# The stored filter

The index hands the router the first constraint that is equal to the given one. Equality ignores
the flag and more, so a subscription may keep another filter than the one it was created with.
-/

namespace UActor

namespace Router

open Buckets (keys)

/-- The constraint that the index gives for `c`, if it has an equal one. -/
def firstEqual (m : IndexMap) (c : Constraint) : Option Constraint :=
  (keys (itemsAt m c.attr)).find? fun d => d.eqv c

theorem find?_append_of_none {l l' : List Constraint} {p : Constraint → Bool}
    (h : ∀ d ∈ l, p d = false) :
    (l ++ l').find? p = l'.find? p := by
  rw [List.find?_append]
  have hnone : l.find? p = none := by
    rw [List.find?_eq_none]
    intro d hd
    rw [h d hd]
    simp
  rw [hnone]
  rfl

theorem fileOne_stored_eq {m : IndexMap} (hm : Sound m) (sub : Nat) (opt : Bool) (c : Constraint) :
    (fileOne sub opt c m).2 = (firstEqual m c).getD c := by
  have hins := (fileOne_spec hm sub opt c).1
  unfold firstEqual
  generalize itemsAt (fileOne sub opt c m).1 c.attr = l' at hins
  generalize (fileOne sub opt c m).2 = e at hins
  cases hins with
  | found l₁ l₂ e ms hl he hfirst =>
    have hk : keys (l₁ ++ (e, ms) :: l₂) = keys l₁ ++ e :: keys l₂ := by simp [keys]
    rw [hl, hk, find?_append_of_none hfirst, List.find?_cons]
    simp only [he]
    rfl
  | new l₁ l₂ hl hnone hend =>
    have : (keys (itemsAt m c.attr)).find? (fun d => d.eqv c) = none := by
      rw [List.find?_eq_none]
      intro d hd
      rw [hnone d hd]
      simp
    rw [this]
    rfl

theorem eqv_of_eqv_string {c c₀ d : Constraint} (hstr : c₀.stringEqual? ≠ none)
    (h₀ : c₀.eqv c = true) (hd : d.eqv c = true) : d.eqv c₀ = true := by
  obtain ⟨x, hx⟩ := Option.ne_none_iff_exists'.mp hstr
  have hdx : d.stringEqual? = some x := by
    rw [Constraint.stringEqual?_of_eqv hd, ← Constraint.stringEqual?_of_eqv h₀, hx]
  have hattr : d.attr = c₀.attr := (Constraint.eqv_attr hd).trans (Constraint.eqv_attr h₀).symm
  rw [Constraint.eq_str_of_stringEqual? hx, Constraint.eq_str_of_stringEqual? hdx, hattr]
  exact Constraint.eqv_str_iff.mpr rfl

theorem firstEqual_fileOne {m : IndexMap} (hm : Sound m) (sub : Nat) (opt : Bool)
    (c₀ c : Constraint) :
    firstEqual (fileOne sub opt c₀ m).1 c =
      (firstEqual m c).or (if firstEqual m c₀ = none ∧ c₀.eqv c = true then some c₀ else none) := by
  by_cases ha : c₀.attr = c.attr
  · have hins := (fileOne_spec hm sub opt c₀).1
    unfold firstEqual
    rw [ha] at hins ⊢
    generalize itemsAt (fileOne sub opt c₀ m).1 c.attr = l' at hins
    generalize (fileOne sub opt c₀ m).2 = e at hins
    cases hins with
    | found l₁ l₂ e ms hl he hfirst =>
      have hsome : (keys (itemsAt m c.attr)).find? (fun d => d.eqv c₀) ≠ none := by
        rw [Ne, List.find?_eq_none]
        intro hno
        exact hno e (by rw [hl]; simp [keys]) he
      rw [if_neg fun h => hsome h.1, Option.or_none, hl]
      simp [keys]
    | new l₁ l₂ hl hnone hend =>
      have hnone' : (keys (itemsAt m c.attr)).find? (fun d => d.eqv c₀) = none := by
        rw [List.find?_eq_none]
        intro d hd
        rw [hnone d hd]
        simp
      simp only [hnone', true_and]
      rw [hl] at hnone ⊢
      simp only [keys, List.map_append, List.map_cons, List.find?_append] at hnone ⊢
      by_cases hc : c₀.eqv c = true
      · simp only [List.find?_cons, hc, if_true]
        rcases hend with rfl | hstr
        · simp
        · -- In the sorted part, nothing behind the new constraint answers to `c`.
          have hrest : (l₂.map Prod.fst).find? (fun d => d.eqv c) = none := by
            rw [List.find?_eq_none]
            intro d hd hdc
            have := hnone d (List.mem_append_right _ hd)
            rw [eqv_of_eqv_string hstr hc hdc] at this
            exact absurd this (by simp)
          rw [hrest, Option.or_none]
      · rw [Bool.not_eq_true] at hc
        simp only [List.find?_cons, hc, Bool.false_eq_true, if_false, Option.or_none]
  · have hno : c₀.eqv c ≠ true := fun h => ha (Constraint.eqv_attr h)
    unfold firstEqual
    rw [itemsAt_fileOne_ne ha, if_neg fun h => hno h.2, Option.or_none]

/-- Every constraint of `cs` will be stored as it is: the first equal one, among those of the index
and those before it in the filter, is the same. -/
def keeps (m : IndexMap) : List Constraint → List Constraint → Bool
  | _, [] => true
  | seen, c :: cs =>
    (match (keys (itemsAt m c.attr) ++ seen).find? fun d => d.eqv c with
      | none => true
      | some e => e = c) && keeps m (seen ++ [c]) cs

theorem keeps_append (m : IndexMap) (seen cs ds : List Constraint) :
    keeps m seen (cs ++ ds) = (keeps m seen cs && keeps m (seen ++ cs) ds) := by
  induction cs generalizing seen with
  | nil => simp [keeps]
  | cons c cs ih => simp [keeps, ih, Bool.and_assoc]

/-- The constraints `seen` were filed as they are, starting from `m₀`. -/
def Seen (m₀ m : IndexMap) (seen : List Constraint) : Prop :=
  ∀ c, firstEqual m c = (keys (itemsAt m₀ c.attr) ++ seen).find? fun d => d.eqv c

theorem seen_nil (m : IndexMap) : Seen m m [] := by
  intro c
  rw [List.append_nil]
  rfl

theorem Seen.file {m₀ m : IndexMap} {seen : List Constraint} (h : Seen m₀ m seen) (hm : Sound m)
    (sub : Nat) (opt : Bool) {c₀ : Constraint} (hc₀ : ∀ e, firstEqual m c₀ = some e → e = c₀) :
    Seen m₀ (fileOne sub opt c₀ m).1 (seen ++ [c₀]) := by
  intro c
  rw [firstEqual_fileOne hm, ← List.append_assoc, List.find?_append, ← h c]
  cases hf : firstEqual m c with
  | some e => rfl
  | none =>
    simp only [Option.none_or, List.find?_singleton]
    by_cases hc : c₀.eqv c = true
    · have hnone : firstEqual m c₀ = none := by
        cases he : firstEqual m c₀ with
        | none => rfl
        | some e =>
          -- The constraint was there before, so it would have been found for `c` too.
          obtain rfl := hc₀ e he
          have hmem := List.mem_of_find?_eq_some he
          rw [Constraint.eqv_attr hc] at hmem
          have := List.find?_eq_none.mp hf e hmem
          exact absurd hc (by simpa using this)
      rw [if_pos ⟨hnone, hc⟩, if_pos hc]
    · rw [if_neg fun h => hc h.2, if_neg hc]

theorem fileConstraints_keeps {m₀ : IndexMap} (sub : Nat) (opt : Bool) (cs : List Constraint)
    {m : IndexMap} (hm : Sound m) {seen : List Constraint} (h : Seen m₀ m seen) :
    ((fileConstraints sub opt cs m).2 = cs ↔ keeps m₀ seen cs = true) ∧
      (keeps m₀ seen cs = true → Seen m₀ (fileConstraints sub opt cs m).1 (seen ++ cs)) := by
  induction cs generalizing m seen with
  | nil => exact ⟨by simp [fileConstraints, keeps], fun _ => by simpa [fileConstraints] using h⟩
  | cons c cs ih =>
    have hstored : (fileOne sub opt c m).2 = c ↔ ∀ e, firstEqual m c = some e → e = c := by
      rw [fileOne_stored_eq hm]
      cases firstEqual m c <;> simp
    have hhead : (match (keys (itemsAt m₀ c.attr) ++ seen).find? fun d => d.eqv c with
        | none => true
        | some e => decide (e = c)) = true ↔ ∀ e, firstEqual m c = some e → e = c := by
      rw [← h c]
      cases firstEqual m c <;> simp
    rw [fileConstraints_cons, List.cons.injEq, keeps, Bool.and_eq_true, hhead, hstored]
    have hrest := fun hc => ih (fileOne_spec hm sub opt c).2 (h.file hm sub opt hc)
    refine ⟨and_congr_right fun hc => (hrest hc).1, ?_⟩
    rintro ⟨hc, hcs⟩
    have hseen := (hrest hc).2 hcs
    rw [List.append_assoc] at hseen
    exact hseen

/-- The condition on the state before a filter is added. -/
def Keeps (rt : Router) (f : Filter) : Prop := keeps rt.constraints [] f.constraints = true

theorem stored_iff {m : IndexMap} (hm : Sound m) (id : Nat) (f : Filter) :
    InternalFilter.toFilter ⟨(fileConstraints id false f.required m).2,
        (fileConstraints id true f.optional (fileConstraints id false f.required m).1).2⟩ = f ↔
      keeps m [] f.constraints = true := by
  obtain ⟨hreq, hseen⟩ := fileConstraints_keeps id false f.required hm (seen_nil m)
  unfold Filter.constraints InternalFilter.toFilter
  rw [keeps_append, Bool.and_eq_true]
  obtain ⟨req, opt⟩ := f
  rw [Filter.mk.injEq]
  constructor
  · rintro ⟨h1, h2⟩
    have hkr := hreq.mp h1
    exact ⟨hkr, (fileConstraints_keeps id true opt (sound_fileConstraints _ _ _ hm)
      (hseen hkr)).1.mp h2⟩
  · rintro ⟨hkr, hko⟩
    exact ⟨hreq.mpr hkr,
      (fileConstraints_keeps id true opt (sound_fileConstraints _ _ _ hm) (hseen hkr)).1.mpr hko⟩

/-! ## Runs -/

/-- The subscription that a call creates, with the filter it was given. -/
def creates (rt : Router) : Op → Option (Nat × Filter)
  | .add f _ _ _ args =>
    if args.fetch_policy = .FETCH then none
    else if (rt.findEqual f args).isSome then none
    else some (rt.next_sub_id, f)
  | .remove .. => none

theorem creates_eq_some {rt : Router} {op : Op} {id : Nat} {f : Filter}
    (h : rt.creates op = some (id, f)) :
    ∃ r who src args, op = .add f r who src args ∧ args.fetch_policy ≠ .FETCH ∧
    rt.findEqual f args = none ∧
      id = rt.next_sub_id := by
  cases op with
  | remove => simp [creates] at h
  | add g r who src args =>
    simp only [creates] at h
    split at h
    · simp at h
    · rename_i hf
      split at h
      · simp at h
      · rename_i hnone
        obtain ⟨rfl, rfl⟩ := Prod.mk.inj (Option.some.inj h)
        exact ⟨r, who, src, args, rfl, hf, by simpa using hnone, rfl⟩

theorem step_next_sub_id (board : Board) (rt : Router) (op : Op) :
    (rt.step board op).1.next_sub_id =
      if (rt.creates op).isSome then rt.next_sub_id + 1 else rt.next_sub_id := by
  have hstep := step_cases board rt op
  generalize rt.step board op = out at hstep
  cases hstep with
  | fetch f r who src args hf => simp [creates, hf]
  | join f r who src args sub hf hsub => simp [creates, hf, hsub, setSub]
  | create f r who src args hf hsub =>
    simp only [createSubscription, internNode_next_sub_id, creates, hf, hsub]
    rfl
  | unknown | erase | leave => rfl

/-- One of the calls created the subscription `id` with the filter `f`. -/
def CreatedBy (board : Board) (ops : List Op) (id : Nat) (f : Filter) : Prop :=
  ∃ pre op post, ops = pre ++ op :: post ∧ (run board pre).creates op = some (id, f)

theorem createdBy_snoc {board : Board} {ops : List Op} {op : Op} {id : Nat} {f : Filter} :
    CreatedBy board (ops ++ [op]) id f ↔
      CreatedBy board ops id f ∨ (run board ops).creates op = some (id, f) := by
  constructor
  · rintro ⟨pre, op', post, heq, hc⟩
    rcases List.eq_nil_or_concat post with rfl | ⟨post, last, rfl⟩
    · obtain ⟨rfl, h⟩ := List.append_inj' heq rfl
      obtain rfl : op = op' := by simpa using h
      exact Or.inr hc
    · rw [List.concat_eq_append, ← List.cons_append, ← List.append_assoc] at heq
      exact Or.inl ⟨pre, op', post, (List.append_inj' heq rfl).1, hc⟩
  · rintro (⟨pre, op', post, rfl, hc⟩ | hc)
    · exact ⟨pre, op', post ++ [op], by simp, hc⟩
    · exact ⟨ops, op, [], rfl, hc⟩

theorem createdBy_lt {board : Board} {ops : List Op} {id : Nat} {f : Filter}
    (h : CreatedBy board ops id f) :
    id < (run board ops).next_sub_id := by
  induction ops using List.reverseRecOn with
  | nil =>
    obtain ⟨pre, op, post, heq, -⟩ := h
    simp at heq
  | append_singleton ops op ih =>
    rw [run_snoc, step_next_sub_id]
    rcases createdBy_snoc.mp h with h | h
    · have := ih h
      split <;> omega
    · obtain ⟨_, _, _, _, _, _, _, hid⟩ := creates_eq_some h
      rw [h, hid]
      simp

/-- The subscription has the filter `f`, and its removal is announced under the filter of its
addition. -/
structure Remembered (board : Board) (S : Subscription) (f : Filter) : Prop where
  filter_eq : S.filter.toFilter = f
  announced : ∀ args who exclude include_ exclude' include_',
    (publishSubscriptionRemoved board S.filter S.arguments exclude include_).getAttr
      "subscription" =
      (publishSubscriptionAdded f args who exclude' include_').getAttr "subscription"

theorem getAttr_address (update : Publication) (exclude include_ : String) {name : String}
    (hx : "exclude_node_id" ≠ name) (hn : "include_node_id" ≠ name) :
    (address update exclude include_).getAttr name = update.getAttr name := by
  unfold address
  split <;> split <;> simp only [Publication.getAttr_setAttr, if_neg hx, if_neg hn]

theorem remembered_of_eq {board : Board} {S : Subscription} {f : Filter}
    (h : S.filter.toFilter = f) :
    Remembered board S f := by
  refine ⟨h, ?_⟩
  intro args who exclude include_ exclude' include_'
  unfold publishSubscriptionRemoved publishSubscriptionAdded
  rw [getAttr_address _ _ _ (by decide) (by decide), getAttr_address _ _ _ (by decide) (by decide),
    h]
  simp only [Publication.getAttr_setAttr]
  rfl

theorem remembered_run {board : Board} (ops : List Op)
    (hops : ∀ pre op post, ops = pre ++ op :: post →
      ∀ id f, (run board pre).creates op = some (id, f) →
      Keeps (run board pre) f) :
    ∀ S ∈ (run board ops).subscriptions, ∀ f, CreatedBy board ops S.subscription_id f →
    S.filter.toFilter = f := by
  induction ops using List.reverseRecOn with
  | nil => simp [run, init]
  | append_singleton ops op ih =>
    intro T hT f hf
    have hops' := fun pre o post (h : ops = pre ++ o :: post) =>
      hops pre o (post ++ [op]) (by simp [h])
    rw [run_snoc] at hT
    have hinv := inv_run board ops
    rcases step_subscription hT with ⟨S, hS, hid, hfilter, -⟩ | ⟨g, r, who, src, args, rfl, hne,
        hnone, -, rfl⟩
    · rw [hfilter]
      rw [hid] at hf
      rcases createdBy_snoc.mp hf with hf | hf
      · exact ih hops' S hS f hf
      · -- A new id is not the id of an old subscription.
        obtain ⟨_, _, _, _, _, _, _, hid⟩ := creates_eq_some hf
        have := (hinv.subs.ids S hS).2
        omega
    · rcases createdBy_snoc.mp hf with hf | hf
      · have := createdBy_lt hf
        dsimp only at this
        omega
      · have hkeep := hops ops _ [] rfl _ _ hf
        obtain ⟨_, _, _, _, heq, -, -, -⟩ := creates_eq_some hf
        obtain ⟨rfl, -⟩ := (Op.add.injEq ..).mp heq
        exact (stored_iff hinv.sound _ g).mpr hkeep

/-- In every state of a run each subscription has the filter that it was created with, if and only
if each call that created one met only constraints of the index that are the same as its own. -/
theorem remembers_filters_iff (board : Board) (ops : List Op) :
    (∀ pre, pre <+: ops → ∀ S ∈ (run board pre).subscriptions, ∀ f,
      CreatedBy board pre S.subscription_id f →
      Remembered board S f) ↔
    ∀ pre op post, ops = pre ++ op :: post → ∀ id f, (run board pre).creates op = some (id, f) →
      Keeps (run board pre) f := by
  constructor
  · rintro h pre op post rfl id f hc
    obtain ⟨r, who, src, args, rfl, hf, hnone, rfl⟩ := creates_eq_some hc
    have hpre : pre ++ [Op.add f r who src args] <+: pre ++ Op.add f r who src args :: post :=
      ⟨post, by simp⟩
    have hnew : (⟨(run board pre).next_sub_id,
        ⟨(fileConstraints (run board pre).next_sub_id false f.required
          (run board pre).constraints).2,
          (fileConstraints (run board pre).next_sub_id true f.optional
            (fileConstraints (run board pre).next_sub_id false f.required
              (run board pre).constraints).1).2⟩, args,
        [(r, [((run board pre).internNode src).2])]⟩ : Subscription) ∈
        (run board (pre ++ [Op.add f r who src args])).subscriptions := by
      rw [run_snoc]
      have hstep := step_cases board (run board pre) (.add f r who src args)
      generalize (run board pre).step board (.add f r who src args) = out at hstep
      cases hstep with
      | fetch _ _ _ _ _ hfetch => exact absurd hfetch hf
      | join _ _ _ _ _ sub _ hsub => rw [hnone] at hsub; simp at hsub
      | create =>
        unfold createSubscription
        dsimp only
        rw [internNode_next_sub_id, internNode_constraints]
        exact List.mem_append_right _ List.mem_cons_self
    have hrem := h _ hpre _ hnew f (createdBy_snoc.mpr (Or.inr hc))
    exact (stored_iff (inv_run board pre).sound _ f).mp hrem.filter_eq
  · intro h pre hpre S hS f hf
    obtain ⟨post, rfl⟩ := hpre
    refine remembered_of_eq (remembered_run pre ?_ S hS f hf)
    rintro pre' op post' rfl
    exact h pre' op (post' ++ post) (by simp)

/-- The second subscriber makes optional what the first one requires. It is stored as required. -/
theorem optional_flag_forgotten :
    CreatedBy ⟨"node", 3⟩
      [.add ⟨[.int "x" 1 .EQ false], []⟩ 1 ⟨"node", "a", "1"⟩ "node" .default,
        .add ⟨[], [.int "x" 1 .EQ true]⟩ 2 ⟨"node", "b", "1"⟩ "node" .default] 12
      ⟨[], [.int "x" 1 .EQ true]⟩ ∧
    ((run ⟨"node", 3⟩
      [.add ⟨[.int "x" 1 .EQ false], []⟩ 1 ⟨"node", "a", "1"⟩ "node" .default,
        .add ⟨[], [.int "x" 1 .EQ true]⟩ 2 ⟨"node", "b", "1"⟩ "node" .default]).findSub 12).map
      (·.filter.toFilter) = some ⟨[], [.int "x" 1 .EQ false]⟩ ∧
    (⟨[], [.int "x" 1 .EQ false]⟩ : Filter) ≠ ⟨[], [.int "x" 1 .EQ true]⟩ := by
  refine ⟨⟨[.add ⟨[.int "x" 1 .EQ false], []⟩ 1 ⟨"node", "a", "1"⟩ "node" .default], _, [], rfl,
    ?_⟩, ?_, ?_⟩
  · decide
  · decide
  · decide

end Router

end UActor
