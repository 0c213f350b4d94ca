import UActor.PubSub.Routing

/-!
# Filing equal constraints

The index files a subscription under a constraint once, however often its filter lists it. This is
what the loops of index maintenance do to filters with scalar operands in any state.
-/

namespace UActor

namespace Constraint

theorem eqv_trans_left {e c d : Constraint} (hc : c.isScalar = true) (hec : e.eqv c = true)
    (hdc : d.eqv c = true) : e.eqv d = true := by
  have he : e.isScalar = true := by rw [isScalar_of_eqv hec]; exact hc
  have hd : d.isScalar = true := by rw [isScalar_of_eqv hdc]; exact hc
  rw [eqv_comm_of_scalar hd] at hdc
  exact eqv_trans_of_scalar he hec hdc

theorem eqv_of_common {e c d : Constraint} (he : e.isScalar = true) (hec : e.eqv c = true)
    (hed : e.eqv d = true) : d.eqv c = true := by
  rw [eqv_comm_of_scalar he] at hed
  have hd : d.isScalar = true := by rw [isScalar_of_eqv hed]; exact he
  exact eqv_trans_of_scalar hd hed hec

end Constraint

/-! ## One insertion -/

namespace ConstraintIndex

open Buckets (keys members)

variable {l l' : List ConstraintItem} {c e : Constraint} {sub : Nat} {opt : Bool}

theorem fst_mem_addPair {ms : List (Nat × Bool)} {s : Nat}
    (h : s ∈ (addPair sub opt ms).map Prod.fst) : s ∈ ms.map Prod.fst ∨ s = sub := by
  unfold addPair at h
  split at h
  · exact Or.inl h
  · simpa using h

theorem mem_fst_addPair {ms : List (Nat × Bool)} {s : Nat} (h : s ∈ ms.map Prod.fst) :
    s ∈ (addPair sub opt ms).map Prod.fst := by
  unfold addPair
  split
  · exact h
  · rw [List.map_append]
    exact List.mem_append_left _ h

theorem self_mem_addPair (ms : List (Nat × Bool)) :
    sub ∈ (addPair sub opt ms).map Prod.fst := by
  unfold addPair
  split
  · rename_i hany
    exact any_fst_iff.mp hany
  · simp

theorem Inserted.answers (h : Inserted l c sub opt l' e) : e.eqv c = true ∨ e = c := by
  cases h with
  | found l₁ l₂ e ms hl he hfirst => exact Or.inl he
  | new l₁ l₂ hl hnone hend => exact Or.inr rfl

theorem Inserted.keys_subset (h : Inserted l c sub opt l' e) : keys l ⊆ keys l' := by
  intro d hd
  cases h with
  | found l₁ l₂ e ms hl he hfirst =>
    subst hl
    simpa [keys] using hd
  | new l₁ l₂ hl hnone hend =>
    subst hl
    simp only [keys, List.map_append, List.map_cons, List.mem_append, List.mem_cons] at hd ⊢
    tauto

theorem Inserted.stored_mem_keys (h : Inserted l c sub opt l' e) : e ∈ keys l' := by
  cases h with
  | found | new => simp [keys]

theorem Inserted.lists (h : Inserted l c sub opt l' e)
    (hapart : (keys l).Pairwise fun d e => d.eqv e = false) (hc : c.isScalar = true)
    {i : ConstraintItem} (hi : i ∈ l') (hic : i.1.eqv c = true) :
    sub ∈ i.2.map Prod.fst := by
  cases h with
  | found l₁ l₂ e ms hl he hfirst =>
    subst hl
    rcases List.mem_append.mp hi with hi | hi
    · rw [hfirst _ (ConstraintIndex.mem_keys hi)] at hic
      exact absurd hic (by simp)
    · rcases List.mem_cons.mp hi with rfl | hi
      · exact self_mem_addPair ms
      · simp only [keys, List.map_append, List.map_cons, List.pairwise_append,
          List.pairwise_cons] at hapart
        have hne := hapart.2.1.1 i.1 (ConstraintIndex.mem_keys hi)
        rw [Constraint.eqv_trans_left hc he hic] at hne
        exact absurd hne (by simp)
  | new l₁ l₂ hl hnone hend =>
    subst hl
    rcases List.mem_append.mp hi with hi | hi
    · rw [hnone _ (ConstraintIndex.mem_keys (List.mem_append_left _ hi))] at hic
      exact absurd hic (by simp)
    · rcases List.mem_cons.mp hi with rfl | hi
      · simp
      · rw [hnone _ (ConstraintIndex.mem_keys (List.mem_append_right _ hi))] at hic
        exact absurd hic (by simp)

theorem members_count_cons (P : Constraint → Bool) (i : ConstraintItem) (l : List ConstraintItem)
    (x : Nat × Bool) : (members P (i :: l)).count x = (if P i.1 then i.2.count x else 0) +
      (members P l).count x := by
  unfold members
  by_cases hP : P i.1 = true
  · simp [hP]
  · simp [hP]

theorem count_addPair (ms : List (Nat × Bool)) (x : Nat × Bool) :
    (addPair sub opt ms).count x =
      ms.count x + if sub ∉ ms.map Prod.fst ∧ x = (sub, opt) then 1 else 0 := by
  unfold addPair
  by_cases hs : sub ∈ ms.map Prod.fst
  · rw [if_pos (any_fst_iff.mpr hs), if_neg fun h => h.1 hs, Nat.add_zero]
  · rw [if_neg (fun h => hs (any_fst_iff.mp h)), List.count_append, List.count_singleton]
    simp only [hs, not_false_eq_true, true_and, beq_iff_eq, eq_comm (a := x)]

theorem members_count_inserted {fresh : Prop} [Decidable fresh] (h : Inserted l c sub opt l' e)
    (hfound : ∀ ms, (e, ms) ∈ l → e.eqv c = true → (sub ∉ ms.map Prod.fst ↔ fresh))
    (hnew : (∀ d ∈ keys l, d.eqv c = false) → fresh) (P : Constraint → Bool) (x : Nat × Bool) :
    (members P l').count x =
      (members P l).count x + if fresh ∧ x = (sub, opt) ∧ P e = true then 1 else 0 := by
  cases h with
  | found l₁ l₂ e ms hl he hfirst =>
    have hiff := hfound ms (by rw [hl]; simp) he
    subst hl
    rw [Buckets.members_append, Buckets.members_append, List.count_append, List.count_append,
      members_count_cons, members_count_cons, count_addPair]
    by_cases hP : P e = true
    · simp only [hP, if_true, hiff, and_true]
      omega
    · simp only [hP, Bool.false_eq_true, if_false, and_false]
      omega
  | new l₁ l₂ hl hnone hend =>
    have hfresh := hnew hnone
    subst hl
    rw [Buckets.members_append, Buckets.members_append, List.count_append, List.count_append,
      members_count_cons, List.count_singleton]
    by_cases hP : P c = true
    · simp only [hP, if_true, hfresh, true_and, and_true, beq_iff_eq, eq_comm (a := x)]
      omega
    · simp only [hP, Bool.false_eq_true, if_false, and_false]
      omega

end ConstraintIndex

namespace Router

open Buckets (keys members)

/-! ## Fresh ids -/

/-- The indexes name no subscription from `n` on. -/
def FiledBelow (n : Nat) (m : IndexMap) : Prop :=
  ∀ a, ∀ i ∈ itemsAt m a, ∀ s ∈ i.2.map Prod.fst, s < n

theorem FiledBelow.mono {n n' : Nat} {m : IndexMap} (h : FiledBelow n m) (hn : n ≤ n') :
    FiledBelow n' m :=
  fun a i hi s hs => Nat.lt_of_lt_of_le (h a i hi s hs) hn

theorem FiledBelow.fileOne {n : Nat} {m : IndexMap} (h : FiledBelow n m) (hm : Sound m) {sub : Nat}
    (hsub : sub < n) (opt : Bool) (c : Constraint) : FiledBelow n (fileOne sub opt c m).1 := by
  intro a i hi s hs
  by_cases ha : c.attr = a
  · subst ha
    rcases (fileOne_spec hm sub opt c).1.mem hi with hi | ⟨ms, rfl, hms⟩ | rfl
    · exact h _ i hi s hs
    · rcases ConstraintIndex.fst_mem_addPair hs with hs | rfl
      · exact h _ _ hms s hs
      · exact hsub
    · rw [List.map_singleton, List.mem_singleton] at hs
      rw [hs]
      exact hsub
  · rw [itemsAt_fileOne_ne ha] at hi
    exact h a i hi s hs

theorem FiledBelow.fileConstraints {n : Nat} {sub : Nat} (hsub : sub < n) (opt : Bool)
    (cs : List Constraint) {m : IndexMap} (h : FiledBelow n m) (hm : Sound m) :
    FiledBelow n (fileConstraints sub opt cs m).1 := by
  induction cs generalizing m with
  | nil => exact h
  | cons c cs ih =>
    rw [fileConstraints_cons]
    exact ih (h.fileOne hm hsub opt c) (fileOne_spec hm sub opt c).2

theorem FiledBelow.dropConstraints {n : Nat} (sub : Nat) (cs : List Constraint) {m : IndexMap}
    (h : FiledBelow n m) (hm : Sound m) : FiledBelow n (dropConstraints sub cs m) := by
  induction cs generalizing m with
  | nil => exact h
  | cons c cs ih =>
    rw [dropConstraints_cons]
    refine ih ?_ (dropOne_spec hm sub c).2
    intro a i hi s hs
    by_cases ha : c.attr = a
    · subst ha
      rcases (dropOne_spec hm sub c).1.mem hi with hi | ⟨ms, hms, -, heq⟩
      · exact h _ i hi s hs
      · rw [heq] at hs
        exact h _ _ hms s ((List.eraseP_sublist.map Prod.fst).subset hs)
    · rw [itemsAt_dropOne_ne ha] at hi
      exact h a i hi s hs

theorem filedBelow_run (board : Board) (ops : List Op) :
    FiledBelow (run board ops).next_sub_id (run board ops).constraints := by
  induction ops using List.reverseRecOn with
  | nil => simp [FiledBelow, run, init, itemsAt, indexAt, ConstraintIndex.items,
      ConstraintIndex.empty]
  | append_singleton ops op ih =>
    rw [run_snoc]
    have hm := (inv_run board ops).sound
    generalize run board ops = rt at ih hm
    have hstep := step_cases board rt op
    generalize rt.step board op = out at hstep
    cases hstep with
    | fetch | unknown | leave => exact ih
    | join f r who src args sub hf hsub =>
      unfold setSub
      dsimp only
      rw [internNode_constraints, internNode_next_sub_id]
      exact ih
    | create f r who src args hf hsub =>
      unfold createSubscription
      dsimp only
      rw [internNode_constraints, internNode_next_sub_id]
      have hlt : rt.next_sub_id < rt.next_sub_id + 1 := Nat.lt_succ_self _
      have hle := ih.mono (Nat.le_succ rt.next_sub_id)
      exact (hle.fileConstraints hlt false f.required hm).fileConstraints hlt true f.optional
        (sound_fileConstraints _ _ _ hm)
    | erase sub_id r node_id sub hsub hempty =>
      exact (ih.dropConstraints _ _ hm).dropConstraints _ _ (sound_dropConstraints _ _ hm)

/-! ## Filing a constraint again -/

/-- Where the subscription `sub` is filed, when it has filed the constraints `done`. -/
structure Placed (sub : Nat) (done : List Constraint) (m : IndexMap) : Prop where
  only : ∀ a, ∀ i ∈ itemsAt m a, sub ∈ i.2.map Prod.fst → ∃ c ∈ done, i.1.eqv c = true ∨ i.1 = c
  all : ∀ a, ∀ i ∈ itemsAt m a, ∀ c ∈ done, i.1.eqv c = true → sub ∈ i.2.map Prod.fst
  some : ∀ c ∈ done, c.eqv c = true → ∃ e ∈ keys (itemsAt m c.attr), e.eqv c = true

theorem placed_nil {n : Nat} {m : IndexMap} (h : FiledBelow n m) : Placed n [] m := by
  refine ⟨?_, by simp, by simp⟩
  intro a i hi hs
  exact absurd (h a i hi n hs) (Nat.lt_irrefl n)

/-- The constraint is equal to none of `done`. -/
def Fresh (done : List Constraint) (c : Constraint) : Prop := ∀ d ∈ done, d.eqv c = false

instance (done : List Constraint) (c : Constraint) : Decidable (Fresh done c) :=
  inferInstanceAs (Decidable (∀ d ∈ done, d.eqv c = false))

theorem not_fresh {done : List Constraint} {c : Constraint} (h : ¬ Fresh done c) :
    ∃ d ∈ done, d.eqv c = true := by
  unfold Fresh at h
  push Not at h
  obtain ⟨d, hd, hdc⟩ := h
  exact ⟨d, hd, by simpa using hdc⟩

section

variable {sub : Nat} {done : List Constraint} {m : IndexMap} (h : Placed sub done m) (hm : Sound m)
  (opt : Bool) {c : Constraint} (hc : c.isScalar = true)

include h hc

theorem Placed.listed_iff {a : String} {i : ConstraintItem} (hi : i ∈ itemsAt m a)
    (he : i.1.eqv c = true) :
    sub ∉ i.2.map Prod.fst ↔ Fresh done c := by
  have his : i.1.isScalar = true := by rw [Constraint.isScalar_of_eqv he]; exact hc
  constructor
  · intro hno d hd
    rw [Bool.eq_false_iff]
    intro hdc
    exact hno (h.all a i hi d hd (Constraint.eqv_trans_left hc he hdc))
  · intro hfresh hs
    obtain ⟨d, hd, hid | hid⟩ := h.only a i hi hs
    · have hdc := Constraint.eqv_of_common his he hid
      rw [hfresh d hd] at hdc
      exact absurd hdc (by simp)
    · rw [hid, hfresh d hd] at he
      exact absurd he (by simp)

theorem Placed.fresh_of_none (hnone : ∀ d ∈ keys (itemsAt m c.attr), d.eqv c = false) :
    Fresh done c := by
  intro d hd
  rw [Bool.eq_false_iff]
  intro hdc
  have hd' : d.isScalar = true := by rw [Constraint.isScalar_of_eqv hdc]; exact hc
  have hself : d.eqv d = true := by
    have hcd := hdc
    rw [Constraint.eqv_comm_of_scalar hd'] at hcd
    exact Constraint.eqv_trans_of_scalar hd' hdc hcd
  obtain ⟨e, he, hed⟩ := h.some d hd hself
  rw [Constraint.eqv_attr hdc] at he
  have hes : e.isScalar = true := by rw [Constraint.isScalar_of_eqv hed]; exact hd'
  have hec := Constraint.eqv_trans_of_scalar hes hed hdc
  rw [hnone e he] at hec
  exact absurd hec (by simp)

include hm

theorem Placed.fileOne : Placed sub (done ++ [c]) (fileOne sub opt c m).1 := by
  obtain ⟨hins, hm'⟩ := fileOne_spec hm sub opt c
  have hin : ∀ d ∈ done, d ∈ done ++ [c] := fun d hd => List.mem_append_left _ hd
  refine ⟨?_, ?_, ?_⟩
  · intro a i hi hs
    by_cases ha : c.attr = a
    · subst ha
      rcases hins.mem hi with hi | ⟨ms, rfl, hms⟩ | rfl
      · obtain ⟨d, hd, hid⟩ := h.only _ i hi hs
        exact ⟨d, hin d hd, hid⟩
      · rcases ConstraintIndex.fst_mem_addPair hs with hs | -
        · obtain ⟨d, hd, hid⟩ := h.only _ _ hms hs
          exact ⟨d, hin d hd, hid⟩
        · exact ⟨c, by simp, hins.answers⟩
      · exact ⟨c, by simp, Or.inr rfl⟩
    · rw [itemsAt_fileOne_ne ha] at hi
      obtain ⟨d, hd, hid⟩ := h.only a i hi hs
      exact ⟨d, hin d hd, hid⟩
  · intro a i hi d hd hid
    by_cases ha : c.attr = a
    · subst ha
      rcases List.mem_append.mp hd with hd | hd
      · rcases hins.mem hi with hi | ⟨ms, rfl, hms⟩ | rfl
        · exact h.all _ i hi d hd hid
        · exact ConstraintIndex.mem_fst_addPair (h.all _ _ hms d hd hid)
        · simp
      · rw [List.mem_singleton.mp hd] at hid
        exact hins.lists (hm c.attr).items_apart hc hi hid
    · rcases List.mem_append.mp hd with hd | hd
      · rw [itemsAt_fileOne_ne ha] at hi
        exact h.all a i hi d hd hid
      · have hattr := hm'.attr_eq (ConstraintIndex.mem_keys hi)
        rw [Constraint.eqv_attr hid, List.mem_singleton.mp hd] at hattr
        exact absurd hattr ha
  · intro d hd hself
    rcases List.mem_append.mp hd with hd | hd
    · obtain ⟨e, he, hed⟩ := h.some d hd hself
      by_cases ha : c.attr = d.attr
      · rw [← ha] at he ⊢
        exact ⟨e, hins.keys_subset he, hed⟩
      · rw [itemsAt_fileOne_ne ha]
        exact ⟨e, he, hed⟩
    · rw [List.mem_singleton.mp hd] at hself ⊢
      exact ⟨_, hins.stored_mem_keys, (hins.stored hself).1⟩

end

/-! ## The hits of a list -/

def hitsIn (m : IndexMap) (attrs : Map) : List (Nat × Bool) :=
  attrs.flatMap fun e => members (fun d => d.accepts e.2) (itemsAt m e.1)

theorem hits_eq (rt : Router) (p : Publication) : rt.hits p = hitsIn rt.constraints p.attributes :=
  rfl

theorem count_hitsIn_change {m m' : IndexMap} {a : String} {x : Nat × Bool} (k : Variant → Nat)
    (hrest : ∀ a', a ≠ a' → itemsAt m' a' = itemsAt m a')
    (ha : ∀ v, (members (fun d => d.accepts v) (itemsAt m' a)).count x =
      (members (fun d => d.accepts v) (itemsAt m a)).count x + k v)
    {attrs : Map} (hattrs : (Assoc.keys attrs).Nodup) :
    (hitsIn m' attrs).count x = (hitsIn m attrs).count x + ((Assoc.find a attrs).map k).getD 0 := by
  induction attrs with
  | nil => rfl
  | cons e attrs ih =>
    obtain ⟨he, hattrs⟩ := List.nodup_cons.mp hattrs
    have ih := ih hattrs
    unfold hitsIn at ih ⊢
    rw [List.flatMap_cons, List.flatMap_cons, List.count_append, List.count_append, ih, Assoc.find]
    by_cases hea : e.1 = a
    · have hnone : Assoc.find a attrs = none := Assoc.find_eq_none.mpr (hea ▸ he)
      rw [if_pos hea, hnone, hea, ha]
      simp only [Option.map_some, Option.map_none, Option.getD_some, Option.getD_none]
      omega
    · rw [if_neg hea, hrest e.1 (Ne.symm hea)]
      omega

/-- The constraints of a list that no earlier one, of the list or of `done`, is equal to. -/
def firsts : List Constraint → List Constraint → List Constraint
  | _, [] => []
  | done, c :: cs => if Fresh done c then c :: firsts (done ++ [c]) cs else firsts (done ++ [c]) cs

theorem firsts_cons (done : List Constraint) (c : Constraint) (cs : List Constraint) :
    firsts done (c :: cs) =
      if Fresh done c then c :: firsts (done ++ [c]) cs else firsts (done ++ [c]) cs := rfl

theorem accepts_of_answers {e c : Constraint} (hc : c.isScalar = true) (h : e.eqv c = true ∨ e = c)
    (v : Variant) :
    e.accepts v = c.accepts v := by
  rcases h with h | rfl
  · exact Constraint.accepts_congr_of_scalar (by rw [Constraint.isScalar_of_eqv h]; exact hc) h v
  · rfl

theorem attr_of_answers {e c : Constraint} (h : e.eqv c = true ∨ e = c) : e.attr = c.attr := by
  rcases h with h | rfl
  · exact Constraint.eqv_attr h
  · rfl

theorem hit_of_answers {e c : Constraint} (hc : c.isScalar = true) (h : e.eqv c = true ∨ e = c)
    (attrs : Map) :
    hit attrs e = hit attrs c := by
  unfold hit
  rw [attr_of_answers h]
  cases Assoc.find c.attr attrs with
  | none => rfl
  | some v => exact accepts_of_answers hc h v

theorem fileOne_count {sub : Nat} {done : List Constraint} {m : IndexMap} (h : Placed sub done m)
    (hm : Sound m) (opt : Bool) {c : Constraint} (hc : c.isScalar = true) {attrs : Map}
    (hattrs : (Assoc.keys attrs).Nodup) (x : Nat × Bool) :
    (hitsIn (fileOne sub opt c m).1 attrs).count x =
      (hitsIn m attrs).count x +
        if Fresh done c ∧ x = (sub, opt) ∧ hit attrs c = true then 1 else 0 := by
  obtain ⟨hins, -⟩ := fileOne_spec hm sub opt c
  have hone := fun v => ConstraintIndex.members_count_inserted hins
    (fun ms hms he => h.listed_iff hc hms he) (h.fresh_of_none hc) (fun d => d.accepts v) x
  rw [count_hitsIn_change _ (fun a' ha => itemsAt_fileOne_ne ha) hone hattrs]
  congr 1
  unfold hit
  cases Assoc.find c.attr attrs with
  | none => simp
  | some v => simp [accepts_of_answers hc hins.answers]

theorem fileConstraints_count (sub : Nat) (opt : Bool) (cs : List Constraint)
    (hcs : ∀ c ∈ cs, c.isScalar = true) {done : List Constraint} {m : IndexMap}
    (h : Placed sub done m) (hm : Sound m) :
    Placed sub (done ++ cs) (fileConstraints sub opt cs m).1 ∧
      List.Forall₂ (fun e c => e.eqv c = true ∨ e = c) (fileConstraints sub opt cs m).2 cs ∧
      ∀ {attrs : Map}, (Assoc.keys attrs).Nodup →
      ∀ x, (hitsIn (fileConstraints sub opt cs m).1 attrs).count x =
        (hitsIn m attrs).count x +
          if x = (sub, opt) then (firsts done cs).countP (hit attrs) else 0 := by
  induction cs generalizing done m with
  | nil =>
    refine ⟨by rw [List.append_nil]; exact h, .nil, fun _ x => ?_⟩
    simp [fileConstraints, firsts]
  | cons c cs ih =>
    rw [List.forall_mem_cons] at hcs
    rw [fileConstraints_cons]
    obtain ⟨hins, hm'⟩ := fileOne_spec hm sub opt c
    obtain ⟨hplaced, hstored, hcount⟩ := ih hcs.2 (h.fileOne hm opt hcs.1) hm'
    refine ⟨by simpa using hplaced, .cons hins.answers hstored, fun hattrs x => ?_⟩
    rw [hcount hattrs, fileOne_count h hm opt hcs.1 hattrs, firsts]
    by_cases hx : x = (sub, opt)
    · by_cases hf : Fresh done c
      · simp only [hf, hx, true_and, if_true, List.countP_cons]
        omega
      · simp only [hf, hx, false_and, if_false, if_true]
        omega
    · simp only [hx, false_and, and_false, if_false]

theorem firsts_length_le (done cs : List Constraint) : (firsts done cs).length ≤ cs.length := by
  induction cs generalizing done with
  | nil => exact Nat.le_refl 0
  | cons c cs ih =>
    have hrest := ih (done ++ [c])
    rw [firsts_cons]
    split
    · simp only [List.length_cons]
      omega
    · simp only [List.length_cons]
      omega

/-- No constraint of the list is equal to an earlier one. -/
def Distinct (cs : List Constraint) : Prop := cs.Pairwise fun c d => c.eqv d = false

instance (cs : List Constraint) : Decidable (Distinct cs) :=
  inferInstanceAs (Decidable (cs.Pairwise fun c d => c.eqv d = false))

theorem fresh_snoc {done : List Constraint} {c d : Constraint} :
    Fresh (done ++ [c]) d ↔ Fresh done d ∧ c.eqv d = false := by
  unfold Fresh
  rw [List.forall_mem_append, List.forall_mem_singleton]

theorem countP_firsts_eq (P : Constraint → Bool) (done cs : List Constraint) :
    (firsts done cs).countP P = cs.length ↔ (∀ c ∈ cs, Fresh done c) ∧ Distinct cs ∧
      ∀ c ∈ cs, P c = true := by
  induction cs generalizing done with
  | nil => simp [firsts, Distinct]
  | cons c cs ih =>
    have hle := Nat.le_trans (List.countP_le_length (p := P) (l := firsts (done ++ [c]) cs))
      (firsts_length_le (done ++ [c]) cs)
    have hrest := ih (done ++ [c])
    rw [firsts_cons]
    by_cases hf : Fresh done c
    · rw [if_pos hf, List.countP_cons, List.length_cons]
      have hsplit : ((firsts (done ++ [c]) cs).countP P + if P c = true then 1 else 0) =
          cs.length + 1 ↔
          (firsts (done ++ [c]) cs).countP P = cs.length ∧ P c = true := by
        by_cases hP : P c = true
        · simp [hP]
        · simp only [hP, Bool.false_eq_true, if_false, and_false, iff_false]
          omega
      rw [hsplit, hrest]
      simp only [List.forall_mem_cons, hf, true_and, Distinct, List.pairwise_cons, fresh_snoc,
        forall_and]
      tauto
    · rw [if_neg hf, List.length_cons]
      refine iff_of_false (by omega) ?_
      rintro ⟨hall, -⟩
      exact hf (hall c List.mem_cons_self)

theorem exists_firsts {P : Constraint → Bool} {cs : List Constraint}
    (hcs : ∀ c ∈ cs, c.isScalar = true) (hP : ∀ c d, c.isScalar = true → d.eqv c = true → P d = P c)
    (done : List Constraint) :
    ((∃ c ∈ done, P c = true) ∨ ∃ c ∈ firsts done cs, P c = true) ↔
      ∃ c ∈ done ++ cs, P c = true := by
  induction cs generalizing done with
  | nil => simp [firsts]
  | cons c cs ih =>
    rw [List.forall_mem_cons] at hcs
    have hrest := ih hcs.2 (done ++ [c])
    rw [List.append_assoc, List.singleton_append] at hrest
    rw [← hrest, firsts_cons]
    have hsnoc : (∃ d ∈ done ++ [c], P d = true) ↔ (∃ d ∈ done, P d = true) ∨ P c = true := by
      simp only [List.mem_append, List.mem_singleton, or_and_right, exists_or, exists_eq_left]
    rw [hsnoc]
    by_cases hf : Fresh done c
    · rw [if_pos hf]
      simp only [List.mem_cons, or_and_right, exists_or, exists_eq_left]
      exact or_assoc.symm
    · rw [if_neg hf]
      obtain ⟨d, hd, hdc⟩ := not_fresh hf
      have hPc : P c = true → ∃ d ∈ done, P d = true :=
        fun h => ⟨d, hd, by rw [hP c d hcs.1 hdc]; exact h⟩
      rw [or_iff_left_of_imp hPc]

end Router

end UActor
