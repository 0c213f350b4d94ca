import UActor.PubSub.Filter
import Mathlib.Data.Fintype.EquivFin
import Mathlib.Data.Finset.Basic

/-!
# Merged filters

When two filters that compare equal mean the same. The comparison looks for every constraint of the
stored filter `f` in `g`: two constraints of `f` may find the same one, and a nested list of `f` may
find a longer one.
-/

namespace UActor

namespace Constraint

mutual

/-- No list in the operand holds two constraints that compare equal both ways. -/
def distinct : Constraint → Bool
  | .list _ cs _ _ => distinctList cs
  | _ => true

def distinctList : List Constraint → Bool
  | [] => true
  | c :: cs => distinct c && cs.all (fun d => !(eqv c d && eqv d c)) && distinctList cs

end

mutual

/-- Lists in the operands that compare equal are equally long, and nested constraints that compare
equal have the same flag. -/
def aligned : Constraint → Constraint → Bool
  | .list _ cs _ _, .list _ cs' _ _ => cs.length == cs'.length && alignedList cs cs'
  | _, _ => true

def alignedList : List Constraint → List Constraint → Bool
  | [], _ => true
  | d :: cs, other =>
    other.all (fun c => !eqv d c || (d.optional == c.optional && aligned d c)) &&
      alignedList cs other

end

theorem distinctList_iff (cs : List Constraint) :
    distinctList cs = true ↔ (∀ c ∈ cs, distinct c = true) ∧
      cs.Pairwise fun c d => ¬ (eqv c d = true ∧ eqv d c = true) := by
  induction cs with
  | nil => simp [distinctList]
  | cons c cs ih =>
    simp only [distinctList, Bool.and_eq_true, ih, List.all_eq_true, List.forall_mem_cons,
      List.pairwise_cons, Bool.not_eq_true', Bool.and_eq_false_iff, not_and, Bool.not_eq_true]
    grind

theorem distinct_of_mem {cs : List Constraint} {c : Constraint} (h : distinctList cs = true)
    (hc : c ∈ cs) : distinct c = true :=
  ((distinctList_iff cs).mp h).1 c hc

theorem alignedList_iff (cs other : List Constraint) :
    alignedList cs other = true ↔ ∀ d ∈ cs, ∀ c ∈ other, eqv d c = true →
      d.optional = c.optional ∧ aligned d c = true := by
  induction cs with
  | nil => simp [alignedList]
  | cons d cs ih =>
    rw [alignedList, Bool.and_eq_true, ih, List.all_eq_true, List.forall_mem_cons]
    refine and_congr_left fun _ => forall₂_congr fun c _ => ?_
    cases eqv d c <;> simp

theorem aligned_of_isScalar {b : Constraint} (h : b.isScalar = true) (a : Constraint) :
    aligned a b = true := by
  cases b with
  | list => simp [isScalar] at h
  | str | int | float => cases a <;> rfl

/-! ## Both ways -/

theorem eqv_trans : (a b c : Constraint) → eqv a b = true → eqv b c = true → eqv a c = true
  | .str .., _, _, hab, hbc => eqv_trans_of_scalar rfl hab hbc
  | .int .., _, _, hab, hbc => eqv_trans_of_scalar rfl hab hbc
  | .float .., _, _, hab, hbc => eqv_trans_of_scalar rfl hab hbc
  | .list .., .str .., _, hab, _ | .list .., .int .., _, hab, _
  | .list .., .float .., _, hab, _ => by
    simp [eqv] at hab
  | .list .., .list .., .str .., _, hbc | .list .., .list .., .int .., _, hbc
  | .list .., .list .., .float .., _, hbc => by
    simp [eqv] at hbc
  | .list _ xs _ _, .list _ ys _ _, .list _ zs _ _, hab, hbc => by
    simp only [eqv, Bool.and_eq_true, beq_iff_eq, allFound_iff] at hab hbc ⊢
    obtain ⟨rfl, ⟨rfl, -⟩, hxy⟩ := hab
    obtain ⟨rfl, ⟨rfl, hall⟩, hyz⟩ := hbc
    refine ⟨rfl, ⟨rfl, hall⟩, ?_⟩
    intro z hz
    obtain ⟨y, hy, hyz⟩ := hyz z hz
    obtain ⟨x, hx, hxy⟩ := hxy y hy
    exact ⟨x, hx, eqv_trans x y z hxy hyz⟩
termination_by a => sizeOf a
decreasing_by
  have := List.sizeOf_lt_of_mem hx
  simp only [Constraint.list.sizeOf_spec]
  omega

theorem eqv_self_of_eqv : (d c : Constraint) → eqv d c = true → eqv c c = true
  | .list .., .str .., h | .list .., .int .., h | .list .., .float .., h => by simp [eqv] at h
  | .list _ ds _ _, .list _ cs _ _, h => by
    simp only [eqv, Bool.and_eq_true, beq_iff_eq, allFound_iff] at h ⊢
    obtain ⟨-, ⟨-, hall⟩, hfound⟩ := h
    refine ⟨trivial, ⟨trivial, hall⟩, ?_⟩
    intro c hc
    obtain ⟨d, hd, hdc⟩ := hfound c hc
    exact ⟨c, hc, eqv_self_of_eqv d c hdc⟩
  | .str .., c, h => eqv_trans_of_scalar ((isScalar_of_eqv h).symm)
      (by rwa [← eqv_comm_of_scalar rfl]) h
  | .int .., c, h => eqv_trans_of_scalar ((isScalar_of_eqv h).symm)
      (by rwa [← eqv_comm_of_scalar rfl]) h
  | .float .., c, h => eqv_trans_of_scalar ((isScalar_of_eqv h).symm)
      (by rwa [← eqv_comm_of_scalar rfl]) h
termination_by d => sizeOf d
decreasing_by
  have := List.sizeOf_lt_of_mem hd
  simp only [Constraint.list.sizeOf_spec]
  omega

/-- Between lists of one length: if nothing is found twice, everything is found. -/
theorem found_back {α : Type} {R : α → α → Prop} (xs ys : List α) (hlen : ys.length = xs.length)
    (honce : xs.Pairwise fun c c' => ∀ d ∈ ys, R d c → ¬ R d c')
    (hfound : ∀ c ∈ xs, ∃ d ∈ ys, R d c) : ∀ d ∈ ys, ∃ c ∈ xs, R d c := by
  induction xs generalizing ys with
  | nil =>
    rw [List.length_nil, List.length_eq_zero_iff] at hlen
    simp [hlen]
  | cons c xs ih =>
    rw [List.pairwise_cons] at honce
    obtain ⟨d₀, hd₀, hR₀⟩ := hfound c (List.mem_cons_self ..)
    obtain ⟨pre, post, rfl⟩ := List.append_of_mem hd₀
    have hrest : ∀ d ∈ pre ++ post, ∃ c ∈ xs, R d c := by
      refine ih (pre ++ post) ?_ ?_ ?_
      · simp only [List.length_append, List.length_cons] at hlen ⊢
        omega
      · refine honce.2.imp fun h d hd => h d ?_
        simp only [List.mem_append, List.mem_cons] at hd ⊢
        exact hd.imp_right .inr
      · intro c' hc'
        obtain ⟨d, hd, hR⟩ := hfound c' (List.mem_cons_of_mem _ hc')
        have hne : d ≠ d₀ := by
          rintro rfl
          exact honce.1 c' hc' d hd₀ hR₀ hR
        simp only [List.mem_append, List.mem_cons] at hd ⊢
        exact ⟨d, hd.imp_right fun h => h.resolve_left hne, hR⟩
    intro d hd
    simp only [List.mem_append, List.mem_cons] at hd
    rcases hd with hd | rfl | hd
    · obtain ⟨c', hc', hR⟩ := hrest d (List.mem_append_left _ hd)
      exact ⟨c', List.mem_cons_of_mem _ hc', hR⟩
    · exact ⟨c, List.mem_cons_self .., hR₀⟩
    · obtain ⟨c', hc', hR⟩ := hrest d (List.mem_append_right _ hd)
      exact ⟨c', List.mem_cons_of_mem _ hc', hR⟩

theorem found_back_of_distinct {cs other : List Constraint} (hlen : other.length = cs.length)
    (hdistinct : distinctList cs = true)
    (hsymm : ∀ d ∈ other, ∀ c ∈ cs, eqv d c = true → eqv c d = true)
    (hfound : ∀ c ∈ cs, ∃ d ∈ other, eqv d c = true) : ∀ d ∈ other, ∃ c ∈ cs, eqv d c = true := by
  refine found_back cs other hlen ?_ hfound
  rw [distinctList_iff] at hdistinct
  refine hdistinct.2.imp_of_mem ?_
  intro c c' hc hc' hne d hd h h'
  -- both would be equal to `d`, and so to each other
  exact hne ⟨eqv_trans c d c' (hsymm d hd c hc h) h', eqv_trans c' d c (hsymm d hd c' hc' h') h⟩

theorem eqv_symm : (a b : Constraint) → eqv a b = true → aligned a b = true → distinct b = true →
    eqv b a = true
  | .str .., _, h, _, _ => by rwa [← eqv_comm_of_scalar rfl]
  | .int .., _, h, _, _ => by rwa [← eqv_comm_of_scalar rfl]
  | .float .., _, h, _, _ => by rwa [← eqv_comm_of_scalar rfl]
  | .list .., .str .., h, _, _ | .list .., .int .., h, _, _ | .list .., .float .., h, _, _ => by
    simp [eqv] at h
  | .list _ ds _ _, .list _ cs _ _, h, haligned, hdistinct => by
    simp only [eqv, Bool.and_eq_true, beq_iff_eq, allFound_iff] at h ⊢
    obtain ⟨rfl, ⟨rfl, hall⟩, hfound⟩ := h
    rw [aligned, Bool.and_eq_true, beq_iff_eq, alignedList_iff] at haligned
    rw [distinct] at hdistinct
    have hsymm : ∀ d ∈ ds, ∀ c ∈ cs, eqv d c = true → eqv c d = true := by
      intro d hd c hc hdc
      exact eqv_symm d c hdc (haligned.2 d hd c hc hdc).2 (distinct_of_mem hdistinct hc)
    refine ⟨rfl, ⟨rfl, hall⟩, ?_⟩
    intro d hd
    obtain ⟨c, hc, hdc⟩ := found_back_of_distinct haligned.1 hdistinct hsymm hfound d hd
    exact ⟨c, hc, hsymm d hd c hc hdc⟩
termination_by a => sizeOf a
decreasing_by
  have := List.sizeOf_lt_of_mem hd
  simp only [Constraint.list.sizeOf_spec]
  omega

theorem found_back_of_aligned {cs other : List Constraint} (hlen : other.length = cs.length)
    (hdistinct : distinctList cs = true)
    (haligned : ∀ d ∈ other, ∀ c ∈ cs, eqv d c = true → aligned d c = true)
    (hfound : ∀ c ∈ cs, ∃ d ∈ other, eqv d c = true) : ∀ d ∈ other, ∃ c ∈ cs, eqv d c = true := by
  refine found_back_of_distinct hlen hdistinct ?_ hfound
  intro d hd c hc hdc
  exact eqv_symm d c hdc (haligned d hd c hc hdc) (distinct_of_mem hdistinct hc)

/-! ## The same values -/

theorem all_eq_of_found {cs other : List Constraint} {φ : Constraint → Bool}
    (hfound : ∀ c ∈ cs, ∃ d ∈ other, eqv d c = true) (hback : ∀ d ∈ other, ∃ c ∈ cs, eqv d c = true)
    (hsame : ∀ d ∈ other, ∀ c ∈ cs, eqv d c = true → φ d = φ c) : other.all φ = cs.all φ := by
  rw [Bool.eq_iff_iff, List.all_eq_true, List.all_eq_true]
  constructor
  · intro h c hc
    obtain ⟨d, hd, hdc⟩ := hfound c hc
    rw [← hsame d hd c hc hdc]
    exact h d hd
  · intro h d hd
    obtain ⟨c, hc, hdc⟩ := hback d hd
    rw [hsame d hd c hc hdc]
    exact h c hc

theorem matchAll_eq_all (cs : List Constraint) (m : Map) :
    matchAll cs m = cs.all fun c => nestedOk c m := by
  rw [Bool.eq_iff_iff, matchAll_iff, List.all_eq_true]

theorem matchAll_congr {ds cs : List Constraint} (hlen : ds.length = cs.length)
    (haligned : alignedList ds cs = true) (hdistinct : distinctList cs = true)
    (hfound : ∀ c ∈ cs, ∃ d ∈ ds, eqv d c = true) (m : Map)
    (hsame : ∀ d ∈ ds, ∀ c ∈ cs, eqv d c = true → nestedOk d m = nestedOk c m) :
    matchAll ds m = matchAll cs m := by
  rw [alignedList_iff] at haligned
  have hback := found_back_of_aligned hlen hdistinct
    (fun d hd c hc hdc => (haligned d hd c hc hdc).2) hfound
  rw [matchAll_eq_all, matchAll_eq_all]
  exact all_eq_of_found hfound hback hsame

theorem nestedOk_congr_of_scalar {a b : Constraint} (ha : a.isScalar = true) (h : eqv a b = true)
    (hopt : a.optional = b.optional) (m : Map) : nestedOk a m = nestedOk b m := by
  cases a with
  | list => simp [isScalar] at ha
  | str at' x op opt =>
    cases b with
    | int | float | list => simp [eqv] at h
    | str =>
      simp only [eqv, Bool.and_eq_true, beq_iff_eq] at h
      obtain ⟨rfl, rfl, rfl⟩ := h
      obtain rfl := hopt
      rfl
  | int at' x op opt =>
    cases b with
    | str | float | list => simp [eqv] at h
    | int =>
      simp only [eqv, Bool.and_eq_true, beq_iff_eq] at h
      obtain ⟨rfl, rfl, rfl⟩ := h
      obtain rfl := hopt
      rfl
  | float at' x op opt =>
    cases b with
    | str | int | list => simp [eqv] at h
    | float =>
      simp only [eqv, Bool.and_eq_true, beq_iff_eq] at h
      obtain ⟨rfl, hx, rfl⟩ := h
      obtain rfl := hopt
      simp only [nestedOk, matchFloat_congr hx]
      rfl

theorem nestedOk_congr : (a b : Constraint) → (m : Map) → eqv a b = true → a.optional = b.optional →
    aligned a b = true → distinct b = true → nestedOk a m = nestedOk b m
  | .str .., _, m, h, hopt, _, _ => nestedOk_congr_of_scalar rfl h hopt m
  | .int .., _, m, h, hopt, _, _ => nestedOk_congr_of_scalar rfl h hopt m
  | .float .., _, m, h, hopt, _, _ => nestedOk_congr_of_scalar rfl h hopt m
  | .list .., .str .., _, h, _, _, _ | .list .., .int .., _, h, _, _, _
  | .list .., .float .., _, h, _, _, _ => by
    simp [eqv] at h
  | .list _ ds _ _, .list _ cs _ _, m, h, hopt, haligned, hdistinct => by
    simp only [eqv, Bool.and_eq_true, beq_iff_eq, allFound_iff] at h
    obtain ⟨rfl, ⟨rfl, -⟩, hfound⟩ := h
    obtain rfl := hopt
    rw [aligned, Bool.and_eq_true, beq_iff_eq] at haligned
    rw [distinct] at hdistinct
    have hsame : ∀ v, matchAll ds v = matchAll cs v := by
      intro v
      refine matchAll_congr haligned.1 haligned.2 hdistinct hfound v ?_
      intro d hd c hc hdc
      have hdc' := (alignedList_iff ds cs).mp haligned.2 d hd c hc hdc
      exact nestedOk_congr d c v hdc hdc'.1 hdc'.2 (distinct_of_mem hdistinct hc)
    simp only [nestedOk, hsame]
    rfl
termination_by a => sizeOf a
decreasing_by
  have := List.sizeOf_lt_of_mem hd
  simp only [Constraint.list.sizeOf_spec]
  omega

theorem acceptsMap_congr {a b : Constraint} (h : eqv a b = true) (haligned : aligned a b = true)
    (hdistinct : distinct b = true) (m : Map) : a.acceptsMap m = b.acceptsMap m := by
  cases a with
  | str | int | float => cases b <;> simp_all [eqv, acceptsMap]
  | list _ ds =>
    cases b with
    | str | int | float => simp [eqv] at h
    | list _ cs =>
      simp only [eqv, Bool.and_eq_true, beq_iff_eq, allFound_iff] at h
      obtain ⟨rfl, ⟨rfl, -⟩, hfound⟩ := h
      rw [aligned, Bool.and_eq_true, beq_iff_eq] at haligned
      rw [distinct] at hdistinct
      have hsame : matchAll ds m = matchAll cs m := by
        refine matchAll_congr haligned.1 haligned.2 hdistinct hfound m ?_
        intro d hd c hc hdc
        have hdc' := (alignedList_iff ds cs).mp haligned.2 d hd c hc hdc
        exact nestedOk_congr d c m hdc hdc'.1 hdc'.2 (distinct_of_mem hdistinct hc)
      rw [acceptsMap, acceptsMap, hsame]

/-- The flag of the outermost constraints does not matter to a value that is there. -/
theorem accepts_congr {a b : Constraint} (h : eqv a b = true) (haligned : aligned a b = true)
    (hdistinct : distinct b = true) (v : Variant) : a.accepts v = b.accepts v := by
  by_cases ha : a.isScalar = true
  · exact accepts_congr_of_scalar ha h v
  cases v with
  | map m => exact acceptsMap_congr h haligned hdistinct m
  | str | int | float | bin =>
    cases a <;> cases b <;> simp_all [isScalar, eqv, accepts, acceptsStr, acceptsInt, acceptsFloat]

/-! ## A constraint that another one hides -/

def nestedAttrs : Constraint → List String
  | .list _ cs _ _ => cs.map attr
  | _ => []

theorem exists_fresh (names : List String) : ∃ name, name ∉ names := by
  obtain ⟨name, hname⟩ := Infinite.exists_notMem_finset names.toFinset
  exact ⟨name, fun h => hname (List.mem_toFinset.mpr h)⟩

theorem eqv_longer {s : String} {cs : List Constraint} {op : Predicate} {opt : Bool}
    (c : Constraint) (hself : eqv (.list s cs op opt) (.list s cs op opt) = true) :
    eqv (.list s (c :: cs) op opt) (.list s cs op opt) = true := by
  simp only [eqv, Bool.and_eq_true, beq_iff_eq, allFound_iff] at hself ⊢
  refine ⟨hself.1, hself.2.1, ?_⟩
  intro x hx
  obtain ⟨d, hd, hdx⟩ := hself.2.2 x hx
  exact ⟨d, List.mem_cons_of_mem _ hd, hdx⟩

theorem attr_mem_of_eqv_longer {x : Constraint} {s : String} {cs : List Constraint} {op : Predicate}
    {opt : Bool} {c : Constraint} (h : eqv x (.list s (c :: cs) op opt) = true) :
    c.attr ∈ x.nestedAttrs := by
  cases x with
  | str | int | float => simp [eqv] at h
  | list _ xs =>
    simp only [eqv, Bool.and_eq_true, beq_iff_eq, allFound_iff] at h
    obtain ⟨d, hd, hdc⟩ := h.2.2 c (List.mem_cons_self ..)
    rw [← eqv_attr hdc]
    exact List.mem_map_of_mem hd

end Constraint

namespace Filter

/-- Every constraint compares equal to itself. NaN does not, and a list under another predicate than
`MAP_ALL` neither. -/
def reflexive (f : Filter) : Bool := f.constraints.all fun c => c.eqv c

def scalar (f : Filter) : Bool := f.constraints.all Constraint.isScalar

/-- No list, at any level, holds two constraints that compare equal both ways. -/
def distinct (f : Filter) : Bool :=
  Constraint.distinctList f.required && Constraint.distinctList f.optional

/-- Nested lists of the two filters that compare equal are equally long, and their constraints that
compare equal have the same flag. -/
def aligned (g f : Filter) : Bool :=
  (g.required.all fun d => f.required.all fun c => !d.eqv c || d.aligned c) &&
    g.optional.all fun d => f.optional.all fun c => !d.eqv c || d.aligned c

theorem aligned_iff (g f : Filter) :
    aligned g f = true ↔
      (∀ d ∈ g.required, ∀ c ∈ f.required, d.eqv c = true → d.aligned c = true) ∧
      ∀ d ∈ g.optional, ∀ c ∈ f.optional, d.eqv c = true → d.aligned c = true := by
  simp only [aligned, Bool.and_eq_true, List.all_eq_true, Bool.or_eq_true, Bool.not_eq_true']
  grind

theorem sameConstraints_iff (cs other : List Constraint) :
    sameConstraints cs other = true ↔
      cs.length = other.length ∧ ∀ c ∈ cs, ∃ d ∈ other, d.eqv c = true := by
  simp [sameConstraints]

theorem passes_congr {a b : Constraint} (h : a.eqv b = true) (haligned : a.aligned b = true)
    (hdistinct : b.distinct = true) (v : Variant) : passes a v = passes b v := by
  cases v with
  | bin => rfl
  | str x => exact Constraint.accepts_congr h haligned hdistinct (.str x)
  | int x => exact Constraint.accepts_congr h haligned hdistinct (.int x)
  | float x => exact Constraint.accepts_congr h haligned hdistinct (.float x)
  | map x => exact Constraint.accepts_congr h haligned hdistinct (.map x)

section lists

variable {cs other : List Constraint} (hdistinct : Constraint.distinctList cs = true)
  (haligned : ∀ d ∈ other, ∀ c ∈ cs, d.eqv c = true → d.aligned c = true)
  (hsame : sameConstraints cs other = true)
include hdistinct haligned hsame

theorem sameConstraints_symm : sameConstraints other cs = true := by
  rw [sameConstraints_iff] at hsame ⊢
  refine ⟨hsame.1.symm, ?_⟩
  intro d hd
  obtain ⟨c, hc, hdc⟩ := Constraint.found_back_of_aligned hsame.1.symm hdistinct haligned
    hsame.2 d hd
  have hc' := Constraint.distinct_of_mem hdistinct hc
  exact ⟨c, hc, Constraint.eqv_symm d c hdc (haligned d hd c hc hdc) hc'⟩

theorem all_passes_eq (p : Publication) (absent : Bool) :
    (other.all fun c => match p.getAttr c.attr with | some v => passes c v | none => absent) =
      cs.all fun c => match p.getAttr c.attr with | some v => passes c v | none => absent := by
  rw [sameConstraints_iff] at hsame
  have hback := Constraint.found_back_of_aligned hsame.1.symm hdistinct haligned hsame.2
  refine Constraint.all_eq_of_found hsame.2 hback ?_
  intro d hd c hc hdc
  have hc' := Constraint.distinct_of_mem hdistinct hc
  rw [Constraint.eqv_attr hdc]
  cases p.getAttr c.attr with
  | none => rfl
  | some v => exact passes_congr hdc (haligned d hd c hc hdc) hc' v

end lists

/-- `f`, as the router stores it, compares equal to `g`: a subscriber of `g` joins the subscription
of `f`. -/
def merges (f g : Filter) : Bool := InternalFilter.eqFilter ⟨f.required, f.optional⟩ g

/-- `g` would take `f` as well, and they match the same publications. -/
def MeansTheSame (f g : Filter) : Prop := merges g f = true ∧ ∀ p, f.matches p = g.matches p

theorem meansTheSame_of_merges {f g : Filter} (hdistinct : f.distinct = true)
    (haligned : aligned g f = true) (h : merges f g = true) : MeansTheSame f g := by
  unfold MeansTheSame
  unfold merges InternalFilter.eqFilter at h ⊢
  rw [aligned_iff] at haligned
  rw [distinct, Bool.and_eq_true] at hdistinct
  rw [Bool.and_eq_true] at h ⊢
  refine ⟨⟨sameConstraints_symm hdistinct.1 haligned.1 h.1, sameConstraints_symm hdistinct.2
    haligned.2 h.2⟩, ?_⟩
  intro p
  have hreq : g.checkRequired p = f.checkRequired p :=
    all_passes_eq hdistinct.1 haligned.1 h.1 p false
  have hopt : g.checkOptionals p = f.checkOptionals p :=
    all_passes_eq hdistinct.2 haligned.2 h.2 p true
  rw [Filter.matches, Filter.matches, hreq, hopt]

/-! ## Which filters are safe to store -/

theorem sameConstraints_of_reflexive {cs other : List Constraint} (hself : ∀ c ∈ cs, c.eqv c = true)
    (hlen : cs.length = other.length) (hrest : ∀ c ∈ cs, c ∈ other ∨ ∃ d ∈ other, d.eqv c = true) :
    sameConstraints cs other = true := by
  rw [sameConstraints_iff]
  refine ⟨hlen, ?_⟩
  intro c hc
  rcases hrest c hc with h | h
  · exact ⟨c, h, hself c hc⟩
  · exact h

section safe

variable {cs : List Constraint} (hself : ∀ c ∈ cs, c.eqv c = true)
  (hswap : ∀ other, other.map Constraint.optional = cs.map Constraint.optional →
    sameConstraints cs other = true → sameConstraints other cs = true)
include hself hswap

/-- A nested list finds a longer one, which has a constraint that is found nowhere. -/
theorem scalar_of_swap : ∀ c ∈ cs, c.isScalar = true := by
  intro c hc
  cases c with
  | str | int | float => rfl
  | list s xs op opt =>
    obtain ⟨name, hname⟩ := Constraint.exists_fresh (cs.flatMap Constraint.nestedAttrs)
    let d : Constraint := .list s (.int name 0 .EQ false :: xs) op opt
    have hd : d ∈ cs.map fun x => if x = .list s xs op opt then d else x :=
      List.mem_map.mpr ⟨_, hc, if_pos rfl⟩
    have hsame : sameConstraints cs (cs.map fun x => if x = .list s xs op opt then d else x) =
        true := by
      refine sameConstraints_of_reflexive hself (List.length_map ..).symm ?_
      intro x hx
      by_cases heq : x = .list s xs op opt
      · exact .inr ⟨d, hd, heq ▸ Constraint.eqv_longer _ (hself _ hc)⟩
      · exact .inl (List.mem_map.mpr ⟨x, hx, if_neg heq⟩)
    have hflags : (cs.map fun x => if x = .list s xs op opt then d else x).map Constraint.optional =
        cs.map Constraint.optional := by
      rw [List.map_map, List.map_inj_left]
      intro x _
      rw [Function.comp_apply]
      split
      · subst x
        rfl
      · rfl
    obtain ⟨x, hx, hxd⟩ := ((sameConstraints_iff ..).mp (hswap _ hflags hsame)).2 d hd
    exact absurd (List.mem_flatMap.mpr ⟨x, hx, Constraint.attr_mem_of_eqv_longer hxd⟩) hname

/-- Of two constraints that compare equal, one can stand for both, and any constraint can stand in
the place of the other. -/
theorem distinctList_of_swap : Constraint.distinctList cs = true := by
  rw [Constraint.distinctList_iff]
  constructor
  · intro c hc
    have hscalar := scalar_of_swap hself hswap c hc
    cases c with
    | str | int | float => rfl
    | list => simp [Constraint.isScalar] at hscalar
  · rw [List.pairwise_iff_getElem]
    intro i j hi hj hij hdup
    obtain ⟨name, hname⟩ := Constraint.exists_fresh (cs.map Constraint.attr)
    let d : Constraint := .int name 0 .EQ cs[j].optional
    have hkept : ∀ k (hk : k < cs.length), k ≠ j → cs[k] ∈ cs.set j d := by
      intro k hk hne
      refine List.mem_iff_getElem.mpr ⟨k, by simpa using hk, ?_⟩
      exact List.getElem_set_ne hne.symm _
    have hsame : sameConstraints cs (cs.set j d) = true := by
      refine sameConstraints_of_reflexive hself (List.length_set ..).symm ?_
      intro x hx
      obtain ⟨k, hk, rfl⟩ := List.getElem_of_mem hx
      by_cases hkj : k = j
      · subst hkj
        exact .inr ⟨cs[i], hkept i hi (by omega), hdup.1⟩
      · exact .inl (hkept k hk hkj)
    have hflags : (cs.set j d).map Constraint.optional = cs.map Constraint.optional := by
      have hj' : j < (cs.map Constraint.optional).length := by simpa using hj
      have hflag : d.optional = (cs.map Constraint.optional)[j] := by simp [d, Constraint.optional]
      rw [List.map_set, hflag]
      exact List.set_getElem_self _
    obtain ⟨x, hx, hxd⟩ := ((sameConstraints_iff ..).mp (hswap _ hflags hsame)).2 d
      (List.mem_set hj d)
    exact hname (List.mem_map.mpr ⟨x, hx, Constraint.eqv_attr hxd⟩)

end safe

theorem reflexive_of_merges {f g : Filter} (h : merges f g = true) : f.reflexive = true := by
  unfold merges InternalFilter.eqFilter at h
  rw [Bool.and_eq_true, sameConstraints_iff, sameConstraints_iff] at h
  unfold reflexive constraints
  rw [List.all_eq_true]
  intro c hc
  rcases List.mem_append.mp hc with hc | hc
  · obtain ⟨d, _, hdc⟩ := h.1.2 c hc
    exact Constraint.eqv_self_of_eqv d c hdc
  · obtain ⟨d, _, hdc⟩ := h.2.2 c hc
    exact Constraint.eqv_self_of_eqv d c hdc

theorem aligned_of_scalar {f : Filter} (h : f.scalar = true) (g : Filter) : aligned g f = true := by
  unfold scalar constraints at h
  rw [List.all_eq_true] at h
  rw [aligned_iff]
  constructor
  · intro d _ c hc _
    exact Constraint.aligned_of_isScalar (h c (List.mem_append_left _ hc)) d
  · intro d _ c hc _
    exact Constraint.aligned_of_isScalar (h c (List.mem_append_right _ hc)) d

theorem filter_optional_of_flags {cs other : List Constraint} {opt : Bool}
    (hcs : ∀ c ∈ cs, c.optional = opt)
    (hflags : other.map Constraint.optional = cs.map Constraint.optional) :
    ∀ c ∈ other, c.optional = opt := by
  intro c hc
  have hmem : c.optional ∈ cs.map Constraint.optional := hflags ▸ List.mem_map_of_mem hc
  obtain ⟨c', hc', heq⟩ := List.mem_map.mp hmem
  rw [← heq]
  exact hcs c' hc'

theorem ofConstraints_append {req opt : List Constraint} (hreq : ∀ c ∈ req, c.optional = false)
    (hopt : ∀ c ∈ opt, c.optional = true) : ofConstraints (req ++ opt) = ⟨req, opt⟩ := by
  unfold ofConstraints
  congr
  · rw [List.filter_append, List.filter_eq_self.mpr (by simpa using hreq),
      List.filter_eq_nil_iff.mpr (by simpa using hopt), List.append_nil]
  · rw [List.filter_append, List.filter_eq_nil_iff.mpr (by simpa using hreq),
      List.filter_eq_self.mpr hopt, List.nil_append]

theorem safe_of_meansTheSame {cs : List Constraint} (hself : (ofConstraints cs).reflexive = true)
    (h : ∀ ds, merges (ofConstraints cs) (ofConstraints ds) = true →
      MeansTheSame (ofConstraints cs) (ofConstraints ds)) :
    (ofConstraints cs).scalar = true ∧ (ofConstraints cs).distinct = true := by
  have hreq : ∀ c ∈ (ofConstraints cs).required, c.optional = false := by simp [ofConstraints]
  have hopt : ∀ c ∈ (ofConstraints cs).optional, c.optional = true := by simp [ofConstraints]
  generalize ofConstraints cs = f at hself h hreq hopt
  unfold reflexive constraints at hself
  rw [List.all_append, Bool.and_eq_true, List.all_eq_true, List.all_eq_true] at hself
  have hself' : sameConstraints f.required f.required = true ∧
      sameConstraints f.optional f.optional = true :=
    ⟨sameConstraints_of_reflexive hself.1 rfl fun c hc => .inl hc,
      sameConstraints_of_reflexive hself.2 rfl fun c hc => .inl hc⟩
  have hswap (req opt : List Constraint) (hr : ∀ c ∈ req, c.optional = false)
      (ho : ∀ c ∈ opt, c.optional = true) (hsame : sameConstraints f.required req = true ∧
        sameConstraints f.optional opt = true) :
      sameConstraints req f.required = true ∧ sameConstraints opt f.optional = true := by
    have hmeans := h (req ++ opt)
    rw [ofConstraints_append hr ho] at hmeans
    have hswapped := (hmeans (by simpa [merges, InternalFilter.eqFilter] using hsame)).1
    simpa [merges, InternalFilter.eqFilter] using hswapped
  have hfirst : ∀ other, other.map Constraint.optional = f.required.map Constraint.optional →
      sameConstraints f.required other = true → sameConstraints other f.required = true := by
    intro other hflags hsame
    exact (hswap other f.optional (filter_optional_of_flags hreq hflags) hopt ⟨hsame, hself'.2⟩).1
  have hsecond : ∀ other, other.map Constraint.optional = f.optional.map Constraint.optional →
      sameConstraints f.optional other = true → sameConstraints other f.optional = true := by
    intro other hflags hsame
    exact (hswap f.required other hreq (filter_optional_of_flags hopt hflags) ⟨hself'.1, hsame⟩).2
  unfold scalar distinct constraints
  rw [List.all_append, Bool.and_eq_true, Bool.and_eq_true, List.all_eq_true, List.all_eq_true]
  exact ⟨⟨scalar_of_swap hself.1 hfirst, scalar_of_swap hself.2 hsecond⟩,
    distinctList_of_swap hself.1 hfirst, distinctList_of_swap hself.2 hsecond⟩

theorem scalar_of_eqv_swap {b : Constraint} (hself : b.eqv b = true)
    (h : ∀ a : Constraint, a.eqv b = true → b.eqv a = true) : b.isScalar = true := by
  cases b with
  | str | int | float => rfl
  | list s cs op opt =>
    obtain ⟨name, hname⟩ := Constraint.exists_fresh (cs.map Constraint.attr)
    have hlonger := h _ (Constraint.eqv_longer (.int name 0 .EQ false) hself)
    exact absurd (Constraint.attr_mem_of_eqv_longer hlonger) hname

/-- Which stored filters are merged with filters of the same meaning only, and which pairs mean the
same when nested lists are among their operands. Then the same of constraints. -/
theorem equal_filters_match_alike (cs : List Constraint) (f g : Filter) (a b : Constraint) :
    ((∀ ds, merges (ofConstraints cs) (ofConstraints ds) = true →
        MeansTheSame (ofConstraints cs) (ofConstraints ds)) ↔
      (ofConstraints cs).reflexive = false ∨
        (ofConstraints cs).scalar = true ∧ (ofConstraints cs).distinct = true) ∧
    (f.distinct = true → aligned g f = true → merges f g = true → MeansTheSame f g) ∧
    ((∀ d : Constraint, d.eqv b = true → b.eqv d = true ∧ ∀ v, d.accepts v = b.accepts v) ↔
      b.eqv b = false ∨ b.isScalar = true) ∧
    (b.distinct = true → a.aligned b = true → a.eqv b = true →
      b.eqv a = true ∧ ∀ v, a.accepts v = b.accepts v) := by
  refine ⟨⟨?_, ?_⟩, meansTheSame_of_merges, ⟨?_, ?_⟩, ?_⟩
  · intro h
    rcases Bool.eq_false_or_eq_true (ofConstraints cs).reflexive with hself | hself
    · exact .inr (safe_of_meansTheSame hself h)
    · exact .inl hself
  · rintro (hself | ⟨hscalar, hdistinct⟩) ds hds
    · rw [reflexive_of_merges hds] at hself
      contradiction
    · exact meansTheSame_of_merges hdistinct (aligned_of_scalar hscalar _) hds
  · intro h
    rcases Bool.eq_false_or_eq_true (b.eqv b) with hself | hself
    · exact .inr (scalar_of_eqv_swap hself fun d hd => (h d hd).1)
    · exact .inl hself
  · rintro (hself | hscalar) d hd
    · rw [Constraint.eqv_self_of_eqv d b hd] at hself
      contradiction
    · have hd' : d.isScalar = true := by rwa [Constraint.isScalar_of_eqv hd]
      exact ⟨by rwa [← Constraint.eqv_comm_of_scalar hd'],
        Constraint.accepts_congr_of_scalar hd' hd⟩
  · intro hdistinct haligned h
    exact ⟨Constraint.eqv_symm a b h haligned hdistinct, Constraint.accepts_congr h haligned
      hdistinct⟩

/-- Nested constraints in another order. -/
theorem equal_filters_match_alike_reordered :
    MeansTheSame ⟨[.list "m" [.int "x" 1 .EQ false, .int "y" 2 .EQ true] .MAP_ALL false], []⟩
        ⟨[.list "m" [.int "y" 2 .EQ true, .int "x" 1 .EQ false] .MAP_ALL false], []⟩ ∧
      Constraint.accepts (.list "m" [.int "x" 1 .EQ false] .MAP_ALL false) (.map [("x", .int 1)]) =
        Constraint.accepts (.list "m" [.int "x" 1 .EQ false] .MAP_ALL true)
        (.map [("x", .int 1)]) :=
  have h := equal_filters_match_alike []
    ⟨[.list "m" [.int "x" 1 .EQ false, .int "y" 2 .EQ true] .MAP_ALL false], []⟩
    ⟨[.list "m" [.int "y" 2 .EQ true, .int "x" 1 .EQ false] .MAP_ALL false], []⟩
    (.list "m" [.int "x" 1 .EQ false] .MAP_ALL false)
      (.list "m" [.int "x" 1 .EQ false] .MAP_ALL true)
  ⟨h.2.1 (by decide) (by decide) (by decide), (h.2.2.2 (by decide) (by decide) (by decide)).2 _⟩

/-- Filters that compare equal and do not match alike: a constraint listed twice, a nested
constraint that only one of them has, and a nested flag. -/
theorem equal_filters_match_differently :
    (InternalFilter.eqFilter ⟨[.int "x" 1 .EQ false, .int "x" 1 .EQ false], []⟩
        ⟨[.int "x" 1 .EQ false, .int "y" 2 .EQ false], []⟩ = true ∧
      Filter.matches ⟨[.int "x" 1 .EQ false, .int "x" 1 .EQ false], []⟩
        (Publication.empty.setAttr "x" (.int 1)) = true ∧
      Filter.matches ⟨[.int "x" 1 .EQ false, .int "y" 2 .EQ false], []⟩
        (Publication.empty.setAttr "x" (.int 1)) = false) ∧
    (InternalFilter.eqFilter ⟨[.list "m" [] .MAP_ALL false], []⟩
        ⟨[.list "m" [.int "x" 1 .EQ false] .MAP_ALL false], []⟩ = true ∧
      Constraint.eqv (.list "m" [] .MAP_ALL false) (.list "m" [.int "x" 1 .EQ false] .MAP_ALL
        false) = false ∧
      Filter.matches ⟨[.list "m" [] .MAP_ALL false], []⟩ (Publication.empty.setAttr "m" (.map [])) =
        true ∧
      Filter.matches ⟨[.list "m" [.int "x" 1 .EQ false] .MAP_ALL false], []⟩
        (Publication.empty.setAttr "m" (.map [])) = false) ∧
    InternalFilter.eqFilter ⟨[.list "m" [.int "x" 1 .EQ true] .MAP_ALL false], []⟩
        ⟨[.list "m" [.int "x" 1 .EQ false] .MAP_ALL false], []⟩ = true ∧
      Filter.matches ⟨[.list "m" [.int "x" 1 .EQ true] .MAP_ALL false], []⟩
        (Publication.empty.setAttr "m" (.map [])) = true ∧
      Filter.matches ⟨[.list "m" [.int "x" 1 .EQ false] .MAP_ALL false], []⟩
        (Publication.empty.setAttr "m" (.map [])) = false := by
  decide

end Filter

end UActor
