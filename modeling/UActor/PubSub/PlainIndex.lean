import UActor.PubSub.IndexProofs

/-!
# The index as a plain list

An index stands for the list of what was inserted and not removed: the constraint, the subscription
that lists it and its optional flag. The sorted vector, the scan and the removal of a whole item are
only faster.
-/

namespace UActor

namespace ConstraintIndex

open Buckets (keys members)

/-- A constraint that a subscription lists, and its optional flag. -/
abbrev Listing := Constraint × Nat × Bool

/-- The pair of a constraint and a subscription. Equal constraints are one. -/
def Listing.isPair (c : Constraint) (sub : Nat) (t : Listing) : Bool := t.1.eqv c && t.2.1 == sub

/-- The pair is in the list. -/
def Present (ts : List Listing) (c : Constraint) (sub : Nat) : Prop :=
  ∃ t ∈ ts, Listing.isPair c sub t = true

inductive Call where
  | insert (c : Constraint) (sub : Nat) (opt : Bool)
  | remove (c : Constraint) (sub : Nat)

namespace Call

def constraint : Call → Constraint
  | .insert c _ _ | .remove c _ => c

def run (ix : ConstraintIndex) : Call → ConstraintIndex
  | .insert c sub opt => (ix.insert c sub opt).1
  | .remove c sub => (ix.remove c sub).1

/-- The call on the plain list. -/
def onList (ts : List Listing) : Call → List Listing
  | .insert c sub opt => ts ++ [(c, sub, opt)]
  | .remove c sub => ts.eraseP (Listing.isPair c sub)

/-- A pair is inserted while it is absent and removed while it is present. -/
def InTurn (ts : List Listing) : Call → Prop
  | .insert c sub _ => ¬ Present ts c sub
  | .remove c sub => Present ts c sub

/-- A call for the index of the attribute `a`, after calls that leave the list `ts`. -/
structure Legal (a : String) (ts : List Listing) (call : Call) : Prop where
  attr : call.constraint.attr = a
  scalar : call.constraint.isScalar = true
  /-- An operand that is not a number is not equal to itself. -/
  reflexive : call.constraint.eqv call.constraint = true
  inTurn : call.InTurn ts

end Call

/-- Each call is legal after those before it. -/
def Legal (a : String) : List Listing → List Call → Prop
  | _, [] => True
  | ts, call :: calls => call.Legal a ts ∧ Legal a (call.onList ts) calls

instance decidablePresent (ts : List Listing) (c : Constraint) (sub : Nat) :
    Decidable (Present ts c sub) :=
  inferInstanceAs (Decidable (∃ t ∈ ts, Listing.isPair c sub t = true))

instance decidableInTurn (ts : List Listing) : (call : Call) → Decidable (call.InTurn ts)
  | .insert c sub _ => inferInstanceAs (Decidable (¬ Present ts c sub))
  | .remove c sub => inferInstanceAs (Decidable (Present ts c sub))

theorem Call.legal_iff {a : String} {ts : List Listing} {call : Call} : call.Legal a ts ↔
    call.constraint.attr = a ∧ call.constraint.isScalar = true ∧
    call.constraint.eqv call.constraint = true ∧
      call.InTurn ts :=
  ⟨fun ⟨hattr, hscalar, hreflexive, hturn⟩ => ⟨hattr, hscalar, hreflexive, hturn⟩,
    fun ⟨hattr, hscalar, hreflexive, hturn⟩ => ⟨hattr, hscalar, hreflexive, hturn⟩⟩

instance decidableCallLegal (a : String) (ts : List Listing) (call : Call) :
    Decidable (call.Legal a ts) :=
  decidable_of_iff' _ Call.legal_iff

instance decidableLegal (a : String) :
    (ts : List Listing) → (calls : List Call) → Decidable (Legal a ts calls)
  | _, [] => isTrue trivial
  | ts, call :: calls =>
    have := decidableLegal a (call.onList ts) calls
    inferInstanceAs (Decidable (call.Legal a ts ∧ Legal a (call.onList ts) calls))

/-! ## One call -/

/-- The answer depends on what constraints accept, not on which of two equal ones is asked. -/
def Respects (p : Constraint → Bool) : Prop :=
  ∀ d e : Constraint, d.isScalar = true → d.eqv e = true → p d = p e

/-- The listings of the constraints that pass. -/
def passing (p : Constraint → Bool) (ts : List Listing) : List (Nat × Bool) :=
  (ts.filter fun t => p t.1).map Prod.snd

structure Mirrors (a : String) (ix : ConstraintIndex) (ts : List Listing) : Prop where
  sound : Sound a ix
  plain : ∀ d ∈ keys ix.items, d.isScalar = true ∧ d.eqv d = true
  hits : ∀ p, Respects p → (members p ix.items).Perm (passing p ts)

variable {a : String} {ix : ConstraintIndex} {ts : List Listing} {c e : Constraint} {sub : Nat}
  {opt : Bool}

theorem respects_eqv (c : Constraint) : Respects fun d => d.eqv c := by
  intro d e hd hde
  have he : e.isScalar = true := (Constraint.isScalar_of_eqv hde).symm.trans hd
  rw [Bool.eq_iff_iff]
  constructor
  · intro hdc
    rw [Constraint.eqv_comm_of_scalar hd] at hde
    exact Constraint.eqv_trans_of_scalar he hde hdc
  · exact Constraint.eqv_trans_of_scalar hd hde

theorem respects_accepts (v : Variant) : Respects fun d => d.accepts v :=
  fun _ _ hd hde => Constraint.accepts_congr_of_scalar hd hde v

theorem Respects.eq_of_eqv {p : Constraint → Bool} (hp : Respects p) (hc : c.isScalar = true)
    (h : e.eqv c = true) : p e = p c :=
  hp e c ((Constraint.isScalar_of_eqv h).trans hc) h

theorem mirrors_empty (a : String) : Mirrors a empty [] :=
  ⟨sound_empty a, by simp [empty, items, keys], fun _ _ => List.Perm.refl _⟩

theorem Mirrors.wf (h : Mirrors a ix ts) : Buckets.Wf ix.items :=
  h.sound.wf fun d hd => (h.plain d hd).2

theorem mem_passing {p : Constraint → Bool} {m : Nat × Bool} :
    m ∈ passing p ts ↔ ∃ t ∈ ts, p t.1 = true ∧ t.2 = m := by
  simp only [passing, List.mem_map, List.mem_filter, and_assoc]

theorem Mirrors.filed_iff (h : Mirrors a ix ts) {b : Bool} :
    (∃ d, d.eqv c = true ∧ Buckets.Filed ix.items d sub b) ↔ ∃ t ∈ ts, t.1.eqv c = true ∧
    t.2 = (sub, b) := by
  rw [← mem_passing (p := fun d => d.eqv c), ← (h.hits _ (respects_eqv c)).mem_iff,
    Buckets.mem_members]

theorem passing_append (p : Constraint → Bool) (ts ts' : List Listing) :
    passing p (ts ++ ts') = passing p ts ++ passing p ts' := by
  unfold passing
  rw [List.filter_append, List.map_append]

theorem passing_singleton (p : Constraint → Bool) (t : Listing) :
    passing p [t] = if p t.1 = true then [t.2] else [] := by
  unfold passing
  rw [List.filter_cons]
  split
  · rfl
  · rfl

theorem Mirrors.insert (h : Mirrors a ix ts) (hcall : (Call.insert c sub opt).Legal a ts) :
    Mirrors a (ix.insert c sub opt).1 (ts ++ [(c, sub, opt)]) := by
  obtain ⟨hinserted, hsound⟩ := insert_spec h.sound hcall.attr sub opt
  refine ⟨hsound, ?_, ?_⟩
  · intro d hd
    rcases hinserted.mem_keys hd with hd | rfl
    · exact h.plain d hd
    · exact ⟨hcall.scalar, hcall.reflexive⟩
  · intro p hp
    have hnot : ∀ d b, d.eqv c = true → ¬ Buckets.Filed ix.items d sub b := by
      intro d b hd hfiled
      obtain ⟨t, ht, htc, hpair⟩ := h.filed_iff.mp ⟨d, hd, hfiled⟩
      exact hcall.inTurn ⟨t, ht, by simp [Listing.isPair, htc, hpair]⟩
    have hperm := (hinserted.toInsert hcall.reflexive hnot).members_perm p
    rw [hp.eq_of_eqv hcall.scalar (hinserted.stored hcall.reflexive).1] at hperm
    rw [passing_append, passing_singleton]
    exact hperm.trans ((h.hits p hp).append_right _)

theorem Mirrors.remove (h : Mirrors a ix ts) (hcall : (Call.remove c sub).Legal a ts) :
    Mirrors a (ix.remove c sub).1 (ts.eraseP (Listing.isPair c sub)) := by
  have hattr : c.attr = a := hcall.attr
  have hscalar : c.isScalar = true := hcall.scalar
  obtain ⟨hremoved, hsound⟩ := remove_spec h.sound hattr sub
  obtain ⟨t₀, ht₀, hpair₀⟩ : Present ts c sub := hcall.inTurn
  obtain ⟨t, before, after, -, hpair, hts, herase⟩ := List.exists_of_eraseP ht₀ hpair₀
  obtain ⟨d, s, b⟩ := t
  obtain ⟨hdc, rfl⟩ : d.eqv c = true ∧ s = sub := by simpa [Listing.isPair] using hpair
  -- the pair that leaves the plain list is filed under a stored constraint
  obtain ⟨e, hec, hfiled⟩ := h.filed_iff.mpr ⟨(d, s, b), by rw [hts]; simp, hdc, rfl⟩
  have hanswers : ∀ e' ∈ keys ix.items, e'.eqv c = true → e'.eqv e = true := by
    intro e' he' he'c
    have hsymm : c.eqv e = true := by rw [Constraint.eqv_comm_of_scalar hscalar]; exact hec
    exact Constraint.eqv_trans_of_scalar (h.plain e' he').1 he'c hsymm
  have hremove := hremoved.toRemove_of_eqv hec h.sound.items_apart hanswers hfiled
  refine ⟨hsound, fun d hd => h.plain d (hremoved.keys_sublist.subset hd), ?_⟩
  intro p hp
  have hlast : (passing p ts).Perm
      (passing p (before ++ after) ++ if p e = true then [(s, b)] else []) := by
    rw [hts, passing_append, ← List.singleton_append, passing_append, passing_append,
      passing_singleton, hp.eq_of_eqv hscalar hec, ← hp.eq_of_eqv hscalar hdc, List.append_assoc]
    exact List.perm_append_comm.append_left _
  rw [herase]
  exact (List.perm_append_right_iff _).mp
    (((hremove.members_perm h.wf hfiled p).symm.trans (h.hits p hp)).trans hlast)

theorem Mirrors.call {call : Call} (h : Mirrors a ix ts) (hcall : call.Legal a ts) :
    Mirrors a (call.run ix) (call.onList ts) := by
  cases call with
  | insert c sub opt => exact h.insert hcall
  | remove c sub => exact h.remove hcall

theorem Mirrors.calls {calls : List Call} (h : Mirrors a ix ts) (hcalls : Legal a ts calls) :
    Mirrors a (calls.foldl Call.run ix) (calls.foldl Call.onList ts) := by
  induction calls generalizing ix ts with
  | nil => exact h
  | cons call calls ih => exact ih (h.call hcalls.1) hcalls.2

/-! ## All calls -/

/-- The index answers as the plain list would. -/
structure Refines (a : String) (ix : ConstraintIndex) (ts : List Listing) : Prop where
  strings : ∀ d ∈ keys ix.string_equal, d.stringEqual? = some d.operandStr
  sorted : (keys ix.string_equal).Pairwise fun d e => d.operandStr < e.operandStr
  apart : (keys ix.items).Pairwise fun d e => d.eqv e = false ∧ e.eqv d = false
  filled : ∀ item ∈ ix.items, item.2 ≠ []
  emptied : ∀ c sub, (Call.remove c sub).Legal a ts →
    ((ix.remove c sub).2 = true ↔ (Call.remove c sub).onList ts = [])
  counts : ∀ (v : Variant) (counter : Counter) (sub : Nat), (ix.check v counter).counted sub =
    ⟨(counter.counted sub).required + ts.countP fun t => t.1.accepts v && t.2 == (sub, false),
      (counter.counted sub).optional + ts.countP fun t => t.1.accepts v && t.2 == (sub, true)⟩

theorem Mirrors.items_eq_nil (h : Mirrors a ix ts) : ix.items = [] ↔ ts = [] := by
  have hperm := h.hits (fun _ => true) fun _ _ _ _ => rfl
  have hpassing : passing (fun _ => true) ts = ts.map Prod.snd := by simp [passing]
  rw [hpassing] at hperm
  constructor
  · intro hnil
    rw [hnil] at hperm
    simpa [members] using hperm.symm.eq_nil
  · rintro rfl
    have hnone : members (fun _ => true) ix.items = [] := hperm.eq_nil
    cases hitems : ix.items with
    | nil => rfl
    | cons item rest =>
      have hitem : item.2 ≠ [] :=
        h.sound.filled.nonempty item (by rw [hitems]; exact List.mem_cons_self)
      rw [hitems, Buckets.members_cons] at hnone
      exact absurd (List.append_eq_nil_iff.mp hnone).1 (by simpa using hitem)

theorem count_passing (p : Constraint → Bool) (ts : List Listing) (m : Nat × Bool) :
    (passing p ts).count m = ts.countP fun t => p t.1 && t.2 == m := by
  unfold passing
  rw [List.count, List.countP_map, List.countP_filter]
  congr 1
  funext t
  exact Bool.and_comm _ _

theorem Mirrors.refines (h : Mirrors a ix ts) : Refines a ix ts where
  strings d hd := by
    obtain ⟨x, opt, rfl⟩ := h.sound.strings.strings d hd
    rfl
  sorted := h.sound.strings.sorted
  apart := by
    refine h.sound.items_apart.imp_of_mem fun {d e} hd he hapart => ⟨hapart, ?_⟩
    rw [Constraint.eqv_comm_of_scalar (h.plain e he).1]
    exact hapart
  filled := h.sound.filled.nonempty
  emptied c sub hcall := by
    rw [remove_flag]
    exact (h.call hcall).items_eq_nil
  counts v counter sub := by
    have hperm := h.hits _ (respects_accepts v)
    rw [check_eq h.sound, Counter.counted_foldl_bump, hperm.count_eq, hperm.count_eq, count_passing,
      count_passing]

/-- After any legal calls, the index of an attribute is as good as the plain list. -/
theorem refines_plain_list (calls : List Call) (hcalls : Legal a [] calls) :
    Refines a (calls.foldl Call.run empty) (calls.foldl Call.onList []) :=
  ((mirrors_empty a).calls hcalls).refines

/-- Two subscriptions list one string, and the first one a float besides. -/
def sharedCalls : List Call :=
  [.insert (.str "x" "a" .EQ false) 1 false, .insert (.str "x" "a" .EQ true) 2 true,
    .insert (.float "x" ⟨0x3F800000⟩ .GE false) 1 false, .remove (.str "x" "a" .EQ false) 1]

theorem legal_sharedCalls : Legal "x" [] sharedCalls := by decide

theorem refines_plain_list_shared :
    Refines "x" ⟨[(.str "x" "a" .EQ false, [(2, true)])],
      [(.float "x" ⟨0x3F800000⟩ .GE false, [(1, false)])]⟩ [(.str "x" "a" .EQ true, 2, true),
      (.float "x" ⟨0x3F800000⟩ .GE false, 1, false)] :=
  refines_plain_list sharedCalls legal_sharedCalls

end ConstraintIndex

end UActor
