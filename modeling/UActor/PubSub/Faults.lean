import UActor.Lib.Runs
import UActor.PubSub.FilterMap

/-!
# Filters that cannot be read

What `from_publication_map` does with maps that describe no filter. It looks at the flag of a
constraint before it looks whether there is one.
-/

namespace UActor

/-- A call reads an optional that holds nothing, or it throws. -/
inductive Fault where
  | absent
  | exception
deriving DecidableEq, Repr

namespace Fault

variable {α : Type}

/-- `*value`. -/
def deref : Option α → Except Fault α
  | some a => .ok a
  | none => .error .absent

/-- A result of a call that throws instead. -/
def orThrow : Option α → Except Fault α
  | some a => .ok a
  | none => .error .exception

@[simp] theorem deref_absent {o : Option α} : deref o = .error .absent ↔ o = none := by
  cases o <;> simp [deref]

@[simp] theorem orThrow_absent {o : Option α} :
    orThrow o ≠ .error .absent := by cases o <;> simp [orThrow]

@[simp] theorem toOption_deref (o : Option α) : (deref o).toOption = o := by cases o <;> rfl

@[simp] theorem toOption_orThrow (o : Option α) : (orThrow o).toOption = o := by cases o <;> rfl

variable {β σ : Type}

@[simp] theorem toOption_bind (x : Except Fault α) (f : α → Except Fault β) :
    (x.bind f).toOption = x.toOption.bind fun a => (f a).toOption := by
  cases x <;> rfl

@[simp] theorem toOption_map (x : Except Fault α) (f : α → β) :
    (x.map f).toOption = x.toOption.map f := by
  cases x <;> rfl

theorem toOption_mapM (f : α → Except Fault β) (l : List α) :
    (l.mapM f).toOption = l.mapM fun a => (f a).toOption := by
  induction l with
  | nil => rfl
  | cons a l ih =>
    rw [List.mapM_cons, List.mapM_cons, ← ih]
    cases f a with
    | error e => rfl
    | ok b => cases l.mapM f <;> rfl

theorem toOption_foldlM (f : σ → α → Except Fault σ) (init : σ) (l : List α) :
    (l.foldlM f init).toOption = l.foldlM (fun s a => (f s a).toOption) init := by
  induction l generalizing init with
  | nil => rfl
  | cons a l ih =>
    rw [List.foldlM_cons, List.foldlM_cons]
    cases f init a with
    | error e => rfl
    | ok s => exact ih s

theorem orThrow_map_ok (o : Option α) (g : α → β) :
    (∃ b, orThrow (o.map g) = .ok b) ↔ ∃ a, o = some a := by
  cases o <;> simp [orThrow]

theorem bind_ok {x : Except Fault α} {g : α → Except Fault β} {b : β} :
    x.bind g = .ok b ↔ ∃ a, x = .ok a ∧ g a = .ok b := by
  cases x <;> simp [Except.bind]

theorem map_ok {x : Except Fault α} {g : α → β} {b : β} :
    x.map g = .ok b ↔ ∃ a, x = .ok a ∧ g a = b := by
  cases x <;> simp [Except.map]

theorem mapM_ok (g : α → Except Fault β) (l : List α) :
    (∃ bs, l.mapM g = .ok bs) ↔ ∀ a ∈ l, ∃ b, g a = .ok b := by
  induction l with
  | nil => exact iff_of_true ⟨[], rfl⟩ (by simp)
  | cons a l ih =>
    rw [List.forall_mem_cons, ← ih, List.mapM_cons]
    cases g a with
    | error e => simp [bind, Except.bind]
    | ok b => cases l.mapM g <;> simp [bind, Except.bind, pure, Except.pure]

theorem deref_ok {o : Option α} {a : α} : deref o = .ok a ↔ o = some a := by
  cases o <;> simp [deref]

end Fault

namespace Filter

open Fault

/-! ## Reading -/

/-- Here and below `absent` is the result `std::nullopt`. -/
def readItem (read : String → Map → Except Fault Constraint) (attr : String) (item : Map) :
    Except Fault (List Constraint) :=
  if item.hasAttr "_m" then
    (List.range (item.length - 1)).mapM fun i => (deref (item.getNestedComponent (toString i))).bind
      (read attr)
  else (read attr item).map fun c => [c]

def readEntries (read : String → Map → Except Fault Constraint) :
    List (String × Variant) → Except Fault (List Constraint)
  | [] => .ok []
  | (attr, .map item) :: entries =>
    (readItem read attr item).bind fun cs => (readEntries read entries).map fun cs' => cs ++ cs'
  | _ :: _ => .error .absent

/-- `Filter::parse_constraint_from_map`, with the exceptions of the constructors told apart. -/
def readConstraintFromMap (order : MapOrder) : Nat → String → Map → Except Fault Constraint
  | 0, _, _ => .error .absent
  | depth + 1, key, item =>
    let pred := match item.getStrAttr "operator" with
      | some raw_pred => Predicate.fromString raw_pred
      | none => some .EQ
    let optional := match item.getIntAttr "optional" with
      | some raw_optional => raw_optional == 1
      | none => false
    (deref pred).bind fun pred =>
      match item.getAttr "operand" with
      | some (.str operand) => orThrow (Constraint.ofStr key operand pred optional)
      | some (.int operand) => orThrow (Constraint.ofInt key operand pred optional)
      | some (.float operand) => orThrow (Constraint.ofFloat key operand pred optional)
      | some (.map operand) =>
        (readEntries (readConstraintFromMap order depth) (order.visit operand)).bind
          fun constraints =>
          orThrow (Constraint.ofList key constraints pred optional)
      | some (.bin _) | none => .error .absent

/-- The descriptions of constraints that the loops of `from_publication_map` come to. -/
def descriptions (entries : List (String × Variant)) : List (String × Map) :=
  entries.flatMap fun
    | (attr, .map item) =>
      if Map.hasAttr item "_m" then
        (List.range (item.length - 1)).filterMap fun i =>
          (Map.getNestedComponent item (toString i)).map fun m => (attr, m)
      else [(attr, item)]
    | _ => []

/-- `Filter::from_publication_map`. A description that gives no constraint is asked for its flag all
the same. -/
def readPublicationMap (order : MapOrder) (m : Map) : Except Fault Filter :=
  (descriptions (order.visit m)).foldlM (fun f d =>
    (readConstraintFromMap order (Map.depth m) d.1 d.2).map (addParsed f)) ⟨[], []⟩

/-! ## Against `fromPublicationMap` -/

section

variable {read : String → Map → Except Fault Constraint} {parse : String → Map → Option Constraint}
  (h : ∀ attr item, (read attr item).toOption = parse attr item)

include h

theorem readItem_toOption (attr : String) (item : Map) :
    (readItem read attr item).toOption = parseItem parse attr item := by
  unfold readItem parseItem
  split
  · rw [toOption_mapM]
    simp only [toOption_bind, toOption_deref, h]
  · rw [toOption_map, h]

theorem readEntries_toOption (entries : List (String × Variant)) :
    (readEntries read entries).toOption = parseEntries parse entries := by
  induction entries with
  | nil => rfl
  | cons e entries ih =>
    obtain ⟨attr, v⟩ := e
    cases v with
    | map item =>
      unfold readEntries parseEntries
      simp only [toOption_bind, toOption_map, readItem_toOption h, ih]
    | str | int | float | bin => rfl

end

theorem readConstraintFromMap_toOption (order : MapOrder) (depth : Nat) (key : String)
    (item : Map) :
    (readConstraintFromMap order depth key item).toOption = parseConstraintFromMap order depth key
      item := by
  induction depth generalizing key item with
  | zero => rfl
  | succ depth ih =>
    unfold readConstraintFromMap parseConstraintFromMap
    dsimp only
    rw [toOption_bind, toOption_deref]
    congr 1
    funext pred
    cases item.getAttr "operand" with
    | none => rfl
    | some v =>
      cases v with
      | str | int | float => exact toOption_orThrow _
      | map operand =>
        refine (toOption_bind _ _).trans ?_
        rw [readEntries_toOption ih]
        exact congrArg (Option.bind _) (funext fun constraints => toOption_orThrow _)
      | bin => rfl

theorem foldlM_descriptions (parse : String → Map → Option Constraint)
    (entries : List (String × Variant)) (f : Filter) :
    (descriptions entries).foldlM (fun f d => (parse d.1 d.2).map (addParsed f)) f =
      entries.foldlM (addEntry parse) f := by
  induction entries generalizing f with
  | nil => rfl
  | cons e entries ih =>
    have hcons : descriptions (e :: entries) = descriptions [e] ++ descriptions entries := by
      simp [descriptions]
    have hfirst : (descriptions [e]).foldlM (fun f d => (parse d.1 d.2).map (addParsed f)) f =
        addEntry parse f e := by
      obtain ⟨attr, v⟩ := e
      cases v with
      | str | int | float | bin => rfl
      | map item =>
        unfold descriptions addEntry
        rw [List.flatMap_cons, List.flatMap_nil, List.append_nil]
        dsimp only
        split
        · rw [List.foldlM_filterMap]
          congr 1
          funext f i
          cases Map.getNestedComponent item (toString i) <;> rfl
        · simp [List.foldlM]
    rw [hcons, List.foldlM_append, List.foldlM_cons, hfirst]
    congr 1
    funext f'
    exact ih f'

/-- What can be read is read alike. -/
theorem readPublicationMap_toOption (order : MapOrder) (m : Map) :
    (readPublicationMap order m).toOption = fromPublicationMap order m := by
  unfold readPublicationMap fromPublicationMap
  rw [toOption_foldlM]
  simp only [toOption_map, readConstraintFromMap_toOption]
  exact foldlM_descriptions _ _ _

/-! ## Descriptions that give no constraint -/

/-- Every description that the loops come to gives a constraint or throws. -/
def Described (order : MapOrder) (m : Map) : Prop :=
  ∀ pre d post, descriptions (order.visit m) = pre ++ d :: post →
    (∀ x ∈ pre, ∃ c, readConstraintFromMap order (Map.depth m) x.1 x.2 = .ok c) →
    readConstraintFromMap order (Map.depth m) d.1 d.2 ≠ .error .absent

theorem foldlM_map_ok {α β σ : Type} {f : α → Except Fault β} {g : σ → β → σ} {l : List α}
    {init : σ} :
    (∃ s, l.foldlM (fun s a => (f a).map (g s)) init = .ok s) ↔ ∀ a ∈ l, ∃ b, f a = .ok b := by
  induction l generalizing init with
  | nil => exact iff_of_true ⟨init, rfl⟩ (by simp)
  | cons a l ih =>
    rw [List.foldlM_cons, List.forall_mem_cons]
    cases f a with
    | error e => simp [Except.map, bind, Except.bind]
    | ok b => exact ih.trans (by simp)

theorem readPublicationMap_absent (order : MapOrder) (m : Map) :
    readPublicationMap order m = .error .absent ↔ ¬ Described order m := by
  unfold readPublicationMap Described
  rw [Runs.foldlM_error_iff]
  have hmap : ∀ (f : Filter) (x : Except Fault Constraint), x.map (addParsed f) = .error .absent ↔
    x = .error .absent := by
    intro f x
    cases x <;> simp [Except.map]
  constructor
  · rintro ⟨pre, d, post, f, heq, hpre, hd⟩ hall
    exact hall pre d post heq (foldlM_map_ok.mp ⟨f, hpre⟩) ((hmap f _).mp hd)
  · intro hnot
    by_contra hnone
    refine hnot fun pre d post heq hpre hd => hnone ?_
    obtain ⟨f, hf⟩ := foldlM_map_ok.mpr hpre
    exact ⟨pre, d, post, f, heq, hf, (hmap f _).mpr hd⟩

end Filter

end UActor
