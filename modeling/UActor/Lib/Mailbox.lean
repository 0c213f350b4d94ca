import Mathlib.Data.List.Basic

/-!
# Mailboxes

A queue whose owner takes what is in front, and can have the first message that it waits for moved
there. Messages get labels as they arrive, so that each of them can be told apart in the queue.
-/

namespace UActor

namespace Mailbox

variable {α : Type}

inductive Op (α : Type) where
  | front (a : α)
  | back (a : α)
  | take
  | pick (P : α → Bool)
  | edit (i : Nat) (a : α)
  | clear

def pickFirst (P : α → Bool) (q : List α) : List α :=
  match q.find? P with
  | some a => a :: q.eraseP P
  | none => q

def apply (q : List α) : Op α → List α
  | .front a => a :: q
  | .back a => q ++ [a]
  | .take => q.tail
  | .pick P => pickFirst P q
  | .edit i a => q.set i a
  | .clear => []

/-- The same with labels: what arrives gets the label `n`. -/
def label (n : Nat) (q : List (Nat × α)) : Op α → List (Nat × α)
  | .front a => (n, a) :: q
  | .back a => q ++ [(n, a)]
  | .take => q.tail
  | .pick P => pickFirst (fun x => P x.2) q
  | .edit i a => q.modify i fun x => (x.1, a)
  | .clear => []

theorem pickFirst_map {β : Type} (f : β → α) (P : α → Bool) (q : List β) :
    (pickFirst (fun x => P (f x)) q).map f = pickFirst P (q.map f) := by
  unfold pickFirst
  rw [List.find?_map, List.eraseP_map]
  have hcomp : (P ∘ f) = fun x => P (f x) := rfl
  rw [hcomp]
  cases q.find? fun x => P (f x) with
  | none => rfl
  | some a => rfl

theorem labels_modify (q : List (Nat × α)) (i : Nat) (a : α) :
    (q.modify i fun x => (x.1, a)).map Prod.fst = q.map Prod.fst := by
  induction q generalizing i with
  | nil => simp
  | cons x q ih =>
    cases i with
    | zero => simp
    | succ i => simp [ih]

theorem map_label (n : Nat) (q : List (Nat × α)) (op : Op α) :
    (label n q op).map Prod.snd = apply (q.map Prod.snd) op := by
  cases op with
  | front a => rfl
  | back a => simp [label, apply]
  | take => simp [label, apply]
  | pick P => exact pickFirst_map Prod.snd P q
  | edit i a =>
    simp only [label, apply]
    induction q generalizing i with
    | nil => simp
    | cons x q ih =>
      cases i with
      | zero => simp
      | succ i => simp [ih]
  | clear => rfl

theorem map_labels (n : Nat) (ops : List (Op α)) (q : List (Nat × α)) :
    (ops.foldl (label n) q).map Prod.snd = ops.foldl apply (q.map Prod.snd) := by
  induction ops generalizing q with
  | nil => rfl
  | cons op ops ih =>
    rw [List.foldl_cons, List.foldl_cons, ih, map_label]

theorem pickFirst_cases (P : α → Bool) (q : List α) :
    pickFirst P q = q ∨ ∃ before a after, q = before ++ a :: after ∧
      pickFirst P q = a :: (before ++ after) ∧
      P a = true ∧ ∀ x ∈ before, P x = false := by
  unfold pickFirst
  split
  · rename_i a hfind
    obtain ⟨hP, before, after, hq, hbefore⟩ := List.find?_eq_some_iff_append.mp hfind
    have hbefore : ∀ x ∈ before, P x = false := fun x hx => by simpa using hbefore x hx
    refine Or.inr ⟨before, a, after, hq, ?_, hP, hbefore⟩
    rw [hq, List.eraseP_append_right _ (fun x hx => by simp [hbefore x hx]),
      List.eraseP_cons_of_pos hP]
  · exact Or.inl rfl

theorem mem_pickFirst {P : α → Bool} {q : List α} {a : α} : a ∈ pickFirst P q ↔ a ∈ q := by
  rcases pickFirst_cases P q with h | ⟨before, b, after, hq, h, -⟩
  · rw [h]
  · rw [h, hq]
    simp only [List.mem_cons, List.mem_append]
    exact or_left_comm

/-! ## What comes and what goes -/

/-- The labels that an operation gives out. -/
def brings (n : Nat) : Op α → List Nat
  | .front _ | .back _ => [n]
  | .take | .pick _ | .edit .. | .clear => []

/-- What an operation puts into the queue. -/
def enters : Op α → List α
  | .front a | .back a => [a]
  | .take | .pick _ | .edit .. | .clear => []

/-- The labels that leave the queue with an operation. -/
def drops (q : List (Nat × α)) : Op α → List Nat
  | .take => (q.take 1).map Prod.fst
  | .clear => q.map Prod.fst
  | .front _ | .back _ | .pick _ | .edit .. => []

def dropsAll (n : Nat) : List (Nat × α) → List (Op α) → List Nat
  | _, [] => []
  | q, op :: ops => drops q op ++ dropsAll n (label n q op) ops

section

variable {n : Nat} {q : List (Nat × α)}

theorem dropsAll_append (ops ops' : List (Op α)) :
    dropsAll n q (ops ++ ops') = dropsAll n q ops ++ dropsAll n (ops.foldl (label n) q) ops' := by
  induction ops generalizing q with
  | nil => rfl
  | cons op ops ih =>
    rw [List.cons_append, dropsAll, ih, dropsAll, List.foldl_cons, List.append_assoc]

theorem dropsAll_eq_nil {ops : List (Op α)}
    (h : ∀ op ∈ ops, ∀ q : List (Nat × α), drops q op = []) :
    dropsAll n q ops = [] := by
  induction ops generalizing q with
  | nil => rfl
  | cons op ops ih =>
    rw [List.forall_mem_cons] at h
    rw [dropsAll, h.1, ih h.2, List.append_nil]

theorem perm_pickFirst (P : α → Bool) (q : List α) : (pickFirst P q).Perm q := by
  rcases pickFirst_cases P q with h | ⟨before, a, after, hq, h, -⟩
  · rw [h]
  · rw [h, hq]
    exact List.perm_middle.symm

/-- What was there and what comes is what goes and what is there then. -/
theorem labels_balance (op : Op α) :
    (drops q op ++ (label n q op).map Prod.fst).Perm (q.map Prod.fst ++ brings n op) := by
  cases op with
  | front a => exact (List.perm_append_singleton n (q.map Prod.fst)).symm
  | back a => simp [label, drops, brings]
  | take => cases q <;> simp [label, drops, brings]
  | pick P =>
    rw [drops, brings, List.nil_append, List.append_nil]
    exact (perm_pickFirst _ q).map Prod.fst
  | edit i a =>
    rw [drops, brings, label, labels_modify, List.nil_append, List.append_nil]
  | clear => simp [label, drops, brings]

theorem labels_balance_all (ops : List (Op α)) :
    (dropsAll n q ops ++ (ops.foldl (label n) q).map Prod.fst).Perm (q.map Prod.fst ++
      ops.flatMap (brings n)) := by
  induction ops generalizing q with
  | nil => simp [dropsAll]
  | cons op ops ih =>
    calc
      _ = drops q op ++ (dropsAll n (label n q op) ops ++ (ops.foldl (label n) (label n q op)).map
        Prod.fst) := by
        rw [dropsAll, List.foldl_cons, List.append_assoc]
      List.Perm _ (drops q op ++ ((label n q op).map Prod.fst ++ ops.flatMap (brings n))) :=
        ih.append_left _
      _ = drops q op ++ (label n q op).map Prod.fst ++ ops.flatMap (brings n) :=
        (List.append_assoc ..).symm
      List.Perm _ (q.map Prod.fst ++ brings n op ++ ops.flatMap (brings n)) :=
        (labels_balance op).append_right _
      _ = _ := by rw [List.flatMap_cons, List.append_assoc]

end

/-! ## The order of two labels -/

/-- No message `n` stands before a message `m`. -/
def Ahead (m n : Nat) (q : List (Nat × α)) : Prop := q.Pairwise fun x y => ¬ (x.1 = n ∧ y.1 = m)

/-- The message `n` can be picked although `m` is there: it is one of those waited for, and `m` is
not. -/
def PicksOver (m n : Nat) (q : List (Nat × α)) : Op α → Prop
  | .pick P => ∃ x y, (m, x) ∈ q ∧ (n, y) ∈ q ∧ P x = false ∧ P y = true
  | .front _ | .back _ | .take | .edit .. | .clear => False

section

variable {m n k : Nat} {q : List (Nat × α)}

theorem mem_labels_label {op : Op α} {l : Nat} (h : l ∈ (label k q op).map Prod.fst) :
    l = k ∨ l ∈ q.map Prod.fst := by
  cases op with
  | front a => simpa [label] using h
  | back a =>
    rcases List.mem_append.mp (by simpa [label] using h : l ∈ q.map Prod.fst ++ [k]) with h | h
    · exact Or.inr h
    · exact Or.inl (List.mem_singleton.mp h)
  | take =>
    obtain ⟨x, hx, rfl⟩ := List.mem_map.mp h
    exact Or.inr (List.mem_map_of_mem (List.mem_of_mem_tail hx))
  | pick P =>
    obtain ⟨x, hx, rfl⟩ := List.mem_map.mp h
    exact Or.inr (List.mem_map_of_mem (mem_pickFirst.mp hx))
  | edit i a =>
    rw [label, labels_modify] at h
    exact Or.inr h
  | clear => cases h

theorem mem_labels_labels {ops : List (Op α)} {l : Nat}
    (h : l ∈ (ops.foldl (label k) q).map Prod.fst) :
    l = k ∨ l ∈ q.map Prod.fst := by
  induction ops generalizing q with
  | nil => exact Or.inr h
  | cons op ops ih =>
    rcases ih h with hl | hl
    · exact Or.inl hl
    · exact mem_labels_label hl

theorem ahead_of_back (hm : m ≠ n) (hnew : n ∉ q.map Prod.fst) {ops : List (Op α)}
    (hback : ∀ op ∈ ops, ∃ a, op = .back a) :
    Ahead m n (ops.foldl (label n) q) := by
  suffices hall : ∀ q : List (Nat × α), Ahead m n q → Ahead m n (ops.foldl (label n) q) by
    refine hall q (List.pairwise_of_forall_mem_list fun x hx y _ => ?_)
    rintro ⟨rfl, -⟩
    exact hnew (List.mem_map_of_mem hx)
  intro q hq
  induction ops generalizing q with
  | nil => exact hq
  | cons op ops ih =>
    obtain ⟨a, rfl⟩ := hback op List.mem_cons_self
    refine ih (fun op hop => hback op (List.mem_cons_of_mem _ hop)) _
      (List.pairwise_append.mpr ⟨hq, by simp, ?_⟩)
    intro x _ y hy
    rw [List.mem_singleton.mp hy]
    rintro ⟨-, rfl⟩
    exact hm rfl

theorem ahead_iff_labels : Ahead m n q ↔ (q.map Prod.fst).Pairwise fun x y =>
    ¬ (x = n ∧ y = m) := by
  rw [List.pairwise_map, Ahead]

/-- The order of two messages that have arrived changes only when the later one is picked. -/
theorem ahead_label (h : Ahead m n q) (hm : k ≠ m) (hn : k ≠ n) {op : Op α}
    (hpick : ¬ PicksOver m n q op) :
    Ahead m n (label k q op) := by
  cases op with
  | front a => exact List.pairwise_cons.mpr ⟨fun y _ hy => hn hy.1, h⟩
  | back a =>
    refine List.pairwise_append.mpr ⟨h, by simp, fun x _ y hy hxy => ?_⟩
    rw [List.mem_singleton.mp hy] at hxy
    exact hm hxy.2
  | take => exact h.tail
  | pick P =>
    rcases pickFirst_cases (fun x : Nat × α => P x.2) q with heq | ⟨before, a, after, hq, heq, hP,
        hbefore⟩
    · rw [label, heq]
      exact h
    · rw [label, heq]
      rw [hq] at h
      have hrest : (before ++ after).Pairwise fun x y : Nat × α => ¬ (x.1 = n ∧ y.1 = m) :=
        h.sublist (List.Sublist.append_left (List.sublist_cons_self a after) before)
      refine List.pairwise_cons.mpr ⟨fun y hy hay => ?_, hrest⟩
      rcases List.mem_append.mp hy with hy | hy
      · refine hpick ⟨y.2, a.2, ?_, ?_, hbefore y hy, hP⟩
        · rw [hq, ← hay.2]
          exact List.mem_append_left _ hy
        · rw [hq, ← hay.1]
          exact List.mem_append_right _ List.mem_cons_self
      · exact (List.pairwise_cons.mp (List.pairwise_append.mp h).2.1).1 y hy hay
  | edit i a =>
    rw [ahead_iff_labels] at h ⊢
    rw [label, labels_modify]
    exact h
  | clear => exact List.Pairwise.nil

theorem ahead_labels (h : Ahead m n q) (hm : k ≠ m) (hn : k ≠ n) {ops : List (Op α)}
    (hpick : ∀ P, .pick P ∉ ops) :
    Ahead m n (ops.foldl (label k) q) := by
  induction ops generalizing q with
  | nil => exact h
  | cons op ops ih =>
    refine ih (ahead_label h hm hn fun hover => ?_) fun P hP => hpick P (List.mem_cons_of_mem _ hP)
    cases op with
    | pick P => exact hpick P List.mem_cons_self
    | front | back | take | edit | clear => exact hover

theorem not_ahead_cons {a : α} {rest : List (Nat × α)} (hm : m ∈ rest.map Prod.fst) :
    ¬ Ahead m n ((n, a) :: rest) := by
  intro h
  obtain ⟨x, hx, hxm⟩ := List.mem_map.mp hm
  exact (List.pairwise_cons.mp h).1 x hx ⟨rfl, hxm⟩

end

end Mailbox

end UActor
