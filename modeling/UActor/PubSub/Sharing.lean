import UActor.Lib.Handles
import UActor.PubSub.Publication

/-!
# Shared attributes

The copy and move operations of `Publication`, `set_attr` and `erase_attr`. An object is a handle to
its map: `attributes`, and the flag `_shallow_copy`. A nested map belongs to the map that holds it.
-/

namespace UActor

open Handles

abbrev Objects := Heap Map

/-- The calls on publication objects. A constructor adds an object behind the others. -/
inductive ObjectOp where
  | construct (attributes : Map)
  | copyConstruct (old : Nat)
  | copyAssign (self old : Nat)
  | moveConstruct (old : Nat)
  | moveAssign (self old : Nat)
  | setAttr (self : Nat) (name : String) (value : Variant)
  | eraseAttr (self : Nat) (name : String)

/-- No binary value comes in. -/
def ObjectOp.plain : ObjectOp → Bool
  | .construct attributes => Map.plain attributes
  | .setAttr _ _ value => value.plain
  | _ => true

namespace Objects

def construct (s : Objects) (attributes : Map) : Objects :=
  (s.alloc attributes).push ⟨some s.cells.length, false⟩

/-- The object at `old` and its map. A copy of an object that was moved from reads a null
pointer. -/
def source (s : Objects) (old : Nat) : Option (Nat × Map) :=
  s.handles[old]?.bind fun x => x.ref.bind fun r => s.cells[r]?.map fun m => (r, m)

/-- The two branches of the copy operations: the objects and the handle of the copy. -/
def copyOf (s : Objects) (old : Nat) : Option (Objects × Handle) :=
  (s.source old).map fun (r, m) =>
    if m.hasMapAttrs then (s.alloc (Map.copy m), ⟨some s.cells.length, false⟩)
    else (s.seat old ⟨some r, true⟩, ⟨some r, true⟩)

def copyConstruct (s : Objects) (old : Nat) : Option Objects :=
  (s.copyOf old).map fun (s, copy) => s.push copy

def copyAssign (s : Objects) (self old : Nat) : Option Objects :=
  s.handles[self]?.bind fun _ =>
    if self = old then some s else (s.copyOf old).map fun (s, copy) => s.seat self copy

/-- The object that was moved from keeps its flag. -/
def moveConstruct (s : Objects) (old : Nat) : Option Objects :=
  s.handles[old]?.map fun x => (s.seat old { x with ref := none }).push x

def moveAssign (s : Objects) (self old : Nat) : Option Objects :=
  s.handles[self]?.bind fun _ => s.handles[old]?.map fun x =>
    if self = old then s else (s.seat old { x with ref := none }).seat self x

/-- A write to the attributes through the object: nothing happens to one that was moved from, and a
shallow copy gets a map of its own. -/
def update (s : Objects) (self : Nat) (f : Map → Map) : Option Objects :=
  s.handles[self]?.bind fun x =>
    match x.ref with
    | none => some s
    | some r => s.cells[r]?.map fun m =>
      if x.shallow then (s.alloc (f (Map.copy m))).seat self ⟨some s.cells.length, false⟩
      else s.write r (f m)

def step (s : Objects) : ObjectOp → Option Objects
  | .construct attributes => some (s.construct attributes)
  | .copyConstruct old => s.copyConstruct old
  | .copyAssign self old => s.copyAssign self old
  | .moveConstruct old => s.moveConstruct old
  | .moveAssign self old => s.moveAssign self old
  | .setAttr self name value => s.update self fun m => m.setAttr name value
  | .eraseAttr self name => s.update self fun m => m.eraseAttr name

def init : Objects := ⟨[], []⟩

def run (ops : List ObjectOp) : Option Objects := ops.foldlM step init

end Objects

/-! ## Value semantics -/

/-- Every object has its own attributes, or was moved from. -/
abbrev Values := List (Option Map)

namespace Values

def update (vs : Values) (self : Nat) (f : Map → Map) : Option Values :=
  vs[self]?.map fun v => vs.set self (v.map f)

def step (vs : Values) : ObjectOp → Option Values
  | .construct attributes => some (vs ++ [some attributes])
  | .copyConstruct old => vs[old]?.join.map fun m => vs ++ [some m]
  | .copyAssign self old =>
    vs[self]?.bind fun _ =>
      if self = old then some vs else vs[old]?.join.map fun m => vs.set self (some m)
  | .moveConstruct old => vs[old]?.map fun v => vs.set old none ++ [v]
  | .moveAssign self old =>
    vs[self]?.bind fun _ => vs[old]?.map fun v =>
      if self = old then vs else (vs.set old none).set self v
  | .setAttr self name value => vs.update self fun m => m.setAttr name value
  | .eraseAttr self name => vs.update self fun m => m.eraseAttr name

def run (ops : List ObjectOp) : Option Values := ops.foldlM step []

end Values

/-! ## Each call -/

namespace Objects

/-- Handles that share a map are flagged, and no map has a binary value. -/
structure Inv (s : Objects) : Prop where
  sound : Sound s
  plain : ∀ m ∈ s.cells, Map.plain m = true

/-- The new objects stand for the new values. -/
def Stands (s : Option Objects) (vs : Option Values) : Prop :=
  match s with
  | some s => s.Inv ∧ vs = some s.view
  | none => vs = none

theorem Inv.alloc {s : Objects} (h : s.Inv) {m : Map} (hm : Map.plain m = true) :
    Inv (s.alloc m) where
  sound := h.sound.alloc m
  plain m' hm' := by
    rcases List.mem_append.mp hm' with hm' | hm'
    · exact h.plain m' hm'
    · rw [List.mem_singleton.mp hm']
      exact hm

theorem read_alloc (s : Objects) (m : Map) (flag : Bool) :
    (s.alloc m).read ⟨some s.cells.length, flag⟩ = some m := by
  simp [Heap.read, Heap.alloc]

theorem stands_construct {s : Objects} (h : s.Inv) {m : Map} (hm : Map.plain m = true) :
    Stands (some (s.construct m)) (Values.step s.view (.construct m)) := by
  have hall := h.alloc hm
  refine ⟨⟨hall.sound.push (h.sound.joins_alloc m _ false), hall.plain⟩, ?_⟩
  rw [construct, view_push, h.sound.view_alloc, read_alloc]
  rfl

theorem source_eq_some {s : Objects} {old r : Nat} {m : Map} :
    s.source old = some (r, m) ↔
      ∃ x, s.handles[old]? = some x ∧ x.ref = some r ∧ s.cells[r]? = some m := by
  simp only [source, Option.bind_eq_some_iff, Option.map_eq_some_iff]
  constructor
  · rintro ⟨x, hx, r', hr, m', hm, heq⟩
    obtain ⟨rfl, rfl⟩ := Prod.mk.inj heq
    exact ⟨x, hx, hr, hm⟩
  · rintro ⟨x, hx, hr, hm⟩
    exact ⟨x, hx, r, hr, m, hm, rfl⟩

theorem join_view (s : Objects) (old : Nat) : s.view[old]?.join = (s.source old).map Prod.snd := by
  rw [getElem?_view, source]
  cases s.handles[old]? with
  | none => rfl
  | some x =>
    cases hr : x.ref with
    | none => simp [Heap.read, hr]
    | some r =>
      cases hm : s.cells[r]? with
      | none => simp [Heap.read, hr, hm]
      | some m => simp [Heap.read, hr, hm]

theorem copyOf_spec {s : Objects} (h : s.Inv) {old : Nat} {s' : Objects} {copy : Handle}
    (hcopy : s.copyOf old = some (s', copy)) :
    s'.Inv ∧ s'.view = s.view ∧ s'.read copy = s.view[old]?.join ∧ ∀ k, Joins s' k copy := by
  obtain ⟨⟨r, m⟩, hsource, heq⟩ := Option.map_eq_some_iff.mp hcopy
  obtain ⟨x, hx, hr, hm⟩ := source_eq_some.mp hsource
  have hjoin : s.view[old]?.join = some m := by rw [join_view, hsource]; rfl
  dsimp only at heq
  split at heq
  · obtain ⟨rfl, rfl⟩ := Prod.mk.inj heq
    have hplain := h.plain m (List.mem_of_getElem? hm)
    rw [Map.copy_of_plain m hplain]
    exact ⟨h.alloc hplain, h.sound.view_alloc m, by rw [hjoin, read_alloc],
      fun k => h.sound.joins_alloc m k false⟩
  · obtain ⟨rfl, rfl⟩ := Prod.mk.inj heq
    have hflag : ({ x with shallow := true } : Handle) = ⟨some r, true⟩ := by rw [← hr]
    have hsound := h.sound.seat (h.sound.joins_flag hx)
    have hlt := (List.getElem?_eq_some_iff.mp hx).1
    have hread : s.read ⟨some r, true⟩ = some m := by simp [Heap.read, hm]
    rw [hflag] at hsound
    refine ⟨⟨hsound, h.plain⟩, view_seat_same hx ?_, by rw [hjoin]; exact hread,
      fun k => hsound.joins_shared (i := old) ?_ rfl k⟩
    · simp only [Heap.read, hr]
    · simp [Heap.seat, hlt]

theorem copyOf_eq_none {s : Objects} {old : Nat} (hcopy : s.copyOf old = none) :
    s.view[old]?.join = none := by
  rw [join_view, Option.map_eq_none_iff.mp hcopy]
  rfl

theorem join_of_copyOf {s s' : Objects} {old : Nat} {copy : Handle}
    (hcopy : s.copyOf old = some (s', copy)) :
    ∃ m, s.view[old]?.join = some m := by
  obtain ⟨e, hsource, -⟩ := Option.map_eq_some_iff.mp hcopy
  exact ⟨e.2, by rw [join_view, hsource]; rfl⟩

theorem stands_copyConstruct {s : Objects} (h : s.Inv) (old : Nat) :
    Stands (s.copyConstruct old) (Values.step s.view (.copyConstruct old)) := by
  unfold copyConstruct Values.step
  cases hcopy : s.copyOf old with
  | none =>
    simp only [copyOf_eq_none hcopy]
    rfl
  | some e =>
    obtain ⟨s', copy⟩ := e
    obtain ⟨hinv, hview, hread, hjoins⟩ := copyOf_spec h hcopy
    obtain ⟨m, hm⟩ := join_of_copyOf hcopy
    refine ⟨⟨hinv.sound.push (hjoins _), hinv.plain⟩, ?_⟩
    simp only [hm, Option.map_some, view_push, hview, hread]

theorem getElem?_view_isSome {s : Objects} {i : Nat} {x : Handle} (hx : s.handles[i]? = some x) :
    s.view[i]? = some (s.read x) := by
  rw [getElem?_view, hx]
  rfl

theorem getElem?_view_none {s : Objects} {i : Nat} (hx : s.handles[i]? = none) :
    s.view[i]? = none := by
  rw [getElem?_view, hx]
  rfl

theorem stands_copyAssign {s : Objects} (h : s.Inv) (self old : Nat) :
    Stands (s.copyAssign self old) (Values.step s.view (.copyAssign self old)) := by
  unfold copyAssign Values.step
  cases hself : s.handles[self]? with
  | none =>
    simp only [getElem?_view_none hself]
    rfl
  | some x =>
    simp only [getElem?_view_isSome hself, Option.bind_some]
    split
    · exact ⟨h, rfl⟩
    · cases hcopy : s.copyOf old with
      | none =>
        simp only [copyOf_eq_none hcopy]
        rfl
      | some e =>
        obtain ⟨s', copy⟩ := e
        obtain ⟨hinv, hview, hread, hjoins⟩ := copyOf_spec h hcopy
        obtain ⟨m, hm⟩ := join_of_copyOf hcopy
        refine ⟨⟨hinv.sound.seat (hjoins _), hinv.plain⟩, ?_⟩
        simp only [hm, Option.map_some, view_seat, hview, hread]

theorem moved_spec {s : Objects} (h : s.Inv) {old : Nat} {x : Handle}
    (hx : s.handles[old]? = some x) :
    Inv (s.seat old { x with ref := none }) ∧
      (s.seat old { x with ref := none }).view = s.view.set old none ∧
      ∀ k, Joins (s.seat old { x with ref := none }) k x := by
  refine ⟨⟨h.sound.seat (joins_none s old x.shallow), h.plain⟩, by rw [view_seat]; rfl, ?_⟩
  intro k r hr
  refine ⟨h.sound.bound x (List.mem_of_getElem? hx) r hr, ?_⟩
  intro j y hj hy hyr
  simp only [Heap.seat, List.getElem?_set] at hy
  split at hy
  · split at hy
    · rw [← Option.some.inj hy] at hyr
      simp at hyr
    · simp at hy
  · rename_i hne
    exact ⟨h.sound.flagged old j x y r hne hx hy hr hyr, h.sound.flagged j old y x r (Ne.symm hne)
      hy hx hyr hr⟩

theorem stands_moveConstruct {s : Objects} (h : s.Inv) (old : Nat) :
    Stands (s.moveConstruct old) (Values.step s.view (.moveConstruct old)) := by
  unfold moveConstruct Values.step
  cases hx : s.handles[old]? with
  | none =>
    simp only [getElem?_view_none hx]
    rfl
  | some x =>
    obtain ⟨hinv, hview, hjoins⟩ := moved_spec h hx
    refine ⟨⟨hinv.sound.push (hjoins _), hinv.plain⟩, ?_⟩
    simp only [getElem?_view_isSome hx, Option.map_some, view_push, hview]
    rfl

theorem stands_moveAssign {s : Objects} (h : s.Inv) (self old : Nat) :
    Stands (s.moveAssign self old) (Values.step s.view (.moveAssign self old)) := by
  unfold moveAssign Values.step
  cases hself : s.handles[self]? with
  | none =>
    simp only [getElem?_view_none hself]
    rfl
  | some y =>
    cases hx : s.handles[old]? with
    | none =>
      simp only [getElem?_view_isSome hself, getElem?_view_none hx]
      rfl
    | some x =>
      simp only [getElem?_view_isSome hself, getElem?_view_isSome hx, Option.bind_some,
        Option.map_some]
      split
      · exact ⟨h, rfl⟩
      · obtain ⟨hinv, hview, hjoins⟩ := moved_spec h hx
        refine ⟨⟨hinv.sound.seat (hjoins _), hinv.plain⟩, ?_⟩
        rw [view_seat, hview]
        rfl

theorem stands_update {s : Objects} (h : s.Inv) (self : Nat) {f : Map → Map}
    (hf : ∀ m, Map.plain m = true → Map.plain (f m) = true) :
    Stands (s.update self f) (Values.update s.view self f) := by
  unfold update Values.update
  cases hx : s.handles[self]? with
  | none =>
    simp only [getElem?_view_none hx]
    rfl
  | some x =>
    simp only [getElem?_view_isSome hx, Option.bind_some, Option.map_some]
    cases hr : x.ref with
    | none =>
      have hread : s.read x = none := by simp [Heap.read, hr]
      refine ⟨h, ?_⟩
      rw [hread, Option.map_none, ← hread, view_set_read hx]
    | some r =>
      have hlt := h.sound.bound x (List.mem_of_getElem? hx) r hr
      have hm : s.cells[r]? = some s.cells[r] := List.getElem?_eq_getElem hlt
      have hplain := h.plain _ (List.mem_of_getElem? hm)
      have hread : s.read x = some s.cells[r] := by simp [Heap.read, hr, hm]
      simp only [hm, Option.map_some, hread]
      split
      · rw [Map.copy_of_plain _ hplain]
        have hinv := h.alloc (hf _ hplain)
        refine ⟨⟨hinv.sound.seat (h.sound.joins_alloc _ self false), hinv.plain⟩, ?_⟩
        rw [view_seat, read_alloc, h.sound.view_alloc]
      · rename_i hflag
        refine ⟨⟨h.sound.write r _, ?_⟩, ?_⟩
        · intro m hm
          rcases List.mem_or_eq_of_mem_set hm with hm | rfl
          · exact h.plain m hm
          · exact hf _ hplain
        · rw [h.sound.view_write hx hr (by simpa using hflag)]

theorem plain_setAttr {m : Map} (hm : Map.plain m = true) (name : String) {v : Variant}
    (hv : v.plain = true) :
    Map.plain (m.setAttr name v) = true := by
  rw [Map.plain_iff] at hm ⊢
  intro e he
  rcases Assoc.mem_put he with he | rfl
  · exact hm e he
  · exact hv

theorem plain_eraseAttr {m : Map} (hm : Map.plain m = true) (name : String) :
    Map.plain (m.eraseAttr name) = true := by
  rw [Map.plain_iff] at hm ⊢
  intro e he
  exact hm e (List.mem_of_mem_filter he)

/-! ## Every run -/

theorem stands_step {s : Objects} (h : s.Inv) {op : ObjectOp} (hop : op.plain = true) :
    Stands (s.step op) (Values.step s.view op) := by
  cases op with
  | construct attributes => exact stands_construct h hop
  | copyConstruct old => exact stands_copyConstruct h old
  | copyAssign self old => exact stands_copyAssign h self old
  | moveConstruct old => exact stands_moveConstruct h old
  | moveAssign self old => exact stands_moveAssign h self old
  | setAttr self name value => exact stands_update h self fun m hm => plain_setAttr hm name hop
  | eraseAttr self name => exact stands_update h self fun m hm => plain_eraseAttr hm name

theorem stands_run {ops : List ObjectOp} (hops : ∀ op ∈ ops, op.plain = true) :
    Stands (run ops) (Values.run ops) := by
  unfold run Values.run
  induction ops using List.reverseRecOn with
  | nil => exact ⟨⟨sound_nil, nofun⟩, rfl⟩
  | append_singleton ops op ih =>
    have ih := ih fun op hop => hops op (List.mem_append_left _ hop)
    rw [Runs.foldlM_snoc, Runs.foldlM_snoc]
    cases hs : ops.foldlM step init with
    | none =>
      rw [hs] at ih
      rw [ih]
      rfl
    | some s =>
      rw [hs] at ih
      obtain ⟨hinv, hvalues⟩ := ih
      rw [hvalues]
      exact stands_step hinv (hops op (List.mem_append_right _ List.mem_cons_self))

/-- Each object shows what it would show if every copy were a deep one. -/
theorem copy_on_write_invisible (ops : List ObjectOp) (hops : ∀ op ∈ ops, op.plain = true) :
    (run ops).map Heap.view = Values.run ops := by
  have h := stands_run hops
  cases hs : run ops with
  | none =>
    rw [hs] at h
    exact h.symm
  | some s =>
    rw [hs] at h
    exact h.2.symm

/-- A publication, two copies of it, and a write to each of two of the three. -/
def sharedOps : List ObjectOp :=
  [.construct [("type", .str "ping")], .copyConstruct 0, .moveConstruct 1, .copyConstruct 0,
    .setAttr 2 "seq" (.int 1), .setAttr 0 "inner" (.map [("a", .int 2)]), .eraseAttr 0 "type"]

theorem copy_on_write_invisible_shared :
    (run sharedOps).map Heap.view = Values.run sharedOps ∧ (run sharedOps).isSome = true :=
  ⟨copy_on_write_invisible sharedOps (by decide), by decide⟩

end Objects

end UActor
