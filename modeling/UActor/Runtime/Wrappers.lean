import UActor.PubSub.Sharing

/-!
# Publications in the script runtimes

`lua_publication_wrapper.cpp` and `v8/publication_wrapper.cpp`, over the objects that
`publish_internal` and the executor hand to the actors.
-/

namespace UActor

open Handles

inductive ScriptRuntime where
  | lua
  | v8
deriving DecidableEq, Repr

/-- What a script does to its publication. A value is given as the runtime converts it: `none`
stands for `nil` in Lua. -/
inductive ScriptOp where
  | luaSet (name : String) (value : Option Variant)
  | v8Set (name : String) (value : Variant)
  | v8Del (name : String)

def ScriptOp.runtime : ScriptOp → ScriptRuntime
  | .luaSet _ _ => .lua
  | .v8Set _ _ => .v8
  | .v8Del _ => .v8

namespace Objects

/-! ## The wrappers -/

/-- A write through `root_handle` or `root_ptr`: the flag is not asked. -/
def writeRoot (s : Objects) (self : Nat) (f : Map → Map) : Option Objects :=
  (s.source self).map fun (r, m) => s.write r (f m)

def scriptStep (self : Nat) (s : Objects) : ScriptOp → Option Objects
  | .luaSet name (some value) => s.writeRoot self fun m => m.setAttr name value
  | .luaSet name none => s.writeRoot self fun m => m.eraseAttr name
  | .v8Set name value => s.writeRoot self fun m => m.setAttr name value
  | .v8Del name => s.update self fun m => m.eraseAttr name

def scriptRun (s : Objects) (self : Nat) (ops : List ScriptOp) : Option Objects :=
  ops.foldlM (scriptStep self) s

/-! ## The objects of the recipients -/

/-- The end of `publish_internal`: a copy for each receiver but the last one. -/
def fanOut (s : Objects) (obj : Nat) : Nat → Option (Objects × List Nat)
  | 0 => some (s, [])
  | 1 => (s.moveConstruct obj).map fun s' => (s', [s.handles.length])
  | n + 2 => (s.copyConstruct obj).bind fun s' =>
    (fanOut s' obj (n + 1)).map fun (s'', rest) => (s'', s.handles.length :: rest)

/-- The loop of the executor over the receivers of a subscription. An actor that is gone is not
counted down, so that no object is moved then. -/
def localFanOut (obj : Nat) : Objects → Nat → List Bool → Option (Objects × List Nat)
  | s, _, [] => some (s, [])
  | s, receiver_count, false :: rest => localFanOut obj s receiver_count rest
  | s, receiver_count, true :: rest =>
    (if receiver_count = 1 then s.moveConstruct obj else s.copyConstruct obj).bind fun s' =>
      (localFanOut obj s' (receiver_count - 1) rest).map fun (s'', more) =>
        (s'', s.handles.length :: more)

/-- Each executor hands out the object that it received. -/
def localFanOuts : Objects → List (Nat × List Bool) → Option (Objects × List Nat)
  | s, [] => some (s, [])
  | s, (obj, actors) :: rest =>
    (localFanOut obj s actors.length actors).bind fun (s', first) =>
      (localFanOuts s' rest).map fun (s'', more) => (s'', first ++ more)

/-- The publication goes to the executors and then to their actors, those that are still there. -/
def deliver (s : Objects) (obj : Nat) (executors : List (List Bool)) :
    Option (Objects × List Nat) :=
  (s.fanOut obj executors.length).bind fun (s', objs) => s'.localFanOuts (objs.zip executors)

/-- Nothing that one of the actors does through the wrappers of a runtime shows in the publication
of another one. -/
def Isolated (runtime : ScriptRuntime) (s : Objects) (recipients : List Nat) : Prop :=
  ∀ i ∈ recipients, ∀ j ∈ recipients, i ≠ j → ∀ ops :
    List ScriptOp, (∀ op ∈ ops, op.runtime = runtime) →
    ∀ s', s.scriptRun i ops = some s' → s'.view[j]? = s.view[j]?

/-! ## Copies and moves of one object -/

theorem lt_of_source {s : Objects} {i : Nat} {e : Nat × Map} (h : s.source i = some e) :
    i < s.handles.length ∧ e.1 < s.cells.length := by
  obtain ⟨x, hx, -, hm⟩ := source_eq_some.mp h
  exact ⟨(List.getElem?_eq_some_iff.mp hx).1, (List.getElem?_eq_some_iff.mp hm).1⟩

theorem source_push_old {s : Objects} {i : Nat} {e : Nat × Map} (h : s.source i = some e)
    (x : Handle) :
    source (s.push x) i = some e := by
  obtain ⟨y, hy, hr, hm⟩ := source_eq_some.mp h
  refine source_eq_some.mpr ⟨y, ?_, hr, hm⟩
  rw [Heap.push, List.getElem?_append_left (lt_of_source h).1, hy]

theorem source_push_new {s : Objects} {x : Handle} {r : Nat} {m : Map} (hr : x.ref = some r)
    (hm : s.cells[r]? = some m) : source (s.push x) s.handles.length = some (r, m) :=
  source_eq_some.mpr ⟨x, by simp [Heap.push], hr, hm⟩

theorem source_alloc {s : Objects} {i : Nat} {e : Nat × Map} (h : s.source i = some e) (m : Map) :
    source (s.alloc m) i = some e := by
  obtain ⟨y, hy, hr, hm⟩ := source_eq_some.mp h
  refine source_eq_some.mpr ⟨y, hy, hr, ?_⟩
  rw [Heap.alloc, List.getElem?_append_left (lt_of_source h).2, hm]

theorem source_seat_ne {s : Objects} {i obj : Nat} {e : Nat × Map} (h : s.source i = some e)
    (hne : i ≠ obj) (x : Handle) : source (s.seat obj x) i = some e := by
  obtain ⟨y, hy, hr, hm⟩ := source_eq_some.mp h
  refine source_eq_some.mpr ⟨y, ?_, hr, hm⟩
  rw [Heap.seat, List.getElem?_set_ne (Ne.symm hne), hy]

/-- Where the map of a copy lies. -/
def copyOfSource (s : Objects) (e : Nat × Map) : Nat × Map :=
  if e.2.hasMapAttrs then (s.cells.length, Map.copy e.2) else e

theorem source_copyConstruct {s s' : Objects} {obj : Nat} {e : Nat × Map}
    (he : s.source obj = some e) (h : s.copyConstruct obj = some s') :
    (∀ i e', s.source i = some e' → s'.source i = some e') ∧
      s'.source s.handles.length = some (s.copyOfSource e) := by
  obtain ⟨r, m⟩ := e
  simp only [copyConstruct, copyOf, he, Option.map_some, Option.some.injEq] at h
  unfold copyOfSource
  split at h
  · rename_i hmaps
    rw [if_pos hmaps, ← h]
    refine ⟨fun i e' he' => source_push_old (source_alloc he' _) _, ?_⟩
    exact source_push_new rfl (by simp [Heap.alloc])
  · rename_i hmaps
    rw [if_neg hmaps, ← h]
    obtain ⟨x, hx, hr, hm⟩ := source_eq_some.mp he
    have hlt := (lt_of_source he).1
    refine ⟨fun i e' he' => source_push_old ?_ _, ?_⟩
    · by_cases hi : i = obj
      · -- only the flag of the object is new
        rw [hi, he] at he'
        rw [hi, ← Option.some.inj he']
        exact source_eq_some.mpr ⟨⟨some r, true⟩, by simp [Heap.seat, hlt], rfl, hm⟩
      · exact source_seat_ne he' hi _
    · have hlen : s.handles.length = (s.seat obj ⟨some r, true⟩).handles.length := by
        simp [Heap.seat]
      rw [hlen]
      exact source_push_new rfl hm

theorem source_moveConstruct {s s' : Objects} {obj : Nat} {e : Nat × Map}
    (he : s.source obj = some e) (h : s.moveConstruct obj = some s') :
    (∀ i e', i ≠ obj → s.source i = some e' → s'.source i = some e') ∧
      s'.source s.handles.length = some e := by
  obtain ⟨x, hx, hr, hm⟩ := source_eq_some.mp he
  simp only [moveConstruct, hx, Option.map_some, Option.some.injEq] at h
  rw [← h]
  refine ⟨fun i e' hi he' => source_push_old (source_seat_ne he' hi _) _, ?_⟩
  have hlen : s.handles.length = (s.seat obj { x with ref := none }).handles.length := by
    simp [Heap.seat]
  rw [hlen]
  exact source_push_new hr hm

/-! ## How many objects there are -/

theorem length_fanOut {s s' : Objects} {obj n : Nat} {objs : List Nat}
    (h : s.fanOut obj n = some (s', objs)) :
    objs.length = n := by
  induction n using Nat.strongRecOn generalizing s objs with
  | _ n ih =>
    match n with
    | 0 =>
      obtain ⟨rfl, rfl⟩ := Prod.mk.inj (Option.some.inj h)
      rfl
    | 1 =>
      obtain ⟨s₁, -, heq⟩ := Option.map_eq_some_iff.mp h
      obtain ⟨rfl, rfl⟩ := Prod.mk.inj heq
      rfl
    | n + 2 =>
      obtain ⟨s₁, -, hrest⟩ := Option.bind_eq_some_iff.mp h
      obtain ⟨⟨s₂, more⟩, hmore, heq⟩ := Option.map_eq_some_iff.mp hrest
      obtain ⟨rfl, rfl⟩ := Prod.mk.inj heq
      rw [List.length_cons, ih (n + 1) (by omega) hmore]

theorem length_localFanOut {s s' : Objects} {obj count : Nat} {actors : List Bool} {objs : List Nat}
    (h : localFanOut obj s count actors = some (s', objs)) : objs.length = actors.count true := by
  induction actors generalizing s count objs with
  | nil =>
    obtain ⟨rfl, rfl⟩ := Prod.mk.inj (Option.some.inj h)
    rfl
  | cons there actors ih =>
    cases there with
    | false => rw [ih h, List.count_cons_of_ne (by decide)]
    | true =>
      obtain ⟨s₁, -, hrest⟩ := Option.bind_eq_some_iff.mp h
      obtain ⟨⟨s₂, more⟩, hmore, heq⟩ := Option.map_eq_some_iff.mp hrest
      obtain ⟨rfl, rfl⟩ := Prod.mk.inj heq
      rw [List.length_cons, ih hmore, List.count_cons_self]

theorem length_localFanOuts {s s' : Objects} {executors : List (Nat × List Bool)} {objs : List Nat}
    (h : s.localFanOuts executors = some (s', objs)) :
    objs.length = (executors.map Prod.snd).flatten.count true := by
  induction executors generalizing s objs with
  | nil =>
    obtain ⟨rfl, rfl⟩ := Prod.mk.inj (Option.some.inj h)
    rfl
  | cons executor executors ih =>
    obtain ⟨⟨s₁, first⟩, hfirst, hrest⟩ := Option.bind_eq_some_iff.mp h
    obtain ⟨⟨s₂, more⟩, hmore, heq⟩ := Option.map_eq_some_iff.mp hrest
    obtain ⟨rfl, rfl⟩ := Prod.mk.inj heq
    rw [List.length_append, length_localFanOut hfirst, ih hmore]
    simp

theorem length_deliver {s s' : Objects} {obj : Nat} {executors : List (List Bool)}
    {recipients : List Nat} (h : s.deliver obj executors = some (s', recipients)) :
    recipients.length = executors.flatten.count true := by
  obtain ⟨⟨s₁, objs⟩, hobjs, hrest⟩ := Option.bind_eq_some_iff.mp h
  rw [length_localFanOuts hrest, List.map_snd_zip (Nat.le_of_eq (length_fanOut hobjs).symm)]

/-! ## All objects of a delivery -/

/-- What holds of the objects of a delivery is kept when one of them is copied, or moved. -/
structure Tracked (T : Objects → List Nat → Prop) : Prop where
  perm : ∀ {s l l'}, T s l → l.Perm l' → T s l'
  drop : ∀ {s l i}, T s (i :: l) → T s l
  copy : ∀ {s s' l obj}, T s (obj :: l) → s.copyConstruct obj = some s' →
    T s' (s.handles.length :: obj :: l)
  move : ∀ {s s' l obj}, T s (obj :: l) → s.moveConstruct obj = some s' →
    T s' (s.handles.length :: l)

namespace Tracked

variable {T : Objects → List Nat → Prop}

theorem fanOut (hT : Tracked T) {s s' : Objects} {l objs : List Nat} {obj n : Nat}
    (h : T s (obj :: l)) (hout : s.fanOut obj n = some (s', objs)) : T s' (objs ++ l) := by
  induction n using Nat.strongRecOn generalizing s objs l with
  | _ n ih =>
    match n with
    | 0 =>
      obtain ⟨rfl, rfl⟩ := Prod.mk.inj (Option.some.inj hout)
      exact hT.drop h
    | 1 =>
      obtain ⟨s₁, hs₁, heq⟩ := Option.map_eq_some_iff.mp hout
      obtain ⟨rfl, rfl⟩ := Prod.mk.inj heq
      exact hT.move h hs₁
    | n + 2 =>
      obtain ⟨s₁, hs₁, hrest⟩ := Option.bind_eq_some_iff.mp hout
      obtain ⟨⟨s₂, more⟩, hmore, heq⟩ := Option.map_eq_some_iff.mp hrest
      obtain ⟨rfl, rfl⟩ := Prod.mk.inj heq
      have h₁ := hT.perm (hT.copy h hs₁) (List.Perm.swap obj _ l)
      exact hT.perm (ih (n + 1) (by omega) h₁ hmore) List.perm_middle

theorem localFanOut (hT : Tracked T) {s s' : Objects} {l objs : List Nat} {obj count : Nat}
    {actors : List Bool} (h : T s (obj :: l)) (hcount : actors.length ≤ count)
    (hout : localFanOut obj s count actors = some (s', objs)) : T s' (objs ++ l) := by
  induction actors generalizing s count objs l with
  | nil =>
    obtain ⟨rfl, rfl⟩ := Prod.mk.inj (Option.some.inj hout)
    exact hT.drop h
  | cons there actors ih =>
    rw [List.length_cons] at hcount
    cases there with
    | false => exact ih h (by omega) hout
    | true =>
      obtain ⟨s₁, hs₁, hrest⟩ := Option.bind_eq_some_iff.mp hout
      obtain ⟨⟨s₂, more⟩, hmore, heq⟩ := Option.map_eq_some_iff.mp hrest
      obtain ⟨rfl, rfl⟩ := Prod.mk.inj heq
      split at hs₁
      · -- the last one: nobody is left
        have hnil : actors = [] := List.length_eq_zero_iff.mp (by omega)
        rw [hnil] at hmore
        obtain ⟨rfl, rfl⟩ := Prod.mk.inj (Option.some.inj hmore)
        exact hT.move h hs₁
      · have h₁ := hT.perm (hT.copy h hs₁) (List.Perm.swap obj _ l)
        exact hT.perm (ih h₁ (by omega) hmore) List.perm_middle

theorem localFanOuts (hT : Tracked T) {s s' : Objects} {l objs : List Nat}
    {executors : List (Nat × List Bool)} (h : T s (executors.map Prod.fst ++ l))
    (hout : s.localFanOuts executors = some (s', objs)) :
    T s' (objs ++ l) := by
  induction executors generalizing s objs l with
  | nil =>
    obtain ⟨rfl, rfl⟩ := Prod.mk.inj (Option.some.inj hout)
    exact h
  | cons executor executors ih =>
    obtain ⟨⟨s₁, first⟩, hfirst, hrest⟩ := Option.bind_eq_some_iff.mp hout
    obtain ⟨⟨s₂, more⟩, hmore, heq⟩ := Option.map_eq_some_iff.mp hrest
    obtain ⟨rfl, rfl⟩ := Prod.mk.inj heq
    have h₁ := hT.localFanOut (l := executors.map Prod.fst ++ l) h (Nat.le_refl _) hfirst
    have h₂ := hT.perm h₁ (List.perm_append_comm_assoc first _ l)
    have h₃ := ih h₂ hmore
    rw [List.append_assoc]
    exact hT.perm h₃ (List.perm_append_comm_assoc more first l)

theorem deliver (hT : Tracked T) {s s' : Objects} {obj : Nat} {executors : List (List Bool)}
    {recipients : List Nat} (h : T s [obj])
    (hout : s.deliver obj executors = some (s', recipients)) : T s' recipients := by
  obtain ⟨⟨s₁, objs⟩, hobjs, hrest⟩ := Option.bind_eq_some_iff.mp hout
  have h₁ := hT.fanOut h hobjs
  have hfst : (objs.zip executors).map Prod.fst = objs :=
    List.map_fst_zip (Nat.le_of_eq (length_fanOut hobjs))
  rw [← hfst] at h₁
  have h₂ := hT.localFanOuts h₁ hrest
  rwa [List.append_nil] at h₂

end Tracked

/-! ## Publications with nested maps -/

theorem hasMapAttrs_copy (m : Map) : Map.hasMapAttrs (Map.copy m) = m.hasMapAttrs := by
  induction m with
  | nil => rfl
  | cons e m ih =>
    obtain ⟨k, v⟩ := e
    unfold Map.hasMapAttrs at ih ⊢
    cases v <;> simp [Map.copy, Variant.copy, ih]

def refAt (s : Objects) (i : Nat) : Option Nat := (s.source i).map Prod.fst

/-- Each of the objects has a map of its own, with nested maps. -/
structure Apart (s : Objects) (l : List Nat) : Prop where
  deep : ∀ i ∈ l, ∃ e, s.source i = some e ∧ e.2.hasMapAttrs = true
  refs : (l.map s.refAt).Nodup

theorem Apart.refAt_congr {s s' : Objects} {l : List Nat} (h : s.Apart l)
    (hsame : ∀ i ∈ l, ∀ e, s.source i = some e → s'.source i = some e) :
    l.map s'.refAt = l.map s.refAt := by
  apply List.map_congr_left
  intro i hi
  obtain ⟨e, he, -⟩ := h.deep i hi
  rw [refAt, refAt, he, hsame i hi e he]

theorem tracked_apart : Tracked Apart where
  perm h hperm := ⟨fun i hi => h.deep i (hperm.mem_iff.mpr hi), (hperm.map _).nodup_iff.mp h.refs⟩
  drop h := ⟨fun i hi => h.deep i (List.mem_cons_of_mem _ hi), (List.nodup_cons.mp h.refs).2⟩
  copy := by
    intro s s' l obj h hcopy
    obtain ⟨e, he, hmaps⟩ := h.deep obj List.mem_cons_self
    obtain ⟨hold, hnew⟩ := source_copyConstruct he hcopy
    rw [copyOfSource, if_pos hmaps] at hnew
    refine ⟨?_, ?_⟩
    · intro i hi
      rcases List.mem_cons.mp hi with rfl | hi
      · exact ⟨_, hnew, by rw [hasMapAttrs_copy]; exact hmaps⟩
      · obtain ⟨e', he', hmaps'⟩ := h.deep i hi
        exact ⟨e', hold i e' he', hmaps'⟩
    · rw [List.map_cons, h.refAt_congr fun i _ e he => hold i e he, List.nodup_cons]
      refine ⟨?_, h.refs⟩
      -- the map of the copy is a new one
      intro hmem
      obtain ⟨i, hi, hri⟩ := List.mem_map.mp hmem
      obtain ⟨e', he', -⟩ := h.deep i hi
      have hlt := (lt_of_source he').2
      rw [refAt, refAt, he', hnew] at hri
      have := Option.some.inj hri
      omega
  move := by
    intro s s' l obj h hmove
    obtain ⟨e, he, hmaps⟩ := h.deep obj List.mem_cons_self
    obtain ⟨hold, hnew⟩ := source_moveConstruct he hmove
    have hne : ∀ i ∈ l, i ≠ obj := by
      rintro i hi rfl
      exact (List.nodup_cons.mp h.refs).1 (List.mem_map_of_mem hi)
    have hl : s.Apart l := ⟨fun i hi => h.deep i (List.mem_cons_of_mem _ hi),
      (List.nodup_cons.mp h.refs).2⟩
    refine ⟨?_, ?_⟩
    · intro i hi
      rcases List.mem_cons.mp hi with rfl | hi
      · exact ⟨e, hnew, hmaps⟩
      · obtain ⟨e', he', hmaps'⟩ := h.deep i (List.mem_cons_of_mem _ hi)
        exact ⟨e', hold i e' (hne i hi) he', hmaps'⟩
    · have hobj : s'.refAt s.handles.length = s.refAt obj := by rw [refAt, refAt, hnew, he]
      rw [List.map_cons, hobj, hl.refAt_congr fun i hi e he => hold i e (hne i hi) he]
      exact h.refs

theorem view_of_source {s : Objects} {i : Nat} {e : Nat × Map} (h : s.source i = some e) :
    s.view[i]? = some (some e.2) := by
  obtain ⟨x, hx, hr, hm⟩ := source_eq_some.mp h
  rw [getElem?_view_isSome hx, Heap.read, hr, Option.bind_some, hm]

theorem source_write_ne {s : Objects} {j r : Nat} {e : Nat × Map} (h : s.source j = some e)
    (hne : r ≠ e.1) (m : Map) :
    source (s.write r m) j = some e := by
  obtain ⟨x, hx, hr, hm⟩ := source_eq_some.mp h
  refine source_eq_some.mpr ⟨x, hx, hr, ?_⟩
  rw [Heap.write, List.getElem?_set_ne hne, hm]

/-- The object at `j` shows `e.2`, and the one at `i` has another map. -/
def Beside (i j : Nat) (e : Nat × Map) (s : Objects) : Prop :=
  s.source j = some e ∧ ∀ e', s.source i = some e' → e'.1 ≠ e.1

theorem Beside.write {i j r : Nat} {e : Nat × Map} {s : Objects} (h : Beside i j e s) (hr : r ≠ e.1)
    (m : Map) :
    Beside i j e (s.write r m) := by
  refine ⟨source_write_ne h.1 hr m, ?_⟩
  intro e' he'
  obtain ⟨x, hx, hxr, hm⟩ := source_eq_some.mp he'
  have hlt := (List.getElem?_eq_some_iff.mp hm).1
  rw [Heap.write, List.length_set] at hlt
  exact h.2 (e'.1, s.cells[e'.1]) (source_eq_some.mpr ⟨x, hx, hxr, List.getElem?_eq_getElem hlt⟩)

theorem Beside.writeRoot {i j : Nat} {e : Nat × Map} {s s' : Objects} {f : Map → Map}
    (h : Beside i j e s) (hs' : s.writeRoot i f = some s') : Beside i j e s' := by
  obtain ⟨⟨r, m⟩, hsource, rfl⟩ := Option.map_eq_some_iff.mp hs'
  exact h.write (h.2 _ hsource) (f m)

theorem Beside.update {i j : Nat} {e : Nat × Map} {s s' : Objects} {f : Map → Map}
    (h : Beside i j e s) (hij : i ≠ j) (hs' : s.update i f = some s') : Beside i j e s' := by
  obtain ⟨x, hx, hs'⟩ := Option.bind_eq_some_iff.mp hs'
  split at hs'
  · rw [← Option.some.inj hs']
    exact h
  · rename_i r hr
    obtain ⟨m, hm, hs'⟩ := Option.map_eq_some_iff.mp hs'
    split at hs'
    · rw [← hs']
      refine ⟨source_seat_ne (source_alloc h.1 _) (Ne.symm hij) _, ?_⟩
      intro e' he'
      obtain ⟨y, hy, hyr, -⟩ := source_eq_some.mp he'
      have hlt := (List.getElem?_eq_some_iff.mp hx).1
      have hy' : y = ⟨some s.cells.length, false⟩ := by
        have : (s.handles.set i ⟨some s.cells.length, false⟩)[i]? = some y := hy
        rw [List.getElem?_set_self hlt] at this
        exact (Option.some.inj this).symm
      have := (lt_of_source h.1).2
      rw [hy'] at hyr
      have := Option.some.inj hyr
      omega
    · rw [← hs']
      exact h.write (h.2 (r, m) (source_eq_some.mpr ⟨x, hx, hr, hm⟩)) (f m)

theorem Beside.scriptStep {i j : Nat} {e : Nat × Map} {s s' : Objects} {op : ScriptOp}
    (h : Beside i j e s) (hij : i ≠ j) (hs' : s.scriptStep i op = some s') : Beside i j e s' := by
  cases op with
  | luaSet name value =>
    cases value with
    | none => exact h.writeRoot hs'
    | some value => exact h.writeRoot hs'
  | v8Set name value => exact h.writeRoot hs'
  | v8Del name => exact h.update hij hs'

theorem Apart.isolated {s : Objects} {l : List Nat} (h : s.Apart l) (runtime : ScriptRuntime) :
    s.Isolated runtime l := by
  intro i hi j hj hij ops _ s' hs'
  obtain ⟨e, he, -⟩ := h.deep j hj
  have hbeside : Beside i j e s := by
    refine ⟨he, ?_⟩
    intro e' he' heq
    have href : s.refAt i = s.refAt j := by
      rw [refAt, refAt, he', he, Option.map_some, Option.map_some, heq]
    exact hij (List.inj_on_of_nodup_map h.refs hi hj href)
  have hend : Beside i j e s' := Runs.invariant (Beside i j e) hbeside (fun _ _ _ h hs =>
    h.scriptStep hij hs) hs'
  rw [view_of_source he, view_of_source hend.1]

/-! ## Publications without nested maps -/

/-- All objects show one map. -/
structure Same (e : Nat × Map) (s : Objects) (l : List Nat) : Prop where
  nodup : l.Nodup
  shows : ∀ i ∈ l, s.source i = some e

theorem tracked_same {e : Nat × Map} (hflat : e.2.hasMapAttrs = false) : Tracked (Same e) where
  perm h hperm := ⟨hperm.nodup_iff.mp h.nodup, fun i hi => h.shows i (hperm.mem_iff.mpr hi)⟩
  drop h := ⟨(List.nodup_cons.mp h.nodup).2, fun i hi => h.shows i (List.mem_cons_of_mem _ hi)⟩
  copy := by
    intro s s' l obj h hcopy
    obtain ⟨hold, hnew⟩ := source_copyConstruct (h.shows obj List.mem_cons_self) hcopy
    rw [copyOfSource, hflat, if_neg (by decide)] at hnew
    refine ⟨List.nodup_cons.mpr ⟨?_, h.nodup⟩, ?_⟩
    · intro hmem
      have := (lt_of_source (h.shows _ hmem)).1
      omega
    · intro i hi
      rcases List.mem_cons.mp hi with rfl | hi
      · exact hnew
      · exact hold i e (h.shows i hi)
  move := by
    intro s s' l obj h hmove
    obtain ⟨hold, hnew⟩ := source_moveConstruct (h.shows obj List.mem_cons_self) hmove
    obtain ⟨hobj, hl⟩ := List.nodup_cons.mp h.nodup
    refine ⟨List.nodup_cons.mpr ⟨?_, hl⟩, ?_⟩
    · intro hmem
      have := (lt_of_source (h.shows _ (List.mem_cons_of_mem _ hmem))).1
      omega
    · intro i hi
      rcases List.mem_cons.mp hi with rfl | hi
      · exact hnew
      · exact hold i e (fun heq => hobj (heq ▸ hi)) (h.shows i (List.mem_cons_of_mem _ hi))

theorem exists_new_attr (m : Map) (name : String) : ∃ v : Variant, m.setAttr name v ≠ m := by
  by_cases h : Assoc.find name m = some (.int 0)
  · refine ⟨.int 1, fun heq => ?_⟩
    rw [← heq, Map.setAttr, Assoc.find_put_self] at h
    simp at h
  · refine ⟨.int 0, fun heq => h ?_⟩
    rw [← heq, Map.setAttr, Assoc.find_put_self]

def ScriptRuntime.set (runtime : ScriptRuntime) (name : String) (v : Variant) : ScriptOp :=
  match runtime with
  | .lua => .luaSet name (some v)
  | .v8 => .v8Set name v

theorem Same.not_isolated {e : Nat × Map} {s : Objects} {l : List Nat} (h : Same e s l)
    (hlen : 2 ≤ l.length) (runtime : ScriptRuntime) : ¬ s.Isolated runtime l := by
  intro hisolated
  obtain ⟨r, m⟩ := e
  match l, hlen with
  | i :: j :: rest, _ =>
    have hij : i ≠ j := by
      rintro rfl
      exact (List.nodup_cons.mp h.nodup).1 List.mem_cons_self
    have hi := h.shows i List.mem_cons_self
    have hj := h.shows j (List.mem_cons_of_mem _ List.mem_cons_self)
    obtain ⟨v, hv⟩ := exists_new_attr m "type"
    have hrun : s.scriptRun i [ScriptRuntime.set runtime "type" v] =
        some (s.write r (m.setAttr "type" v)) := by
      cases runtime <;> simp [ScriptRuntime.set, scriptRun, scriptStep, writeRoot, hi]
    have hview := hisolated i List.mem_cons_self j (List.mem_cons_of_mem _ List.mem_cons_self) hij
      [ScriptRuntime.set runtime "type" v]
        (by cases runtime <;> simp [ScriptRuntime.set, ScriptOp.runtime]) _ hrun
    obtain ⟨x, hx, hr, hm⟩ := source_eq_some.mp hj
    have hj' : source (s.write r (m.setAttr "type" v)) j = some (r, m.setAttr "type" v) := by
      refine source_eq_some.mpr ⟨x, hx, hr, ?_⟩
      rw [Heap.write, List.getElem?_set_self (lt_of_source hj).2]
    rw [view_of_source hj, view_of_source hj'] at hview
    exact hv (Option.some.inj (Option.some.inj hview))

/-- The recipients of a publication are isolated from each other exactly when there is only one of
them, or the publication has a nested map. -/
theorem recipients_isolated_iff {s s' : Objects} {obj r : Nat} {m : Map}
    {executors : List (List Bool)} {recipients : List Nat} (hobj : s.source obj = some (r, m))
    (hdeliver : s.deliver obj executors = some (s', recipients)) (runtime : ScriptRuntime) :
    s'.Isolated runtime recipients ↔ executors.flatten.count true ≤ 1 ∨ m.hasMapAttrs = true := by
  rw [← length_deliver hdeliver]
  constructor
  · intro hisolated
    by_cases hmaps : m.hasMapAttrs = true
    · exact Or.inr hmaps
    · left
      by_contra hlen
      have hsame : Same (r, m) s [obj] := by
        refine ⟨List.nodup_singleton obj, fun i hi => ?_⟩
        rw [List.mem_singleton.mp hi]
        exact hobj
      have := (tracked_same (e := (r, m)) (by simpa using hmaps)).deliver hsame hdeliver
      exact this.not_isolated (by omega) runtime hisolated
  · rintro (hlen | hmaps)
    · intro i hi j hj hij
      match recipients, hlen with
      | [k], _ =>
        rw [List.mem_singleton.mp hi, List.mem_singleton.mp hj] at hij
        exact absurd rfl hij
    · have hapart : s.Apart [obj] := by
        refine ⟨fun i hi => ⟨(r, m), ?_, hmaps⟩, List.nodup_singleton _⟩
        rw [List.mem_singleton.mp hi]
        exact hobj
      exact (tracked_apart.deliver hapart hdeliver).isolated runtime

def nestedPing : Objects := init.construct [("type", .str "ping"), ("inner", .map [])]

/-- Three actors of two executors, and a nested map. -/
theorem recipients_isolated_iff_nested :
    ∃ s' recipients, nestedPing.deliver 0 [[true, false, true], [true]] = some (s', recipients) ∧
      s'.Isolated .lua recipients := by
  have hsome : (nestedPing.deliver 0 [[true, false, true], [true]]).isSome = true := rfl
  obtain ⟨⟨s', recipients⟩, hdeliver⟩ := Option.isSome_iff_exists.mp hsome
  exact ⟨s', recipients, hdeliver, (recipients_isolated_iff rfl hdeliver .lua).mpr (Or.inr rfl)⟩

/-- A Lua actor assigns to an attribute, and the actor of another executor sees the new value. -/
theorem script_changes_other_recipient :
    ∃ s' s'' : Objects,
      (init.construct [("type", .str "ping")]).deliver 0 [[true], [true]] = some (s', [3, 4]) ∧
      s'.scriptRun 3 [.luaSet "type" (some (.str "pong"))] = some s'' ∧
      s'.view[4]? = some (some [("type", .str "ping")]) ∧
        s''.view[4]? = some (some [("type", .str "pong")]) :=
  ⟨_, _, rfl, rfl, rfl, rfl⟩

end Objects

end UActor
