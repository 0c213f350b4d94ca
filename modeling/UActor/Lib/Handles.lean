import Mathlib.Data.List.Basic
import UActor.Lib.Runs

/-!
# Handles to shared cells

Several handles may refer to one cell. A handle that is flagged copies its cell before it writes to
it.
-/

namespace Handles

variable {β : Type}

structure Handle where
  ref : Option Nat
  shallow : Bool
deriving DecidableEq, Repr

structure Heap (β : Type) where
  cells : List β
  handles : List Handle
deriving Repr

def Heap.read (h : Heap β) (x : Handle) : Option β := x.ref.bind fun r => h.cells[r]?

/-- What is seen through each handle. -/
def Heap.view (h : Heap β) : List (Option β) := h.handles.map h.read

/-- Handles that share a cell are flagged. -/
structure Sound (h : Heap β) : Prop where
  bound : ∀ x ∈ h.handles, ∀ r, x.ref = some r → r < h.cells.length
  flagged : ∀ (i j : Nat) (x y : Handle) (r : Nat), i ≠ j → h.handles[i]? = some x →
      h.handles[j]? = some y → x.ref = some r →
    y.ref = some r → x.shallow = true

theorem getElem?_view (h : Heap β) (i : Nat) : h.view[i]? = h.handles[i]?.map h.read := by
  simp [Heap.view]

theorem sound_nil : Sound (⟨[], []⟩ : Heap β) := ⟨nofun, nofun⟩

/-! ## New cells -/

def Heap.alloc (h : Heap β) (b : β) : Heap β := { h with cells := h.cells ++ [b] }

theorem Sound.alloc {h : Heap β} (hs : Sound h) (b : β) : Sound (h.alloc b) where
  bound x hx r hr := by
    have := hs.bound x hx r hr
    simp [Heap.alloc]
    omega
  flagged := hs.flagged

theorem Sound.view_alloc {h : Heap β} (hs : Sound h) (b : β) : (h.alloc b).view = h.view := by
  apply List.map_congr_left
  intro x hx
  unfold Heap.read
  cases hr : x.ref with
  | none => rfl
  | some r =>
    have := hs.bound x hx r hr
    simp only [Option.bind_some, Heap.alloc]
    rw [List.getElem?_append_left this]

theorem Sound.fresh {h : Heap β} (hs : Sound h) {i : Nat} {x : Handle}
    (hx : h.handles[i]? = some x) :
    x.ref ≠ some h.cells.length := by
  intro hr
  have := hs.bound x (List.mem_of_getElem? hx) _ hr
  omega

/-! ## New and changed handles -/

def Heap.push (h : Heap β) (x : Handle) : Heap β := { h with handles := h.handles ++ [x] }

def Heap.seat (h : Heap β) (i : Nat) (x : Handle) : Heap β :=
  { h with handles := h.handles.set i x }

theorem view_push (h : Heap β) (x : Handle) : (h.push x).view = h.view ++ [h.read x] := by
  show (h.handles ++ [x]).map h.read = _
  rw [List.map_append]
  rfl

theorem view_seat (h : Heap β) (i : Nat) (x : Handle) :
    (h.seat i x).view = h.view.set i (h.read x) := by
  simp only [Heap.view, Heap.seat, List.map_set]
  rfl

theorem view_set_read {h : Heap β} {i : Nat} {x : Handle} (hx : h.handles[i]? = some x) :
    h.view.set i (h.read x) = h.view := by
  obtain ⟨hlt, heq⟩ := List.getElem?_eq_some_iff.mp hx
  have hlt' : i < h.view.length := by rwa [Heap.view, List.length_map]
  have hview : h.view[i] = h.read x := by simp [Heap.view, heq]
  rw [← hview, List.set_getElem_self hlt']

theorem view_seat_same {h : Heap β} {i : Nat} {x y : Handle} (hx : h.handles[i]? = some x)
    (hread : h.read y = h.read x) : (h.seat i y).view = h.view := by
  rw [view_seat, hread, view_set_read hx]

/-- The handles but `i` that refer to the cell of `x` are flagged. -/
def Joins (h : Heap β) (i : Nat) (x : Handle) : Prop :=
  ∀ r, x.ref = some r → r < h.cells.length ∧
    ∀ (j : Nat) (y : Handle), j ≠ i → h.handles[j]? = some y → y.ref = some r → x.shallow = true ∧
    y.shallow = true

theorem Sound.seat {h : Heap β} (hs : Sound h) {i : Nat} {x : Handle} (hx : Joins h i x) :
    Sound (h.seat i x) where
  bound y hy r hr := by
    rcases List.mem_or_eq_of_mem_set hy with hy | rfl
    · exact hs.bound y hy r hr
    · exact (hx r hr).1
  flagged j k y z r hjk hy hz hyr hzr := by
    simp only [Heap.seat, List.getElem?_set] at hy hz
    split at hy
    · rename_i hij
      obtain rfl := hij
      rw [if_neg hjk] at hz
      split at hy
      · obtain rfl := Option.some.inj hy
        exact ((hx r hyr).2 k z (Ne.symm hjk) hz hzr).1
      · simp at hy
    · rename_i hij
      split at hz
      · split at hz
        · obtain rfl := Option.some.inj hz
          exact ((hx r hzr).2 j y (Ne.symm hij) hy hyr).2
        · simp at hz
      · exact hs.flagged j k y z r hjk hy hz hyr hzr

theorem Sound.push {h : Heap β} (hs : Sound h) {x : Handle} (hx : Joins h h.handles.length x) :
    Sound (h.push x) where
  bound y hy r hr := by
    rcases List.mem_append.mp hy with hy | hy
    · exact hs.bound y hy r hr
    · obtain rfl := List.mem_singleton.mp hy
      exact (hx r hr).1
  flagged j k y z r hjk hy hz hyr hzr := by
    have hlast {j : Nat} {y : Handle} (hy : h.handles[j]? = some y) : j ≠ h.handles.length := by
      have := List.getElem?_eq_some_iff.mp hy
      obtain ⟨hlt, -⟩ := this
      omega
    rcases Runs.getElem?_snoc.mp hy with hy | ⟨rfl, rfl⟩
    · rcases Runs.getElem?_snoc.mp hz with hz | ⟨rfl, rfl⟩
      · exact hs.flagged j k y z r hjk hy hz hyr hzr
      · exact ((hx r hzr).2 j y (hlast hy) hy hyr).2
    · rcases Runs.getElem?_snoc.mp hz with hz | ⟨rfl, -⟩
      · exact ((hx r hyr).2 k z (hlast hz) hz hzr).1
      · exact absurd rfl hjk

theorem joins_none (h : Heap β) (i : Nat) (flag : Bool) : Joins h i ⟨none, flag⟩ := nofun

theorem Sound.joins_alloc {h : Heap β} (hs : Sound h) (b : β) (i : Nat) (flag : Bool) :
    Joins (h.alloc b) i ⟨some h.cells.length, flag⟩ := by
  intro r hr
  obtain rfl := Option.some.inj hr
  refine ⟨by simp [Heap.alloc], ?_⟩
  intro j y _ hy hyr
  exact absurd hyr (hs.fresh hy)

theorem Sound.joins_flag {h : Heap β} (hs : Sound h) {i : Nat} {x : Handle}
    (hx : h.handles[i]? = some x) :
    Joins h i { x with shallow := true } := by
  intro r hr
  refine ⟨hs.bound x (List.mem_of_getElem? hx) r hr, ?_⟩
  intro j y hj hy hyr
  exact ⟨rfl, hs.flagged j i y x r hj hy hx hyr hr⟩

theorem Sound.joins_shared {h : Heap β} (hs : Sound h) {i : Nat} {x : Handle}
    (hx : h.handles[i]? = some x) (hflag : x.shallow = true) (k : Nat) : Joins h k x := by
  intro r hr
  refine ⟨hs.bound x (List.mem_of_getElem? hx) r hr, ?_⟩
  intro j y _ hy hyr
  refine ⟨hflag, ?_⟩
  by_cases hji : j = i
  · rw [hji, hx] at hy
    rw [← Option.some.inj hy]
    exact hflag
  · exact hs.flagged j i y x r hji hy hx hyr hr

/-! ## Writing to a cell -/

def Heap.write (h : Heap β) (r : Nat) (b : β) : Heap β := { h with cells := h.cells.set r b }

theorem Sound.write {h : Heap β} (hs : Sound h) (r : Nat) (b : β) : Sound (h.write r b) where
  bound x hx r' hr' := by
    rw [Heap.write, List.length_set]
    exact hs.bound x hx r' hr'
  flagged := hs.flagged

theorem Sound.view_write {h : Heap β} (hs : Sound h) {i r : Nat} {x : Handle}
    (hx : h.handles[i]? = some x) (hr : x.ref = some r) (hflag : x.shallow = false) (b : β) :
    (h.write r b).view = h.view.set i (some b) := by
  have hbound := hs.bound x (List.mem_of_getElem? hx) r hr
  apply List.ext_getElem?
  intro j
  rw [getElem?_view, List.getElem?_set, getElem?_view]
  by_cases hji : i = j
  · obtain rfl := hji
    have hlt : i < h.view.length := by
      rw [Heap.view, List.length_map]
      exact (List.getElem?_eq_some_iff.mp hx).1
    show h.handles[i]?.map _ = _
    rw [hx, if_pos rfl, if_pos hlt, Option.map_some, Heap.read, hr, Option.bind_some]
    simp [Heap.write, hbound]
  · rw [if_neg hji]
    show h.handles[j]?.map _ = _
    cases hy : h.handles[j]? with
    | none => rfl
    | some y =>
      have hne : y.ref ≠ some r := by
        intro hyr
        have := hs.flagged i j x y r hji hx hy hr hyr
        rw [hflag] at this
        exact absurd this (by decide)
      simp only [Option.map_some, Heap.read, Heap.write]
      cases hyr : y.ref with
      | none => rfl
      | some r' =>
        have : r ≠ r' := fun h => hne (h ▸ hyr)
        simp [List.getElem?_set_ne this]

end Handles
