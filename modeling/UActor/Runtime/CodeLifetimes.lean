import Mathlib.Algebra.Group.Nat.Defs
import UActor.Runtime.CodeStore

/-!
# Runs of the code store

Calls of `insert_or_refresh` and of `cleanup`, each `cleanup` at a reading of the clock. All
lifetimes end.
-/

namespace UActor

namespace CodeStore

inductive Event where
  | insertOrRefresh (identifier : CodeIdentifier) (lifetime_end : UInt32) (code : Option String)
  | cleanup (current_timestamp : UInt32)

def step (st : CodeStore) : Event → CodeStore
  | .insertOrRefresh identifier lifetime_end code => st.insertOrRefresh identifier lifetime_end code
  | .cleanup current_timestamp => st.cleanup current_timestamp

def run (evs : List Event) : CodeStore := evs.foldl step empty

/-- No call gives a lifetime that stands for ever. -/
def Finite (evs : List Event) : Prop :=
  ∀ identifier lifetime_end code, .insertOrRefresh identifier lifetime_end code ∈ evs →
    0 < lifetime_end

/-! ## What a package was given -/

/-- The store, and the largest lifetime that a package was given since it was last inserted. -/
def observe (identifier : CodeIdentifier) (s : CodeStore × Option UInt32) (ev : Event) :
    CodeStore × Option UInt32 :=
  (s.1.step ev,
    match ev with
    | .insertOrRefresh identifier' lifetime_end _ =>
      if identifier' = identifier then
        match s.1.find identifier, s.2 with
        | some _, some largest => some (max lifetime_end largest)
        | _, _ => some lifetime_end
      else s.2
    | .cleanup _ => s.2)

def given (identifier : CodeIdentifier) (evs : List Event) : Option UInt32 :=
  (evs.foldl (observe identifier) (empty, none)).2

/-- `cleanup` removes the packages whose lifetime ended more than five seconds ago, and no
others. -/
def CollectsExpired (st : CodeStore) (current_timestamp : UInt32) : Prop :=
  ∀ identifier, (st.cleanup current_timestamp).find identifier =
    (st.find identifier).filter fun packet => current_timestamp.toNat ≤ packet.lifetime_end.toNat +
      5000

/-- No package is collected early, or late. -/
structure Timely (evs : List Event) : Prop where
  kept : ∀ pre post, evs = pre ++ post →
    ∀ identifier largest t, given identifier pre = some largest →
    (∀ current_timestamp, .cleanup current_timestamp ∈ pre → current_timestamp ≤ t) → t ≤ largest →
    ((run pre).find identifier).isSome
  collected : ∀ pre current_timestamp post, evs = pre ++ .cleanup current_timestamp :: post →
    CollectsExpired (run pre) current_timestamp

section

variable {evs : List Event} {identifier : CodeIdentifier} {packet : CodePacket}

theorem run_snoc (evs : List Event) (ev : Event) : run (evs ++ [ev]) = (run evs).step ev := by
  simp [run]

theorem observe_run (identifier : CodeIdentifier) (evs : List Event) :
    (evs.foldl (observe identifier) (empty, none)).1 = run evs := by
  induction evs using List.reverseRecOn with
  | nil => rfl
  | append_singleton evs ev ih =>
    rw [run_snoc, ← ih, List.foldl_append]
    rfl

theorem given_snoc (identifier : CodeIdentifier) (evs : List Event) (ev : Event) :
    given identifier (evs ++ [ev]) = (observe identifier (run evs, given identifier evs) ev).2 := by
  unfold given
  rw [List.foldl_append, ← observe_run identifier evs]
  rfl

theorem Finite.before {pre post : List Event} (h : Finite evs) (heq : evs = pre ++ post) :
    Finite pre :=
  fun identifier lifetime_end code hmem => h identifier lifetime_end code
    (heq ▸ List.mem_append_left _ hmem)

theorem find_step_insertOrRefresh_ne {identifier' : CodeIdentifier} (h : identifier' ≠ identifier)
    (st : CodeStore) (lifetime_end : UInt32) (code : Option String) :
    (st.step (.insertOrRefresh identifier' lifetime_end code)).find identifier =
      st.find identifier :=
  find_insertOrRefresh_ne st identifier h lifetime_end code

theorem stored_given (hfinite : Finite evs) (h : (run evs).find identifier = some packet) :
    0 < packet.lifetime_end ∧ given identifier evs = some packet.lifetime_end := by
  induction evs using List.reverseRecOn generalizing packet with
  | nil => simp [run, empty, find] at h
  | append_singleton evs ev ih =>
    have hbefore : Finite evs := hfinite.before rfl
    rw [run_snoc] at h
    rw [given_snoc]
    cases ev with
    | cleanup current_timestamp =>
      rw [step, find_cleanup, Option.filter_eq_some_iff] at h
      exact ih hbefore h.1
    | insertOrRefresh identifier' lifetime_end code =>
      by_cases hid : identifier' = identifier
      · subst hid
        have hpos : 0 < lifetime_end := hfinite identifier' lifetime_end code (by simp)
        have hne : lifetime_end ≠ MAGIC_LIFETIME_VALUE_INFINTE := by
          rintro rfl
          exact absurd hpos (by decide)
        rw [step, find_insertOrRefresh_self, Option.some_inj] at h
        subst h
        cases hstored : (run evs).find identifier' with
        | none => simp [observe, hstored, hpos]
        | some stored =>
          obtain ⟨-, hgiven⟩ := ih hbefore hstored
          have hmax : 0 < max lifetime_end stored.lifetime_end :=
            Std.lt_of_lt_of_le hpos Std.left_le_max
          simp [observe, hstored, hgiven, CodePacket.refresh, hne, hmax]
      · rw [find_step_insertOrRefresh_ne hid] at h
        rw [observe, if_neg hid]
        exact ih hbefore h

theorem stored_lifetime (h : (run evs).find identifier = some packet) :
    ∃ code, .insertOrRefresh identifier packet.lifetime_end code ∈ evs := by
  induction evs using List.reverseRecOn generalizing packet with
  | nil => simp [run, empty, find] at h
  | append_singleton evs ev ih =>
    have hearlier : ∀ packet, (run evs).find identifier = some packet →
        ∃ code, .insertOrRefresh identifier packet.lifetime_end code ∈ evs ++ [ev] := by
      intro packet hpacket
      obtain ⟨code, hmem⟩ := ih hpacket
      exact ⟨code, List.mem_append_left _ hmem⟩
    rw [run_snoc] at h
    cases ev with
    | cleanup current_timestamp =>
      rw [step, find_cleanup, Option.filter_eq_some_iff] at h
      exact hearlier packet h.1
    | insertOrRefresh identifier' lifetime_end code =>
      by_cases hid : identifier' = identifier
      · subst hid
        rw [step, find_insertOrRefresh_self, Option.some_inj] at h
        subst h
        cases hstored : (run evs).find identifier' with
        | none => exact ⟨code, by simp⟩
        | some stored =>
          rw [Option.elim_some]
          unfold CodePacket.refresh
          split
          · rename_i hforever
            exact ⟨code, by simp [hforever]⟩
          · rw [CodePacket.addCode_lifetime_end]
            rcases Std.max_eq_or (a := lifetime_end) (b := stored.lifetime_end) with hmax | hmax
            · exact ⟨code, by simp [hmax]⟩
            · rw [hmax]
              exact hearlier stored hstored
      · rw [find_step_insertOrRefresh_ne hid] at h
        exact hearlier packet h

/-! ## Collecting -/

theorem expired_iff (hpos : 0 < packet.lifetime_end) (current_timestamp : UInt32) :
    (packet.expired current_timestamp = true ↔ packet.lifetime_end.toNat +
      5000 < current_timestamp.toNat) ↔
      packet.lifetime_end.toNat + 5000 < 2 ^ 32 ∨
        current_timestamp.toNat + 2 ^ 32 ≤ packet.lifetime_end.toNat + 5000 := by
  have hexpired : packet.expired current_timestamp = true ↔
      (packet.lifetime_end.toNat + 5000) % 2 ^ 32 < current_timestamp.toNat := by
    simp [CodePacket.expired, hpos, UInt32.lt_iff_toNat_lt]
  have hend := packet.lifetime_end.toNat_lt
  have hnow := current_timestamp.toNat_lt
  rw [hexpired]
  omega

theorem collectsExpired_iff {st : CodeStore} {current_timestamp : UInt32}
    (hpos : ∀ identifier packet, st.find identifier = some packet → 0 < packet.lifetime_end) :
    CollectsExpired st current_timestamp ↔ ∀ identifier packet, st.find identifier = some packet →
      packet.lifetime_end.toNat + 5000 < 2 ^ 32 ∨
        current_timestamp.toNat + 2 ^ 32 ≤ packet.lifetime_end.toNat + 5000 := by
  constructor
  · intro h identifier packet hfind
    have hfilter := h identifier
    rw [find_cleanup, hfind, Option.filter_some, Option.filter_some] at hfilter
    refine (expired_iff (hpos identifier packet hfind) current_timestamp).mp ?_
    by_cases hexp : packet.expired current_timestamp = true
    · have hlate : ¬ current_timestamp.toNat ≤ packet.lifetime_end.toNat + 5000 := by
        intro hle
        simp [hexp, hle] at hfilter
      exact iff_of_true hexp (Nat.lt_of_not_le hlate)
    · have hearly : current_timestamp.toNat ≤ packet.lifetime_end.toNat + 5000 := by
        by_contra hlate
        simp [hexp, hlate] at hfilter
      exact iff_of_false hexp (Nat.not_lt.mpr hearly)
  · intro h identifier
    rw [find_cleanup]
    cases hfind : st.find identifier with
    | none => rfl
    | some packet =>
      have hexp := (expired_iff (hpos identifier packet hfind) current_timestamp).mpr
        (h identifier packet hfind)
      rw [Option.filter_some, Option.filter_some]
      by_cases hlate : packet.lifetime_end.toNat + 5000 < current_timestamp.toNat
      · rw [hexp.mpr hlate, decide_eq_false (Nat.not_le.mpr hlate)]
        rfl
      · rw [Bool.eq_false_iff.mpr (fun h => hlate (hexp.mp h)),
          decide_eq_true (Nat.not_lt.mp hlate)]
        rfl

/-- What was given a lifetime that has not ended is stored, if no earlier `cleanup` went wrong. -/
theorem stored_of_given (hfinite : Finite evs) (hcollected : ∀ pre current_timestamp post,
      evs = pre ++ .cleanup current_timestamp :: post → CollectsExpired (run pre) current_timestamp)
    {largest t : UInt32} (hgiven : given identifier evs = some largest)
    (hclock : ∀ current_timestamp, .cleanup current_timestamp ∈ evs → current_timestamp ≤ t)
    (ht : t ≤ largest) :
    ((run evs).find identifier).isSome := by
  induction evs using List.reverseRecOn with
  | nil => simp [given] at hgiven
  | append_singleton evs ev ih =>
    have hbefore : Finite evs := hfinite.before rfl
    have ih := fun hgiven => ih hbefore
      (fun pre now post heq => hcollected pre now (post ++ [ev])
        (by rw [heq, List.append_assoc, List.cons_append]))
      hgiven (fun now hmem => hclock now (List.mem_append_left _ hmem))
    rw [run_snoc]
    rw [given_snoc] at hgiven
    cases ev with
    | insertOrRefresh identifier' lifetime_end code =>
      by_cases hid : identifier' = identifier
      · subst hid
        rw [step, find_insertOrRefresh_self]
        rfl
      · rw [find_step_insertOrRefresh_ne hid]
        rw [observe, if_neg hid] at hgiven
        exact ih hgiven
    | cleanup current_timestamp =>
      obtain ⟨packet, hfind⟩ := Option.isSome_iff_exists.mp (ih hgiven)
      have hlargest : largest = packet.lifetime_end :=
        Option.some.inj (hgiven.symm.trans (stored_given hbefore hfind).2)
      have hnow : current_timestamp ≤ packet.lifetime_end :=
        hlargest ▸ UInt32.le_trans (hclock current_timestamp (by simp)) ht
      have hearly : current_timestamp.toNat ≤ packet.lifetime_end.toNat + 5000 :=
        Nat.le_add_right_of_le (UInt32.le_iff_toNat_le.mp hnow)
      rw [step, hcollected evs current_timestamp [] rfl identifier, hfind, Option.filter_some,
        if_pos (by simpa using hearly)]
      rfl

end

/-- Packages are collected in time exactly if at every `cleanup` the sum of each lifetime and the
five seconds fits into the clock, or the clock has not come past what is left of the sum. -/
theorem timely_iff (evs : List Event) (hfinite : Finite evs) : Timely evs ↔
    ∀ pre current_timestamp post, evs = pre ++ .cleanup current_timestamp :: post →
      ∀ identifier packet, (run pre).find identifier = some packet →
        packet.lifetime_end.toNat + 5000 < 2 ^ 32 ∨
          current_timestamp.toNat + 2 ^ 32 ≤ packet.lifetime_end.toNat + 5000 := by
  have hpos : ∀ pre post, evs = pre ++ post →
      ∀ identifier packet, (run pre).find identifier = some packet →
      0 < packet.lifetime_end :=
    fun pre post heq identifier packet hfind => (stored_given (hfinite.before heq) hfind).1
  constructor
  · intro h pre current_timestamp post heq
    exact (collectsExpired_iff (hpos pre _ heq)).mp (h.collected pre current_timestamp post heq)
  · intro h
    have hcollected : ∀ pre current_timestamp post, evs = pre ++ .cleanup current_timestamp ::
        post →
        CollectsExpired (run pre) current_timestamp :=
      fun pre now post heq => (collectsExpired_iff (hpos pre _ heq)).mpr (h pre now post heq)
    refine ⟨?_, hcollected⟩
    intro pre post heq identifier largest t hgiven hclock ht
    refine stored_of_given (hfinite.before heq) ?_ hgiven hclock ht
    intro pre' now post' heq'
    exact hcollected pre' now (post' ++ post)
      (by rw [heq, heq', List.append_assoc, List.cons_append])

/-- A package is refreshed, and stays for five seconds more. -/
def refreshed : List Event :=
  [.insertOrRefresh ⟨"sensor", "1", "lua"⟩ 1000 (some "code"), .cleanup 6000,
    .insertOrRefresh ⟨"sensor", "1", "lua"⟩ 9000 none, .cleanup 14000, .cleanup 14001]

theorem timely_refreshed : Timely refreshed := by
  refine (timely_iff refreshed ?_).mpr ?_
  · intro identifier lifetime_end code hmem
    simp only [refreshed, List.mem_cons, Event.insertOrRefresh.injEq, reduceCtorEq,
      List.not_mem_nil, or_false, false_or] at hmem
    rcases hmem with ⟨-, rfl, -⟩ | ⟨-, rfl, -⟩
    · decide
    · decide
  · intro pre current_timestamp post heq identifier packet hfind
    obtain ⟨code, hmem⟩ := stored_lifetime hfind
    have hmem : .insertOrRefresh identifier packet.lifetime_end code ∈ refreshed := by
      rw [heq]
      exact List.mem_append_left _ hmem
    simp only [refreshed, List.mem_cons, Event.insertOrRefresh.injEq, reduceCtorEq,
      List.not_mem_nil, or_false, false_or] at hmem
    left
    rcases hmem with ⟨-, hend, -⟩ | ⟨-, hend, -⟩
    · rw [hend]
      decide
    · rw [hend]
      decide

/-- The lifetime of the package that the unit tests store comes to its end after five seconds. -/
theorem collected_early :
    (receiveCodeStore empty (codePackage (-1))).map (fun st => (st.find ⟨"sensor", "1", "lua"⟩,
        (st.cleanup 5000).find ⟨"sensor", "1", "lua"⟩)) =
          some (some ⟨4294967295, true, "code"⟩, none) ∧
      ¬ Timely [.insertOrRefresh ⟨"sensor", "1", "lua"⟩ 4294967295 (some "code"),
        .cleanup 5000] := by
  refine ⟨by decide, ?_⟩
  intro h
  have hkept := h.kept _ [] (List.append_nil _).symm ⟨"sensor", "1", "lua"⟩ 4294967295 5000 rfl
    (fun current_timestamp hmem => by simp_all) (by decide)
  revert hkept
  decide

end CodeStore

end UActor
