import UActor.Remote.Sequence
import UActor.Lib.Segments

/-!
# The path vector

The forwarders of a publication are a list joined with commas. `should_forward` searches it for
its partner as a substring.
-/

namespace UActor

open Segments (Delimited)

/-! ## The search -/

/-- The pattern is found at this place. -/
def OccursAt (pat s : List Char) (i : Nat) : Prop := i + pat.length ≤ s.length ∧ pat <+: s.drop i

theorem findFrom_some {pat s : List Char} {start i : Nat} (h : findFrom pat s start = some i) :
    start ≤ i ∧ OccursAt pat s i ∧ ∀ j, start ≤ j → j < i → ¬ OccursAt pat s j := by
  unfold findFrom at h
  obtain ⟨hi, -, hfirst⟩ := List.find?_range_eq_some.mp h
  simp only [Bool.and_eq_true, decide_eq_true_eq, List.isPrefixOf_iff_prefix] at hi
  refine ⟨hi.1, hi.2, fun j hstart hj hocc => ?_⟩
  have hno := hfirst j hj
  simp only [OccursAt, ← List.isPrefixOf_iff_prefix] at hocc
  simp [hstart, hocc.1, hocc.2] at hno

theorem findFrom_none {pat s : List Char} {start : Nat} (h : findFrom pat s start = none) :
    ∀ j, start ≤ j → ¬ OccursAt pat s j := by
  unfold findFrom at h
  rw [List.find?_range_eq_none] at h
  intro j hstart hocc
  have hno := h j (by have := hocc.1; omega)
  simp only [OccursAt, ← List.isPrefixOf_iff_prefix] at hocc
  simp [hstart, hocc.1, hocc.2] at hno

/-! ## The loop -/

/-- The test of both neighbours. -/
def Bounded (pat s : List Char) (i : Nat) : Prop :=
  (i = 0 ∨ s[i - 1]? = some ',') ∧ (i + pat.length = s.length ∨ s[i + pat.length]? = some ',')

/-- The loop finds a partner that stands between commas or ends, if there is one from `start` on. A
false hit moves it one character further, so it misses none. -/
theorem forwardedBy_iff {partner forwarders : List Char} (hne : partner ≠ []) (rounds start : Nat)
    (hrounds : forwarders.length < start + rounds) :
    forwardedBy partner forwarders rounds start = true ↔
      ∃ i, start ≤ i ∧ OccursAt partner forwarders i ∧ Bounded partner forwarders i := by
  have hpos := List.length_pos_of_ne_nil hne
  induction rounds generalizing start with
  | zero =>
    refine iff_of_false (by simp [forwardedBy]) ?_
    rintro ⟨i, hi, hocc, -⟩
    have := hocc.1
    omega
  | succ rounds ih =>
    unfold forwardedBy
    by_cases hlt : start < forwarders.length
    · rw [if_pos hlt]
      cases hfind : findFrom partner forwarders start with
      | none =>
        refine iff_of_false (by simp) ?_
        rintro ⟨i, hi, hocc, -⟩
        exact findFrom_none hfind i hi hocc
      | some pos =>
        obtain ⟨hstart, hocc, hfirst⟩ := findFrom_some hfind
        dsimp only
        split
        · rename_i hb
          exact iff_of_true rfl ⟨pos, hstart, hocc, hb⟩
        · rename_i hb
          refine (ih (pos + 1) (by omega)).trans ?_
          constructor
          · rintro ⟨i, hi, h⟩
            exact ⟨i, by omega, h⟩
          · rintro ⟨i, hi, hocci, hbi⟩
            refine ⟨i, ?_, hocci, hbi⟩
            -- the search stops at the first occurrence, and that one is no segment
            have hle : ¬ i < pos := fun hlt => hfirst i hi hlt hocci
            have hnepos : i ≠ pos := fun heq => hb (heq ▸ hbi)
            omega
    · rw [if_neg hlt]
      refine iff_of_false (by simp) ?_
      rintro ⟨i, hi, hocc, -⟩
      have := hocc.1
      omega

theorem delimited_iff_bounded (pat s : List Char) :
    Delimited ',' pat s ↔ ∃ i, OccursAt pat s i ∧ Bounded pat s i := by
  constructor
  · rintro ⟨pre, post, rfl, hpre, hpost⟩
    refine ⟨pre.length, ⟨by simp, by simp⟩, ?_, ?_⟩
    · rcases hpre with rfl | ⟨p, rfl⟩
      · exact Or.inl rfl
      · right
        simp
    · rcases hpost with rfl | ⟨q, rfl⟩
      · left
        simp
      · right
        simp
  · rintro ⟨i, ⟨hlen, rest, hrest⟩, hleft, hright⟩
    have hs : s = s.take i ++ pat ++ rest := by
      rw [List.append_assoc, hrest, List.take_append_drop]
    have hrest' : rest = s.drop (i + pat.length) := by
      have := congrArg (List.drop pat.length) hrest
      rwa [List.drop_left, List.drop_drop] at this
    refine ⟨s.take i, rest, hs, ?_, ?_⟩
    · rcases hleft with rfl | hleft
      · exact Or.inl (List.take_zero)
      · by_cases hi : i = 0
        · exact Or.inl (by rw [hi, List.take_zero])
        · refine Or.inr ⟨s.take (i - 1), ?_⟩
          have hi' : i = i - 1 + 1 := by omega
          rw [hi', List.take_add_one, Nat.add_sub_cancel, hleft]
          rfl
    · rcases hright with hright | hright
      · left
        rw [hrest', List.drop_eq_nil_iff]
        omega
      · right
        rw [hrest']
        obtain ⟨hlt, hget⟩ := List.getElem?_eq_some_iff.mp hright
        exact ⟨_, by rw [List.drop_eq_getElem_cons hlt, hget]⟩

/-- The loop without a bound on its rounds: it starts at `start` and ends with this result. -/
inductive Scan (partner forwarders : List Char) : Nat → Bool → Prop
  | atEnd {start : Nat} (hend : ¬ start < forwarders.length) : Scan partner forwarders start false
  | absent {start : Nat} (hlt : start < forwarders.length)
      (hfind : findFrom partner forwarders start = none) :
      Scan partner forwarders start false
  | hit {start pos : Nat} (hlt : start < forwarders.length)
      (hfind : findFrom partner forwarders start = some pos) (hb : Bounded partner forwarders pos) :
      Scan partner forwarders start true
  | falseHit {start pos : Nat} {found : Bool} (hlt : start < forwarders.length)
      (hfind : findFrom partner forwarders start = some pos) (hb : ¬ Bounded partner forwarders pos)
      (hrest : Scan partner forwarders (pos + 1) found) : Scan partner forwarders start found

theorem scan_ends (partner forwarders : List Char) (rounds start : Nat)
    (hrounds : forwarders.length < start + rounds) :
    Scan partner forwarders start (forwardedBy partner forwarders rounds start) := by
  induction rounds generalizing start with
  | zero => exact .atEnd (by omega)
  | succ rounds ih =>
    unfold forwardedBy
    by_cases hlt : start < forwarders.length
    · rw [if_pos hlt]
      cases hfind : findFrom partner forwarders start with
      | none => exact .absent hlt hfind
      | some pos =>
        have hstart := (findFrom_some hfind).1
        dsimp only
        split
        · rename_i hb
          exact .hit hlt hfind hb
        · rename_i hb
          exact .falseHit hlt hfind hb (ih (pos + 1) (by omega))
    · rw [if_neg hlt]
      exact .atEnd hlt

/-! ## The path -/

/-- The publication after `add_incomming_routing_fields` on a connection for each hop. -/
def alongHops (hops : List String) (p : Publication) : Option Publication :=
  hops.foldlM (fun p partner_node_id => addIncommingRoutingFields partner_node_id p) p

/-- The hops are listed in their order, and nothing else changes. -/
structure Listed (hops : List String) (p q : Publication) : Prop where
  hasAttr : q.hasAttr "_internal_forwarded_by" = true ↔ hops ≠ []
  forwarders : hops ≠ [] → ∃ forwarders :
    String, q.getStrAttr "_internal_forwarded_by" = some forwarders ∧
    forwarders.toList = [','].intercalate (hops.map String.toList)
  getStrAttr : ∀ name, name ≠ "_internal_forwarded_by" → q.getStrAttr name = p.getStrAttr name
  getIntAttr : ∀ name, name ≠ "_internal_forwarded_by" → q.getIntAttr name = p.getIntAttr name

theorem hasAttr_setAttr_self (p : Publication) (name : String) (v : Variant) :
    (p.setAttr name v).hasAttr name = true := by
  simp [Publication.hasAttr, Map.hasAttr]

theorem Listed.setAttr {hops hops' : List String} {p q : Publication} (h : Listed hops p q)
    (hne : hops' ≠ []) {forwarders : String}
    (hf : forwarders.toList = [','].intercalate (hops'.map String.toList)) :
    Listed hops' p (q.setAttr "_internal_forwarded_by" (.str forwarders)) := by
  refine ⟨iff_of_true (hasAttr_setAttr_self _ _ _) hne, fun _ => ⟨forwarders, by simp, hf⟩, ?_, ?_⟩
  · intro name hname
    rw [Publication.getStrAttr_setAttr_ne _ (Ne.symm hname), h.getStrAttr name hname]
  · intro name hname
    rw [Publication.getIntAttr_setAttr_ne _ (Ne.symm hname), h.getIntAttr name hname]

theorem Listed.add {hops : List String} {p q : Publication} (h : Listed hops p q) (hop : String) :
    ∃ q', addIncommingRoutingFields hop q = some q' ∧ Listed (hops ++ [hop]) p q' := by
  unfold addIncommingRoutingFields
  by_cases hnil : hops = []
  · have hno : ¬ q.hasAttr "_internal_forwarded_by" = true := fun hhas => h.hasAttr.mp hhas hnil
    rw [if_neg hno]
    exact ⟨_, rfl, h.setAttr (by simp) (by simp [hnil])⟩
  · obtain ⟨forwarders, hget, hlist⟩ := h.forwarders hnil
    rw [if_pos (h.hasAttr.mpr hnil), hget]
    refine ⟨_, rfl, h.setAttr (by simp) ?_⟩
    have hmap : hops.map String.toList ≠ [] := by simpa using hnil
    rw [List.map_append, List.map_singleton, Segments.intercalate_snoc hmap, ← hlist]
    simp

theorem alongHops_listed (hops : List String) {p : Publication}
    (hp : p.hasAttr "_internal_forwarded_by" = false) :
    ∃ q, alongHops hops p = some q ∧ Listed hops p q := by
  induction hops using List.reverseRecOn with
  | nil => exact ⟨p, rfl, ⟨by simp [hp], by simp, fun _ _ => rfl, fun _ _ => rfl⟩⟩
  | append_singleton hops hop ih =>
    obtain ⟨q, hq, hlisted⟩ := ih
    obtain ⟨q', hq', hlisted'⟩ := hlisted.add hop
    unfold alongHops at hq ⊢
    exact ⟨q', by rw [Runs.foldlM_snoc, hq]; exact hq', hlisted'⟩

/-- The search finds the nodes on the path, and only these. -/
theorem Listed.cameThrough {hops : List String} {p q : Publication} (h : Listed hops p q)
    {m : String} (hm : m ≠ "") (hcomma : ',' ∉ m.toList) (hhops : ∀ n ∈ hops, ',' ∉ n.toList) :
    cameThrough m q = some (decide (m ∈ hops)) := by
  have hne : m.toList ≠ [] := fun hnil => hm (String.toList_eq_nil_iff.mp hnil)
  unfold UActor.cameThrough
  by_cases hnil : hops = []
  · have hno : ¬ q.hasAttr "_internal_forwarded_by" = true := fun hhas => h.hasAttr.mp hhas hnil
    rw [if_neg hno, hnil]
    rfl
  · obtain ⟨forwarders, hget, hlist⟩ := h.forwarders hnil
    have hmem : m ∈ hops ↔ m.toList ∈ hops.map String.toList := by
      rw [List.mem_map]
      constructor
      · exact fun hin => ⟨m, hin, rfl⟩
      · rintro ⟨n, hn, heq⟩
        rwa [← String.toList_inj.mp heq]
    have hsegs : ∀ a ∈ hops.map String.toList, ',' ∉ a := by
      intro a ha
      obtain ⟨n, hn, rfl⟩ := List.mem_map.mp ha
      exact hhops n hn
    have hscan : forwardedBy m.toList forwarders.toList (forwarders.toList.length + 1) 0 =
        true ↔ _ :=
      forwardedBy_iff hne _ 0 (by omega)
    rw [if_pos (h.hasAttr.mpr hnil), hget, Option.map_some, Option.some.injEq,
      Bool.eq_iff_iff, hscan, decide_eq_true_eq, hmem, ← Segments.delimited_intercalate hcomma hne
        hsegs, ← hlist, delimited_iff_bounded]
    simp

/-- The scan ends on every string. After any hops, a connection that has not forwarded a publication
of the publisher refuses exactly if its partner is one of them. -/
theorem path_vector_exact :
    (∀ partner forwarders : String, Scan partner.toList forwarders.toList 0
      (forwardedBy partner.toList forwarders.toList (forwarders.toList.length + 1) 0)) ∧
    ∀ (hops : List String) (m : String) (p : Publication) (outgoing_sequence_infos : SequenceInfos)
      (now : UInt32), (∀ n ∈ hops, n ≠ "" ∧ ',' ∉ n.toList) → m ≠ "" → ',' ∉ m.toList →
      p.hasAttr "_internal_forwarded_by" = false →
      (∀ publisher, p.getStrAttr "publisher_node_id" = some publisher →
        Assoc.find publisher outgoing_sequence_infos = none) →
      ∃ q r, alongHops hops p = some q ∧ shouldForward m outgoing_sequence_infos now q = some r ∧
        (r.2 = false ↔ m ∈ hops) := by
  refine ⟨fun partner forwarders => scan_ends _ _ _ _ (by omega), ?_⟩
  intro hops m p outgoing_sequence_infos now hhops hm hcomma hp hfresh
  obtain ⟨q, hq, hlisted⟩ := alongHops_listed hops hp
  have hcame := hlisted.cameThrough hm hcomma fun n hn => (hhops n hn).2
  refine ⟨q, _, hq, by rw [shouldForward, hcame, Option.map_some], ?_⟩
  by_cases hin : m ∈ hops
  · simp [hin]
  · simp only [hin, decide_false, Bool.false_eq_true, if_false, iff_false, Bool.not_eq_false]
    split
    · rename_i publisher info hpub hinfo
      rw [hlisted.getStrAttr _ (by decide)] at hpub
      rw [Watermark.offer_snd, hfresh publisher hpub]
      rfl
    · rfl

/-- A partner whose id is an end of the hops before it. -/
theorem path_vector_exact_suffix :
    ∃ q r, alongHops ["ab", "cab"] (Strategies.stamped 7) = some q ∧
      shouldForward "b" [] 9 q = some r ∧
      (r.2 = false ↔ "b" ∈ ["ab", "cab"]) :=
  path_vector_exact.2 ["ab", "cab"] "b" (Strategies.stamped 7) [] 9 (by decide) (by decide)
    (by decide) (by decide) (fun _ _ => rfl)

end UActor
