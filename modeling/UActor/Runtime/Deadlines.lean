import Mathlib.Algebra.Group.Nat.Defs
import UActor.Runtime.BlockTimeouts

/-!
# Deadlines

The clock counts milliseconds modulo `2^32`, and so do the deadlines of delayed publications,
wakeups and blocks. A run is timed here: the clock readings of each round are those of some time in
it.
-/

namespace UActor

namespace Executor

/-! ## What waits for its deadline -/

inductive Entry where
  | delayed (d : UInt32 × Publication)
  | timeout (t : Timeout)

def Pending (e : Executor) : Entry → Prop
  | .delayed d => d ∈ e.delayed_messages
  | .timeout t => t ∈ e.timeouts

/-- The actor whose code runs in a step, the calls that it makes, and the clock after them. -/
def runs (e : Executor) : Event → Option (UInt32 × List Call × UInt32)
  | .process b now => e.next.map fun n => (n.1, callsFor n.2.1 b n.2.2, now)
  | .deliver sub_id _ b now =>
    if sub_id = e.executor_subscription_id ∧ Assoc.find e.next_id e.actors = none then
      some (e.next_id, b.construct ++ b.early.calls, now)
    else none
  | .flush _ | .expire _ | .others _ | .overwrite .. => none

/-- The users of the clock. -/
inductive Kind where
  | publication | wakeup | block

/-- An entry is set in a step, with a clock reading and a delay. -/
inductive Sets (e : Executor) (ev : Event) : Kind → UInt32 → UInt32 → Entry → Prop
  | publication {id : UInt32} {calls : List Call} {clock : UInt32}
      (hruns : e.runs ev = some (id, calls, clock)) {now delay : UInt32} {p : Publication}
      (hcall : .delayedPublish now p delay ∈ calls) :
      Sets e ev .publication now delay (.delayed (now + delay, p))
  | wakeup {id : UInt32} {calls : List Call} {clock : UInt32}
      (hruns : e.runs ev = some (id, calls, clock)) {now delay : UInt32} {wakeup_id : String}
      (hcall : .enqueueWakeup now delay wakeup_id ∈ calls) :
      Sets e ev .wakeup now delay (.timeout ⟨now + delay, id, true, wakeup_id⟩)
  | block {id : UInt32} {calls : List Call} {clock : UInt32}
      (hruns : e.runs ev = some (id, calls, clock)) {f : Filter} {delay : UInt32}
      (hblock : lastBlock calls = some (f, delay)) :
      Sets e ev .block clock delay (.timeout ⟨clock + delay, id, false, ""⟩)

/-- An entry is released in a step, with a clock reading. -/
inductive Releases (e : Executor) : Event → UInt32 → Entry → Prop
  | flush {now : UInt32} {d : UInt32 × Publication} (hhead : e.delayed_messages.head? = some d)
      (hdue : d.1 < now) :
      Releases e (.flush now) now (.delayed d)
  | expire {start : UInt32} {t : Timeout} (hhead : e.timeouts.head? = some t)
      (hdue : t.timeout < start) :
      Releases e (.expire start) start (.timeout t)

theorem Releases.pending {e : Executor} {ev : Event} {now : UInt32} {x : Entry}
    (h : Releases e ev now x) :
    e.Pending x := by
  cases h with
  | flush hhead => exact List.mem_of_mem_head? hhead
  | expire hhead => exact List.mem_of_mem_head? hhead

section

variable {cfg : ExecutorSettings} {e e' : Executor} {x : Entry}

theorem sets_of_schedules {ev : Event} {id : UInt32} {calls : List Call} {clock : UInt32}
    {s : Frame} (hruns : e.runs ev = some (id, calls, clock)) (h : Schedules id calls e s)
    (hx : s.2.Pending x) :
    e.Pending x ∨ ∃ k now delay, Sets e ev k now delay x := by
  cases x with
  | delayed d =>
    refine (h.delayed_messages d hx).imp_right ?_
    rintro ⟨now, p, delay, hcall, rfl⟩
    exact ⟨_, now, delay, .publication hruns hcall⟩
  | timeout t =>
    refine (h.timeouts t hx).imp_right ?_
    rintro ⟨now, delay, wakeup_id, hcall, rfl⟩
    exact ⟨_, now, delay, .wakeup hruns hcall⟩

theorem pending_addActorBase {sub_id : Nat} {p : Publication} {b : Behaviour} {now : UInt32}
    (hsub : sub_id = e.executor_subscription_id) (h : e.addActorBase cfg p b now = some e')
    (hx : e'.Pending x) :
    e.Pending x ∨ ∃ k clock delay, Sets e (.deliver sub_id p b now) k clock delay x := by
  rcases addActorBase_cases h with ⟨rfl, -⟩ | ⟨hfree, a, ha⟩
  · exact Or.inl (by cases x <;> exact hx)
  · have hruns : e.runs (.deliver sub_id p b now) = some (e.next_id, b.construct ++ b.early.calls,
        now) := by
      simp only [runs, if_pos (And.intro hsub hfree)]
    cases x with
    | delayed d =>
      refine (ha.delayed_messages d hx).imp_right ?_
      rintro ⟨clock, p, delay, hcall, rfl⟩
      exact ⟨_, clock, delay, .publication hruns hcall⟩
    | timeout t =>
      rcases ha.timeouts t hx with ht | ⟨clock, delay, wakeup_id, hcall, rfl⟩ | ⟨hmax, rfl⟩
      · exact Or.inl ht
      · exact Or.inr ⟨_, clock, delay, .wakeup hruns hcall⟩
      · obtain ⟨-, f, hblock⟩ := block_of_timeout ha.blocked hmax
        exact Or.inr ⟨_, now, a.timeout, .block hruns hblock⟩

theorem pending_process {b : Behaviour} {now : UInt32} (hids : Ready Any Any e)
    (h : e.process cfg b now = some e') (hx : e'.Pending x) :
    e.Pending x ∨ ∃ k clock delay, Sets e (.process b now) k clock delay x := by
  cases process_cases h with
  | idle => exact Or.inl hx
  | gone => exact Or.inl (by cases x <;> exact hx)
  | ran task rest actor p queue hd hready hfind hqueue hhandle =>
    have hruns : e.runs (.process b now) = some (task, callsFor actor b p, now) := by
      simp [runs, next, hready, hfind, hqueue]
    have hid : actor.id = task := (hids.every task actor hfind).1
    have hreceived : Schedules task (callsFor actor b p) { e with ready_queue := rest }
      (finish p hd).frame := by
      rw [← hid]
      exact schedules_received hhandle
    have hschedules : Schedules task (callsFor actor b p) e (finish p hd).frame :=
      ⟨hreceived.actor_id, hreceived.timeouts, hreceived.delayed_messages⟩
    cases x with
    | delayed d =>
      have hd' : d ∈ (dispose cfg task now (finish p hd)).delayed_messages := hx
      rw [(dispose_schedule cfg task now _).2] at hd'
      exact sets_of_schedules (x := .delayed d) hruns hschedules hd'
    | timeout t =>
      rcases mem_dispose_timeouts hx with ht | hown
      · exact sets_of_schedules (x := .timeout t) hruns hschedules ht
      · unfold ownTimeout at hown
        split at hown
        · rename_i hcond
          obtain ⟨hexit, hzero, hmax⟩ := hcond
          obtain ⟨htimeout, -, f, hblock⟩ := finish_timeout hhandle ⟨rfl, rfl⟩ hexit hzero hmax
          rw [htimeout] at hown
          rw [← Option.some.inj hown]
          exact Or.inr ⟨_, now, _, .block hruns hblock⟩
        · cases hown

theorem offer_schedule (id : UInt32) (a : ManagedActor) (p : Publication)
    (hx : (e.offer id a p).Pending x) :
    e.Pending x := by
  have hpush : ∀ e : Executor, (e.pushReady id).Pending x → e.Pending x := by
    intro e h
    unfold pushReady at h
    split at h <;> cases x <;> exact h
  have hset : (e.setActor id (a.enqueue p).1).Pending x → e.Pending x := by
    cases x <;> exact fun h => h
  unfold offer at hx
  dsimp only at hx
  split at hx
  · refine hset (hpush _ ?_)
    cases x with
    | delayed d => exact hx
    | timeout t => exact List.mem_of_mem_eraseP hx
  · exact hset hx

theorem offerAll_schedule {p : Publication} {count : Nat} {ids : List UInt32}
    (hx : (offerAll p count ids e).Pending x) :
    e.Pending x := by
  induction ids generalizing e count with
  | nil => exact hx
  | cons id ids ih =>
    unfold offerAll at hx
    split at hx
    · exact ih hx
    · exact offer_schedule _ _ _ (ih hx)

theorem flush_schedule {now : UInt32} (hx : (e.flush now).Pending x) : e.Pending x := by
  unfold flush at hx
  split at hx
  · exact hx
  · rename_i d rest hdelayed
    split at hx
    · cases x with
      | delayed d' =>
        have hd : d' ∈ rest := hx
        show d' ∈ e.delayed_messages
        rw [hdelayed]
        exact List.mem_cons_of_mem _ hd
      | timeout t => exact hx
    · exact hx

theorem expire_schedule {start : UInt32} (hx : (e.expire start).Pending x) : e.Pending x := by
  unfold expire at hx
  split at hx
  · exact hx
  · rename_i t rest htimeouts
    split at hx
    · have hrest : Executor.Pending { e with timeouts := rest } x → e.Pending x := by
        cases x with
        | delayed d => exact fun h => h
        | timeout u =>
          intro h
          show u ∈ e.timeouts
          rw [htimeouts]
          exact List.mem_cons_of_mem _ h
      dsimp only at hx
      split at hx
      · exact hrest hx
      · unfold pushReady at hx
        split at hx <;> exact hrest (by cases x <;> exact hx)
    · exact hx

theorem pending_step {ev : Event} (hids : Ready Any Any e) (h : e.step cfg ev = some e')
    (hx : e'.Pending x) :
    e.Pending x ∨ ∃ k now delay, Sets e ev k now delay x := by
  cases ev with
  | deliver sub_id p b now =>
    simp only [Executor.step, deliver] at h
    split at h
    · rename_i hsub
      split at h
      · exact pending_addActorBase hsub h hx
      · cases h
    · rw [← Option.some.inj h] at hx
      exact Or.inl (offerAll_schedule hx)
  | flush now =>
    rw [← Option.some.inj h] at hx
    exact Or.inl (flush_schedule hx)
  | expire start =>
    rw [← Option.some.inj h] at hx
    exact Or.inl (expire_schedule hx)
  | process b now => exact pending_process hids h hx
  | others ev =>
    simp only [Executor.step] at h
    split at h
    · cases h
    · obtain ⟨hub, -, rfl⟩ := Option.map_eq_some_iff.mp h
      exact Or.inl (by cases x <;> exact hx)
  | overwrite id i p =>
    rw [← Option.some.inj h] at hx
    unfold overwrite at hx
    split at hx
    · exact Or.inl hx
    · exact Or.inl (by cases x <;> exact hx)

end

/-! ## Time -/

/-- `BoardFunctions::timestamp`, at a time in milliseconds. -/
def timestamp (t : Nat) : UInt32 := .ofNat t

/-- A step of the loop, from a time to a time. -/
structure Round where
  event : Event
  start : Nat
  stop : Nat

namespace Round

/-- A clock reading of the round, at a time. -/
def Reads (r : Round) (now : UInt32) (t : Nat) : Prop :=
  r.start ≤ t ∧ t ≤ r.stop ∧ now = timestamp t

end Round

end Executor

/-- The clock readings in a call. -/
def Call.readings : Call → List UInt32
  | .delayedPublish now _ _ | .enqueueWakeup now _ _ => [now]
  | .subscribe .. | .unsubscribe _ | .addReplySubscription | .defferedBlockFor ..
  | .triggerCodeFetch | .publish _
  | .republish _ => []

def Behaviour.readings (b : Behaviour) : List UInt32 :=
  (b.construct ++ b.early.calls ++ b.late.calls ++ b.wakeup.calls ++ b.receive.calls).flatMap
    Call.readings

namespace Executor

def Event.readings : Event → List UInt32
  | .deliver _ _ b now | .process b now => now :: b.readings
  | .flush now | .expire now => [now]
  | .others _ | .overwrite .. => []

/-- The rounds follow each other in time, and read the clock. -/
def Clocked (rounds : List Round) : Prop :=
  (∀ r ∈ rounds, r.start ≤ r.stop ∧ ∀ now ∈ r.event.readings, ∃ t, r.Reads now t) ∧
    rounds.Pairwise fun r r' => r.stop ≤ r'.start

def round (cfg : ExecutorSettings) (e : Executor) (r : Round) : Option Executor :=
  e.step cfg r.event

/-- In one of these rounds, at this time and with this delay, the entry is set. -/
def SetBefore (cfg : ExecutorSettings) (init : Executor) (rounds : List Round) (k : Kind) (t₀ : Nat)
    (delay : UInt32) (x : Entry) : Prop :=
  ∃ pre r post e now, rounds = pre ++ r :: post ∧ pre.foldlM (round cfg) init = some e ∧
    Sets e r.event k now delay x ∧
    r.Reads now t₀

/-- In the last of these rounds, at this time, the entry is released. -/
def ReleasedAfter (cfg : ExecutorSettings) (init : Executor) (rounds : List Round) (r : Round)
    (t : Nat) (x : Entry) :
    Prop :=
  ∃ e now, rounds.foldlM (round cfg) init = some e ∧ Releases e r.event now x ∧ r.Reads now t

/-- Whatever is set at a time with a delay is released in time, in every run. -/
def OnTime (k : Kind) (t₀ : Nat) (delay : UInt32) : Prop :=
  ∀ cfg hub handle init rounds, create cfg hub handle = some init → Clocked rounds →
    ∀ pre r post t x, rounds = pre ++ r :: post → ReleasedAfter cfg init pre r t x →
    SetBefore cfg init pre k t₀ delay x →
      t₀ + delay.toNat ≤ t

section

variable {cfg : ExecutorSettings} {e : Executor} {ev : Event} {k : Kind} {now delay : UInt32}
  {x : Entry} {t₀ t : Nat}

theorem mem_readings {b : Behaviour} {c : Call} {now : UInt32} (hnow : now ∈ c.readings)
    (hc : c ∈ b.construct ++ b.early.calls ++ b.late.calls ++ b.wakeup.calls ++ b.receive.calls) :
    now ∈ b.readings :=
  List.mem_flatMap.mpr ⟨c, hc, hnow⟩

theorem mem_callsFor {a : ManagedActor} {b : Behaviour} {p : Publication} {c : Call}
    (h : c ∈ callsFor a b p) :
    c = .triggerCodeFetch ∨ c ∈ b.late.calls ∨ c ∈ b.wakeup.calls ∨ c ∈ b.receive.calls := by
  unfold callsFor at h
  split at h
  · split at h
    · exact Or.inr (Or.inl h)
    · cases h
  · split at h
    · split at h
      · exact Or.inl (List.mem_singleton.mp h)
      · cases h
    · split at h
      · exact Or.inr (Or.inr (Or.inr h))
      · split at h
        · exact (List.mem_append.mp h).elim (fun h => Or.inr (Or.inr (Or.inl h))) fun h =>
            Or.inr (Or.inr (Or.inr h))
        · exact (List.mem_append.mp h).elim (fun h => Or.inr (Or.inr (Or.inl h))) fun h =>
            Or.inr (Or.inr (Or.inr h))
        · exact Or.inr (Or.inr (Or.inl h))

theorem readings_of_runs {id : UInt32} {calls : List Call} {clock : UInt32}
    (h : e.runs ev = some (id, calls, clock)) :
    clock ∈ ev.readings ∧ ∀ c ∈ calls, ∀ now ∈ c.readings, now ∈ ev.readings := by
  cases ev with
  | process b now =>
    obtain ⟨n, -, heq⟩ := Option.map_eq_some_iff.mp h
    obtain ⟨-, heq⟩ := Prod.mk.inj heq
    obtain ⟨rfl, rfl⟩ := Prod.mk.inj heq
    refine ⟨List.mem_cons_self, fun c hc now' hnow => List.mem_cons_of_mem _ ?_⟩
    rcases mem_callsFor hc with rfl | hc
    · cases hnow
    · refine mem_readings hnow ?_
      simp only [List.mem_append]
      tauto
  | deliver sub_id p b now =>
    simp only [runs] at h
    split at h
    · obtain ⟨rfl, heq⟩ := Prod.mk.inj (Option.some.inj h)
      obtain ⟨rfl, rfl⟩ := Prod.mk.inj heq
      refine ⟨List.mem_cons_self, fun c hc now' hnow =>
        List.mem_cons_of_mem _ (mem_readings hnow ?_)⟩
      simp only [List.mem_append] at hc ⊢
      tauto
    · cases h
  | flush | expire | others | overwrite => cases h

theorem Sets.reads (h : Sets e ev k now delay x) : now ∈ ev.readings := by
  cases h with
  | publication hruns hcall => exact (readings_of_runs hruns).2 _ hcall _ (List.mem_singleton.mpr rfl)
  | wakeup hruns hcall => exact (readings_of_runs hruns).2 _ hcall _ (List.mem_singleton.mpr rfl)
  | block hruns => exact (readings_of_runs hruns).1

theorem Sets.deadline (h : Sets e ev k now delay x) {e' : Executor} {ev' : Event} {now' : UInt32}
    (hreleases : Releases e' ev' now' x) : now + delay < now' := by
  cases h with
  | publication => cases hreleases; assumption
  | wakeup => cases hreleases; assumption
  | block => cases hreleases; assumption

theorem due_of_lt (hle : t₀ ≤ t) (hwrap : t₀ % 2 ^ 32 + delay.toNat < 2 ^ 32)
    (hdue : timestamp t₀ + delay < timestamp t) :
    t₀ + delay.toNat ≤ t := by
  have hlt := UInt32.lt_iff_toNat_lt.mp hdue
  rw [UInt32.toNat_add] at hlt
  unfold timestamp at hlt
  simp only [UInt32.toNat_ofNat'] at hlt
  omega

theorem lt_of_wraps (hwrap : ¬ t₀ % 2 ^ 32 + delay.toNat < 2 ^ 32) :
    timestamp t₀ + delay < timestamp t₀ := by
  have hdelay := delay.toNat_lt
  rw [UInt32.lt_iff_toNat_lt, UInt32.toNat_add]
  unfold timestamp
  simp only [UInt32.toNat_ofNat']
  omega

theorem SetBefore.snoc {init : Executor} {rounds : List Round}
    (h : SetBefore cfg init rounds k t₀ delay x) (r : Round) :
    SetBefore cfg init (rounds ++ [r]) k t₀ delay x := by
  obtain ⟨pre, r₀, post, e, now, rfl, hrest⟩ := h
  exact ⟨pre, r₀, post ++ [r], e, now, by simp, hrest⟩

/-- Whatever is pending after some rounds was set in one of them. -/
theorem set_of_pending {hub : Hub} {handle : Nat} {init : Executor} {rounds : List Round}
    (hcreate : create cfg hub handle = some init)
    (hclock : ∀ r ∈ rounds, ∀ now ∈ r.event.readings, ∃ t, r.Reads now t)
    (hrun : rounds.foldlM (round cfg) init = some e) (hx : e.Pending x) :
    ∃ k t₀ delay, SetBefore cfg init rounds k t₀ delay x := by
  induction rounds using List.reverseRecOn generalizing e with
  | nil =>
    rw [← Option.some.inj hrun] at hx
    obtain ⟨_, -, rfl⟩ := Option.map_eq_some_iff.mp hcreate
    cases x with
    | delayed d => exact absurd hx List.not_mem_nil
    | timeout t => exact absurd hx List.not_mem_nil
  | append_singleton rounds r ih =>
    rw [Runs.foldlM_snoc] at hrun
    obtain ⟨e₀, hrun₀, hlast⟩ := Option.bind_eq_some_iff.mp hrun
    have hids : Ready Any Any e₀ := Runs.invariant (Ready Any Any) (ready_create hcreate).1
      (fun _ _ _ h hstep => h.any_step hstep) hrun₀
    have hlast : e₀.step cfg r.event = some e := hlast
    rcases pending_step hids hlast hx with hx | ⟨k, now, delay, hsets⟩
    · obtain ⟨k, t₀, delay, hset⟩ := ih (fun r hr => hclock r (List.mem_append_left _ hr)) hrun₀ hx
      exact ⟨k, t₀, delay, hset.snoc r⟩
    · obtain ⟨t₀, hread⟩ := hclock r (List.mem_append_right _ List.mem_cons_self) now hsets.reads
      exact ⟨k, t₀, delay, rounds, r, [], e₀, now, rfl, hrun₀, hsets, hread⟩

theorem onTime_of_not_wraps (hwrap : t₀ % 2 ^ 32 + delay.toNat < 2 ^ 32) : OnTime k t₀ delay := by
  rintro cfg hub handle init rounds hcreate ⟨-, hpairwise⟩ pre r post t x
    rfl ⟨e, now, -, hreleases, hread⟩ ⟨pre', r', post', e', now', rfl, -, hsets, hread'⟩
  have hle : r'.stop ≤ r.start := by
    rw [List.append_assoc, List.cons_append] at hpairwise
    have hlater := (List.pairwise_cons.mp (List.pairwise_append.mp hpairwise).2.1).1
    exact hlater r (List.mem_append_right _ List.mem_cons_self)
  have hdue := hsets.deadline hreleases
  rw [hread'.2.2, hread.2.2] at hdue
  exact due_of_lt (hread'.2.1.trans (hle.trans hread.1)) hwrap hdue

theorem not_onTime {init : Executor} {b : Behaviour} (hwrap : ¬ t₀ % 2 ^ 32 + delay.toNat < 2 ^ 32)
    (hcreate : create luaSettings (Hub.init ⟨"node", 3⟩) 1 = some init)
    (hstep : init.step luaSettings (.deliver 11 (spawnMessage "early") b (timestamp t₀)) = some e)
    (hb : ∀ now ∈ b.readings, now = timestamp t₀)
    (hsets : Sets init (.deliver 11 (spawnMessage "early") b (timestamp t₀)) k (timestamp t₀)
      delay x)
    (hev : ∀ now ∈ ev.readings, now = timestamp t₀) (hreleases : Releases e ev (timestamp t₀) x) :
    ¬ OnTime k t₀ delay := by
  intro h
  have hreads : ∀ ev, Round.Reads ⟨ev, t₀, t₀⟩ (timestamp t₀) t₀ :=
    fun _ => ⟨Nat.le_refl _, Nat.le_refl _, rfl⟩
  have hclocked : Clocked [⟨.deliver 11 (spawnMessage "early") b (timestamp t₀), t₀, t₀⟩,
      ⟨ev, t₀, t₀⟩] := by
    refine ⟨fun r hr => ?_, by simp⟩
    rcases List.mem_cons.mp hr with rfl | hr
    · refine ⟨Nat.le_refl _, fun now hnow => ⟨t₀, ?_⟩⟩
      rcases List.mem_cons.mp hnow with rfl | hnow
      · exact hreads _
      · rw [hb now hnow]
        exact hreads _
    · rw [List.mem_singleton.mp hr]
      refine ⟨Nat.le_refl _, fun now hnow => ⟨t₀, ?_⟩⟩
      rw [hev now hnow]
      exact hreads _
  have hearly := h luaSettings _ 1 init _ hcreate hclocked [_] ⟨ev, t₀, t₀⟩ [] t₀ x rfl
    ⟨e, timestamp t₀, (Runs.foldlM_singleton _ _ _).trans hstep, hreleases, hreads ev⟩
    ⟨[], _, [], init, timestamp t₀, rfl, rfl, hsets, hreads _⟩
  omega

theorem startActor_block {s : Frame} (hs : s.2.timeouts = []) (hdelay : delay < UINT32_MAX) :
    (startActor luaSettings s ⟨[], ⟨[.defferedBlockFor fooBar delay], .OK⟩, ⟨[], .OK⟩, ⟨[], .OK⟩,
      ⟨[], .OK⟩, false⟩ now).timeouts.head? = some ⟨now + delay, s.1.id, false, ""⟩ := by
  have hperform : ∀ s : Frame, perform luaSettings s [.defferedBlockFor fooBar delay] =
      (s.1.defferedBlockFor fooBar delay, s.2) := fun _ => rfl
  unfold startActor
  dsimp only
  rw [hperform]
  dsimp only
  rw [if_pos (show (ManagedActor.defferedBlockFor _ fooBar delay).timeout < UINT32_MAX from hdelay)]
  have hreply : (call luaSettings s .addReplySubscription).2.timeouts = s.2.timeouts := by
    unfold call subscribe addSubscription
    dsimp only
    split <;> rfl
  have hemplace : ∀ t : Timeout, t.emplace [] = [t] := fun _ => rfl
  show (Timeout.emplace _ (call luaSettings s .addReplySubscription).2.timeouts).head? = _
  rw [hreply, hs, hemplace]
  rfl

theorem onTime_iff (k : Kind) (t₀ : Nat) (delay : UInt32) (hdelay : delay.toNat < 2 ^ 31) :
    OnTime k t₀ delay ↔ t₀ % 2 ^ 32 + delay.toNat < 2 ^ 32 := by
  refine ⟨fun h => ?_, onTime_of_not_wraps⟩
  by_contra hwrap
  have hdue := lt_of_wraps hwrap
  cases k with
  | publication =>
    refine not_onTime hwrap (b := ⟨[.delayedPublish (timestamp t₀) (spawnMessage "late") delay],
      ⟨[], .OK⟩, ⟨[], .OK⟩, ⟨[], .OK⟩, ⟨[], .OK⟩, false⟩) rfl rfl ?_
        (.publication rfl List.mem_cons_self) ?_
      (.flush rfl hdue) h
    · simp [Behaviour.readings, Call.readings]
    · simp [Event.readings]
  | wakeup =>
    refine not_onTime hwrap (b :=
      ⟨[.enqueueWakeup (timestamp t₀) delay "late"], ⟨[], .OK⟩, ⟨[], .OK⟩, ⟨[], .OK⟩, ⟨[], .OK⟩,
        false⟩) rfl rfl ?_ (.wakeup rfl List.mem_cons_self) ?_
      (.expire rfl hdue) h
    · simp [Behaviour.readings, Call.readings]
    · simp [Event.readings]
  | block =>
    have hmax : delay < UINT32_MAX := by
      rw [UInt32.lt_iff_toNat_lt]
      exact hdelay.trans (by decide)
    refine not_onTime hwrap (b := ⟨[], ⟨[.defferedBlockFor fooBar delay], .OK⟩,
      ⟨[], .OK⟩, ⟨[], .OK⟩, ⟨[], .OK⟩, false⟩) rfl rfl
      ?_ (.block rfl rfl) ?_ (.expire (startActor_block rfl hmax) hdue) h
    · simp [Behaviour.readings, Call.readings]
    · simp [Event.readings]

/-- What is set at a time with a delay is released in time by every run if and only if its deadline
does not wrap, and whatever is released was set before. -/
theorem released_in_time_iff (t₀ : Nat) (delay : UInt32) (hdelay : delay.toNat < 2 ^ 31) :
    (∀ k, OnTime k t₀ delay ↔ t₀ % 2 ^ 32 + delay.toNat < 2 ^ 32) ∧
    ∀ cfg hub handle init rounds, create cfg hub handle = some init → Clocked rounds →
      ∀ pre r post t x, rounds = pre ++ r :: post → ReleasedAfter cfg init pre r t x →
        ∃ k t₁ delay, SetBefore cfg init pre k t₁ delay x := by
  refine ⟨fun k => onTime_iff k t₀ delay hdelay, ?_⟩
  rintro cfg hub handle init rounds hcreate hclocked pre r post t x rfl ⟨e, now, hrun, hreleases, -⟩
  exact set_of_pending hcreate (fun r hr => (hclocked.1 r (List.mem_append_left _ hr)).2) hrun
    hreleases.pending

/-- A second after the start. -/
theorem released_in_time_second :
    OnTime .publication 1000 500 ∧ OnTime .wakeup 1000 500 ∧ OnTime .block 1000 500 := by
  have h : ∀ k, OnTime k 1000 500 := fun k => ((released_in_time_iff 1000 500 (by decide)).1 k).mpr
    (by decide)
  exact ⟨h _, h _, h _⟩

/-- The last millisecond before the clock wraps. -/
theorem released_early :
    ¬ OnTime .publication 4294967295 500 ∧ ¬ OnTime .wakeup 4294967295 500 ∧
    ¬ OnTime .block 4294967295 500 := by
  have h : ∀ k, ¬ OnTime k 4294967295 500 :=
    fun k h => absurd ((onTime_iff k 4294967295 500 (by decide)).mp h) (by decide)
  exact ⟨h _, h _, h _⟩

end

end Executor

end UActor
