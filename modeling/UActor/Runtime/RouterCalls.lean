import UActor.PubSub.Winners
import UActor.Runtime.Scheduling

/-!
# The router below an executor

All that a step does to the router are calls of its two functions. So what holds of every run of the
router holds in every state of an executor.
-/

namespace UActor

open Router (Leads)

section

variable (P : Filter → SubscriptionArguments → Prop)

/-! ## What code asks for -/

def Call.Asks : Call → Prop
  | .subscribe f arguments => P f arguments
  | .unsubscribe _ | .addReplySubscription | .defferedBlockFor .. | .triggerCodeFetch | .publish _
  | .republish _ |
    .delayedPublish .. | .enqueueWakeup .. => True

def Behaviour.Asks (b : Behaviour) : Prop :=
  (∀ c ∈ b.construct, c.Asks P) ∧ (∀ c ∈ b.early.calls, c.Asks P) ∧ (∀ c ∈ b.late.calls, c.Asks P) ∧
    (∀ c ∈ b.wakeup.calls, c.Asks P) ∧ ∀ c ∈ b.receive.calls, c.Asks P

def Executor.Event.Asks : Executor.Event → Prop
  | .deliver _ _ b _ | .process b _ => b.Asks P
  | .others ev => ev.Asks P
  | .flush _ | .expire _ | .overwrite .. => True

end

section

variable {P : Filter → SubscriptionArguments → Prop}

instance [∀ f args, Decidable (P f args)] : (c : Call) → Decidable (c.Asks P)
  | .subscribe f args => inferInstanceAs (Decidable (P f args))
  | .unsubscribe _ | .addReplySubscription | .defferedBlockFor .. | .triggerCodeFetch | .publish _
  | .republish _ |
    .delayedPublish .. | .enqueueWakeup .. => isTrue trivial

instance [∀ f args, Decidable (P f args)] (b : Behaviour) : Decidable (b.Asks P) :=
  inferInstanceAs (Decidable ((∀ c ∈ b.construct, c.Asks P) ∧ (∀ c ∈ b.early.calls, c.Asks P) ∧
    (∀ c ∈ b.late.calls, c.Asks P) ∧ (∀ c ∈ b.wakeup.calls, c.Asks P) ∧ ∀ c ∈ b.receive.calls,
    c.Asks P))

instance [∀ f args, Decidable (P f args)] : (ev : Executor.Event) → Decidable (ev.Asks P)
  | .deliver _ _ b _ | .process b _ => inferInstanceAs (Decidable (b.Asks P))
  | .others ev => inferInstanceAs (Decidable (ev.Asks P))
  | .flush _ | .expire _ | .overwrite .. => isTrue trivial

/-! ## Actors -/

namespace Executor

variable {cfg : ExecutorSettings}

theorem leads_subscribe {f : Filter} {args : SubscriptionArguments} (hP : P f args) (s : Frame) :
    Leads cfg.board P s.2.hub.router (subscribe cfg s f args).2.hub.router := by
  unfold subscribe addSubscription
  split
  · exact .refl cfg.board P _
  · rename_i actor _
    exact Leads.step (.add f s.2.router_handle actor.identifier cfg.identifier.node_id args) hP

theorem leads_removeSubscription (e : Executor) (id : UInt32) (sub_id : Nat) :
    Leads cfg.board P e.hub.router (e.removeSubscription cfg id sub_id).hub.router := by
  unfold removeSubscription
  dsimp only
  split
  · exact Leads.step (.remove sub_id e.router_handle "") trivial
  · exact .refl cfg.board P _

theorem leads_release (e : Executor) (actor : ManagedActor) :
    Leads cfg.board P e.hub.router (e.release cfg actor).hub.router := by
  unfold release
  generalize actor.subscriptions = subscriptions
  induction subscriptions generalizing e with
  | nil => exact .refl cfg.board P _
  | cons sub_id subscriptions ih => exact (leads_removeSubscription e actor.id sub_id).trans (ih _)

theorem leads_dispose (r : Received) (task now : UInt32) :
    Leads cfg.board P r.frame.2.hub.router (dispose cfg task now r).hub.router := by
  unfold dispose
  split
  · exact leads_release { r.frame.2 with actors := Assoc.erase task r.frame.2.actors } r.frame.1
  · dsimp only
    split
    · exact .refl cfg.board P _
    · split <;> exact .refl cfg.board P _

section

variable (haddress : ∀ who, P (addressOf who) .default)

include haddress

theorem leads_call (cfg : ExecutorSettings) {c : Call} (hc : c.Asks P) (s : Frame) :
    Leads cfg.board P s.2.hub.router (call cfg s c).2.hub.router := by
  cases c with
  | subscribe f args => exact leads_subscribe hc s
  | addReplySubscription => exact leads_subscribe (haddress s.1.identifier) s
  | unsubscribe sub_id => exact leads_removeSubscription s.2 s.1.id sub_id
  | defferedBlockFor | triggerCodeFetch | publish | republish | delayedPublish | enqueueWakeup =>
    exact .refl cfg.board P _

theorem leads_perform (cfg : ExecutorSettings) {calls : List Call} (hcalls : ∀ c ∈ calls, c.Asks P)
    (s : Frame) :
    Leads cfg.board P s.2.hub.router (perform cfg s calls).2.hub.router := by
  induction calls generalizing s with
  | nil => exact .refl cfg.board P _
  | cons c calls ih =>
    have hfirst := leads_call haddress cfg (hcalls c List.mem_cons_self) s
    exact hfirst.trans (ih (fun d hd => hcalls d (List.mem_cons_of_mem _ hd)) _)

theorem leads_lateInitialize {r : Reaction} (hr : ∀ c ∈ r.calls, c.Asks P) (s : Frame) :
    Leads cfg.board P s.2.hub.router (lateInitialize cfg s r).frame.2.hub.router := by
  have hperform := leads_perform haddress cfg hr s
  unfold lateInitialize
  dsimp only
  split <;> exact hperform

theorem leads_receive {s : Frame} {b : Behaviour} {p : Publication} {hd : Handled}
    (hb : ∀ c ∈ b.receive.calls, c.Asks P) (h : receive cfg s b p = some hd) :
    Leads cfg.board P s.2.hub.router hd.frame.2.hub.router := by
  unfold receive at h
  split at h
  · obtain ⟨_, -, rfl⟩ := Option.map_eq_some_iff.mp h
    exact leads_perform haddress cfg hb s
  · cases h

theorem leads_handleMessage {s : Frame} {b : Behaviour} {p : Publication} {hd : Handled}
    (hb : b.Asks P) (h : handleMessage cfg s b p = some hd) :
    Leads cfg.board P s.2.hub.router hd.frame.2.hub.router := by
  obtain ⟨-, -, -, hwakeup, hreceive⟩ := hb
  have hwoken : Leads cfg.board P s.2.hub.router (wakeup cfg s b.wakeup).2.hub.router :=
    leads_perform haddress cfg hwakeup s
  unfold handleMessage at h
  split at h
  · exact leads_receive haddress hreceive h
  · dsimp only at h
    split at h
    · exact hwoken.trans (leads_receive haddress hreceive h)
    · exact hwoken.trans (leads_receive haddress hreceive h)
    · rw [← Option.some.inj h]
      exact hwoken
    · rw [← Option.some.inj h]
      exact hwoken

theorem leads_handle {s : Frame} {b : Behaviour} {p : Publication} {hd : Handled} (hb : b.Asks P)
    (h : handle cfg s b p = some hd) : Leads cfg.board P s.2.hub.router hd.frame.2.hub.router := by
  unfold handle at h
  split at h
  · unfold handleCode at h
    split at h
    · rw [← Option.some.inj h]
      exact .refl cfg.board P _
    · dsimp only at h
      split at h
      · obtain ⟨_, -, rfl⟩ := Option.map_eq_some_iff.mp h
        exact leads_lateInitialize haddress hb.2.2.1 ({ s.1 with waiting_for_code := false }, s.2)
      · obtain ⟨_, -, rfl⟩ := Option.map_eq_some_iff.mp h
        exact .refl cfg.board P _
  · split at h
    · rw [← Option.some.inj h]
      unfold retryCode
      split <;> exact .refl cfg.board P _
    · exact leads_handleMessage haddress hb h

/-! ## The loop -/

theorem leads_startActor (cfg : ExecutorSettings) (s : Frame) {b : Behaviour} (hb : b.Asks P)
    (now : UInt32) :
    Leads cfg.board P s.2.hub.router (startActor cfg s b now).hub.router := by
  have hreply : Leads cfg.board P s.2.hub.router
      (if cfg.reply_sub_optional then s else call cfg s .addReplySubscription).2.hub.router := by
    have hasks : Call.addReplySubscription.Asks P := trivial
    split
    · exact .refl cfg.board P _
    · exact leads_call haddress cfg hasks s
  unfold startActor
  dsimp only
  generalize (if cfg.reply_sub_optional then s else call cfg s .addReplySubscription) = s₁ at hreply
  have hearly := leads_perform haddress cfg hb.2.1 (s₁.1, s₁.2.publish s₁.1.creationMessage)
  split <;> exact hreply.trans hearly

theorem leads_addActorBase {e e' : Executor} {p : Publication} {b : Behaviour} {now : UInt32}
    (hb : b.Asks P) (h : e.addActorBase cfg p b now = some e') :
    Leads cfg.board P e.hub.router e'.hub.router := by
  unfold addActorBase at h
  split at h
  · rename_i node_id actor_type actor_version instance_id _ _ _ _
    dsimp only at h
    split at h
    · rw [← Option.some.inj h]
      exact .refl cfg.board P _
    · have hconstruct := leads_perform haddress cfg hb.1
        (ManagedActor.create e.next_id ⟨node_id, actor_type, instance_id⟩ actor_version,
          { e with next_id := e.next_id + 1 })
      generalize perform cfg (ManagedActor.create e.next_id ⟨node_id, actor_type, instance_id⟩
        actor_version, { e with next_id := e.next_id + 1 }) b.construct = s at h hconstruct
      have hstarted : Leads cfg.board P s.2.hub.router
          (startActor cfg (s.1, s.2.setActor e.next_id s.1) b now).hub.router :=
        leads_startActor haddress cfg (s.1, s.2.setActor e.next_id s.1) hb now
      rw [← Option.some.inj h]
      exact hconstruct.trans hstarted
  · cases h

theorem leads_process {e e' : Executor} {b : Behaviour} {now : UInt32} (hb : b.Asks P)
    (h : e.process cfg b now = some e') : Leads cfg.board P e.hub.router e'.hub.router := by
  cases process_cases h with
  | idle | gone => exact .refl cfg.board P _
  | ran task rest actor p queue hd hready hfind hqueue hhandle =>
    have hhandled := leads_handle haddress hb hhandle
    have hfinished : (finish p hd).frame.2.hub = hd.frame.2.hub := (finish_sameSubs p hd).hub
    have hdisposed : Leads cfg.board P _ (dispose cfg task now (finish p hd)).hub.router :=
      leads_dispose _ task now
    rw [hfinished] at hdisposed
    exact hhandled.trans hdisposed

omit haddress in
theorem offer_hub (e : Executor) (id : UInt32) (actor : ManagedActor) (p : Publication) :
    (e.offer id actor p).hub = e.hub := by
  unfold offer pushReady
  dsimp only
  split
  · split <;> rfl
  · rfl

omit haddress in
theorem offerAll_hub (e : Executor) (p : Publication) (count : Nat) (ids : List UInt32) :
    (offerAll p count ids e).hub = e.hub := by
  induction ids generalizing e count with
  | nil => rfl
  | cons id ids ih =>
    unfold offerAll
    split
    · exact ih e count
    · rw [ih, offer_hub]

omit haddress in
theorem flush_hub (e : Executor) (now : UInt32) : (e.flush now).hub = e.hub := by
  unfold flush
  split
  · rfl
  · split <;> rfl

omit haddress in
theorem expire_hub (e : Executor) (start : UInt32) : (e.expire start).hub = e.hub := by
  unfold expire
  split
  · rfl
  · split
    · dsimp only
      split
      · rfl
      · unfold pushReady
        split <;> rfl
    · rfl

theorem leads_step {e e' : Executor} {ev : Event} (hev : ev.Asks P) (h : e.step cfg ev = some e') :
    Leads cfg.board P e.hub.router e'.hub.router := by
  cases ev with
  | deliver sub_id p b now =>
    simp only [step, deliver] at h
    split at h
    · split at h
      · exact leads_addActorBase haddress hev h
      · cases h
    · rw [← Option.some.inj h, offerAll_hub]
      exact .refl cfg.board P _
  | flush now =>
    rw [← Option.some.inj h, flush_hub]
    exact .refl cfg.board P _
  | expire start =>
    rw [← Option.some.inj h, expire_hub]
    exact .refl cfg.board P _
  | process b now => exact leads_process haddress hev h
  | others ev =>
    simp only [step] at h
    split at h
    · cases h
    · obtain ⟨hub, hnext, rfl⟩ := Option.map_eq_some_iff.mp h
      exact Hub.leads_step hev hnext
  | overwrite id i p =>
    rw [← Option.some.inj h]
    unfold overwrite
    split <;> exact .refl cfg.board P _

theorem leads_create {hub : Hub} {handle : Nat} {e : Executor}
    (h : create cfg hub handle = some e) :
    Leads cfg.board P hub.router e.hub.router := by
  obtain ⟨hub', hstep, rfl⟩ := Option.map_eq_some_iff.mp h
  have hasks : (Hub.Event.create handle).Asks P := trivial
  have hcreated := Hub.leads_step hasks hstep
  exact hcreated.trans (Leads.step (.add (addressOf cfg.identifier) handle cfg.identifier
    cfg.board.NODE_ID .default) (haddress cfg.identifier))

end

end Executor

end

end UActor
