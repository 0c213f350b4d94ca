import UActor.Runtime.ArrivalOrder
import UActor.Runtime.Wrappers

/-!
# Local fan-out

The loop of `Executor::event_loop` over the receivers of a publication, with the objects that it
copies and moves. The executor is what is seen through these objects.
-/

namespace UActor

namespace FanOut

open Objects

/-- What is read of an object. One that was moved from has no map, and a map has each name once. -/
def read (objects : Objects) (obj : Nat) : Option Publication :=
  (objects.source obj).bind fun e => if h : (Assoc.keys e.2).Nodup then some ⟨e.2, h⟩ else none

/-- What the loop uses of an actor. The queue holds objects. -/
structure Recipient where
  waiting : Bool
  pattern : Filter
  message_queue : List Nat

/-- `ManagedActor::enqueue`. It reads the message, and then moves it into the queue. -/
def Recipient.enqueue (objects : Objects) (actor : Recipient) (message : Nat) :
    Option (Objects × Recipient × Bool) :=
  (read objects message).bind fun p => (objects.moveConstruct message).map fun moved =>
    let front : Recipient := { actor with message_queue := objects.handles.length ::
      actor.message_queue }
    let back : Recipient := { actor with message_queue := actor.message_queue ++
      [objects.handles.length] }
    if ManagedActor.isExit p then (moved, front, true)
    else if actor.waiting then
      if actor.pattern.matches p then (moved, front, true) else (moved, back, false)
    else (moved, back, true)

/-- What the loop uses of the executor. -/
structure EventLoop where
  objects : Objects
  actors : List (UInt32 × Recipient)
  subscription_mapping : List (Nat × List UInt32)
  ready_queue : List UInt32
  timeouts : List Timeout

namespace EventLoop

def pushReady (s : EventLoop) (id : UInt32) : EventLoop :=
  { s with ready_queue := if id ∈ s.ready_queue then s.ready_queue else s.ready_queue ++ [id] }

def dropTimeout (s : EventLoop) (id : UInt32) : EventLoop :=
  { s with timeouts := s.timeouts.eraseP fun t => t.actor_id = id ∧ t.user_defined = false }

/-- The object `to_send` goes to one of the receivers. -/
def offer (s : EventLoop) (id : UInt32) (actor : Recipient) (to_send : Nat) : Option EventLoop :=
  (actor.enqueue s.objects to_send).map fun (objects, actor, ready) =>
    let s := { s with objects := objects, actors := Assoc.put id actor s.actors }
    if ready then (s.pushReady id).dropTimeout id else s

/-- The loop over the receivers. One that is gone is not counted down. -/
def fanOut (obj : Nat) : Nat → List UInt32 → EventLoop → Option EventLoop
  | _, [], s => some s
  | receiver_count, id :: ids, s =>
    match Assoc.find id s.actors with
    | none => fanOut obj receiver_count ids s
    | some actor =>
      (if receiver_count = 1 then s.objects.moveConstruct obj else s.objects.copyConstruct obj).bind
        fun objects =>
        (offer { s with objects := objects } id actor s.objects.handles.length).bind
          (fanOut obj (receiver_count - 1) ids)

/-- The branch for a publication that is not for the executor itself. -/
def receive (s : EventLoop) (subscription_id obj : Nat) : Option EventLoop :=
  let receivers := Multimap.members subscription_id s.subscription_mapping
  fanOut obj receivers.length receivers s

def Queued (s : EventLoop) (k : Nat) : Prop :=
  ∃ id actor, Assoc.find id s.actors = some actor ∧ k ∈ actor.message_queue

end EventLoop

/-! ## What is seen through the objects -/

structure Recipient.Shows (objects : Objects) (r : Recipient) (a : ManagedActor) : Prop where
  waiting : r.waiting = a.waiting
  pattern : r.pattern = a.pattern
  message_queue : r.message_queue.map (read objects) = a.message_queue.map some

/-- No object in a queue was moved from, and they are the messages of the executor. -/
structure EventLoop.Shows (s : EventLoop) (e : Executor) : Prop where
  present : ∀ id, (Assoc.find id s.actors).isSome = (Assoc.find id e.actors).isSome
  actors : ∀ id r a, Assoc.find id s.actors = some r → Assoc.find id e.actors = some a →
    r.Shows s.objects a
  subscription_mapping : s.subscription_mapping = e.subscription_mapping
  ready_queue : s.ready_queue = e.ready_queue
  timeouts : s.timeouts = e.timeouts

/-- Each of the receivers that is still there has the publication once more, and nothing else is new
in a queue. -/
structure Complete (ids : List UInt32) (p : Publication) (e e' : Executor) : Prop where
  received : ∀ id ∈ ids, ∀ actor, Assoc.find id e.actors = some actor →
    ∃ queue, (queue = p :: actor.message_queue ∨ queue = actor.message_queue ++ [p]) ∧
      Assoc.find id e'.actors = some { actor with message_queue := queue }
  others : ∀ id ∉ ids, Assoc.find id e'.actors = Assoc.find id e.actors
  gone : ∀ id, Assoc.find id e.actors = none → Assoc.find id e'.actors = none
  ready : e.ready_queue.Nodup → ∀ id ∈ ids, ∀ actor, Assoc.find id e.actors = some actor →
    (actor.enqueue p).2 = true → e'.ready_queue.count id = 1

/-! ## Copies and moves -/

section Copies

variable {objects : Objects} {obj : Nat} {p : Publication}

theorem read_eq_some : read objects obj = some p ↔
    ∃ r, objects.source obj = some (r, p.attributes) := by
  unfold read
  rw [Option.bind_eq_some_iff]
  constructor
  · rintro ⟨⟨r, m⟩, hsource, heq⟩
    split at heq
    · obtain rfl := Option.some.inj heq
      exact ⟨r, hsource⟩
    · cases heq
  · rintro ⟨r, hsource⟩
    exact ⟨(r, p.attributes), hsource, dif_pos p.unique⟩

theorem lt_of_read (h : read objects obj = some p) : obj < objects.handles.length := by
  obtain ⟨r, hsource⟩ := read_eq_some.mp h
  exact (lt_of_source hsource).1

theorem read_moveConstruct (h : read objects obj = some p) :
    ∃ objects', objects.moveConstruct obj = some objects' ∧
      read objects' objects.handles.length = some p ∧
      ∀ k q, k ≠ obj → read objects k = some q → read objects' k = some q := by
  obtain ⟨r, hsource⟩ := read_eq_some.mp h
  obtain ⟨x, hx, -, -⟩ := source_eq_some.mp hsource
  refine ⟨_, by rw [moveConstruct, hx]; rfl, ?_⟩
  obtain ⟨hold, hnew⟩ := source_moveConstruct hsource (by rw [moveConstruct, hx]; rfl)
  refine ⟨read_eq_some.mpr ⟨r, hnew⟩, fun k q hk hq => ?_⟩
  obtain ⟨r', hq⟩ := read_eq_some.mp hq
  exact read_eq_some.mpr ⟨r', hold k _ hk hq⟩

theorem read_copyConstruct (h : read objects obj = some p)
    (hplain : Map.plain p.attributes = true) :
    ∃ objects', objects.copyConstruct obj = some objects' ∧
      read objects' objects.handles.length = some p ∧
      ∀ k q, read objects k = some q → read objects' k = some q := by
  obtain ⟨r, hsource⟩ := read_eq_some.mp h
  have hsome : (objects.copyConstruct obj).isSome = true := by simp [copyConstruct, copyOf, hsource]
  obtain ⟨objects', hcopy⟩ := Option.isSome_iff_exists.mp hsome
  obtain ⟨hold, hnew⟩ := source_copyConstruct hsource hcopy
  have hattributes : (objects.copyOfSource (r, p.attributes)).2 = p.attributes := by
    unfold copyOfSource
    split
    · exact Map.copy_of_plain _ hplain
    · rfl
  refine ⟨objects', hcopy, read_eq_some.mpr
    ⟨_, hnew.trans (congrArg some (Prod.ext rfl hattributes))⟩, ?_⟩
  intro k q hq
  obtain ⟨r', hq⟩ := read_eq_some.mp hq
  exact read_eq_some.mpr ⟨r', hold k _ hq⟩

end Copies

/-! ## One receiver -/

namespace Recipient.Shows

variable {objects objects' : Objects} {r : Recipient} {a : ManagedActor}

theorem read_queued (h : r.Shows objects a) {k : Nat} (hk : k ∈ r.message_queue) :
    ∃ q, read objects k = some q := by
  have hmem : read objects k ∈ a.message_queue.map some := h.message_queue ▸ List.mem_map_of_mem hk
  obtain ⟨q, -, hq⟩ := List.mem_map.mp hmem
  exact ⟨q, hq.symm⟩

theorem mono (h : r.Shows objects a)
    (hkeep : ∀ k ∈ r.message_queue, ∀ q, read objects k = some q → read objects' k = some q) :
    r.Shows objects' a := by
  refine ⟨h.waiting, h.pattern, ?_⟩
  rw [← h.message_queue]
  apply List.map_congr_left
  intro k hk
  obtain ⟨q, hq⟩ := h.read_queued hk
  rw [hq, hkeep k hk q hq]

theorem enqueue (h : r.Shows objects a) {message : Nat} {p : Publication}
    (hread : read objects message = some p) (hlocal : message ∉ r.message_queue) :
    ∃ objects' r', r.enqueue objects message = some (objects', r', (a.enqueue p).2) ∧
      r'.Shows objects' (a.enqueue p).1 ∧ (∀ k ∈ r'.message_queue, k = objects.handles.length ∨
        k ∈ r.message_queue) ∧
      ∀ k q, k ≠ message → read objects k = some q → read objects' k = some q := by
  obtain ⟨waiting, pattern, queue⟩ := r
  obtain rfl : waiting = a.waiting := h.waiting
  obtain rfl : pattern = a.pattern := h.pattern
  obtain ⟨objects', hmove, hnew, hold⟩ := read_moveConstruct hread
  have hkept : queue.map (read objects') = a.message_queue.map some :=
    (h.mono fun k hk q hq => hold k q (fun heq => hlocal (heq ▸ hk)) hq).message_queue
  have hfront : Recipient.Shows objects' ⟨a.waiting, a.pattern, objects.handles.length :: queue⟩
      { a with message_queue := p :: a.message_queue } := ⟨rfl, rfl, by simp [hnew, hkept]⟩
  have hback : Recipient.Shows objects' ⟨a.waiting, a.pattern, queue ++ [objects.handles.length]⟩
      { a with message_queue := a.message_queue ++ [p] } := ⟨rfl, rfl, by simp [hnew, hkept]⟩
  have hmem : ∀ k ∈ queue ++ [objects.handles.length], k = objects.handles.length ∨ k ∈ queue := by
    intro k hk
    simpa [or_comm] using hk
  unfold Recipient.enqueue ManagedActor.enqueue
  rw [hread, Option.bind_some, hmove, Option.map_some]
  dsimp only
  split
  · exact ⟨objects', _, rfl, hfront, fun k hk => List.mem_cons.mp hk, hold⟩
  · split
    · split
      · exact ⟨objects', _, rfl, hfront, fun k hk => List.mem_cons.mp hk, hold⟩
      · exact ⟨objects', _, rfl, hback, hmem, hold⟩
    · exact ⟨objects', _, rfl, hback, hmem, hold⟩

end Recipient.Shows

namespace EventLoop.Shows

variable {s : EventLoop} {e : Executor}

theorem find_isSome (h : s.Shows e) {id : UInt32} {r : Recipient}
    (hr : Assoc.find id s.actors = some r) :
    ∃ a, Assoc.find id e.actors = some a := by
  have hpresent := h.present id
  rw [hr] at hpresent
  exact Option.isSome_iff_exists.mp hpresent.symm

theorem queued_lt (h : s.Shows e) {k : Nat} (hk : s.Queued k) : k < s.objects.handles.length := by
  obtain ⟨id, r, hr, hk⟩ := hk
  obtain ⟨a, ha⟩ := h.find_isSome hr
  obtain ⟨q, hq⟩ := (h.actors id r a hr ha).read_queued hk
  exact lt_of_read hq

theorem mono (h : s.Shows e) {objects : Objects}
    (hkeep : ∀ k q, s.Queued k → read s.objects k = some q → read objects k = some q) :
    Shows { s with objects := objects } e :=
  ⟨h.present, fun id r a hr ha => (h.actors id r a hr ha).mono fun k hk q =>
    hkeep k q ⟨id, r, hr, hk⟩, h.subscription_mapping, h.ready_queue, h.timeouts⟩

theorem setActor (h : s.Shows e) (id : UInt32) {r : Recipient} {a : ManagedActor}
    (hshows : r.Shows s.objects a) :
    Shows { s with actors := Assoc.put id r s.actors } (e.setActor id a) := by
  refine ⟨fun id' => ?_, fun id' r' a' hr ha => ?_, h.subscription_mapping, h.ready_queue,
    h.timeouts⟩
  · unfold Executor.setActor
    rw [Assoc.find_put, Assoc.find_put]
    split
    · rfl
    · exact h.present id'
  · unfold Executor.setActor at ha
    rw [Assoc.find_put] at hr ha
    split at hr
    · rename_i hid
      rw [if_pos hid] at ha
      obtain rfl := Option.some.inj hr
      obtain rfl := Option.some.inj ha
      exact hshows
    · rename_i hid
      rw [if_neg hid] at ha
      exact h.actors id' r' a' hr ha

theorem pushReady (h : s.Shows e) (id : UInt32) : (s.pushReady id).Shows (e.pushReady id) := by
  unfold EventLoop.pushReady Executor.pushReady
  rw [h.ready_queue]
  split
  · exact ⟨h.present, h.actors, h.subscription_mapping, rfl, h.timeouts⟩
  · exact ⟨h.present, h.actors, h.subscription_mapping, rfl, h.timeouts⟩

theorem dropTimeout (h : s.Shows e) (id : UInt32) :
    (s.dropTimeout id).Shows (e.dropTimeout id) := by
  refine ⟨h.present, h.actors, h.subscription_mapping, h.ready_queue, ?_⟩
  unfold EventLoop.dropTimeout Executor.dropTimeout
  rw [h.timeouts]

theorem offer (h : s.Shows e) {id : UInt32} {r : Recipient} {a : ManagedActor}
    (hr : Assoc.find id s.actors = some r) (ha : Assoc.find id e.actors = some a) {to_send : Nat}
    {p : Publication} (hread : read s.objects to_send = some p) (hlocal : ¬ s.Queued to_send) :
    ∃ s', s.offer id r to_send = some s' ∧ s'.Shows (e.offer id a p) ∧
      (∀ k q, k ≠ to_send → read s.objects k = some q → read s'.objects k = some q) ∧
      ∀ k, s'.Queued k → k = s.objects.handles.length ∨ s.Queued k := by
  obtain ⟨objects', r', henqueue, hshows, hqueue, hold⟩ :=
    (h.actors id r a hr ha).enqueue hread fun hk => hlocal ⟨id, r, hr, hk⟩
  have hkept : Shows { s with objects := objects' } e :=
    h.mono fun k q hk => hold k q fun heq => hlocal (heq ▸ hk)
  have hset := hkept.setActor id hshows
  have hqueued : ∀ k, Queued { s with objects := objects', actors := Assoc.put id r' s.actors } k →
      k = s.objects.handles.length ∨ s.Queued k := by
    rintro k ⟨id', r'', hr'', hk⟩
    rw [Assoc.find_put] at hr''
    split at hr''
    · obtain rfl := Option.some.inj hr''
      exact (hqueue k hk).imp_right fun hk => ⟨id, r, hr, hk⟩
    · exact Or.inr ⟨id', r'', hr'', hk⟩
  unfold EventLoop.offer Executor.offer
  rw [henqueue, Option.map_some]
  dsimp only
  split
  · exact ⟨_, rfl, (hset.pushReady id).dropTimeout id, hold, hqueued⟩
  · exact ⟨_, rfl, hset, hold, hqueued⟩

/-! ## The loop over the receivers -/

/-- The object is moved only if no receiver is left, so that every turn finds it as it was. -/
theorem fanOut (h : s.Shows e) {obj : Nat} {p : Publication} (hread : read s.objects obj = some p)
    (hlocal : ¬ s.Queued obj) (hplain : Map.plain p.attributes = true) {count : Nat}
    {ids : List UInt32} (hcount : ids.length ≤ count) :
    ∃ s', EventLoop.fanOut obj count ids s = some s' ∧
    s'.Shows (Executor.offerAll p count ids e) := by
  induction ids generalizing s e count with
  | nil => exact ⟨s, rfl, h⟩
  | cons id ids ih =>
    rw [List.length_cons] at hcount
    unfold EventLoop.fanOut Executor.offerAll
    cases hr : Assoc.find id s.actors with
    | none =>
      have ha : Assoc.find id e.actors = none := by
        have hpresent := h.present id
        rw [hr] at hpresent
        exact Option.isNone_iff_eq_none.mp (by simpa using hpresent.symm)
      rw [ha]
      exact ih h hread hlocal (by omega)
    | some r =>
      obtain ⟨a, ha⟩ := h.find_isSome hr
      rw [ha]
      dsimp only
      have hfresh : ¬ s.Queued s.objects.handles.length :=
        fun hk => Nat.lt_irrefl _ (h.queued_lt hk)
      by_cases hlast : count = 1
      · obtain rfl : ids = [] := List.length_eq_zero_iff.mp (by omega)
        rw [if_pos hlast, if_pos hlast]
        obtain ⟨objects, hmove, hnew, hold⟩ := read_moveConstruct hread
        have hmoved : Shows { s with objects := objects } e :=
          h.mono fun k q hk => hold k q fun heq => hlocal (heq ▸ hk)
        obtain ⟨s', hoffer, hshows, -, -⟩ := hmoved.offer hr ha hnew hfresh
        rw [hmove, Option.bind_some, hoffer, Option.bind_some]
        exact ⟨s', rfl, hshows⟩
      · rw [if_neg hlast, if_neg hlast, Publication.copy_eq_of_plain hplain]
        obtain ⟨objects, hcopy, hnew, hold⟩ := read_copyConstruct hread hplain
        have hcopied : Shows { s with objects := objects } e := h.mono fun k q _ => hold k q
        obtain ⟨s', hoffer, hshows, hkept, hqueued⟩ := hcopied.offer hr ha hnew hfresh
        rw [hcopy, Option.bind_some, hoffer, Option.bind_some]
        have hlt := lt_of_read hread
        have hlt' : s.objects.handles.length < objects.handles.length := lt_of_read hnew
        refine ih hshows (hkept obj p (by omega) (hold obj p hread)) (fun hk => ?_) (by omega)
        rcases hqueued obj hk with heq | hk
        · replace heq : obj = objects.handles.length := heq
          omega
        · exact hlocal hk

end EventLoop.Shows

/-! ## Every executor has its objects -/

/-- An object for each of the publications. -/
def objectsOf (ps : List Publication) : Objects :=
  ⟨ps.map Publication.attributes, (List.range ps.length).map fun i => ⟨some i, false⟩⟩

theorem read_objectsOf {ps : List Publication} {i : Nat} {p : Publication} (h : ps[i]? = some p) :
    read (objectsOf ps) i = some p := by
  obtain ⟨hlt, -⟩ := List.getElem?_eq_some_iff.mp h
  refine read_eq_some.mpr ⟨i, source_eq_some.mpr ⟨⟨some i, false⟩, ?_, rfl, ?_⟩⟩
  · simp [objectsOf, hlt]
  · simp [objectsOf, h]

def messages (e : Executor) : List Publication := e.actors.flatMap fun x => x.2.message_queue

def recipientOf (place : Publication → Nat) (a : ManagedActor) : Recipient :=
  ⟨a.waiting, a.pattern, a.message_queue.map place⟩

/-- The loop of an executor whose messages are in these places. -/
def loopOf (objects : Objects) (place : Publication → Nat) (e : Executor) : EventLoop :=
  ⟨objects, e.actors.map fun x => (x.1, recipientOf place x.2), e.subscription_mapping,
    e.ready_queue, e.timeouts⟩

theorem find_loopOf (objects : Objects) (place : Publication → Nat) (e : Executor) (id : UInt32) :
    Assoc.find id (loopOf objects place e).actors = (Assoc.find id e.actors).map
      (recipientOf place) :=
  Assoc.find_map id (recipientOf place) e.actors

theorem mem_messages {e : Executor} {id : UInt32} {a : ManagedActor} {q : Publication}
    (ha : Assoc.find id e.actors = some a) (hq : q ∈ a.message_queue) : q ∈ messages e :=
  List.mem_flatMap.mpr ⟨_, Assoc.mem_of_find ha, hq⟩

theorem loopOf_shows {objects : Objects} {place : Publication → Nat} {e : Executor}
    (hplace : ∀ q ∈ messages e, read objects (place q) = some q) :
    (loopOf objects place e).Shows e := by
  refine ⟨fun id => ?_, fun id r a hr ha => ?_, rfl, rfl, rfl⟩
  · rw [find_loopOf, Option.isSome_map]
  · rw [find_loopOf, ha] at hr
    obtain rfl := Option.some.inj hr
    refine ⟨rfl, rfl, ?_⟩
    rw [recipientOf, List.map_map]
    exact List.map_congr_left fun q hq => hplace q (mem_messages ha hq)

theorem queued_loopOf {objects : Objects} {place : Publication → Nat} {e : Executor} {k : Nat}
    (hk : (loopOf objects place e).Queued k) : ∃ q ∈ messages e, place q = k := by
  obtain ⟨id, r, hr, hk⟩ := hk
  rw [find_loopOf] at hr
  obtain ⟨a, ha, rfl⟩ := Option.map_eq_some_iff.mp hr
  obtain ⟨q, hq, heq⟩ := List.mem_map.mp hk
  exact ⟨q, mem_messages ha hq, heq⟩

theorem exists_shows (e : Executor) (p : Publication) :
    ∃ s obj, EventLoop.Shows s e ∧ read s.objects obj = some p ∧ ¬ s.Queued obj := by
  have hplace : ∀ q, ∃ i, q ∈ messages e → i < (messages e).length ∧
      (messages e ++ [p])[i]? = some q := by
    intro q
    by_cases hq : q ∈ messages e
    · obtain ⟨i, hlt, hi⟩ := List.getElem_of_mem hq
      exact ⟨i, fun _ => ⟨hlt, by rw [List.getElem?_append_left hlt, List.getElem?_eq_getElem hlt,
        hi]⟩⟩
    · exact ⟨0, fun h => absurd h hq⟩
  choose place hplace using hplace
  refine ⟨loopOf (objectsOf (messages e ++ [p])) place e, (messages e).length,
    loopOf_shows fun q hq => read_objectsOf (hplace q hq).2, read_objectsOf (by simp), fun hk => ?_⟩
  obtain ⟨q, hq, heq⟩ := queued_loopOf hk
  exact absurd heq (Nat.ne_of_lt (hplace q hq).1)

/-! ## What the executor did -/

section Receivers

variable {e : Executor} {p : Publication} {count : Nat} {ids : List UInt32} {id id' : UInt32}

theorem mem_pushReady : id ∈ (e.pushReady id').ready_queue ↔ id ∈ e.ready_queue ∨ id = id' := by
  unfold Executor.pushReady
  split
  · rename_i hmem
    exact (or_iff_left_of_imp fun heq => heq ▸ hmem).symm
  · simp

theorem nodup_pushReady (h : e.ready_queue.Nodup) : (e.pushReady id).ready_queue.Nodup := by
  unfold Executor.pushReady
  split
  · exact h
  · rename_i hmem
    refine List.nodup_append.mpr ⟨h, List.nodup_singleton _, ?_⟩
    rintro id' hid' _ hself rfl
    exact hmem (List.mem_singleton.mp hself ▸ hid')

theorem mem_ready_offer {a : ManagedActor} : id ∈ (e.offer id' a p).ready_queue ↔
    id ∈ e.ready_queue ∨ (id = id' ∧ (a.enqueue p).2 = true) := by
  unfold Executor.offer
  dsimp only
  split
  · rename_i hready
    rw [and_iff_left hready]
    exact mem_pushReady
  · rename_i hready
    exact (or_iff_left_of_imp fun h => absurd h.2 hready).symm

theorem nodup_offer {a : ManagedActor} (h : e.ready_queue.Nodup) :
    (e.offer id a p).ready_queue.Nodup := by
  unfold Executor.offer
  dsimp only
  split
  · exact nodup_pushReady (e := e.setActor id (a.enqueue p).1) h
  · exact h

theorem nodup_offerAll (h : e.ready_queue.Nodup) :
    (Executor.offerAll p count ids e).ready_queue.Nodup := by
  induction ids generalizing e count with
  | nil => exact h
  | cons id ids ih =>
    unfold Executor.offerAll
    split
    · exact ih h
    · exact ih (nodup_offer h)

theorem mem_ready_offerAll (h : id ∈ e.ready_queue) :
    id ∈ (Executor.offerAll p count ids e).ready_queue := by
  induction ids generalizing e count with
  | nil => exact h
  | cons id' ids ih =>
    unfold Executor.offerAll
    split
    · exact ih h
    · exact ih (mem_ready_offer.mpr (Or.inl h))

theorem find_offerAll (hcopy : p.copy = p) (hids : ids.Nodup) :
    Assoc.find id (Executor.offerAll p count ids e).actors =
      if id ∈ ids then (Assoc.find id e.actors).map fun a => (a.enqueue p).1
      else Assoc.find id e.actors := by
  induction ids generalizing e count with
  | nil => rfl
  | cons id' ids ih =>
    obtain ⟨hnew, hids⟩ := List.nodup_cons.mp hids
    unfold Executor.offerAll
    cases ha : Assoc.find id' e.actors with
    | none =>
      rw [ih hids]
      by_cases hid : id = id'
      · rw [hid, if_neg hnew, if_pos List.mem_cons_self, ha]
        rfl
      · simp [hid]
    | some a =>
      dsimp only
      rw [hcopy, ite_self, ih hids, Executor.find_offer]
      by_cases hid : id' = id
      · rw [← hid, if_neg hnew, if_pos rfl, if_pos List.mem_cons_self, ha]
        rfl
      · rw [if_neg hid]
        simp [Ne.symm hid]

theorem accepted_ready (hcopy : p.copy = p) (hids : ids.Nodup) (hid : id ∈ ids) {a : ManagedActor}
    (ha : Assoc.find id e.actors = some a) (hready : (a.enqueue p).2 = true) :
    id ∈ (Executor.offerAll p count ids e).ready_queue := by
  induction ids generalizing e count with
  | nil => cases hid
  | cons id' ids ih =>
    obtain ⟨hnew, hids⟩ := List.nodup_cons.mp hids
    unfold Executor.offerAll
    rcases List.mem_cons.mp hid with rfl | hid
    · rw [ha]
      dsimp only
      rw [hcopy, ite_self]
      exact mem_ready_offerAll (mem_ready_offer.mpr (Or.inr ⟨rfl, hready⟩))
    · have hne : id' ≠ id := fun heq => hnew (heq ▸ hid)
      split
      · exact ih hids hid ha
      · rw [hcopy, ite_self]
        refine ih hids hid ?_
        rw [Executor.find_offer, if_neg hne, ha]

theorem complete_offerAll (hplain : Map.plain p.attributes = true) (hids : ids.Nodup) :
    Complete ids p e (Executor.offerAll p count ids e) := by
  have hcopy := Publication.copy_eq_of_plain hplain
  constructor
  · intro id hid a ha
    rw [find_offerAll hcopy hids, if_pos hid, ha, Option.map_some]
    rcases a.enqueue_cases p with ⟨heq, -⟩ | ⟨_, heq, -⟩
    · exact ⟨_, Or.inl rfl, by rw [heq]⟩
    · exact ⟨_, Or.inr rfl, by rw [heq]⟩
  · intro id hid
    rw [find_offerAll hcopy hids, if_neg hid]
  · intro id ha
    rw [find_offerAll hcopy hids, ha]
    split <;> rfl
  · intro hnodup id hid a ha hready
    exact List.count_eq_one_of_mem (nodup_offerAll hnodup) (accepted_ready hcopy hids hid ha hready)

end Receivers

/-- Every receiver that is still there gets the publication, as it was received and just once,
wherever those that are gone stand among the receivers. -/
theorem local_fan_out_complete (cfg : ExecutorSettings) {s : EventLoop} {e : Executor}
    (h : s.Shows e) {subscription_id obj : Nat} {p : Publication}
    (hread : read s.objects obj = some p) (hlocal : ¬ s.Queued obj)
    (hplain : Map.plain p.attributes = true) (hother : subscription_id ≠ e.executor_subscription_id)
    (hset : (Multimap.members subscription_id e.subscription_mapping).Nodup) (b : Behaviour)
    (now : UInt32) :
    ∃ s' e', s.receive subscription_id obj = some s' ∧
      e.deliver cfg subscription_id p b now = some e' ∧ s'.Shows e' ∧
      (∀ k, s'.Queued k → (read s'.objects k).isSome = true) ∧
      Complete (Multimap.members subscription_id e.subscription_mapping) p e e' := by
  obtain ⟨s', hout, hshows⟩ := h.fanOut hread hlocal hplain
    (Nat.le_refl (Multimap.members subscription_id e.subscription_mapping).length)
  refine ⟨s', _, ?_, if_neg hother, hshows, ?_, complete_offerAll hplain hset⟩
  · unfold EventLoop.receive
    rw [h.subscription_mapping]
    exact hout
  · rintro k ⟨id, r, hr, hk⟩
    obtain ⟨a, ha⟩ := hshows.find_isSome hr
    obtain ⟨q, hq⟩ := (hshows.actors id r a hr ha).read_queued hk
    rw [hq]
    rfl

def ping : Publication := Publication.empty.setAttr "type" (.str "ping")

/-- Actor 1 waits for another message, actor 2 is gone, and actor 3 has a message already. -/
def pinged : Executor :=
  ⟨Hub.init ⟨"node", 3⟩, 1,
    [(1, (ManagedActor.create 1 ⟨"node", "waiter", "1"⟩ "1").defferedBlockFor
      ⟨[.str "foo" "bar" .EQ false], []⟩ 9),
      (3, { ManagedActor.create 3 ⟨"node", "worker", "1"⟩ "1" with message_queue := [ping] })],
    4, [(5, [1, 2, 3])], [3], [], [], 2, []⟩

def pingedLoop : EventLoop := loopOf (objectsOf [ping, ping]) (fun _ => 0) pinged

theorem local_fan_out_complete_pinged :
    ∃ s' e', pingedLoop.receive 5 1 = some s' ∧
      pinged.deliver Executor.luaSettings 5 ping (Executor.receiving []) 0 = some e' ∧ s'.Shows e' ∧
      (∀ k, s'.Queued k → (read s'.objects k).isSome = true) ∧
      Complete [1, 2, 3] ping pinged e' := by
  have hshows : pingedLoop.Shows pinged := by
    refine loopOf_shows fun q hq => ?_
    obtain rfl := List.mem_singleton.mp hq
    exact read_objectsOf rfl
  have hlocal : ¬ pingedLoop.Queued 1 := by
    intro hk
    obtain ⟨_, -, heq⟩ := queued_loopOf hk
    exact absurd heq (by decide)
  exact local_fan_out_complete Executor.luaSettings hshows (read_objectsOf rfl) hlocal (by decide)
    (by decide) (by decide) (Executor.receiving []) 0

end FanOut

end UActor
