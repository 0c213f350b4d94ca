import UActor.Lib.Lease
import UActor.PubSub.Publication

/-!
# The code store

`code_store.cpp`, and the functions of `code_store_actor.cpp` that store code. The clock counts
milliseconds modulo `2^32`, and so do the ends of the lifetimes.
-/

namespace UActor

structure CodeIdentifier where
  type : String
  version : String
  runtime_type : String
deriving DecidableEq, Repr

structure CodePacket where
  lifetime_end : UInt32
  code_available : Bool
  code : String
deriving DecidableEq, Repr

structure CodeStore where
  packets : List (CodeIdentifier × CodePacket)
  unique : (Assoc.keys packets).Nodup

def MAGIC_LIFETIME_VALUE_INFINTE : UInt32 := 0

def MAGIC_LIFETIME_VALUE_CACHE_OR_EXISTING : UInt32 := 1

namespace CodePacket

/-- The constructors of `CodePacket`. -/
def create (lifetime_end : UInt32) : Option String → CodePacket
  | some code => ⟨lifetime_end, true, code⟩
  | none => ⟨lifetime_end, false, ""⟩

def addCode (packet : CodePacket) : Option String → CodePacket
  | some code => if packet.code_available then packet else { packet with code_available := true, code := code }
  | none => packet

/-- What `insert_or_refresh` does to a packet that is there. -/
def refresh (packet : CodePacket) (lifetime_end : UInt32) (code : Option String) : CodePacket :=
  if lifetime_end = MAGIC_LIFETIME_VALUE_INFINTE then
    { packet with lifetime_end := MAGIC_LIFETIME_VALUE_INFINTE }.addCode code
  else { packet with lifetime_end := max lifetime_end packet.lifetime_end }.addCode code

/-- The condition of `cleanup`. -/
def expired (current_timestamp : UInt32) (packet : CodePacket) : Bool :=
  packet.lifetime_end > 0 && packet.lifetime_end + 5000 < current_timestamp

@[simp] theorem create_lifetime_end (lifetime_end : UInt32) (code : Option String) :
    (create lifetime_end code).lifetime_end = lifetime_end := by
  cases code with
  | none => rfl
  | some code => rfl

@[simp] theorem addCode_lifetime_end (packet : CodePacket) (code : Option String) :
    (packet.addCode code).lifetime_end = packet.lifetime_end := by
  cases code with
  | none => rfl
  | some code =>
    unfold addCode
    dsimp only
    split
    · rfl
    · rfl

end CodePacket

namespace CodeStore

def empty : CodeStore := ⟨[], List.nodup_nil⟩

def find (st : CodeStore) (identifier : CodeIdentifier) : Option CodePacket :=
  Assoc.find identifier st.packets

def put (st : CodeStore) (identifier : CodeIdentifier) (packet : CodePacket) : CodeStore :=
  ⟨Assoc.put identifier packet st.packets, Assoc.keys_put_nodup st.unique identifier packet⟩

/-- `retrieve`, without its hook. -/
def retrieve (st : CodeStore) (identifier : CodeIdentifier) : Option String :=
  (st.find identifier).bind fun packet => if packet.code_available then some packet.code else none

def insertOrRefresh (st : CodeStore) (identifier : CodeIdentifier) (lifetime_end : UInt32)
    (code : Option String) : CodeStore :=
  match st.find identifier with
  | none => st.put identifier (.create lifetime_end code)
  | some packet => st.put identifier (packet.refresh lifetime_end code)

def cleanup (st : CodeStore) (current_timestamp : UInt32) : CodeStore :=
  ⟨st.packets.filter fun e => !e.2.expired current_timestamp,
    st.unique.sublist (List.filter_sublist.map Prod.fst)⟩

/-! ## Messages of the code store actor -/

/-- A message that lacks an attribute is ignored; one of another type is undefined behaviour. -/
def receiveCodeStore (st : CodeStore) (p : Publication) : Option CodeStore :=
  if p.hasAttr "actor_code_type" && p.hasAttr "actor_code_version" &&
    p.hasAttr "actor_code_runtime_type" &&
      p.hasAttr "actor_code_lifetime_end" && p.hasAttr "actor_code" then do
    let type ← p.getStrAttr "actor_code_type"
    let version ← p.getStrAttr "actor_code_version"
    let runtime_type ← p.getStrAttr "actor_code_runtime_type"
    let lifetime_end ← p.getIntAttr "actor_code_lifetime_end"
    let code ← p.getStrAttr "actor_code"
    some (st.insertOrRefresh ⟨type, version, runtime_type⟩ lifetime_end.toUInt32 (some code))
  else some st

def receiveLifetimeUpdate (st : CodeStore) (p : Publication) : Option CodeStore :=
  if p.hasAttr "actor_code_type" && p.hasAttr "actor_code_version" &&
    p.hasAttr "actor_code_runtime_type" &&
      p.hasAttr "actor_code_lifetime_end" then do
    let type ← p.getStrAttr "actor_code_type"
    let version ← p.getStrAttr "actor_code_version"
    let runtime_type ← p.getStrAttr "actor_code_runtime_type"
    let lifetime_end ← p.getIntAttr "actor_code_lifetime_end"
    some (st.insertOrRefresh ⟨type, version, runtime_type⟩ lifetime_end.toUInt32 none)
  else some st

def receiveCodeFetchResponse (st : CodeStore) (p : Publication) : Option CodeStore :=
  if p.hasAttr "fetch_actor_type" && p.hasAttr "fetch_actor_version" &&
    p.hasAttr "fetch_actor_code" &&
      p.hasAttr "fetch_actor_runtime_type" then do
    let type ← p.getStrAttr "fetch_actor_type"
    let version ← p.getStrAttr "fetch_actor_version"
    let code ← p.getStrAttr "fetch_actor_code"
    let runtime_type ← p.getStrAttr "fetch_actor_runtime_type"
    some (st.insertOrRefresh ⟨type, version, runtime_type⟩ MAGIC_LIFETIME_VALUE_CACHE_OR_EXISTING
      (some code))
  else some st

/-! ## Effects -/

variable (st : CodeStore) (identifier : CodeIdentifier)

@[simp] theorem find_put (identifier' : CodeIdentifier) (packet : CodePacket) :
    (st.put identifier' packet).find identifier =
      if identifier' = identifier then some packet else st.find identifier :=
  Assoc.find_put identifier identifier' packet st.packets

theorem find_insertOrRefresh_ne {identifier' : CodeIdentifier} (h : identifier' ≠ identifier)
    (lifetime_end : UInt32) (code : Option String) :
    (st.insertOrRefresh identifier' lifetime_end code).find identifier = st.find identifier := by
  unfold insertOrRefresh
  split
  · rw [find_put, if_neg h]
  · rw [find_put, if_neg h]

theorem find_insertOrRefresh_self (lifetime_end : UInt32) (code : Option String) :
    (st.insertOrRefresh identifier lifetime_end code).find identifier =
      some ((st.find identifier).elim (.create lifetime_end code) fun packet =>
        packet.refresh lifetime_end code) := by
  unfold insertOrRefresh
  split
  · rename_i h
    rw [find_put, if_pos rfl, h, Option.elim_none]
  · rename_i packet h
    rw [find_put, if_pos rfl, h, Option.elim_some]

theorem find_cleanup (current_timestamp : UInt32) :
    (st.cleanup current_timestamp).find identifier =
      (st.find identifier).filter fun packet => !packet.expired current_timestamp :=
  Assoc.find_filter st.unique _ identifier

/-- The end of the lifetime of a package that is there. -/
def lifetimeEnd : Option UInt32 := (st.find identifier).map (·.lifetime_end)

theorem lifetimeEnd_insertOrRefresh (lifetime_end : UInt32) (code : Option String) :
    (st.insertOrRefresh identifier lifetime_end code).lifetimeEnd identifier =
      Lease.extend MAGIC_LIFETIME_VALUE_INFINTE (st.lifetimeEnd identifier) lifetime_end := by
  unfold lifetimeEnd
  rw [find_insertOrRefresh_self, Option.map_some]
  cases st.find identifier with
  | none => simp [Lease.extend]
  | some packet =>
    simp only [Option.elim_some, Option.map_some, Lease.extend, CodePacket.refresh]
    split
    · simp
    · simp

/-! ## Lifetimes and the order of the calls -/

/-- `insert_or_refresh` is called for one package, with lifetimes and, or without, code. -/
def insertAll (calls : List (UInt32 × Option String)) : CodeStore :=
  calls.foldl (fun st call => st.insertOrRefresh identifier call.1 call.2) st

/-- The calls do the same for the lifetime in any order, and one for ever outlives every
`cleanup`. -/
structure OrderFree (calls : List (UInt32 × Option String)) : Prop where
  lifetime : ∀ calls', calls'.Perm calls → (st.insertAll identifier calls').lifetimeEnd identifier =
    if MAGIC_LIFETIME_VALUE_INFINTE ∈ calls.map Prod.fst then some MAGIC_LIFETIME_VALUE_INFINTE
    else (calls.map Prod.fst).max?
  permanent : MAGIC_LIFETIME_VALUE_INFINTE ∈ calls.map Prod.fst → ∀ calls', calls'.Perm calls →
    ∀ current_timestamp, ((st.insertAll identifier calls').cleanup current_timestamp).find
      identifier =
      (st.insertAll identifier calls').find identifier

instance : Std.LawfulOrderMax UInt32 :=
  .of_max_le_iff
    (fun a b c => by
      show (if a ≤ b then b else a) ≤ c ↔ a ≤ c ∧ b ≤ c
      simp only [UInt32.le_iff_toNat_le]
      split
      · omega
      · omega)
    (fun a b => by
      show (if a ≤ b then b else a) = a ∨ (if a ≤ b then b else a) = b
      split
      · exact Or.inr rfl
      · exact Or.inl rfl)

variable {st identifier}

theorem lifetimeEnd_insertAll (hnew : st.find identifier = none)
    (calls : List (UInt32 × Option String)) :
    (st.insertAll identifier calls).lifetimeEnd identifier =
      Lease.granted MAGIC_LIFETIME_VALUE_INFINTE (calls.map Prod.fst) := by
  induction calls using List.reverseRecOn with
  | nil => simp [insertAll, lifetimeEnd, hnew]
  | append_singleton calls call ih =>
    rw [List.map_append, List.map_singleton, Lease.granted_snoc, ← ih, ← lifetimeEnd_insertOrRefresh
      _ _ _ call.2]
    simp [insertAll]

theorem find_cleanup_permanent (h : st.lifetimeEnd identifier = some MAGIC_LIFETIME_VALUE_INFINTE)
    (current_timestamp : UInt32) :
    (st.cleanup current_timestamp).find identifier = st.find identifier := by
  obtain ⟨packet, hpacket, hend⟩ := Option.map_eq_some_iff.mp h
  have hkept : packet.expired current_timestamp = false := by
    simp [CodePacket.expired, hend, MAGIC_LIFETIME_VALUE_INFINTE]
  rw [find_cleanup, hpacket, Option.filter_some, hkept]
  rfl

/-- Lifetimes do not depend on the order exactly if they all are for ever, or none is. -/
theorem lifetimes_unordered_iff (hnew : st.find identifier = none)
    (calls : List (UInt32 × Option String)) :
    OrderFree st identifier calls ↔
      (∀ call ∈ calls, call.1 ≠ MAGIC_LIFETIME_VALUE_INFINTE) ∨
        ∀ call ∈ calls, call.1 = MAGIC_LIFETIME_VALUE_INFINTE := by
  have hleast : ∀ x, MAGIC_LIFETIME_VALUE_INFINTE ≤ x := fun _ => UInt32.zero_le
  rw [← Lease.unordered_iff Prod.fst hleast]
  constructor
  · intro h calls' hperm
    rw [← lifetimeEnd_insertAll hnew]
    exact h.lifetime calls' hperm
  · intro h
    have hlifetime : ∀ calls', calls'.Perm calls → (st.insertAll identifier calls').lifetimeEnd
        identifier =
        Lease.due MAGIC_LIFETIME_VALUE_INFINTE (calls.map Prod.fst) := by
      intro calls' hperm
      rw [lifetimeEnd_insertAll hnew]
      exact h calls' hperm
    refine ⟨hlifetime, ?_⟩
    intro hforever calls' hperm current_timestamp
    refine find_cleanup_permanent ?_ current_timestamp
    rw [hlifetime calls' hperm, Lease.due, if_pos hforever]

theorem lifetimes_unordered_updates :
    OrderFree empty ⟨"sensor", "1", "lua"⟩
      [(7, some "code"), (MAGIC_LIFETIME_VALUE_CACHE_OR_EXISTING, none), (9, none)] :=
  (lifetimes_unordered_iff rfl _).mpr (Or.inl (by decide))

/-- A package, as `publish_code_package` hands it over. -/
def codePackage (lifetime_end : Int32) : Publication :=
  (((((Publication.empty.setAttr "type" (.str "actor_code")).setAttr "actor_code_type"
    (.str "sensor")).setAttr "actor_code_version" (.str "1")).setAttr "actor_code_runtime_type"
      (.str "lua")).setAttr
    "actor_code_lifetime_end" (.int lifetime_end)).setAttr "actor_code" (.str "code")

def fetchResponse : Publication :=
  ((((Publication.empty.setAttr "type" (.str "code_fetch_response")).setAttr "fetch_actor_code"
    (.str "code")).setAttr "fetch_actor_type" (.str "sensor")).setAttr "fetch_actor_version"
      (.str "1")).setAttr
    "fetch_actor_runtime_type" (.str "lua")

/-- A response that comes after the package of a deployment leaves it to the next `cleanup`. -/
theorem permanent_collected :
    ((receiveCodeStore empty (codePackage 0)).bind fun st => st.find ⟨"sensor", "1", "lua"⟩) =
        some ⟨MAGIC_LIFETIME_VALUE_INFINTE, true, "code"⟩ ∧
      (((receiveCodeStore empty (codePackage 0)).bind fun st =>
        receiveCodeFetchResponse st fetchResponse).map fun st =>
        (st.cleanup 30000).find ⟨"sensor", "1", "lua"⟩) = some none ∧
      ¬ OrderFree empty ⟨"sensor", "1", "lua"⟩
        [(MAGIC_LIFETIME_VALUE_INFINTE, some "code"),
          (MAGIC_LIFETIME_VALUE_CACHE_OR_EXISTING, some "code")] := by
  refine ⟨by decide, by decide, ?_⟩
  intro h
  have hlast := h.lifetime _ (List.Perm.refl _)
  revert hlast
  decide

end CodeStore

end UActor
