import UActor.Lib.MsgPack
import UActor.PubSub.Publication

/-!
# Publications on the wire

`to_msg_pack` and `publication_factory.cpp`. Strings and maps have fewer than `2 ^ 32` elements: the
format has no header for longer ones.
-/

namespace UActor

open MsgPack (Object)

/-! ## Strings -/

def bytesOf (s : String) : List UInt8 := s.toList.map fun c => UInt8.ofNat c.toNat

def ofBytes (bs : List UInt8) : String := String.ofList (bs.map fun b => Char.ofNat b.toNat)

/-- A string of bytes that the format has a header for. -/
def encodableString (s : String) : Bool := s.toList.all (fun c => decide (c.toNat < 256)) &&
  decide (s.toList.length < 2 ^ 32)

/-! ## Packing -/

mutual

def packValue : Variant → List UInt8
  | .str v => MsgPack.packStr (bytesOf v)
  | .int v => MsgPack.packInt v.toInt
  | .float v => MsgPack.packFloat32 v.bits
  | .bin _ => []
  | .map m => MsgPack.packMapHeader m.length ++ packAttrs m

/-- The loop of `pack_map_msgpack`. It has no branch for binary values. -/
def packAttrs : List (String × Variant) → List UInt8
  | [] => []
  | (_, .bin _) :: m => packAttrs m
  | (k, v) :: m => MsgPack.packStr (bytesOf k) ++ packValue v ++ packAttrs m

end

def packMapMsgpack (m : Map) : List UInt8 := MsgPack.packMapHeader m.length ++ packAttrs m

/-- Four bytes are left for the length. -/
def Publication.toMsgPack (p : Publication) : List UInt8 :=
  [0, 0, 0, 0] ++ packMapMsgpack p.attributes

/-! ## Building -/

/-- `key.as<std::string>()`. -/
def keyOf : Object → Option String
  | .str v => some (ofBytes v)
  | .bin v => some (ofBytes v)
  | _ => none

section Building

-- the conversion of a `double` to a `float`, and whether the build is an optimized one
variable (narrow : BitVec 64 → F32) (optimized : Bool)

mutual

/-- The branches of `msgpack_to_map`: an exception, a value that is left out, or one that is set. A
value of another type stops a build that is not optimized. -/
def toVariant : Object → Option (Option Variant)
  | .str v => some (some (.str (ofBytes v)))
  | .float32 bits => some (some (.float ⟨bits⟩))
  | .float64 bits => some (some (.float (narrow bits)))
  | .int v => if -2 ^ 31 ≤ v ∧ v < 2 ^ 31 then some (some (.int (Int32.ofInt v))) else none
  | .bin v => some (some (.bin v))
  | .map pairs => (msgpackToMap pairs []).map fun m => some (.map m)
  | .nil | .bool _ | .array _ | .ext _ _ => if optimized then some none else none

def msgpackToMap : List (Object × Object) → Map → Option Map
  | [], handle => some handle
  | (key, val) :: pairs, handle =>
    match toVariant val, keyOf key with
    | some (some v), some name => msgpackToMap pairs (Map.setAttr handle name v)
    | some none, some _ => msgpackToMap pairs handle
    | _, _ => none

end

theorem msgpackToMap_nodup {pairs : List (Object × Object)} {handle m : Map}
    (hhandle : (Assoc.keys handle).Nodup)
    (h : msgpackToMap narrow optimized pairs handle = some m) : (Assoc.keys m).Nodup := by
  induction pairs generalizing handle with
  | nil =>
    rw [← Option.some.inj h]
    exact hhandle
  | cons pair pairs ih =>
    unfold msgpackToMap at h
    split at h
    · exact ih (Assoc.keys_put_nodup hhandle _ _) h
    · exact ih hhandle h
    · simp at h

/-- The first object of the payload. The bytes behind it are not looked at. -/
def build (payload : List UInt8) : Option Publication :=
  match MsgPack.next payload with
  | some (.map pairs, _) =>
    match h : msgpackToMap narrow optimized pairs Publication.empty.attributes with
    | some m => some ⟨m, msgpackToMap_nodup narrow optimized Publication.empty.unique h⟩
    | none => none
  | _ => none

end Building

/-! ## Trees that the format can carry -/

mutual

/-- Each map has each of its keys once, and strings and maps are short enough. -/
def Variant.encodable : Variant → Bool
  | .str v => encodableString v
  | .map m => decide (m.length < 2 ^ 32) && Map.encodable m
  | .int _ | .float _ | .bin _ => true

def Map.encodable : List (String × Variant) → Bool
  | [] => true
  | (k, v) :: m => encodableString k && decide (k ∉ m.map Prod.fst) && Variant.encodable v &&
      Map.encodable m

end

/-- The attributes are what a map of the program holds, within the sizes of the format. -/
def Publication.encodable (p : Publication) : Bool := (Variant.map p.attributes).encodable

theorem encodableString_iff {s : String} :
    encodableString s = true ↔ (∀ c ∈ s.toList, c.toNat < 256) ∧ s.toList.length < 2 ^ 32 := by
  simp only [encodableString, Bool.and_eq_true, List.all_eq_true, decide_eq_true_eq]

theorem length_bytesOf {s : String} (h : encodableString s = true) :
    (bytesOf s).length < 2 ^ 32 := by
  rw [bytesOf, List.length_map]
  exact (encodableString_iff.mp h).2

theorem ofBytes_bytesOf {s : String} (h : encodableString s = true) : ofBytes (bytesOf s) = s := by
  have hlist : (bytesOf s).map (fun b => Char.ofNat b.toNat) = s.toList := by
    rw [bytesOf, List.map_map]
    refine (List.map_congr_left fun c hc => ?_).trans (List.map_id s.toList)
    show Char.ofNat (UInt8.ofNat c.toNat).toNat = c
    rw [MsgPack.toNat_ofNat_byte ((encodableString_iff.mp h).1 c hc), Char.ofNat_toNat]
  rw [ofBytes, hlist, String.ofList_toList]

theorem toNat_ofNat_char {n : Nat} (h : n < 256) : (Char.ofNat n).toNat = n := by
  have hvalid : n.isValidChar := Or.inl (by omega)
  exact congrArg Char.toNat (dif_pos hvalid)

theorem encodableString_ofBytes {bs : List UInt8} (h : bs.length < 2 ^ 32) :
    encodableString (ofBytes bs) = true := by
  rw [encodableString_iff, ofBytes, String.toList_ofList]
  refine ⟨?_, by rwa [List.length_map]⟩
  intro c hc
  obtain ⟨b, -, rfl⟩ := List.mem_map.mp hc
  have hb := b.toNat_lt
  rw [toNat_ofNat_char hb]
  exact hb

/-! ## A tree without binary values -/

mutual

/-- The object that is packed for a value. -/
def objectOf : Variant → Object
  | .str v => .str (bytesOf v)
  | .int v => .int v.toInt
  | .float v => .float32 v.bits
  | .bin v => .bin v
  | .map m => .map (pairsOf m)

def pairsOf : List (String × Variant) → List (Object × Object)
  | [] => []
  | (k, v) :: m => (.str (bytesOf k), objectOf v) :: pairsOf m

end

theorem readObject_packStr {s : String} (h : encodableString s = true) {depth : Nat}
    (hdepth : 0 < depth) (rest : List UInt8) :
    MsgPack.readObject depth (MsgPack.packStr (bytesOf s) ++ rest) =
      some (.str (bytesOf s), rest) := by
  obtain ⟨depth, rfl⟩ := Nat.exists_eq_succ_of_ne_zero (Nat.ne_of_gt hdepth)
  simp only [MsgPack.readObject, MsgPack.packStr, List.append_assoc,
    MsgPack.readHead_packStrHeader (length_bytesOf h), Option.bind_some, MsgPack.readBody,
    MsgPack.take_append, Option.map_some]

theorem packAttrs_cons {k : String} {v : Variant} (hv : v.plain = true) (m : Map) :
    packAttrs ((k, v) :: m) = MsgPack.packStr (bytesOf k) ++ packValue v ++ packAttrs m := by
  cases v with
  | bin v => simp [Variant.plain] at hv
  | _ => rfl

theorem length_packStr (v : List UInt8) : 0 < (MsgPack.packStr v).length := by
  have hheader := MsgPack.length_packStrHeader v.length
  rw [MsgPack.packStr, List.length_append]
  omega

theorem readObject_of_head {bs rest : List UInt8} {o : Object}
    (h : MsgPack.readHead bs = some (.value o, rest)) {depth : Nat} (hdepth : 0 < depth) :
    MsgPack.readObject depth bs = some (o, rest) := by
  obtain ⟨depth, rfl⟩ := Nat.exists_eq_succ_of_ne_zero (Nat.ne_of_gt hdepth)
  simp only [MsgPack.readObject, h, Option.bind_some, MsgPack.readBody]

mutual

theorem readObject_packValue : ∀ v : Variant, v.plain = true → v.encodable = true →
    ∀ (depth : Nat) (rest : List UInt8), (packValue v).length ≤ depth →
    MsgPack.readObject depth (packValue v ++ rest) = some (objectOf v, rest)
  | .str v, _, hv, depth, rest, hdepth => by
    have hpos := length_packStr (bytesOf v)
    rw [packValue] at hdepth
    rw [packValue, objectOf]
    exact readObject_packStr hv (by omega) rest
  | .int v, _, _, depth, rest, hdepth => by
    have hpos := MsgPack.length_packInt v.toInt
    rw [packValue] at hdepth
    rw [packValue, objectOf]
    exact readObject_of_head (MsgPack.readHead_packInt v.le_toInt v.toInt_lt rest) (by omega)
  | .float v, _, _, depth, rest, hdepth => by
    rw [packValue, MsgPack.packFloat32, List.length_cons] at hdepth
    rw [packValue, objectOf]
    exact readObject_of_head (MsgPack.readHead_packFloat32 v.bits rest) (by omega)
  | .bin v, h, _, _, _, _ => by simp [Variant.plain] at h
  | .map m, hplain, hm, depth, rest, hdepth => by
    have hpos := MsgPack.length_packMapHeader m.length
    simp only [Variant.encodable, Bool.and_eq_true, decide_eq_true_eq] at hm
    rw [packValue, List.length_append] at hdepth
    obtain ⟨depth, rfl⟩ := Nat.exists_eq_succ_of_ne_zero (show depth ≠ 0 by omega)
    have ih := readPairs_packAttrs m hplain hm.2 depth rest (by omega)
    simp only [packValue, objectOf, List.append_assoc, MsgPack.readObject,
      MsgPack.readHead_packMapHeader hm.1, Option.bind_some, MsgPack.readBody, ih, Option.map_some]

theorem readPairs_packAttrs : ∀ m : List (String × Variant), Map.plain m = true →
    Map.encodable m = true →
    ∀ (depth : Nat) (rest : List UInt8), (packAttrs m).length ≤ depth →
      MsgPack.readPairs (MsgPack.readObject depth) m.length (packAttrs m ++ rest) =
        some (pairsOf m, rest)
  | [], _, _, _, _, _ => rfl
  | (k, v) :: m, hplain, hm, depth, rest, hdepth => by
    obtain ⟨hv, hrest⟩ := (Bool.and_eq_true _ _).mp hplain
    simp only [Map.encodable, Bool.and_eq_true] at hm
    obtain ⟨⟨⟨hk, -⟩, hv'⟩, hm⟩ := hm
    have hpos := length_packStr (bytesOf k)
    rw [packAttrs_cons hv, List.length_append, List.length_append] at hdepth
    rw [packAttrs_cons hv, List.length_cons, pairsOf, List.append_assoc, List.append_assoc]
    simp only [MsgPack.readPairs, readObject_packStr hk (show 0 < depth by omega), Option.bind_some,
      readObject_packValue v hv hv' depth _ (by omega), readPairs_packAttrs m hrest hm depth rest
        (by omega),
      Option.map_some]

end

section Building

variable (narrow : BitVec 64 → F32) (optimized : Bool)

mutual

theorem toVariant_objectOf : ∀ v : Variant, v.encodable = true →
    toVariant narrow optimized (objectOf v) = some (some v)
  | .str v, h => by rw [objectOf, toVariant, ofBytes_bytesOf h]
  | .int v, _ => by
    rw [objectOf, toVariant, if_pos ⟨v.le_toInt, v.toInt_lt⟩, Int32.ofInt_toInt]
  | .float v, _ => rfl
  | .bin v, _ => rfl
  | .map m, h => by
    simp only [Variant.encodable, Bool.and_eq_true] at h
    rw [objectOf, toVariant, msgpackToMap_pairsOf m h.2 [] (fun _ _ => List.not_mem_nil),
      Option.map_some, List.nil_append]

theorem msgpackToMap_pairsOf : ∀ m : List (String × Variant), Map.encodable m = true → ∀ handle :
    Map, (∀ k ∈ Assoc.keys m, k ∉ Assoc.keys handle) → msgpackToMap narrow optimized (pairsOf m)
      handle = some (handle ++ m)
  | [], _, handle, _ => by rw [pairsOf, msgpackToMap, List.append_nil]
  | (k, v) :: m, h, handle, hnew => by
    simp only [Map.encodable, Bool.and_eq_true, decide_eq_true_eq] at h
    obtain ⟨⟨⟨hk, hkm⟩, hv⟩, hm⟩ := h
    have hput : Map.setAttr handle k v = handle ++ [(k, v)] :=
      Assoc.put_of_absent (hnew k List.mem_cons_self) v
    have hlater : ∀ k' ∈ Assoc.keys m, k' ∉ Assoc.keys (handle ++ [(k, v)]) := by
      intro k' hk' hmem
      simp only [Assoc.keys, List.map_append, List.mem_append, List.map_cons, List.map_nil,
        List.mem_singleton] at hmem
      rcases hmem with hmem | rfl
      · exact hnew k' (List.mem_cons_of_mem _ hk') hmem
      · exact hkm hk'
    simp only [pairsOf, msgpackToMap, toVariant_objectOf v hv, keyOf, ofBytes_bytesOf hk, hput]
    rw [msgpackToMap_pairsOf m hm _ hlater, List.append_assoc, List.singleton_append]

end

theorem build_of_next {payload rest : List UInt8} {pairs : List (Object × Object)} {p : Publication}
    (hnext : MsgPack.next payload = some (.map pairs, rest))
    (hmap : msgpackToMap narrow optimized pairs [] = some p.attributes) :
    build narrow optimized payload = some p := by
  unfold build
  simp only [hnext]
  split
  · rename_i m hm
    rw [show msgpackToMap narrow optimized pairs Publication.empty.attributes =
      some p.attributes from hmap] at hm
    cases p
    cases hm
    rfl
  · rename_i hm
    rw [show msgpackToMap narrow optimized pairs Publication.empty.attributes =
      some p.attributes from hmap] at hm
    cases hm

/-- What is packed is one object, and nothing is behind it. -/
theorem next_packMapMsgpack {p : Publication} (hplain : Map.plain p.attributes = true)
    (hp : p.encodable = true) :
    MsgPack.next (packMapMsgpack p.attributes) = some (.map (pairsOf p.attributes), []) := by
  have h := readObject_packValue (.map p.attributes) hplain hp _ [] (Nat.le_refl _)
  rwa [List.append_nil] at h

theorem build_packMapMsgpack {p : Publication} (hplain : Map.plain p.attributes = true)
    (hp : p.encodable = true) :
    build narrow optimized (packMapMsgpack p.attributes) = some p := by
  have hkeys := (Bool.and_eq_true _ _).mp hp
  have hmap := msgpackToMap_pairsOf narrow optimized p.attributes hkeys.2 []
    (fun _ _ => List.not_mem_nil)
  exact build_of_next narrow optimized (next_packMapMsgpack hplain hp) hmap

/-- All attributes come back, at any depth. -/
theorem codec_round_trip (p : Publication) (hplain : Map.plain p.attributes = true)
    (hp : p.encodable = true) :
    build narrow optimized (p.toMsgPack.drop 4) = some p :=
  build_packMapMsgpack narrow optimized hplain hp

def nestedPublication : Publication :=
  ⟨[("type", .str "status"), ("level", .int (-40)), ("load", .float ⟨0x3f000000⟩),
    ("inner", .map [("empty", .map []), ("count", .int 70000)])], by decide⟩

theorem codec_round_trip_nested :
    build (fun _ => ⟨0⟩) true (nestedPublication.toMsgPack.drop 4) = some nestedPublication :=
  codec_round_trip _ _ nestedPublication (by decide) (by decide)

/-! ## Whatever is built can be packed -/

variable {narrow optimized}

theorem Map.encodable_iff {m : Map} :
    Map.encodable m = true ↔
      (Assoc.keys m).Nodup ∧ ∀ e ∈ m, encodableString e.1 = true ∧ e.2.encodable = true := by
  induction m with
  | nil => simp [Map.encodable, Assoc.keys]
  | cons e m ih =>
    simp only [Map.encodable, Bool.and_eq_true, decide_eq_true_eq, ih, Assoc.keys, List.map_cons,
      List.nodup_cons, List.forall_mem_cons]
    constructor
    · rintro ⟨⟨⟨hk, hkm⟩, hv⟩, hm, hall⟩
      exact ⟨⟨hkm, hm⟩, ⟨hk, hv⟩, hall⟩
    · rintro ⟨⟨hkm, hm⟩, ⟨hk, hv⟩, hall⟩
      exact ⟨⟨⟨hk, hkm⟩, hv⟩, hm, hall⟩

theorem encodable_setAttr {m : Map} (hm : Map.encodable m = true) {k : String}
    (hk : encodableString k = true) {v : Variant} (hv : v.encodable = true) :
    Map.encodable (m.setAttr k v) = true := by
  rw [Map.encodable_iff] at hm ⊢
  refine ⟨Assoc.keys_put_nodup hm.1 k v, ?_⟩
  intro e he
  rcases Assoc.mem_put he with he | rfl
  · exact hm.2 e he
  · exact ⟨hk, hv⟩

theorem length_setAttr (m : Map) (k : String) (v : Variant) :
    (m.setAttr k v).length ≤ m.length + 1 := by
  have h : (Assoc.keys (m.setAttr k v)).length ≤ m.length + 1 := by
    rw [Map.setAttr, Assoc.keys_put]
    split
    · simp [Assoc.keys]
    · simp [Assoc.keys]
  rwa [Assoc.keys, List.length_map] at h

variable (narrow optimized)

/-- The object gives a key, and a value, that can be packed. -/
structure Packable (o : Object) : Prop where
  key : ∀ k, keyOf o = some k → encodableString k = true
  value : ∀ v, toVariant narrow optimized o = some (some v) → v.encodable = true

variable {narrow optimized}

theorem encodable_msgpackToMap {pairs : List (Object × Object)} {handle m : Map}
    (hpairs : ∀ e ∈ pairs, Packable narrow optimized e.1 ∧ Packable narrow optimized e.2)
    (hhandle : Map.encodable handle = true)
    (h : msgpackToMap narrow optimized pairs handle = some m) :
    Map.encodable m = true ∧ m.length ≤ handle.length + pairs.length := by
  induction pairs generalizing handle with
  | nil =>
    rw [← Option.some.inj h]
    exact ⟨hhandle, Nat.le_refl _⟩
  | cons pair pairs ih =>
    obtain ⟨⟨hkey, hval⟩, hrest⟩ := List.forall_mem_cons.mp hpairs
    rw [List.length_cons]
    unfold msgpackToMap at h
    split at h
    · rename_i v name hv hname
      have hset := length_setAttr handle name v
      obtain ⟨hm, hlen⟩ := ih hrest (encodable_setAttr hhandle (hkey.key name hname)
        (hval.value v hv)) h
      exact ⟨hm, by omega⟩
    · obtain ⟨hm, hlen⟩ := ih hrest hhandle h
      exact ⟨hm, by omega⟩
    · simp at h

theorem packable_readPairs {read : List UInt8 → Option (Object × List UInt8)}
    (hread : ∀ bs o rest, read bs = some (o, rest) → Packable narrow optimized o) {n : Nat}
    {bs rest : List UInt8} {pairs : List (Object × Object)}
    (h : MsgPack.readPairs read n bs = some (pairs, rest)) :
    pairs.length = n ∧ ∀ e ∈ pairs, Packable narrow optimized e.1 ∧
    Packable narrow optimized e.2 := by
  induction n generalizing bs pairs rest with
  | zero =>
    rw [← (Prod.mk.inj (Option.some.inj h)).1]
    exact ⟨rfl, nofun⟩
  | succ n ih =>
    obtain ⟨⟨k, bs₁⟩, hk, h⟩ := Option.bind_eq_some_iff.mp h
    obtain ⟨⟨v, bs₂⟩, hv, h⟩ := Option.bind_eq_some_iff.mp h
    obtain ⟨⟨vs, bs₃⟩, hvs, heq⟩ := Option.map_eq_some_iff.mp h
    obtain ⟨rfl, -⟩ := Prod.mk.inj heq
    obtain ⟨hlen, hall⟩ := ih hvs
    refine ⟨by rw [List.length_cons, hlen], List.forall_mem_cons.mpr ⟨⟨hread _ _ _ hk,
      hread _ _ _ hv⟩, hall⟩⟩

theorem packable_str {bs : List UInt8} (h : bs.length < 2 ^ 32) :
    Packable narrow optimized (.str bs) where
  key k hk := by
    rw [← Option.some.inj hk]
    exact encodableString_ofBytes h
  value v hv := by
    rw [← Option.some.inj (Option.some.inj hv)]
    exact encodableString_ofBytes h

theorem packable_bin {bs : List UInt8} (h : bs.length < 2 ^ 32) :
    Packable narrow optimized (.bin bs) where
  key k hk := by
    rw [← Option.some.inj hk]
    exact encodableString_ofBytes h
  value v hv := by
    rw [← Option.some.inj (Option.some.inj hv)]
    rfl

theorem packable_map {pairs : List (Object × Object)} (hlen : pairs.length < 2 ^ 32)
    (hpairs : ∀ e ∈ pairs, Packable narrow optimized e.1 ∧ Packable narrow optimized e.2) :
    Packable narrow optimized (.map pairs) where
  key k hk := by simp [keyOf] at hk
  value v hv := by
    rw [toVariant] at hv
    obtain ⟨m, hm, heq⟩ := Option.map_eq_some_iff.mp hv
    obtain ⟨hm, hmlen⟩ := encodable_msgpackToMap hpairs rfl hm
    rw [← Option.some.inj heq, Variant.encodable, hm, Bool.and_true, decide_eq_true_eq]
    have : ([] : Map).length = 0 := rfl
    omega

theorem packable_bodyless {o : Object} (h : o.bodyless = true) : Packable narrow optimized o where
  key k hk := by
    cases o <;> simp_all [keyOf, MsgPack.Object.bodyless]
  value v hv := by
    cases o with
    | int x =>
      rw [toVariant] at hv
      split at hv
      · rw [← Option.some.inj (Option.some.inj hv)]
        rfl
      · simp at hv
    | float32 bits =>
      rw [← Option.some.inj (Option.some.inj hv)]
      rfl
    | float64 bits =>
      rw [← Option.some.inj (Option.some.inj hv)]
      rfl
    | nil => simp [toVariant] at hv
    | bool x => simp [toVariant] at hv
    | _ => simp [MsgPack.Object.bodyless] at h

theorem packable_unknown {o : Object} (hkey : keyOf o = none)
    (hvalue : ∀ v, toVariant narrow optimized o ≠ some (some v)) : Packable narrow optimized o where
  key k hk := by simp [hkey] at hk
  value v hv := absurd hv (hvalue v)

variable (narrow optimized) in
theorem packable_readObject {depth : Nat} {bs rest : List UInt8} {o : Object}
    (h : MsgPack.readObject depth bs = some (o, rest)) : Packable narrow optimized o := by
  induction depth generalizing bs rest o with
  | zero => simp [MsgPack.readObject] at h
  | succ depth ih =>
    obtain ⟨⟨head, body⟩, hhead, h⟩ := Option.bind_eq_some_iff.mp h
    have hwf := MsgPack.wf_of_readHead hhead
    cases head with
    | value v =>
      rw [← (Prod.mk.inj (Option.some.inj h)).1]
      exact packable_bodyless hwf
    | str n =>
      obtain ⟨⟨v, bs'⟩, htake, heq⟩ := Option.map_eq_some_iff.mp h
      rw [← (Prod.mk.inj heq).1]
      apply packable_str
      rw [MsgPack.length_of_take htake]
      exact of_decide_eq_true hwf
    | bin n =>
      obtain ⟨⟨v, bs'⟩, htake, heq⟩ := Option.map_eq_some_iff.mp h
      rw [← (Prod.mk.inj heq).1]
      apply packable_bin
      rw [MsgPack.length_of_take htake]
      exact of_decide_eq_true hwf
    | ext n =>
      obtain ⟨⟨t, bs'⟩, -, h⟩ := Option.bind_eq_some_iff.mp h
      obtain ⟨⟨v, bs''⟩, -, heq⟩ := Option.map_eq_some_iff.mp h
      rw [← (Prod.mk.inj heq).1]
      exact packable_unknown rfl fun v hv => by simp [toVariant] at hv
    | array n =>
      obtain ⟨⟨vs, bs'⟩, -, heq⟩ := Option.map_eq_some_iff.mp h
      rw [← (Prod.mk.inj heq).1]
      exact packable_unknown rfl fun v hv => by simp [toVariant] at hv
    | map n =>
      obtain ⟨⟨pairs, bs'⟩, hpairs, heq⟩ := Option.map_eq_some_iff.mp h
      rw [← (Prod.mk.inj heq).1]
      obtain ⟨hlen, hall⟩ := packable_readPairs (fun _ _ _ h => ih h) hpairs
      apply packable_map ?_ hall
      rw [hlen]
      exact of_decide_eq_true hwf

theorem of_build {payload : List UInt8} {p : Publication}
    (h : build narrow optimized payload = some p) :
    ∃ pairs rest, MsgPack.next payload = some (.map pairs, rest) ∧
      msgpackToMap narrow optimized pairs [] = some p.attributes := by
  unfold build at h
  split at h
  · rename_i pairs rest hnext
    split at h
    · rename_i m hm
      rw [← Option.some.inj h]
      exact ⟨pairs, rest, hnext, hm⟩
    · simp at h
  · simp at h

theorem encodable_of_build {payload : List UInt8} {p : Publication}
    (h : build narrow optimized payload = some p) :
    p.encodable = true := by
  obtain ⟨pairs, rest, hnext, hmap⟩ := of_build h
  have hpackable := packable_readObject narrow optimized hnext
  apply hpackable.value
  rw [toVariant, hmap, Option.map_some]

/-! ## No binary value comes out of what was packed -/

/-- Keys, values and map headers, one after the other. -/
inductive Tokens : List UInt8 → Prop
  | nil : Tokens []
  | str {v rest : List UInt8} (hv : v.length < 2 ^ 32) (hrest : Tokens rest) :
      Tokens (MsgPack.packStr v ++ rest)
  | int {rest : List UInt8} (v : Int32) (hrest : Tokens rest) :
      Tokens (MsgPack.packInt v.toInt ++ rest)
  | float {rest : List UInt8} (bits : BitVec 32) (hrest : Tokens rest) :
      Tokens (MsgPack.packFloat32 bits ++ rest)
  | map {n : Nat} {rest : List UInt8} (hn : n < 2 ^ 32) (hrest : Tokens rest) :
    Tokens (MsgPack.packMapHeader n ++ rest)

mutual

theorem tokens_packValue : ∀ v : Variant, v.encodable = true → ∀ rest, Tokens rest →
    Tokens (packValue v ++ rest)
  | .str v, hv, _, hrest => Tokens.str (length_bytesOf hv) hrest
  | .int v, _, _, hrest => Tokens.int v hrest
  | .float v, _, _, hrest => Tokens.float v.bits hrest
  | .bin _, _, _, hrest => hrest
  | .map m, hm, rest, hrest => by
    simp only [Variant.encodable, Bool.and_eq_true, decide_eq_true_eq] at hm
    rw [packValue, List.append_assoc]
    exact Tokens.map hm.1 (tokens_packAttrs m hm.2 rest hrest)

theorem tokens_packAttrs : ∀ m : List (String × Variant), Map.encodable m = true →
    ∀ rest, Tokens rest →
    Tokens (packAttrs m ++ rest)
  | [], _, _, hrest => hrest
  | (k, v) :: m, hm, rest, hrest => by
    simp only [Map.encodable, Bool.and_eq_true] at hm
    obtain ⟨⟨⟨hk, -⟩, hv⟩, hm⟩ := hm
    have htail := tokens_packAttrs m hm rest hrest
    by_cases hplain : ∃ x, v = .bin x
    · obtain ⟨x, rfl⟩ := hplain
      exact htail
    · have heq : packAttrs ((k, v) :: m) = MsgPack.packStr (bytesOf k) ++ packValue v ++
          packAttrs m := by
        cases v with
        | bin x => exact absurd ⟨x, rfl⟩ hplain
        | _ => rfl
      rw [heq, List.append_assoc, List.append_assoc]
      exact Tokens.str (length_bytesOf hk) (tokens_packValue v hv _ htail)

end

variable (narrow optimized)

/-- The object gives no binary value. -/
def GivesPlain (o : Object) : Prop := ∀ v, toVariant narrow optimized o = some (some v) →
    v.plain = true

variable {narrow optimized}

theorem plain_msgpackToMap {pairs : List (Object × Object)} {handle m : Map}
    (hpairs : ∀ e ∈ pairs, GivesPlain narrow optimized e.2) (hhandle : Map.plain handle = true)
    (h : msgpackToMap narrow optimized pairs handle = some m) : Map.plain m = true := by
  induction pairs generalizing handle with
  | nil =>
    rw [← Option.some.inj h]
    exact hhandle
  | cons pair pairs ih =>
    obtain ⟨hval, hrest⟩ := List.forall_mem_cons.mp hpairs
    unfold msgpackToMap at h
    split at h
    · rename_i v name hv hname
      refine ih hrest ?_ h
      rw [Map.plain_iff] at hhandle ⊢
      intro e he
      rcases Assoc.mem_put he with he | rfl
      · exact hhandle e he
      · exact hval v hv
    · exact ih hrest hhandle h
    · simp at h

theorem givesPlain_readPairs {read : List UInt8 → Option (Object × List UInt8)}
    (hread : ∀ bs o rest, Tokens bs → read bs = some (o, rest) → GivesPlain narrow optimized o ∧
      Tokens rest)
    {n : Nat} {bs rest : List UInt8} {pairs : List (Object × Object)} (hbs : Tokens bs)
    (h : MsgPack.readPairs read n bs = some (pairs, rest)) :
    (∀ e ∈ pairs, GivesPlain narrow optimized e.2) ∧ Tokens rest := by
  induction n generalizing bs pairs rest with
  | zero =>
    obtain ⟨rfl, rfl⟩ := Prod.mk.inj (Option.some.inj h)
    exact ⟨nofun, hbs⟩
  | succ n ih =>
    obtain ⟨⟨k, bs₁⟩, hk, h⟩ := Option.bind_eq_some_iff.mp h
    obtain ⟨⟨v, bs₂⟩, hv, h⟩ := Option.bind_eq_some_iff.mp h
    obtain ⟨⟨vs, bs₃⟩, hvs, heq⟩ := Option.map_eq_some_iff.mp h
    obtain ⟨rfl, rfl⟩ := Prod.mk.inj heq
    obtain ⟨hplain, hbs₂⟩ := hread _ _ _ (hread _ _ _ hbs hk).2 hv
    obtain ⟨hall, hbs₃⟩ := ih hbs₂ hvs
    exact ⟨List.forall_mem_cons.mpr ⟨hplain, hall⟩, hbs₃⟩

theorem givesPlain_readObject {depth : Nat} {bs rest : List UInt8} {o : Object} (hbs : Tokens bs)
    (h : MsgPack.readObject depth bs = some (o, rest)) :
    GivesPlain narrow optimized o ∧ Tokens rest := by
  induction depth generalizing bs rest o with
  | zero => simp [MsgPack.readObject] at h
  | succ depth ih =>
    rw [MsgPack.readObject] at h
    cases hbs with
    | nil => simp [MsgPack.readHead] at h
    | @str v tail hv htail =>
      rw [MsgPack.packStr, List.append_assoc, MsgPack.readHead_packStrHeader hv,
        Option.bind_some] at h
      simp only [MsgPack.readBody, MsgPack.take_append, Option.map_some, Option.some.injEq,
        Prod.mk.injEq] at h
      obtain ⟨rfl, rfl⟩ := h
      refine ⟨fun v' hv' => ?_, htail⟩
      rw [← Option.some.inj (Option.some.inj hv')]
      rfl
    | int v htail =>
      rw [MsgPack.readHead_packInt v.le_toInt v.toInt_lt, Option.bind_some] at h
      obtain ⟨rfl, rfl⟩ := Prod.mk.inj (Option.some.inj h)
      refine ⟨fun v' hv' => ?_, htail⟩
      rw [toVariant, if_pos ⟨v.le_toInt, v.toInt_lt⟩] at hv'
      rw [← Option.some.inj (Option.some.inj hv')]
      rfl
    | float bits htail =>
      rw [MsgPack.readHead_packFloat32, Option.bind_some] at h
      obtain ⟨rfl, rfl⟩ := Prod.mk.inj (Option.some.inj h)
      refine ⟨fun v' hv' => ?_, htail⟩
      rw [← Option.some.inj (Option.some.inj hv')]
      rfl
    | map hn htail =>
      rw [MsgPack.readHead_packMapHeader hn, Option.bind_some] at h
      obtain ⟨⟨pairs, bs'⟩, hpairs, heq⟩ := Option.map_eq_some_iff.mp h
      obtain ⟨rfl, rfl⟩ := Prod.mk.inj heq
      obtain ⟨hall, hrest⟩ := givesPlain_readPairs (fun _ _ _ => ih) htail hpairs
      refine ⟨fun v hv => ?_, hrest⟩
      rw [toVariant] at hv
      obtain ⟨m, hm, heq⟩ := Option.map_eq_some_iff.mp hv
      rw [← Option.some.inj heq]
      exact plain_msgpackToMap hall rfl hm

theorem plain_of_rebuilt {p q : Publication} (hp : p.encodable = true)
    (hq : build narrow optimized (packMapMsgpack p.attributes) = some q) :
    Map.plain q.attributes = true := by
  obtain ⟨pairs, rest, hnext, hmap⟩ := of_build hq
  have htokens := tokens_packValue (.map p.attributes) hp [] Tokens.nil
  rw [List.append_nil] at htokens
  apply (givesPlain_readObject htokens hnext).1 (.map q.attributes)
  rw [toVariant, hmap, Option.map_some]

/-- The bytes are one object, with as many pairs at each level as its header says. -/
def WellFormed (bs : List UInt8) : Prop := ∃ o, MsgPack.next bs = some (o, [])

variable (narrow optimized)

/-- A publication that was built comes through a relay exactly when it has no binary attribute. -/
theorem relaying_faithful_iff {payload : List UInt8} {p : Publication}
    (h : build narrow optimized payload = some p) :
    (WellFormed (p.toMsgPack.drop 4) ∧ build narrow optimized (p.toMsgPack.drop 4) = some p) ↔
      Map.plain p.attributes = true := by
  have hp := encodable_of_build h
  constructor
  · rintro ⟨-, hbuild⟩
    exact plain_of_rebuilt hp hbuild
  · intro hplain
    exact ⟨⟨_, next_packMapMsgpack hplain hp⟩, build_packMapMsgpack narrow optimized hplain hp⟩

/-- A map with one integer. -/
theorem relaying_faithful_iff_int :
    ∃ p, build (fun _ => ⟨0⟩) true [0x81, 0xa1, 0x61, 0x05] = some p ∧
      build (fun _ => ⟨0⟩) true (p.toMsgPack.drop 4) = some p :=
  have hbuild : build (fun _ => ⟨0⟩) true [0x81, 0xa1, 0x61, 0x05] =
      some ⟨[("a", .int 5)], by decide⟩ := rfl
  ⟨_, hbuild, ((relaying_faithful_iff _ _ hbuild).mpr (by decide)).2⟩

def codePublication : Publication := ⟨[("code", .bin [0x00, 0x61])], by decide⟩

/-- A relay sends the header of a map with one pair and no pair. -/
theorem relayed_binary_lost :
    build (fun _ => ⟨0⟩) true [0x81, 0xa4, 0x63, 0x6f, 0x64, 0x65, 0xc4, 0x02, 0x00, 0x61] =
      some codePublication ∧
      codePublication.toMsgPack = [0, 0, 0, 0, 0x81] ∧
      build (fun _ => ⟨0⟩) true (codePublication.toMsgPack.drop 4) = none :=
  ⟨rfl, rfl, rfl⟩

end Building

end UActor
