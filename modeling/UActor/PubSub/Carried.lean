import UActor.PubSub.Codec

/-!
# What comes over the wire

A binary value is counted by the header of its map and left out behind it, so that the bytes end too
early.
-/

namespace UActor

open MsgPack (Object)

/-! ## Bytes that end too early -/

/-- At least one of so many objects is not complete. -/
inductive Lacks : Nat → List UInt8 → Prop
  | nil {k : Nat} (hk : 0 < k) : Lacks k []
  | str {k : Nat} {v rest : List UInt8} (hv : v.length < 2 ^ 32) (hrest : Lacks k rest) :
      Lacks (k + 1) (MsgPack.packStr v ++ rest)
  | int {k : Nat} {rest : List UInt8} (v : Int32) (hrest : Lacks k rest) :
      Lacks (k + 1) (MsgPack.packInt v.toInt ++ rest)
  | float {k : Nat} {rest : List UInt8} (bits : BitVec 32) (hrest : Lacks k rest) :
      Lacks (k + 1) (MsgPack.packFloat32 bits ++ rest)
  | map {k n : Nat} {rest : List UInt8} (hn : n < 2 ^ 32) (hrest : Lacks (k + 2 * n) rest) :
      Lacks (k + 1) (MsgPack.packMapHeader n ++ rest)

theorem lacks_readPairs {read : List UInt8 → Option (Object × List UInt8)}
    (hread : ∀ k bs o rest, Lacks (k + 1) bs → read bs = some (o, rest) → Lacks k rest) {n k : Nat}
    {bs rest : List UInt8} {pairs : List (Object × Object)} (hbs : Lacks (k + 2 * n) bs)
    (h : MsgPack.readPairs read n bs = some (pairs, rest)) : Lacks k rest := by
  induction n generalizing bs pairs rest with
  | zero =>
    obtain ⟨-, rfl⟩ := Prod.mk.inj (Option.some.inj h)
    exact hbs
  | succ n ih =>
    obtain ⟨⟨key, bs₁⟩, hkey, h⟩ := Option.bind_eq_some_iff.mp h
    obtain ⟨⟨val, bs₂⟩, hval, h⟩ := Option.bind_eq_some_iff.mp h
    obtain ⟨⟨vs, bs₃⟩, hvs, heq⟩ := Option.map_eq_some_iff.mp h
    obtain ⟨-, rfl⟩ := Prod.mk.inj heq
    exact ih (hread _ _ _ _ (hread _ _ _ _ hbs hkey) hval) hvs

theorem lacks_readObject {depth k : Nat} {bs rest : List UInt8} {o : Object}
    (hbs : Lacks (k + 1) bs) (h : MsgPack.readObject depth bs = some (o, rest)) : Lacks k rest := by
  induction depth generalizing k bs rest o with
  | zero => simp [MsgPack.readObject] at h
  | succ depth ih =>
    rw [MsgPack.readObject] at h
    cases hbs with
    | nil hk => simp [MsgPack.readHead] at h
    | @str _ v tail hv htail =>
      rw [MsgPack.packStr, List.append_assoc, MsgPack.readHead_packStrHeader hv,
        Option.bind_some] at h
      simp only [MsgPack.readBody, MsgPack.take_append, Option.map_some, Option.some.injEq,
        Prod.mk.injEq] at h
      exact h.2 ▸ htail
    | int v htail =>
      rw [MsgPack.readHead_packInt v.le_toInt v.toInt_lt, Option.bind_some] at h
      exact (Prod.mk.inj (Option.some.inj h)).2 ▸ htail
    | float bits htail =>
      rw [MsgPack.readHead_packFloat32, Option.bind_some] at h
      exact (Prod.mk.inj (Option.some.inj h)).2 ▸ htail
    | map hn htail =>
      rw [MsgPack.readHead_packMapHeader hn, Option.bind_some] at h
      obtain ⟨⟨pairs, bs'⟩, hpairs, heq⟩ := Option.map_eq_some_iff.mp h
      obtain ⟨-, rfl⟩ := Prod.mk.inj heq
      exact lacks_readPairs (fun _ _ _ _ => ih) htail hpairs

theorem not_lacks_zero {bs : List UInt8} (h : Lacks 0 bs) : False := by
  cases h with
  | nil hk => exact Nat.lt_irrefl 0 hk

theorem next_lacks {bs : List UInt8} (h : Lacks 1 bs) : MsgPack.next bs = none := by
  cases hnext : MsgPack.next bs with
  | none => rfl
  | some r => exact (not_lacks_zero (lacks_readObject h hnext)).elim

/-! ## Binary values -/

mutual

/-- The objects that headers promise for binary values and their keys. -/
def promised : Variant → Nat
  | .map m => promisedAttrs m
  | .str _ | .int _ | .float _ | .bin _ => 0

def promisedAttrs : List (String × Variant) → Nat
  | [] => 0
  | (_, .bin _) :: m => promisedAttrs m + 2
  | (_, v) :: m => promised v + promisedAttrs m

end

def Variant.isBin : Variant → Bool
  | .bin _ => true
  | _ => false

theorem promisedAttrs_cons {k : String} {v : Variant} (hv : v.isBin = false) (m : Map) :
    promisedAttrs ((k, v) :: m) = promised v + promisedAttrs m := by
  cases v with
  | bin v => cases hv
  | str | int | float | map => rfl

theorem packAttrs_cons_of_not_bin {k : String} {v : Variant} (hv : v.isBin = false) (m : Map) :
    packAttrs ((k, v) :: m) = MsgPack.packStr (bytesOf k) ++ packValue v ++ packAttrs m := by
  cases v with
  | bin v => cases hv
  | str | int | float | map => rfl

mutual

theorem promised_pos : ∀ v : Variant, v.isBin = false → v.plain = false → 0 < promised v
  | .map m, _, h => promisedAttrs_pos m h
  | .str _, _, h | .int _, _, h | .float _, _, h => by cases h
  | .bin _, h, _ => by cases h

theorem promisedAttrs_pos : ∀ m : List (String × Variant), Map.plain m = false → 0 < promisedAttrs m
  | [], h => by cases h
  | (k, v) :: m, h => by
    cases hv : v.isBin with
    | true =>
      cases v with
      | bin x => exact Nat.lt_add_left _ (by decide)
      | str | int | float | map => cases hv
    | false =>
      rw [promisedAttrs_cons hv]
      rcases Bool.and_eq_false_iff.mp h with h | h
      · have := promised_pos v hv h
        omega
      · have := promisedAttrs_pos m h
        omega

end

mutual

theorem lacks_packValue : ∀ v : Variant, v.encodable = true → v.isBin = false →
    ∀ (k : Nat) (rest : List UInt8), Lacks (k + promised v) rest →
    Lacks (k + 1) (packValue v ++ rest)
  | .str _, hv, _, _, _, hrest => Lacks.str (length_bytesOf hv) hrest
  | .int v, _, _, _, _, hrest => Lacks.int v hrest
  | .float v, _, _, _, _, hrest => Lacks.float v.bits hrest
  | .bin _, _, hbin, _, _, _ => by cases hbin
  | .map m, hm, _, k, rest, hrest => by
    simp only [Variant.encodable, Bool.and_eq_true, decide_eq_true_eq] at hm
    rw [packValue, List.append_assoc]
    exact Lacks.map hm.1 (lacks_packAttrs m hm.2 k rest hrest)

theorem lacks_packAttrs : ∀ m : List (String × Variant), Map.encodable m = true →
    ∀ (k : Nat) (rest : List UInt8), Lacks (k + promisedAttrs m) rest →
    Lacks (k + 2 * m.length) (packAttrs m ++ rest)
  | [], _, _, _, hrest => hrest
  | (key, v) :: m, hm, k, rest, hrest => by
    simp only [Map.encodable, Bool.and_eq_true] at hm
    obtain ⟨⟨⟨hkey, -⟩, hv⟩, hm⟩ := hm
    cases hbin : v.isBin with
    | true =>
      -- nothing is packed for the pair
      cases v with
      | bin x =>
        have hrest' : Lacks (k + 2 + promisedAttrs m) rest := by
          rw [Nat.add_assoc, Nat.add_comm 2]
          exact hrest
        have htail := lacks_packAttrs m hm (k + 2) rest hrest'
        rwa [show k + 2 + 2 * m.length = k + 2 * (m.length + 1) by omega] at htail
      | str | int | float | map => cases hbin
    | false =>
      rw [promisedAttrs_cons hbin, ← Nat.add_assoc] at hrest
      have htail := lacks_packAttrs m hm (k + promised v) rest hrest
      rw [Nat.add_right_comm] at htail
      rw [packAttrs_cons_of_not_bin hbin, List.append_assoc, List.append_assoc]
      exact Lacks.str (length_bytesOf hkey) (lacks_packValue v hv hbin _ _ htail)

end

section

variable (narrow : BitVec 64 → F32) (optimized : Bool)

/-- A publication comes over the wire exactly if it has no binary value at any depth. -/
theorem carried_iff {p : Publication} (hp : p.encodable = true) :
    (∃ q, build narrow optimized (packMapMsgpack p.attributes) = some q) ↔
      Map.plain p.attributes = true := by
  constructor
  · rintro ⟨q, hq⟩
    cases hplain : Map.plain p.attributes with
    | true => rfl
    | false =>
      obtain ⟨pairs, rest, hnext, -⟩ := of_build hq
      have hpos : Lacks (0 + promised (.map p.attributes)) [] := by
        rw [Nat.zero_add]
        exact .nil (promisedAttrs_pos p.attributes hplain)
      have hlacks := lacks_packValue (.map p.attributes) hp rfl 0 [] hpos
      rw [List.append_nil] at hlacks
      have hnone : MsgPack.next (packMapMsgpack p.attributes) = none := next_lacks hlacks
      rw [hnone] at hnext
      cases hnext
  · exact fun hplain => ⟨p, build_packMapMsgpack narrow optimized hplain hp⟩

theorem carried_whole {p q : Publication} (hp : p.encodable = true)
    (h : build narrow optimized (p.toMsgPack.drop 4) = some q) : q = p := by
  have hplain := (carried_iff narrow optimized hp).mp ⟨q, h⟩
  rw [codec_round_trip narrow optimized p hplain hp] at h
  exact (Option.some.inj h).symm

end

end UActor
