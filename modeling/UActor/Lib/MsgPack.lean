import UActor.Lib.BigEndian
import Mathlib.Algebra.Group.Int.Defs

/-!
# The MessagePack format

Objects, the formats that a packer chooses for them, and the reading of the first object of a byte
string.
-/

namespace MsgPack

inductive Object where
  | nil
  | bool (v : Bool)
  | int (v : Int)
  | float32 (bits : BitVec 32)
  | float64 (bits : BitVec 64)
  | str (v : List UInt8)
  | bin (v : List UInt8)
  | ext (type : UInt8) (v : List UInt8)
  | array (v : List Object)
  | map (v : List (Object × Object))

/-! ## Reading -/

/-- The type of an object, with its value or with the size of what follows. -/
inductive Head where
  | value (v : Object)
  | str (size : Nat)
  | bin (size : Nat)
  | ext (size : Nat)
  | array (size : Nat)
  | map (size : Nat)

def take (n : Nat) (bs : List UInt8) : Option (List UInt8 × List UInt8) :=
  if n ≤ bs.length then some (bs.take n, bs.drop n) else none

/-- A head whose number has `w` bytes. -/
def sized (w : Nat) (head : Nat → Head) (bs : List UInt8) : Option (Head × List UInt8) :=
  (take w bs).map fun (digits, rest) => (head (BigEndian.value digits), rest)

def signed (w n : Nat) : Int := if n < 2 ^ (8 * w - 1) then n else n - 2 ^ (8 * w)

/-- The formats with a type byte of their own. -/
def readTyped (bs : List UInt8) : UInt8 → Option (Head × List UInt8)
  | 0xc0 => some (.value .nil, bs)
  | 0xc2 => some (.value (.bool false), bs)
  | 0xc3 => some (.value (.bool true), bs)
  | 0xc4 => sized 1 .bin bs
  | 0xc5 => sized 2 .bin bs
  | 0xc6 => sized 4 .bin bs
  | 0xc7 => sized 1 .ext bs
  | 0xc8 => sized 2 .ext bs
  | 0xc9 => sized 4 .ext bs
  | 0xca => sized 4 (fun n => .value (.float32 (BitVec.ofNat 32 n))) bs
  | 0xcb => sized 8 (fun n => .value (.float64 (BitVec.ofNat 64 n))) bs
  | 0xcc => sized 1 (fun n => .value (.int n)) bs
  | 0xcd => sized 2 (fun n => .value (.int n)) bs
  | 0xce => sized 4 (fun n => .value (.int n)) bs
  | 0xcf => sized 8 (fun n => .value (.int n)) bs
  | 0xd0 => sized 1 (fun n => .value (.int (signed 1 n))) bs
  | 0xd1 => sized 2 (fun n => .value (.int (signed 2 n))) bs
  | 0xd2 => sized 4 (fun n => .value (.int (signed 4 n))) bs
  | 0xd3 => sized 8 (fun n => .value (.int (signed 8 n))) bs
  | 0xd4 => some (.ext 1, bs)
  | 0xd5 => some (.ext 2, bs)
  | 0xd6 => some (.ext 4, bs)
  | 0xd7 => some (.ext 8, bs)
  | 0xd8 => some (.ext 16, bs)
  | 0xd9 => sized 1 .str bs
  | 0xda => sized 2 .str bs
  | 0xdb => sized 4 .str bs
  | 0xdc => sized 2 .array bs
  | 0xdd => sized 4 .array bs
  | 0xde => sized 2 .map bs
  | 0xdf => sized 4 .map bs
  | _ => none

def readHead : List UInt8 → Option (Head × List UInt8)
  | [] => none
  | b :: bs =>
    if b < 0x80 then some (.value (.int b.toNat), bs)
    else if b < 0x90 then some (.map (b.toNat - 0x80), bs)
    else if b < 0xa0 then some (.array (b.toNat - 0x90), bs)
    else if b < 0xc0 then some (.str (b.toNat - 0xa0), bs)
    else if b < 0xe0 then readTyped bs b
    else some (.value (.int (signed 1 b.toNat)), bs)

section Reading

variable (read : List UInt8 → Option (Object × List UInt8))

def readMany : Nat → List UInt8 → Option (List Object × List UInt8)
  | 0, bs => some ([], bs)
  | n + 1, bs => (read bs).bind fun (v, bs) => (readMany n bs).map fun (vs, bs) => (v :: vs, bs)

def readPairs : Nat → List UInt8 → Option (List (Object × Object) × List UInt8)
  | 0, bs => some ([], bs)
  | n + 1, bs => (read bs).bind fun (k, bs) => (read bs).bind fun (v, bs) =>
    (readPairs n bs).map fun (vs, bs) => ((k, v) :: vs, bs)

def readBody : Head → List UInt8 → Option (Object × List UInt8)
  | .value v, bs => some (v, bs)
  | .str n, bs => (take n bs).map fun (v, bs) => (.str v, bs)
  | .bin n, bs => (take n bs).map fun (v, bs) => (.bin v, bs)
  | .ext n, bs => (take 1 bs).bind fun (t, bs) =>
    (take n bs).map fun (v, bs) => (.ext (UInt8.ofNat (BigEndian.value t)) v, bs)
  | .array n, bs => (readMany read n bs).map fun (vs, bs) => (.array vs, bs)
  | .map n, bs => (readPairs read n bs).map fun (vs, bs) => (.map vs, bs)

end Reading

/-- The first object and the bytes behind it. Objects nest up to a depth. -/
def readObject : Nat → List UInt8 → Option (Object × List UInt8)
  | 0, _ => none
  | depth + 1, bs => (readHead bs).bind fun (head, bs) => readBody (readObject depth) head bs

/-- No object nests deeper than it has bytes. -/
def next (bs : List UInt8) : Option (Object × List UInt8) := readObject bs.length bs

/-! ## Packing -/

/-- The shortest format of an integer. -/
def packInt (v : Int) : List UInt8 :=
  if v < -0x8000 then 0xd2 :: BigEndian.digits 4 (v + 2 ^ 32).toNat
  else if v < -0x80 then 0xd1 :: BigEndian.digits 2 (v + 2 ^ 16).toNat
  else if v < -0x20 then 0xd0 :: BigEndian.digits 1 (v + 2 ^ 8).toNat
  else if v < 0x80 then BigEndian.digits 1 (v % 2 ^ 8).toNat
  else if v < 0x100 then 0xcc :: BigEndian.digits 1 v.toNat
  else if v < 0x10000 then 0xcd :: BigEndian.digits 2 v.toNat
  else 0xce :: BigEndian.digits 4 v.toNat

def packFloat32 (bits : BitVec 32) : List UInt8 := 0xca :: BigEndian.digits 4 bits.toNat

def packStrHeader (n : Nat) : List UInt8 :=
  if n < 32 then [UInt8.ofNat (0xa0 + n)]
  else if n < 0x100 then 0xd9 :: BigEndian.digits 1 n
  else if n < 0x10000 then 0xda :: BigEndian.digits 2 n
  else 0xdb :: BigEndian.digits 4 n

def packStr (v : List UInt8) : List UInt8 := packStrHeader v.length ++ v

def packMapHeader (n : Nat) : List UInt8 :=
  if n < 16 then [UInt8.ofNat (0x80 + n)]
  else if n < 0x10000 then 0xde :: BigEndian.digits 2 n
  else 0xdf :: BigEndian.digits 4 n

theorem length_packInt (v : Int) : 0 < (packInt v).length := by
  unfold packInt
  repeat' split
  all_goals simp

theorem length_packStrHeader (n : Nat) : 0 < (packStrHeader n).length := by
  unfold packStrHeader
  repeat' split
  all_goals simp

theorem length_packMapHeader (n : Nat) : 0 < (packMapHeader n).length := by
  unfold packMapHeader
  repeat' split
  all_goals simp

/-! ## What was packed is read -/

theorem take_append (v rest : List UInt8) : take v.length (v ++ rest) = some (v, rest) := by
  unfold take
  rw [if_pos (by rw [List.length_append]; omega), List.take_left, List.drop_left]

theorem sized_digits {w n : Nat} (h : n < 256 ^ w) (head : Nat → Head) (rest : List UInt8) :
    sized w head (BigEndian.digits w n ++ rest) = some (head n, rest) := by
  have htake := take_append (BigEndian.digits w n) rest
  rw [BigEndian.length_digits] at htake
  simp only [sized, htake, Option.map_some, BigEndian.value_digits h]

section FirstByte

variable {b : UInt8} (rest : List UInt8)

theorem readHead_fixint (h : b.toNat < 0x80) :
    readHead (b :: rest) = some (.value (.int b.toNat), rest) := by
  rw [readHead, if_pos (UInt8.lt_iff_toNat_lt.mpr h)]

theorem readHead_fixmap (h : 0x80 ≤ b.toNat) (h' : b.toNat < 0x90) :
    readHead (b :: rest) = some (.map (b.toNat - 0x80), rest) := by
  rw [readHead, if_neg (mt UInt8.lt_iff_toNat_lt.mp (by simpa using h)),
    if_pos (UInt8.lt_iff_toNat_lt.mpr h')]

theorem readHead_fixstr (h : 0xa0 ≤ b.toNat) (h' : b.toNat < 0xc0) :
    readHead (b :: rest) = some (.str (b.toNat - 0xa0), rest) := by
  have hlt (n : UInt8) (hn : n.toNat ≤ 0xa0) : ¬ b < n := by
    rw [UInt8.lt_iff_toNat_lt]
    omega
  rw [readHead, if_neg (hlt _ (by decide)), if_neg (hlt _ (by decide)), if_neg (hlt _ (by decide)),
    if_pos (UInt8.lt_iff_toNat_lt.mpr h')]

theorem readHead_negative (h : 0xe0 ≤ b.toNat) :
    readHead (b :: rest) = some (.value (.int (signed 1 b.toNat)), rest) := by
  have hlt (n : UInt8) (hn : n.toNat ≤ 0xe0) : ¬ b < n := by
    rw [UInt8.lt_iff_toNat_lt]
    omega
  rw [readHead, if_neg (hlt _ (by decide)), if_neg (hlt _ (by decide)), if_neg (hlt _ (by decide)),
    if_neg (hlt _ (by decide)), if_neg (hlt _ (by decide))]

end FirstByte

theorem toNat_ofNat_byte {n : Nat} (h : n < 256) : (UInt8.ofNat n).toNat = n := by
  rw [UInt8.toNat_ofNat', Nat.mod_eq_of_lt h]

theorem digits_one {n : Nat} : BigEndian.digits 1 n = [UInt8.ofNat n] := rfl

theorem signed_of_neg {w : Nat} {v : Int} (h : -2 ^ (8 * w - 1) ≤ v) (h' : v < 0) (hw : 0 < w) :
    signed w (v + 2 ^ (8 * w)).toNat = v := by
  have hpow : (2 : Int) ^ (8 * w) = 2 * 2 ^ (8 * w - 1) := by
    rw [← Int.pow_succ']
    congr 1
    omega
  have hcast : ((2 ^ (8 * w - 1) : Nat) : Int) = 2 ^ (8 * w - 1) := by push_cast; rfl
  unfold signed
  rw [if_neg (by omega)]
  omega

theorem sized_signed {w : Nat} {v : Int} (h : -2 ^ (8 * w - 1) ≤ v) (h' : v < 0) (hw : 0 < w)
    (rest : List UInt8) :
    sized w (fun n => .value (.int (signed w n))) (BigEndian.digits w (v + 2 ^ (8 * w)).toNat ++
      rest) =
      some (.value (.int v), rest) := by
  have hpow : (256 : Nat) ^ w = 2 ^ (8 * w) := by rw [Nat.pow_mul]
  have hlt : (v + 2 ^ (8 * w)).toNat < 256 ^ w := by
    have hcast : ((2 ^ (8 * w) : Nat) : Int) = 2 ^ (8 * w) := by push_cast; rfl
    have hpos : 0 < 2 ^ (8 * w) := Nat.two_pow_pos _
    rw [hpow]
    omega
  rw [sized_digits hlt, signed_of_neg h h' hw]

theorem sized_unsigned {w : Nat} {v : Int} (h : 0 ≤ v) (h' : v.toNat < 256 ^ w)
    (rest : List UInt8) :
    sized w (fun n => .value (.int n)) (BigEndian.digits w v.toNat ++ rest) =
      some (.value (.int v), rest) := by
  rw [sized_digits h', Int.toNat_of_nonneg h]

theorem readHead_packStrHeader {n : Nat} (h : n < 2 ^ 32) (rest : List UInt8) :
    readHead (packStrHeader n ++ rest) = some (.str n, rest) := by
  unfold packStrHeader
  split
  · have hb : (UInt8.ofNat (0xa0 + n)).toNat = 0xa0 + n := toNat_ofNat_byte (by omega)
    rw [List.singleton_append, readHead_fixstr rest (by omega) (by omega), hb,
      Nat.add_sub_cancel_left]
  · split
    · exact sized_digits (w := 1) (n := n) (by omega) Head.str rest
    · split
      · exact sized_digits (w := 2) (n := n) (by omega) Head.str rest
      · exact sized_digits (w := 4) (n := n) (by omega) Head.str rest

theorem readHead_packMapHeader {n : Nat} (h : n < 2 ^ 32) (rest : List UInt8) :
    readHead (packMapHeader n ++ rest) = some (.map n, rest) := by
  unfold packMapHeader
  split
  · have hb : (UInt8.ofNat (0x80 + n)).toNat = 0x80 + n := toNat_ofNat_byte (by omega)
    rw [List.singleton_append, readHead_fixmap rest (by omega) (by omega), hb,
      Nat.add_sub_cancel_left]
  · split
    · exact sized_digits (w := 2) (n := n) (by omega) Head.map rest
    · exact sized_digits (w := 4) (n := n) (by omega) Head.map rest

theorem readHead_packFloat32 (bits : BitVec 32) (rest : List UInt8) :
    readHead (packFloat32 bits ++ rest) = some (.value (.float32 bits), rest) := by
  have h := sized_digits (w := 4) (n := bits.toNat) (by have := bits.isLt; omega)
    (fun n => .value (.float32 (BitVec.ofNat 32 n))) rest
  rw [BitVec.ofNat_toNat, BitVec.setWidth_eq] at h
  exact h

theorem readHead_packInt {v : Int} (h : -2 ^ 31 ≤ v) (h' : v < 2 ^ 31) (rest : List UInt8) :
    readHead (packInt v ++ rest) = some (.value (.int v), rest) := by
  unfold packInt
  split
  · exact sized_signed (w := 4) h (by omega) (by decide) rest
  · split
    · exact sized_signed (w := 2) (by omega) (by omega) (by decide) rest
    · split
      · exact sized_signed (w := 1) (by omega) (by omega) (by decide) rest
      · split
        · -- the number is the byte itself
          rw [digits_one, List.singleton_append]
          have hb := toNat_ofNat_byte (n := (v % 2 ^ 8).toNat) (by omega)
          by_cases hneg : v < 0
          · have hv : (v % 2 ^ 8).toNat = (v + 2 ^ (8 * 1)).toNat := by omega
            rw [readHead_negative rest (by omega), hb, hv, signed_of_neg (by omega) hneg
              (by decide)]
          · rw [readHead_fixint rest (by omega), hb]
            congr 4
            omega
        · split
          · exact sized_unsigned (w := 1) (by omega) (by omega) rest
          · split
            · exact sized_unsigned (w := 2) (by omega) (by omega) rest
            · exact sized_unsigned (w := 4) (by omega) (by omega) rest

/-! ## The sizes of what is read -/

theorem length_of_take {n : Nat} {bs v rest : List UInt8} (h : take n bs = some (v, rest)) :
    v.length = n := by
  unfold take at h
  split at h
  · rw [← (Prod.mk.inj (Option.some.inj h)).1, List.length_take]
    omega
  · simp at h

/-- The value of an object without a body. -/
def Object.bodyless : Object → Bool
  | .nil | .bool _ | .int _ | .float32 _ | .float64 _ => true
  | _ => false

/-- A head with a value has all of it, and no size is longer than its bytes. -/
def Head.wf : Head → Bool
  | .value v => v.bodyless
  | .str n | .bin n | .ext n | .array n | .map n => decide (n < 2 ^ 32)

theorem wf_of_sized {w : Nat} {head : Nat → Head} {bs rest : List UInt8} {h : Head}
    (hs : sized w head bs = some (h, rest)) (hwf : ∀ n, n < 256 ^ w → (head n).wf = true) :
    h.wf = true := by
  obtain ⟨⟨digits, tail⟩, htake, heq⟩ := Option.map_eq_some_iff.mp hs
  obtain ⟨rfl, -⟩ := Prod.mk.inj heq
  apply hwf
  rw [← length_of_take htake]
  exact BigEndian.value_lt digits

theorem wf_of_readTyped {bs rest : List UInt8} {b : UInt8} {h : Head}
    (hs : readTyped bs b = some (h, rest)) :
    h.wf = true := by
  unfold readTyped at hs
  split at hs
  all_goals first
    | (apply wf_of_sized hs
       intro n hn
       simp only [Head.wf, Object.bodyless, decide_eq_true_eq]
       try omega)
    | (obtain ⟨rfl, -⟩ := Prod.mk.inj (Option.some.inj hs)
       simp only [Head.wf, Object.bodyless, decide_eq_true_eq]
       try omega)
    | simp at hs

theorem wf_of_readHead {bs rest : List UInt8} {h : Head} (hs : readHead bs = some (h, rest)) :
    h.wf = true := by
  cases bs with
  | nil => simp [readHead] at hs
  | cons b bs =>
    have hb := b.toNat_lt
    rw [readHead] at hs
    repeat' split at hs
    all_goals first
      | exact wf_of_readTyped hs
      | (obtain ⟨rfl, -⟩ := Prod.mk.inj (Option.some.inj hs)
         simp only [Head.wf, Object.bodyless, decide_eq_true_eq]
         try omega)

/-! ## Where reading stops -/

/-- The bytes end within the object, or a byte is no type. -/
inductive Stop where
  | insufficient
  | malformed
deriving DecidableEq, Repr

def orStop {α : Type} (stop : Stop) : Option α → Except Stop α
  | some a => .ok a
  | none => .error stop

/-- Only one byte is not the type of anything. -/
def parseHead (bs : List UInt8) : Except Stop (Head × List UInt8) :=
  orStop (if bs.head? = some 0xc1 then .malformed else .insufficient) (readHead bs)

section Parsing

variable (parse : List UInt8 → Except Stop (Object × List UInt8))

def parseMany : Nat → List UInt8 → Except Stop (List Object × List UInt8)
  | 0, bs => .ok ([], bs)
  | n + 1, bs => (parse bs).bind fun (v, bs) => (parseMany n bs).map fun (vs, bs) => (v :: vs, bs)

def parsePairs : Nat → List UInt8 → Except Stop (List (Object × Object) × List UInt8)
  | 0, bs => .ok ([], bs)
  | n + 1, bs => (parse bs).bind fun (k, bs) => (parse bs).bind fun (v, bs) =>
    (parsePairs n bs).map fun (vs, bs) => ((k, v) :: vs, bs)

/-- Behind the head of an object without elements only bytes can be missing. -/
def parseBody : Head → List UInt8 → Except Stop (Object × List UInt8)
  | .array n, bs => (parseMany parse n bs).map fun (vs, bs) => (.array vs, bs)
  | .map n, bs => (parsePairs parse n bs).map fun (vs, bs) => (.map vs, bs)
  | head, bs => orStop .insufficient (readBody (fun _ => none) head bs)

end Parsing

/-- `readObject`, with the reason when there is no object. -/
def parseObject : Nat → List UInt8 → Except Stop (Object × List UInt8)
  | 0, _ => .error .insufficient
  | depth + 1, bs => (parseHead bs).bind fun (head, bs) => parseBody (parseObject depth) head bs

def parse (bs : List UInt8) : Except Stop (Object × List UInt8) := parseObject bs.length bs

theorem toOption_bind {α β : Type} (x : Except Stop α) (f : α → Except Stop β) :
    (x.bind f).toOption = x.toOption.bind fun a => (f a).toOption := by
  cases x <;> rfl

theorem toOption_map {α β : Type} (x : Except Stop α) (f : α → β) :
    (x.map f).toOption = x.toOption.map f := by
  cases x <;> rfl

theorem toOption_orStop {α : Type} (stop : Stop) (o : Option α) : (orStop stop o).toOption = o :=
  by cases o <;> rfl

section Parsing

variable {parse : List UInt8 → Except Stop (Object × List UInt8)}
  {read : List UInt8 → Option (Object × List UInt8)} (h : ∀ bs, (parse bs).toOption = read bs)

include h

theorem parseMany_toOption (n : Nat) (bs : List UInt8) :
    (parseMany parse n bs).toOption = readMany read n bs := by
  induction n generalizing bs with
  | zero => rfl
  | succ n ih => simp only [parseMany, readMany, toOption_bind, toOption_map, h, ih]

theorem parsePairs_toOption (n : Nat) (bs : List UInt8) :
    (parsePairs parse n bs).toOption = readPairs read n bs := by
  induction n generalizing bs with
  | zero => rfl
  | succ n ih => simp only [parsePairs, readPairs, toOption_bind, toOption_map, h, ih]

theorem parseBody_toOption (head : Head) (bs : List UInt8) :
    (parseBody parse head bs).toOption = readBody read head bs := by
  cases head with
  | array n => simp only [parseBody, readBody, toOption_map, parseMany_toOption h]
  | map n => simp only [parseBody, readBody, toOption_map, parsePairs_toOption h]
  | value v => rfl
  | str n | bin n | ext n => exact toOption_orStop _ _

end Parsing

theorem parseObject_toOption (depth : Nat) (bs : List UInt8) :
    (parseObject depth bs).toOption = readObject depth bs := by
  induction depth generalizing bs with
  | zero => rfl
  | succ depth ih =>
    simp only [parseObject, readObject, parseHead, toOption_bind, toOption_orStop,
      parseBody_toOption ih]

theorem parse_toOption (bs : List UInt8) : (parse bs).toOption = next bs := parseObject_toOption _ _

theorem parse_ok {bs : List UInt8} {r : Object × List UInt8} :
    parse bs = .ok r ↔ next bs = some r := by
  rw [← parse_toOption]
  cases parse bs <;> simp [Except.toOption]

end MsgPack
