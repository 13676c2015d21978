import RakudoStar.Foundation.LittleEndian
import Mathlib.Data.List.Basic
import Mathlib.Data.Nat.Bitwise

/-!
# Base 64

`base64_encode` turns three bytes into four characters and pads the last group. `base64_decode`
stores three bytes for every group and takes the padding of the last one off the length.
-/

namespace RakudoStar.Serialization

/-- The table `base64`. -/
def base64 : List Char :=
  ['A', 'B', 'C', 'D', 'E', 'F', 'G', 'H', 'I', 'J', 'K', 'L', 'M', 'N', 'O', 'P', 'Q', 'R', 'S',
    'T', 'U', 'V', 'W', 'X', 'Y', 'Z', 'a', 'b', 'c', 'd', 'e', 'f', 'g', 'h', 'i', 'j', 'k', 'l',
    'm', 'n', 'o', 'p', 'q', 'r', 's', 't', 'u', 'v', 'w', 'x', 'y', 'z', '0', '1', '2', '3', '4',
    '5', '6', '7', '8', '9', '+', '/']

/-- The first two characters of a group, and the last two if there is no padding. -/
def base64At (index : Nat) : Char := base64.getD index 'A'

/-- A round of `base64_encode`, where `c` has the bytes that are there and zero for the others. -/
def encodeGroup (c : Nat) (second third : Bool) : List Char :=
  [base64At ((c &&& 0x00fc0000) >>> 18), base64At ((c &&& 0x0003f000) >>> 12),
    if second then base64At ((c &&& 0x00000fc0) >>> 6) else '=',
    if third then base64At (c &&& 0x0000003f) else '=']

def base64Encode : List UInt8 → List Char
  | [] => []
  | [q] => encodeGroup (q.toNat * 256 * 256) false false
  | [q, r] => encodeGroup ((q.toNat * 256 + r.toNat) * 256) true false
  | q :: r :: s :: buf =>
    encodeGroup ((q.toNat * 256 + r.toNat) * 256 + s.toNat) true true ++ base64Encode buf

def base64Pos (c : Char) : Int :=
  if 'A' ≤ c ∧ c ≤ 'Z' then c.toNat - 65
  else if 'a' ≤ c ∧ c ≤ 'z' then c.toNat - 97 + 26
  else if '0' ≤ c ∧ c ≤ '9' then c.toNat - 48 + 52
  else if c = '+' then 62
  else if c = '/' then 63
  else if c = '=' then -1
  else -2

inductive Decoded where
  | refused
  /-- The padding is read, but no group was. -/
  | unset
  | bytes (data : List UInt8)
  deriving DecidableEq, Repr

/-- A byte of the output. -/
def charOf (value : Int) : UInt8 := UInt8.ofNat (value % 256).toNat

/-- The loop of `base64_decode`; `held` is in the block, `pads` the padding before. -/
def decodeLoop (held : Nat → UInt8) (data : List UInt8) (pads : Option Nat) : List Char → Decoded
  | c0 :: c1 :: c2 :: c3 :: p =>
    let n0 := base64Pos c0
    let n1 := base64Pos c1
    let n2 := base64Pos c2
    let n3 := base64Pos c3
    if n0 = -2 ∨ n1 = -2 ∨ n2 = -2 ∨ n3 = -2 then .refused
    else if n0 = -1 ∨ n1 = -1 then .refused
    else if n2 = -1 ∧ n3 ≠ -1 then .refused
    else
      decodeLoop held
        (data ++
          [charOf (n0 <<< (2 : Nat) + n1 >>> (4 : Nat)),
            if n2 ≠ -1 then charOf ((n1 % 16) <<< (4 : Nat) + n2 >>> (2 : Nat))
              else held (data.length + 1),
            if n3 ≠ -1 then charOf ((n2 % 4) <<< (6 : Nat) + n3) else held (data.length + 2)])
        (some ((if n2 = -1 then 1 else 0) + if n3 = -1 then 1 else 0)) p
  | _ =>
    match pads with
    | none => .unset
    | some pads => .bytes (data.take (data.length - pads))

def base64Decode (held : Nat → UInt8) (s : List Char) : Decoded :=
  if s.length % 4 ≠ 0 then .refused else decodeLoop held [] none s

theorem base64Pos_base64At {index : Nat} (small : index < 64) :
    base64Pos (base64At index) = index := by
  have : ∀ index : Fin 64, base64Pos (base64At index) = index := by decide
  exact this ⟨index, small⟩

theorem sextet_eq (c shift : Nat) : (c &&& (63 <<< shift)) >>> shift = c / 2 ^ shift % 64 := by
  rw [Nat.shiftRight_and_distrib, Nat.shiftLeft_shiftRight, Nat.shiftRight_eq_div_pow]
  exact Nat.and_two_pow_sub_one_eq_mod _ 6

theorem encodeGroup_eq (c : Nat) (second third : Bool) : encodeGroup c second third =
    [base64At (c / 262144 % 64), base64At (c / 4096 % 64),
      if second then base64At (c / 64 % 64) else '=',
      if third then base64At (c % 64) else '='] := by
  have first : (c &&& 0x00fc0000) >>> 18 = c / 262144 % 64 := sextet_eq c 18
  have next : (c &&& 0x0003f000) >>> 12 = c / 4096 % 64 := sextet_eq c 12
  have later : (c &&& 0x00000fc0) >>> 6 = c / 64 % 64 := sextet_eq c 6
  have last : c &&& 0x0000003f = c % 64 := Nat.and_two_pow_sub_one_eq_mod c 6
  rw [encodeGroup, first, next, later, last]

theorem charOf_eq {value : Int} {byte : Nat} (equal : value % 256 = byte) :
    charOf value = UInt8.ofNat byte := by
  rw [charOf, equal]
  rfl

/-- The bytes behind the padding stay what the block held. -/
theorem decodeLoop_encodeGroup (c : Nat) (held : Nat → UInt8) (data : List UInt8)
    (pads : Option Nat) (second third : Bool) (proper : third → second) (p : List Char) :
    decodeLoop held data pads (encodeGroup c second third ++ p) =
      decodeLoop held
        (data ++ [UInt8.ofNat (c / 65536 % 256),
          if second then UInt8.ofNat (c / 256 % 256) else held (data.length + 1),
          if third then UInt8.ofNat (c % 256) else held (data.length + 2)])
        (some ((if second then 0 else 1) + if third then 0 else 1)) p := by
  have pad : base64Pos '=' = -1 := by decide
  have sextet (n : Nat) : ∃ k : Nat, base64Pos (base64At (n % 64)) = k ∧ n % 64 = k ∧
      (k : Int) ≠ -1 ∧ (k : Int) ≠ -2 :=
    ⟨n % 64, base64Pos_base64At (Nat.mod_lt n (by decide)), rfl, by omega, by omega⟩
  rw [encodeGroup_eq]
  rcases sextet (c / 262144) with ⟨n0, pos0, eq0, data0, valid0⟩
  rcases sextet (c / 4096) with ⟨n1, pos1, eq1, data1, valid1⟩
  rcases sextet (c / 64) with ⟨n2, pos2, eq2, data2, valid2⟩
  rcases sextet c with ⟨n3, pos3, eq3, data3, valid3⟩
  have first :
      charOf ((n0 : Int) <<< (2 : Nat) + (n1 : Int) >>> (4 : Nat)) =
        UInt8.ofNat (c / 65536 % 256) := by
    apply charOf_eq
    rw [Int.shiftLeft_eq, Int.shiftRight_eq_div_pow]
    omega
  have next :
      charOf (((n1 : Int) % 16) <<< (4 : Nat) + (n2 : Int) >>> (2 : Nat)) =
        UInt8.ofNat (c / 256 % 256) := by
    apply charOf_eq
    rw [Int.shiftLeft_eq, Int.shiftRight_eq_div_pow]
    omega
  have last :
      charOf (((n2 : Int) % 4) <<< (6 : Nat) + (n3 : Int)) = UInt8.ofNat (c % 256) := by
    apply charOf_eq
    rw [Int.shiftLeft_eq]
    omega
  cases second <;> cases third
  · simp [decodeLoop, pad, pos0, pos1, data0, data1, valid0, valid1, first]
  · simp at proper
  · simp [decodeLoop, pad, pos0, pos1, pos2, data0, data1, data2, valid0, valid1, valid2, first,
      next]
  · simp [decodeLoop, pos0, pos1, pos2, pos3, data0, data1, data2, data3, valid0, valid1, valid2,
      valid3, first, next, last]

theorem ofNat_of_eq {b : UInt8} {value : Nat} (equal : value = b.toNat) :
    UInt8.ofNat value = b := by rw [equal, UInt8.ofNat_toNat]

theorem decodeLoop_nil (held : Nat → UInt8) (data : List UInt8) {group : List UInt8} {pads : Nat}
    (few : pads ≤ group.length) :
    decodeLoop held (data ++ group) (some pads) [] =
      .bytes (data ++ group.take (group.length - pads)) := by
  rw [decodeLoop, List.length_append, Nat.add_sub_assoc few, List.take_length_add_append]
  simp

theorem decodeLoop_base64Encode (held : Nat → UInt8) (data : List UInt8) (pads : Option Nat)
    (buf : List UInt8) (stored : pads = some 0 ∨ buf ≠ []) :
    decodeLoop held data pads (base64Encode buf) = .bytes (data ++ buf) := by
  fun_induction base64Encode buf generalizing data pads with
  | case1 =>
    rcases stored with rfl | absurdity
    · simp [decodeLoop]
    · contradiction
  | case2 q =>
    have small := q.toNat_lt
    have step :=
      decodeLoop_encodeGroup (q.toNat * 256 * 256) held data pads false false (by simp) []
    rw [List.append_nil] at step
    rw [step, decodeLoop_nil held data (by simp), ofNat_of_eq (b := q) (by omega)]
    rfl
  | case3 q r =>
    have small := q.toNat_lt
    have small' := r.toNat_lt
    have step := decodeLoop_encodeGroup ((q.toNat * 256 + r.toNat) * 256) held data pads true false
      (by simp) []
    rw [List.append_nil] at step
    rw [step, decodeLoop_nil held data (by simp), if_pos rfl, ofNat_of_eq (b := q) (by omega),
      ofNat_of_eq (b := r) (by omega)]
    rfl
  | case4 q r s buf ih =>
    have small := q.toNat_lt
    have small' := r.toNat_lt
    have small'' := s.toNat_lt
    rw [decodeLoop_encodeGroup _ held data pads true true (by simp), if_pos rfl, if_pos rfl,
      ofNat_of_eq (b := q) (by omega), ofNat_of_eq (b := r) (by omega),
      ofNat_of_eq (b := s) (by omega)]
    refine (ih _ _ (.inl rfl)).trans ?_
    simp

theorem length_base64Encode (buf : List UInt8) :
    (base64Encode buf).length = 4 * ((buf.length + 2) / 3) := by
  fun_induction base64Encode buf with
  | case1 => rfl
  | case2 => simp [encodeGroup]
  | case3 => simp [encodeGroup]
  | case4 q r s buf ih =>
    rw [List.length_append, ih]
    simp only [encodeGroup, List.length_cons, List.length_nil]
    omega

/-- What is encoded comes back, and the text fits the allocated block. -/
theorem base64Decode_base64Encode (held : Nat → UInt8) (buf : List UInt8) :
    base64Decode held (base64Encode buf) = (if buf = [] then .unset else .bytes buf) ∧
      (base64Encode buf).length + 1 ≤ (buf.length + 3) * 4 / 3 + 1 := by
  have length := length_base64Encode buf
  refine ⟨?_, by omega⟩
  rw [base64Decode, if_neg (by omega)]
  split
  case isTrue empty => rw [empty]; rfl
  case isFalse stored => exact decodeLoop_base64Encode held [] none buf (.inr stored)

end RakudoStar.Serialization
