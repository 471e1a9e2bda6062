import Mathlib.Tactic.Ring
import Mathlib.Data.List.Induction

/-!
# Byte strings

A byte string is a list of bytes. `bigEndian w n` is the `w`-byte big-endian form of `n`, cut off
at `w` bytes as a conversion to a machine integer cuts it off, and `ofBigEndian` reads such a form
back (`ofBigEndian_bigEndian`, `bigEndian_ofBigEndian`). `hex` is the lower-case hexadecimal text of a
byte string, and `sliceText` the text of a list.
-/

namespace Arma.Lib

open List

/-- A byte string. -/
abbrev Bytes := List UInt8

/-- The `w` low-order bytes of `n`, most significant first. -/
def bigEndian : Nat → Nat → Bytes
  | 0, _ => []
  | w + 1, n => bigEndian w (n / 256) ++ [UInt8.ofNat n]

/-- The number a big-endian byte string stands for. -/
def ofBigEndian (b : Bytes) : Nat := b.foldl (fun n x => n * 256 + x.toNat) 0

@[simp] theorem length_bigEndian (w n : Nat) : (bigEndian w n).length = w := by
  induction w generalizing n with
  | zero => rfl
  | succ w ih => simp [bigEndian, ih]

theorem ofBigEndian_bigEndian_mod (w n : Nat) : ofBigEndian (bigEndian w n) = n % 256 ^ w := by
  induction w generalizing n with
  | zero => simp [bigEndian, ofBigEndian, Nat.mod_one]
  | succ w ih =>
    have hsplit := Nat.mod_mul (x := n) (a := 256) (b := 256 ^ w)
    have hlast : (UInt8.ofNat n).toNat = n % 256 := by simp
    have hstep : ofBigEndian (bigEndian (w + 1) n) =
        ofBigEndian (bigEndian w (n / 256)) * 256 + (UInt8.ofNat n).toNat := by
      simp [ofBigEndian, bigEndian]
    rw [hstep, hlast, ih, pow_succ, Nat.mul_comm (256 ^ w) 256, hsplit]
    ring

theorem ofBigEndian_bigEndian {w n} (h : n < 256 ^ w) : ofBigEndian (bigEndian w n) = n := by
  rw [ofBigEndian_bigEndian_mod, Nat.mod_eq_of_lt h]

theorem bigEndian_inj {w m n} : bigEndian w m = bigEndian w n ↔ m % 256 ^ w = n % 256 ^ w := by
  constructor
  · intro h
    rw [← ofBigEndian_bigEndian_mod, h, ofBigEndian_bigEndian_mod]
  · intro h
    induction w generalizing m n with
    | zero => rfl
    | succ w ih =>
      have hlow : m % 256 = n % 256 := by
        have hdvd : 256 ∣ 256 ^ (w + 1) := ⟨256 ^ w, by ring⟩
        rw [← Nat.mod_mod_of_dvd m hdvd, h, Nat.mod_mod_of_dvd n hdvd]
      have hhigh : m / 256 % 256 ^ w = n / 256 % 256 ^ w := by
        rw [pow_succ, Nat.mul_comm] at h
        rw [← Nat.mod_mul_right_div_self, h, Nat.mod_mul_right_div_self]
      have hbyte : UInt8.ofNat m = UInt8.ofNat n := UInt8.toNat_inj.mp (by simpa using hlow)
      rw [bigEndian, bigEndian, ih hhigh, hbyte]

theorem ofBigEndian_concat (b : Bytes) (x : UInt8) : ofBigEndian (b ++ [x]) = ofBigEndian b * 256 + x.toNat := by
  simp [ofBigEndian]

theorem bigEndian_ofBigEndian (b : Bytes) : bigEndian b.length (ofBigEndian b) = b := by
  induction b using List.reverseRecOn with
  | nil => rfl
  | append_singleton b x ih =>
    have hx := x.toNat_lt
    have hdiv : (ofBigEndian b * 256 + x.toNat) / 256 = ofBigEndian b := by omega
    have hlast : UInt8.ofNat (ofBigEndian b * 256 + x.toNat) = x := by
      refine UInt8.toNat_inj.mp ?_
      simp only [UInt8.toNat_ofNat']
      omega
    rw [length_append, length_singleton, bigEndian, ofBigEndian_concat, hdiv, hlast, ih]

theorem bigEndian_two_inj {x y : UInt16} : bigEndian 2 x.toNat = bigEndian 2 y.toNat ↔ x = y := by
  have hx : x.toNat < 256 ^ 2 := x.toNat_lt
  have hy : y.toNat < 256 ^ 2 := y.toNat_lt
  rw [bigEndian_inj, Nat.mod_eq_of_lt hx, Nat.mod_eq_of_lt hy, UInt16.toNat_inj]

theorem bigEndian_eight_inj {x y : UInt64} : bigEndian 8 x.toNat = bigEndian 8 y.toNat ↔ x = y := by
  have hx : x.toNat < 256 ^ 8 := x.toNat_lt
  have hy : y.toNat < 256 ^ 8 := y.toNat_lt
  rw [bigEndian_inj, Nat.mod_eq_of_lt hx, Nat.mod_eq_of_lt hy, UInt64.toNat_inj]

theorem append_eq_append_iff {α : Type} {l l' m m' : List α} (h : l.length = l'.length) :
    l ++ m = l' ++ m' ↔ l = l' ∧ m = m' := by
  constructor
  · exact fun heq => append_inj heq h
  · rintro ⟨rfl, rfl⟩
    rfl

theorem bigEndian_append (a b hi lo : Nat) (h : lo < 256 ^ b) :
    bigEndian a hi ++ bigEndian b lo = bigEndian (a + b) (hi * 256 ^ b + lo) := by
  induction b generalizing lo with
  | zero =>
    obtain rfl : lo = 0 := by simpa using h
    simp [bigEndian]
  | succ b ih =>
    have hsplit : hi * 256 ^ (b + 1) + lo = 256 * (hi * 256 ^ b) + lo := by ring
    have hdiv : (hi * 256 ^ (b + 1) + lo) / 256 = hi * 256 ^ b + lo / 256 := by
      rw [hsplit, Nat.mul_add_div (by decide)]
    have hbyte : UInt8.ofNat (hi * 256 ^ (b + 1) + lo) = UInt8.ofNat lo := by
      refine UInt8.toNat_inj.mp ?_
      rw [hsplit]
      simp
    have hlo : lo / 256 < 256 ^ b := Nat.div_lt_of_lt_mul (by rw [pow_succ] at h; omega)
    have hadd : a + (b + 1) = a + b + 1 := by omega
    rw [hadd, bigEndian, bigEndian, hdiv, hbyte, ← ih _ hlo, append_assoc]

theorem byteArray_toList_loop (b : ByteArray) (i : Nat) (r : List UInt8) :
    ByteArray.toList.loop b i r = r.reverse ++ b.data.toList.drop i := by
  fun_induction ByteArray.toList.loop b i r with
  | case1 i r hi ih =>
    have hget : b.data.toList.drop i = b.get! i :: b.data.toList.drop (i + 1) := by
      have hi' : i < b.data.toList.length := hi
      rw [drop_eq_getElem_cons hi']
      congr 1
      exact (getElem!_pos b.data i hi).symm
    rw [ih, hget, reverse_cons, append_assoc, singleton_append]
  | case2 i r hi =>
    have hi' : b.data.toList.length ≤ i := Nat.le_of_not_lt hi
    rw [drop_eq_nil_of_le hi', append_nil]

theorem byteArray_toList (b : ByteArray) : b.toList = b.data.toList := byteArray_toList_loop b 0 []

theorem length_toUTF8_toList (s : String) : s.toUTF8.toList.length = s.utf8ByteSize := by
  rw [byteArray_toList]
  rfl

theorem toUTF8_toList_inj {s s' : String} : s.toUTF8.toList = s'.toUTF8.toList ↔ s = s' := by
  constructor
  · intro h
    rw [byteArray_toList, byteArray_toList] at h
    exact String.toByteArray_inj.mp (ByteArray.ext (Array.toList_inj.mp h))
  · rintro rfl
    rfl

/-- One lower-case hexadecimal digit. -/
def hexDigit (n : Nat) : Char :=
  if n < 10 then Char.ofNat (48 + n) else Char.ofNat (87 + n)

/-- `hex.EncodeToString`. -/
def hex (b : Bytes) : String :=
  String.ofList (b.flatMap fun x => [hexDigit (x.toNat / 16), hexDigit (x.toNat % 16)])

theorem hexDigit_inj {a b} (ha : a < 16) (hb : b < 16) (h : hexDigit a = hexDigit b) : a = b := by
  have hall : ∀ a b : Fin 16, hexDigit a = hexDigit b → a = b := by decide
  exact congrArg Fin.val (hall ⟨a, ha⟩ ⟨b, hb⟩ h)

theorem hex_injective : Function.Injective hex := by
  intro b b' h
  have hdigits := String.ofList_injective h
  clear h
  induction b generalizing b' with
  | nil =>
    cases b' with
    | nil => rfl
    | cons x b' => simp at hdigits
  | cons x b ih =>
    cases b' with
    | nil => simp at hdigits
    | cons y b' =>
      simp only [flatMap_cons, cons_append, nil_append, List.cons.injEq] at hdigits
      obtain ⟨hhigh, hlow, hrest⟩ := hdigits
      have hx := x.toNat_lt
      have hy := y.toNat_lt
      have hhigh := hexDigit_inj (by omega) (by omega) hhigh
      have hlow := hexDigit_inj (by omega) (by omega) hlow
      have hxy : x = y := UInt8.toNat_inj.mp (by omega)
      rw [hxy, ih hrest]

/-- `%x` of a number. -/
def hexNat (n : Nat) : String := String.ofList (Nat.toDigits 16 n)

/-- `%v` of a slice. -/
def sliceText {α : Type} [ToString α] (l : List α) : String :=
  "[" ++ " ".intercalate (l.map toString) ++ "]"

end Arma.Lib
