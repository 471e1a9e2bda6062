import Arma.Lib.Codec
import Mathlib.Logic.Equiv.List

/-!
# Codecs of encodable types

Every type whose values can be numbered has a codec: a message is written in unary, as that many bytes. The
codecs of this module are there to instantiate a development that takes its codecs as parameters, so that
what it assumes of them is seen to be consistent. One message can be chosen to be the `short` one, which
takes one byte.

The fixed-width integers, characters and strings are numbered here.
-/

namespace Arma.Lib

instance encodableUInt8 : Encodable UInt8 :=
  Encodable.ofLeftInjection UInt8.toNat (fun n => some (UInt8.ofNat n)) (by simp)

instance encodableUInt32 : Encodable UInt32 :=
  Encodable.ofLeftInjection UInt32.toNat (fun n => some (UInt32.ofNat n)) (by simp)

instance encodableUInt64 : Encodable UInt64 :=
  Encodable.ofLeftInjection UInt64.toNat (fun n => some (UInt64.ofNat n)) (by simp)

instance encodableInt32 : Encodable Int32 :=
  Encodable.ofLeftInjection Int32.toInt (fun n => some (Int32.ofInt n)) (by simp)

instance encodableInt64 : Encodable Int64 :=
  Encodable.ofLeftInjection Int64.toInt (fun n => some (Int64.ofInt n)) (by simp)

instance encodableChar : Encodable Char :=
  Encodable.ofLeftInjection Char.toNat (fun n => some (Char.ofNat n)) (by simp)

instance encodableString : Encodable String :=
  Encodable.ofLeftInjection String.toList (fun l => some (String.ofList l)) (by simp)

variable {α : Type} [Encodable α]

/-- The message with number `n`. -/
def numbered (n : Nat) : Except String α :=
  match Encodable.decode n with
  | some a => .ok a
  | none => .error "no such message"

@[simp] theorem numbered_encode (a : α) : numbered (Encodable.encode a) = .ok a := by
  simp [numbered]

/-- A message is its number and one more, in unary. -/
def Codec.unary (α : Type) [Encodable α] : Codec α where
  marshal a := List.replicate (Encodable.encode a + 1) 0
  unmarshal b :=
    match b.length with
    | 0 => .error "no bytes"
    | n + 1 => numbered n
  unmarshal_marshal a := by simp

theorem Codec.marshal_unary_ne_nil (a : α) : (Codec.unary α).marshal a ≠ [] := by
  simp [unary]

/-- No bytes are the default message, one byte the `short` one, and any other message is its number and
two more, in unary. -/
def MsgCodec.unary [Inhabited α] [DecidableEq α] (short : α) : MsgCodec α where
  marshal a :=
    if a = default then [] else if a = short then [0]
    else List.replicate (Encodable.encode a + 2) 0
  unmarshal b :=
    match b.length with
    | 0 => .ok default
    | 1 => .ok short
    | n + 2 => numbered n
  unmarshal_marshal a := by
    by_cases hdefault : a = default
    · simp [hdefault]
    · by_cases hshort : a = short
      · simp [hshort ▸ hdefault, hshort]
      · simp [hdefault, hshort]
  unmarshal_nil := rfl

theorem MsgCodec.length_marshal_short [Inhabited α] [DecidableEq α] (short : α) :
    ((MsgCodec.unary short).marshal short).length ≤ 1 := by
  unfold unary
  dsimp only
  by_cases hdefault : short = default <;> simp [hdefault]

end Arma.Lib
