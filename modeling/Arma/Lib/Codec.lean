import Arma.Lib.Bytes

/-!
# Message codecs

A codec turns the messages of one type into bytes and reads them back. The one law every codec
carries is the round trip `unmarshal_marshal`: what was marshalled decodes to itself, so marshalling
is injective (`Codec.marshal_injective`). Nothing is said about bytes that no message marshals to: a
decoder may refuse them or read some message from them.

A `MsgCodec` is a codec whose empty input is the default message, as in the field-tagged formats
that leave default fields out; only the default message can then be marshalled to no bytes at all
(`MsgCodec.marshal_ne_nil`).
-/

namespace Arma.Lib

/-- An encoding of the messages of type `α`. -/
structure Codec (α : Type) where
  marshal : α → Bytes
  unmarshal : Bytes → Except String α
  unmarshal_marshal : ∀ a, unmarshal (marshal a) = .ok a

attribute [simp] Codec.unmarshal_marshal

/-- A codec that reads the default message from the empty byte string. -/
structure MsgCodec (α : Type) [Inhabited α] extends Codec α where
  unmarshal_nil : unmarshal [] = .ok default

theorem Codec.marshal_injective {α} (c : Codec α) : Function.Injective c.marshal := by
  intro a b h
  have hb : Except.ok a = (Except.ok b : Except String α) := by
    rw [← c.unmarshal_marshal a, h, c.unmarshal_marshal b]
  exact Except.ok.inj hb

@[simp] theorem Codec.marshal_inj {α} (c : Codec α) {a b} :
    c.marshal a = c.marshal b ↔ a = b := c.marshal_injective.eq_iff

theorem MsgCodec.marshal_ne_nil {α} [Inhabited α] (c : MsgCodec α) {a} (h : a ≠ default) : c.marshal a ≠ [] := by
  intro hnil
  have hround := c.unmarshal_marshal a
  rw [hnil, c.unmarshal_nil] at hround
  exact h (Except.ok.inj hround).symm

end Arma.Lib
