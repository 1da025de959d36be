import MacroPlugin.Wire.Codec

/-!
How messages are told apart on a stream: by a length in front of each of them, or by a line feed
behind it.
-/

namespace MacroPlugin

inductive Framing where
  | lengthPrefixed
  | jsonLines
  deriving DecidableEq, Repr

namespace Framing

def index : Framing → Fin 2
  | .lengthPrefixed => 0
  | .jsonLines => 1

def ofIndex : Fin 2 → Framing
  | 0 => .lengthPrefixed
  | 1 => .jsonLines

end Framing

instance : Wire Framing where
  schema := .choice ["length-prefixed", "json-lines"]
  values := ⟨Framing.index, Framing.ofIndex, fun a => by cases a <;> rfl,
    (by decide : ∀ i, (Framing.ofIndex i).index = i)⟩

namespace Framing

/-- The octets that carry a message with this body: its length in eight octets and the body, or the
body and a line feed. -/
def frame (framing : Framing) (body : Octets) : Octets :=
  match framing with
  | .lengthPrefixed => Octets.littleEndian 8 body.length ++ body
  | .jsonLines => body ++ [Ascii.newline]

/-- The pieces in which a frame is written. -/
def pieces (framing : Framing) (body : Octets) : List Octets :=
  match framing with
  | .lengthPrefixed => [Octets.ofWord body.length.toUInt64, body]
  | .jsonLines => [body, [Ascii.newline]]

end Framing

end MacroPlugin
