import MacroPlugin.Transport.Framing
import MacroPlugin.Transport.Stream

/-!
Taking messages off a stream. A stream that ends between two frames is at its end; anything else
that is not a whole frame with a message in it is an error. Frames above a limit are refused
before their body is read, and lines above it after one octet too many.

The body of a frame is read into a buffer of its size, which is asked for before any of it has
arrived. A limit may let through a length that no buffer has; then asking for one is a panic.
-/

namespace MacroPlugin

/-- What ends the taking or the sending of a message. The last of them is not returned as an error:
it is the panic at a buffer that cannot be had. -/
inductive TransportError where
  | io (message : String)
  | decode (error : Json.DecodeError)
  | truncated (expected actual : Nat)
  | tooLarge (size limit : Nat)
  | capacityOverflow
  deriving DecidableEq

def TransportError.message : TransportError → String
  | .io message => "I/O error: " ++ message
  | .decode error => "Failed to decode message: " ++ error.message
  | .truncated expected actual =>
    "Stream ended mid-frame: expected " ++ toString expected ++ " bytes, got " ++ toString actual
  | .tooLarge size limit =>
    "Frame of " ++ toString size ++ " bytes exceeds the " ++ toString limit ++ " byte limit"
  | .capacityOverflow => "capacity overflow"

namespace Stream

/-- The octets of a header that holds a length. -/
def headerSize : Nat := 8

/-- The most octets that a buffer can hold, which is the largest signed number of 64 bits. -/
def bufferCapacity : Nat := 9223372036854775807

/-- Takes the body behind a length; `none` at the end of the stream. -/
def takeLengthPrefixed (limit : Nat) (s : Stream) :
    Except TransportError (Option Octets) × Stream :=
  match s.take headerSize with
  | (.error message, s) => (.error (.io message), s)
  | (.ok header, s) =>
    if header.isEmpty then (.ok none, s)
    else if header.length < headerSize then
      (.error (.truncated headerSize header.length), s)
    else
      let size := Octets.toNat header
      if limit < size then (.error (.tooLarge size limit), s)
      else if bufferCapacity < size then (.error .capacityOverflow, s)
      else match s.take size with
        | (.error message, s) => (.error (.io message), s)
        | (.ok body, s) =>
          if body.length < size then (.error (.truncated size body.length), s)
          else (.ok (some body), s)

/-- Takes the next line that is not blank; `none` at the end of the stream. Every turn takes at
least one octet, so a fuel above the size of the stream is never used up. -/
def takeTextLine (fuel limit : Nat) (s : Stream) : Except TransportError (Option Octets) × Stream :=
  match fuel with
  | 0 => (.ok none, s)
  | fuel + 1 =>
    match s.takeLine (min (limit + 1) (UInt64.size - 1)) with
    | (.error message, s) => (.error (.io message), s)
    | (.ok line, s) =>
      if line.isEmpty then (.ok none, s)
      else if limit < line.length then (.error (.tooLarge line.length limit), s)
      else if line.all Ascii.isBlank then takeTextLine fuel limit s
      else (.ok (some line), s)

/-- Takes the next frame; `none` at the end of the stream. -/
def takeFrame (framing : Framing) (limit : Nat) (s : Stream) :
    Except TransportError (Option Octets) × Stream :=
  match framing with
  | .lengthPrefixed => s.takeLengthPrefixed limit
  | .jsonLines => s.takeTextLine (s.size + 1) limit

/-- Takes the next message; `none` at the end of the stream. -/
def receive (α : Type) [Wire α] (framing : Framing) (limit : Nat) (s : Stream) :
    Except TransportError (Option α) × Stream :=
  match s.takeFrame framing limit with
  | (.error e, s) => (.error e, s)
  | (.ok none, s) => (.ok none, s)
  | (.ok (some body), s) =>
    match Wire.decode α body with
    | .ok message => (.ok (some message), s)
    | .error e => (.error (.decode e), s)

end Stream

end MacroPlugin
