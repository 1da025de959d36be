import MacroPlugin.Proofs.Transport.Delivery
import MacroPlugin.Transport.Sink

/-!
What is written for a sequence of messages: their frames one after the other. The pieces in which a
message is written make up its frame, and a sink that never fails accepts all of them.
-/

namespace MacroPlugin

/-- The pieces of a message are its frame. -/
theorem Framing.pieces_flatten (framing : Framing) (body : Octets) :
    (framing.pieces body).flatten = framing.frame body := by
  cases framing with
  | lengthPrefixed =>
    simp only [pieces, frame, Octets.ofWord_eq_littleEndian, List.flatten_cons, List.flatten_nil,
      List.append_nil]
  | jsonLines => rfl

/-- The octets that carry these messages, each in a frame of its own. -/
def Framing.transcript {α : Type} [Wire α] (framing : Framing) (messages : List α) : Octets :=
  messages.flatMap fun message => framing.frame (.ofText (Wire.encode message))

namespace Sink

theorem writeAll_unlimited (written : Octets) (flushFails : Bool) (pieces : List Octets) :
    ({ written, flushFails } : Sink).writeAll pieces =
      (.ok (), { written := written ++ pieces.flatten, flushFails }) := by
  induction pieces generalizing written with
  | nil => simp [writeAll]
  | cons piece pieces ih =>
    simp only [writeAll, write, ih, List.flatten_cons, List.append_assoc]

/-- A sink that never fails takes the whole frame of a message. -/
theorem send_unlimited {α : Type} [Wire α] (written : Octets) (framing : Framing) (message : α) :
    ({ written } : Sink).send framing message =
      (.ok (), { written := written ++ framing.frame (.ofText (Wire.encode message)) }) := by
  simp only [send, writeAll_unlimited, Framing.pieces_flatten]
  rfl

/-- Writes messages one after the other up to the first failure. -/
def sendAll {α : Type} [Wire α] (s : Sink) (framing : Framing) :
    List α → Except TransportError Unit × Sink
  | [] => (.ok (), s)
  | message :: messages =>
    match s.send framing message with
    | (.ok (), s) => s.sendAll framing messages
    | (.error e, s) => (.error e, s)

theorem sendAll_unlimited {α : Type} [Wire α] (written : Octets) (framing : Framing)
    (messages : List α) :
    ({ written } : Sink).sendAll framing messages =
      (.ok (), { written := written ++ framing.transcript messages }) := by
  induction messages generalizing written with
  | nil => simp [sendAll, Framing.transcript]
  | cons message messages ih =>
    simp only [sendAll, send_unlimited, ih, Framing.transcript, List.flatMap_cons,
      List.append_assoc]

end Sink

end MacroPlugin
