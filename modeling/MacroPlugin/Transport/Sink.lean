import MacroPlugin.Transport.Frame

/-!
Where outgoing octets end up. A sink may have room for a limited number of octets, after which
every write fails, and its flushes may fail. What it accepted before a failure stays written.
-/

namespace MacroPlugin

structure Sink where
  written : Octets := []
  room : Option Nat := none
  flushFails : Bool := false
  deriving DecidableEq, Repr

namespace Sink

/-- Writes octets as far as there is room. -/
def write (s : Sink) (octets : Octets) : Except String Unit × Sink :=
  match s.room with
  | none => (.ok (), { s with written := s.written ++ octets })
  | some room =>
    if octets.length ≤ room then
      (.ok (), { s with written := s.written ++ octets, room := some (room - octets.length) })
    else
      (.error "sink is full", { s with written := s.written ++ octets.take room, room := some 0 })

/-- Writes one piece after the other up to the first failure. -/
def writeAll (s : Sink) : List Octets → Except String Unit × Sink
  | [] => (.ok (), s)
  | piece :: pieces =>
    match s.write piece with
    | (.ok (), s) => s.writeAll pieces
    | (.error message, s) => (.error message, s)

def flush (s : Sink) : Except String Unit :=
  if s.flushFails then .error "flush failed" else .ok ()

/-- Writes a message in a frame of its own and flushes. -/
def send {α : Type} [Wire α] (s : Sink) (framing : Framing) (message : α) :
    Except TransportError Unit × Sink :=
  match s.writeAll (framing.pieces (.ofText (Wire.encode message))) with
  | (.error message, s) => (.error (.io message), s)
  | (.ok (), s) => (s.flush.mapError .io, s)

end Sink

end MacroPlugin
