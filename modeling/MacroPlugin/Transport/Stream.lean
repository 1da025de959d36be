import MacroPlugin.Octets

/-!
Incoming octets as they are delivered. A stream is the sequence of what its reads will bring: some
octets, an interruption after which the read is repeated, or a failure. The octets that were
taken before a failure are gone, and later reads go on behind it.

Both framings take octets in the same way, `Stream.gather`: up to a limit, and no further than an
octet that ends the piece.
-/

namespace MacroPlugin

inductive Delivery where
  | data (octets : Octets)
  | interrupted
  | failed (message : String)
  deriving DecidableEq, Repr

abbrev Stream := List Delivery

/-- The octets of a delivery. -/
def Delivery.octets : Delivery → Octets
  | .data octets => octets
  | _ => []

namespace Stream

/-- How many octets are to come. -/
def size : Stream → Nat
  | [] => 0
  | delivery :: rest => delivery.octets.length + size rest

/-- Takes octets up to a limit and no further than one that satisfies `stop`: those taken, behind
the ones taken before in reverse order, how many more may be taken, and those left. -/
def cut (stop : UInt8 → Bool) (taken : Octets) : Nat → Octets → Octets × Nat × Octets
  | 0, octets => (taken.reverse, 0, octets)
  | limit + 1, [] => (taken.reverse, limit + 1, [])
  | limit + 1, octet :: rest =>
    if stop octet then ((octet :: taken).reverse, 0, rest) else cut stop (octet :: taken) limit rest

/-- Takes octets from as many deliveries as it needs. At the end of the stream there may be fewer
than the limit. -/
def gather (stop : UInt8 → Bool) (limit : Nat) (s : Stream) : Except String Octets × Stream :=
  if limit = 0 then (.ok [], s)
  else match s with
    | [] => (.ok [], [])
    | .interrupted :: rest => gather stop limit rest
    | .failed message :: rest => (.error message, rest)
    | .data octets :: rest =>
      match cut stop [] limit octets with
      | (front, limit, []) =>
        let (result, rest) := gather stop limit rest
        (result.map (front ++ ·), rest)
      | (front, _, back) => (.ok front, .data back :: rest)

/-- Takes as many octets as the stream has, up to `count`. -/
def take (count : Nat) (s : Stream) : Except String Octets × Stream :=
  s.gather (fun _ => false) count

/-- Takes a line with its line feed, but no more than `limit` octets of it. -/
def takeLine (limit : Nat) (s : Stream) : Except String Octets × Stream :=
  s.gather (· = Ascii.newline) limit

end Stream

end MacroPlugin
