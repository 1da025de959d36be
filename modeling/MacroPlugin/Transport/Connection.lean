import MacroPlugin.Dispatch.Dispatcher
import MacroPlugin.Transport.Sink

/-!
The exchange between a host and a plugin. Requests are answered one at a time in the order of
their arrival, and each reply is flushed before the next request is taken. The exchange ends with
the stream, or with the first thing on it that is no request.
-/

namespace MacroPlugin

structure Connection where
  framing : Framing
  limit : Nat
  input : Stream
  output : Sink
  dispatcher : Dispatcher

/-- How many requests were answered, and how many diagnostics the replies carried. -/
structure Tally where
  requests : Nat := 0
  diagnostics : Nat := 0
  deriving DecidableEq, Repr

def Tally.add (tally : Tally) (reply : Reply) : Tally :=
  ⟨tally.requests + 1, tally.diagnostics + reply.diagnostics.length⟩

namespace Connection

/-- Answers requests until the stream ends. Every request takes at least one octet, so a fuel
above the size of the stream is never used up. -/
def serveFrom (fuel : Nat) (tally : Tally) (c : Connection) :
    Except TransportError Tally × Connection :=
  match fuel with
  | 0 => (.ok tally, c)
  | fuel + 1 =>
    match c.input.receive Request c.framing c.limit with
    | (.error e, input) => (.error e, { c with input })
    | (.ok none, input) => (.ok tally, { c with input })
    | (.ok (some request), input) =>
      let (reply, dispatcher) := c.dispatcher.answer request
      match c.output.send c.framing reply with
      | (.error e, output) => (.error e, { c with input, output, dispatcher })
      | (.ok (), output) =>
        serveFrom fuel (tally.add reply) { c with input, output, dispatcher }

/-- Answers requests until the stream ends. -/
def serve (c : Connection) : Except TransportError Tally × Connection :=
  c.serveFrom (c.input.size + 1) {}

end Connection

end MacroPlugin
