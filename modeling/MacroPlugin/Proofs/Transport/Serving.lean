import Mathlib.Algebra.GroupWithZero.Nat
import MacroPlugin.Proofs.Dispatch.History
import MacroPlugin.Proofs.Transport.Reception
import MacroPlugin.Proofs.Transport.Transcript
import MacroPlugin.Transport.Connection

/-!
A served connection as the composition of its three parts. Serving is: take all messages that the
stream has to say, answer them in order, and send the replies in frames until the sink fails
(`serveFrom_sends`). Which messages there are and how the stream ends is settled by the stream
alone, so with a sink that never fails, nothing that an implementation does can end a session or
lose a reply.
-/

namespace MacroPlugin

namespace Connection

/-- The tally of a number of replies, on top of an earlier one. -/
def addAll (tally : Tally) (replies : List Reply) : Tally :=
  ⟨tally.requests + replies.length,
    tally.diagnostics + (replies.map (·.diagnostics.length)).sum⟩

theorem addAll_cons (tally : Tally) (reply : Reply) (replies : List Reply) :
    addAll tally (reply :: replies) = addAll (tally.add reply) replies := by
  simp only [addAll, Tally.add, List.length_cons, List.map_cons, List.sum_cons, Tally.mk.injEq]
  omega

/-- From any point of a session on, with enough fuel and any sink: the replies to the messages to
come are sent in order. If the sink takes them all, the session ends as the stream does, and
otherwise with the error of the sink. -/
theorem serveFrom_sends (fuel : Nat) (tally : Tally) (framing : Framing) (limit : Nat)
    (input : Stream) (output : Sink) (dispatcher : Dispatcher) (hfuel : input.size < fuel) :
    let heard := input.receiveAll Request framing limit
    let answered := dispatcher.answerAll heard.messages
    let sent := output.sendAll framing answered.1
    let served := serveFrom fuel tally ⟨framing, limit, input, output, dispatcher⟩
    served.1 = (sent.1.bind fun _ => heard.ending.map fun _ => addAll tally answered.1) ∧
      served.2.output = sent.2 ∧
      (sent.1 = .ok () → served.2 = ⟨framing, limit, heard.rest, sent.2, answered.2⟩) := by
  induction fuel generalizing tally input output dispatcher with
  | zero => omega
  | succ fuel ih =>
    unfold serveFrom
    rcases hread : input.receive Request framing limit with ⟨e | _ | request, rest⟩
    · simp [Stream.receiveAll_of_error hread, Dispatcher.answerAll, Sink.sendAll, Except.bind,
        Except.map]
    · simp [Stream.receiveAll_of_none hread, Dispatcher.answerAll, Sink.sendAll, Except.bind,
        Except.map, addAll]
    · have hsize := Stream.receive_size_lt hread
      simp only [Stream.receiveAll_of_some hread, Dispatcher.answerAll_cons, Sink.sendAll,
        addAll_cons]
      rcases hsent : output.send framing (dispatcher.answer request).1 with ⟨e | _, output'⟩
      · exact ⟨rfl, rfl, by simp⟩
      · exact ih (tally.add (dispatcher.answer request).1) rest output'
          (dispatcher.answer request).2 (by omega)

/-- From any point of a session on, with enough fuel: the messages to come are answered in order,
and the session ends as the stream does. -/
theorem serveFrom_eq (fuel : Nat) (tally : Tally) (framing : Framing) (limit : Nat)
    (input : Stream) (written : Octets) (dispatcher : Dispatcher) (hfuel : input.size < fuel) :
    let heard := input.receiveAll Request framing limit
    let answered := dispatcher.answerAll heard.messages
    serveFrom fuel tally ⟨framing, limit, input, { written }, dispatcher⟩ =
      (heard.ending.map fun _ => addAll tally answered.1,
        ⟨framing, limit, heard.rest,
          { written := written ++ framing.transcript answered.1 }, answered.2⟩) := by
  obtain ⟨hresult, -, hleft⟩ :=
    serveFrom_sends fuel tally framing limit input { written } dispatcher hfuel
  rw [Sink.sendAll_unlimited] at hresult hleft
  exact Prod.ext hresult (hleft rfl)

/-- A session from its beginning, with a sink that never fails and has got nothing yet. -/
theorem serve_unlimited (framing : Framing) (limit : Nat) (input : Stream)
    (dispatcher : Dispatcher) :
    let heard := input.receiveAll Request framing limit
    let answered := dispatcher.answerAll heard.messages
    serve ⟨framing, limit, input, {}, dispatcher⟩ =
      (heard.ending.map fun _ => addAll {} answered.1,
        ⟨framing, limit, heard.rest, { written := framing.transcript answered.1 }, answered.2⟩) :=
  serveFrom_eq (input.size + 1) {} framing limit input [] dispatcher (Nat.lt_succ_self _)

end Connection

end MacroPlugin
