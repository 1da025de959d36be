import MacroPlugin.Proofs.Transport.Serving

/-!
Serving a connection whose sink fails. A sink with limited room keeps a prefix of what a sink that
never fails would have got: the replies are cut where the room ends, be it inside a header, inside a
body or between two frames, and the exchange ends there. A sink that cannot flush ends the exchange
behind the first reply.
-/

namespace MacroPlugin

namespace Sink

/-- Pieces that fit into the room that is left are written as a whole. -/
theorem writeAll_of_fits {written : Octets} {room : Nat} {pieces : List Octets}
    (hfits : pieces.flatten.length ≤ room) :
    ({ written, room := some room } : Sink).writeAll pieces =
      (.ok (), { written := written ++ pieces.flatten
                 room := some (room - pieces.flatten.length) }) := by
  induction pieces generalizing written room with
  | nil => simp [writeAll]
  | cons piece pieces ih =>
    rw [List.flatten_cons, List.length_append] at hfits
    have hpiece : piece.length ≤ room := by omega
    have hlater : pieces.flatten.length ≤ room - piece.length := by omega
    simp only [writeAll, write, if_pos hpiece, ih hlater, List.flatten_cons, List.length_append,
      List.append_assoc, Nat.sub_sub]

/-- Of pieces that do not fit, what there is room for is written, and nothing behind it. -/
theorem writeAll_of_full {written : Octets} {room : Nat} {pieces : List Octets}
    (hfull : room < pieces.flatten.length) :
    ({ written, room := some room } : Sink).writeAll pieces =
      (.error "sink is full", { written := written ++ pieces.flatten.take room
                                room := some 0 }) := by
  induction pieces generalizing written room with
  | nil => simp at hfull
  | cons piece pieces ih =>
    rw [List.flatten_cons, List.length_append] at hfull
    by_cases hpiece : piece.length ≤ room
    · have hlater : room - piece.length < pieces.flatten.length := by omega
      simp only [writeAll, write, if_pos hpiece, ih hlater, List.flatten_cons, List.append_assoc,
        List.take_append, List.take_of_length_le hpiece]
    · have hcut : (piece ++ pieces.flatten).take room = piece.take room :=
        List.take_append_of_le_length (by omega)
      simp only [writeAll, write, if_neg hpiece, List.flatten_cons, hcut]

section Send

variable {α : Type} [Wire α] (written : Octets) (framing : Framing) (message : α)

theorem send_of_fits {room : Nat}
    (hfits : (framing.frame (.ofText (Wire.encode message))).length ≤ room) :
    ({ written, room := some room } : Sink).send framing message =
      (.ok (), {
        written := written ++ framing.frame (.ofText (Wire.encode message))
        room := some (room - (framing.frame (.ofText (Wire.encode message))).length) }) := by
  rw [← Framing.pieces_flatten] at hfits ⊢
  simp only [send, writeAll_of_fits hfits]
  rfl

theorem send_of_full {room : Nat}
    (hfull : room < (framing.frame (.ofText (Wire.encode message))).length) :
    ({ written, room := some room } : Sink).send framing message =
      (.error (.io "sink is full"),
        { written := written ++ (framing.frame (.ofText (Wire.encode message))).take room
          room := some 0 }) := by
  rw [← Framing.pieces_flatten] at hfull ⊢
  simp only [send, writeAll_of_full hfull]

/-- Of the frames of all messages, what there is room for is written. By induction on the messages:
the first frame either fits, and the rest of the room is for the others, or it is cut. -/
theorem sendAll_limited (room : Nat) (messages : List α) :
    let sent := ({ written, room := some room } : Sink).sendAll framing messages
    let transcript := framing.transcript messages
    sent.2.written = written ++ transcript.take room ∧
      sent.1 = if transcript.length ≤ room then .ok () else .error (.io "sink is full") := by
  induction messages generalizing written room with
  | nil => simp [sendAll, Framing.transcript]
  | cons message messages ih =>
    simp only [sendAll, Framing.transcript, List.flatMap_cons, List.length_append]
    by_cases hfits : (framing.frame (.ofText (Wire.encode message))).length ≤ room
    · obtain ⟨hwritten, hresult⟩ := ih
        (written ++ framing.frame (.ofText (Wire.encode message)))
        (room - (framing.frame (.ofText (Wire.encode message))).length)
      simp only [send_of_fits written framing message hfits]
      refine ⟨?_, ?_⟩
      · rw [hwritten, List.take_append, List.take_of_length_le hfits, List.append_assoc]
        rfl
      · rw [hresult]
        simp only [Framing.transcript, Nat.le_sub_iff_add_le' hfits]
    · have hfull := Nat.lt_of_not_le hfits
      simp only [send_of_full written framing message hfull]
      refine ⟨?_, ?_⟩
      · rw [List.take_append_of_le_length (Nat.le_of_lt hfull)]
      · rw [if_neg (by omega)]

/-- A frame is written in full before the flush fails. -/
theorem send_unflushed :
    ({ written, flushFails := true } : Sink).send framing message =
      (.error (.io "flush failed"),
        { written := written ++ framing.frame (.ofText (Wire.encode message))
          flushFails := true }) := by
  simp only [send, writeAll_unlimited, Framing.pieces_flatten]
  rfl

end Send

end Sink

namespace Connection

/-- A sink with limited room keeps what there is room for of the replies. -/
theorem serve_limited (framing : Framing) (limit : Nat) (input : Stream) (dispatcher : Dispatcher)
    (room : Nat) :
    let heard := input.receiveAll Request framing limit
    let answered := dispatcher.answerAll heard.messages
    let transcript := framing.transcript answered.1
    let served := serve ⟨framing, limit, input, { room := some room }, dispatcher⟩
    served.2.output.written = transcript.take room ∧
      served.1 = if transcript.length ≤ room then heard.ending.map fun _ => addAll {} answered.1
        else .error (.io "sink is full") := by
  obtain ⟨hresult, houtput, -⟩ := serveFrom_sends (input.size + 1) {} framing limit input
    { room := some room } dispatcher (Nat.lt_succ_self _)
  obtain ⟨hwritten, hsent⟩ := Sink.sendAll_limited [] framing room
    (dispatcher.answerAll (input.receiveAll Request framing limit).messages).1
  refine ⟨(congrArg Sink.written houtput).trans hwritten, hresult.trans ?_⟩
  rw [hsent]
  split <;> rfl

/-- A sink that cannot flush keeps the first reply, and nothing more is taken off the stream. -/
theorem serve_unflushed {framing : Framing} {limit : Nat} {input rest : Stream} {request : Request}
    (hread : input.receive Request framing limit = (.ok (some request), rest))
    (dispatcher : Dispatcher) :
    serve ⟨framing, limit, input, { flushFails := true }, dispatcher⟩ =
      (.error (.io "flush failed"),
        { framing, limit, input := rest, dispatcher := (dispatcher.answer request).2
          output := {
            written := framing.frame (.ofText (Wire.encode (dispatcher.answer request).1))
            flushFails := true } }) := by
  unfold serve serveFrom
  simp only [hread, Sink.send_unflushed, List.nil_append]

/-- Serving a connection whose sink fails, compared with the same connection and a sink that never
fails. Where the sink has room for a number of octets, exactly that many are written of what the
other one gets, and the result is the same unless there was more to write. Where flushes fail, the
first request is answered in full and no other one is taken off the stream. -/
theorem serve_stops_where_sink_fails (framing : Framing) (limit : Nat) (input : Stream)
    (dispatcher : Dispatcher) :
    let unlimited := serve ⟨framing, limit, input, {}, dispatcher⟩
    let replies := unlimited.2.output.written
    (∀ room : Nat,
      let limited := serve ⟨framing, limit, input, { room := some room }, dispatcher⟩
      limited.2.output.written = replies.take (min room replies.length) ∧
        limited.1 =
          if replies.length ≤ room then unlimited.1 else .error (.io "sink is full")) ∧
    let unflushed := serve ⟨framing, limit, input, { flushFails := true }, dispatcher⟩
    match input.receive Request framing limit with
    | (.ok (some request), rest) =>
      let (reply, answered) := dispatcher.answer request
      unflushed =
        (.error (.io "flush failed"),
          { framing, limit, input := rest, dispatcher := answered
            output := {
              written := framing.frame (.ofText (Wire.encode reply))
              flushFails := true } })
    | _ => unflushed.1 = unlimited.1 ∧ unflushed.2.output.written = [] := by
  intro unlimited replies
  have hunlimited : unlimited = _ := serve_unlimited framing limit input dispatcher
  have hresult := congrArg Prod.fst hunlimited
  have hreplies : replies = _ := congrArg (·.2.output.written) hunlimited
  dsimp only at hresult hreplies
  refine ⟨fun room => ?_, ?_⟩
  · rw [hreplies, hresult, ← List.take_eq_take_min]
    exact serve_limited framing limit input dispatcher room
  · rw [hresult]
    rcases hread : input.receive Request framing limit with ⟨e | _ | request, rest⟩
    · simp [serve, serveFrom, hread, Stream.receiveAll_of_error hread, Except.map]
    · simp [serve, serveFrom, hread, Stream.receiveAll_of_none hread, Dispatcher.answerAll,
        Except.map, addAll]
    · exact serve_unflushed hread dispatcher

end Connection

end MacroPlugin
