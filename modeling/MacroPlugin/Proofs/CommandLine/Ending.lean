import MacroPlugin.Proofs.CommandLine.SingleRequest
import MacroPlugin.Proofs.Transport.Headers

/-!
How a run of the program ends: well, with a problem that is reported, or with a complaint about its
arguments. There is no fourth way. A session could break off in a panic, at a frame that no buffer
can hold; but the limit comes from a configuration file or is the default, and so it is low enough
to refuse such a frame.
-/

namespace MacroPlugin

/-- A session under a limit that some buffer can hold comes to an end without a panic. -/
theorem Connection.serve_within_buffers (framing : Framing) {limit : Nat}
    (hlimit : limit ≤ Stream.bufferCapacity) (input : Stream) (dispatcher : Dispatcher) :
    (serve ⟨framing, limit, input, {}, dispatcher⟩).1 ≠ .error .capacityOverflow := by
  have hending := Stream.receiveAll_within_buffers Request framing hlimit input
  rw [serve_unlimited]
  cases hheard : (input.receiveAll Request framing limit).ending with
  | ok => simp [Except.map]
  | error e =>
    rw [hheard] at hending
    simpa [Except.map] using hending

namespace CommandLine

/-- Serving is done under the limit of the settings. -/
theorem Invocation.task_limit {s : Surroundings} {i : Invocation} {framing : Framing}
    {limit : Nat} {level : LogLevel} {dispatcher : Dispatcher}
    (h : i.task s = .ok (.serve framing limit level dispatcher)) :
    limit ≤ Stream.bufferCapacity := by
  unfold Invocation.task at h
  cases hsettings : s.settings i.config with
  | error problem => simp [hsettings, bind, Except.bind] at h
  | ok settings =>
    have hlimit : settings.maxFrameBytes ≤ Stream.bufferCapacity :=
      Surroundings.settings_limit hsettings
    simp only [hsettings, bind, Except.bind] at h
    split at h
    · simp only [pure, Except.pure, Except.ok.injEq, Task.serve.injEq] at h
      rw [← h.2.1]
      exact hlimit
    · simp [pure, Except.pure] at h
    · simp [pure, Except.pure] at h
    · split at h
      · simp at h
      · split at h <;> simp [pure, Except.pure] at h

/-- A run ends with one of three statuses, whatever is asked for, found and sent to it. -/
theorem run_status (s : Surroundings) (arguments : List String) (input : Stream) :
    (run s arguments input).status ∈ [0, 1, 2] := by
  unfold run
  split
  · next stop _ => cases stop <;> simp [Stop.completion]
  · next invocation _ =>
    split
    · simp [Problem.completion]
    · next task htask =>
      cases task with
      | print text => simp [Task.run]
      | serve framing limit level dispatcher =>
        have hended := Connection.serve_within_buffers framing (Invocation.task_limit htask) input
          dispatcher
        unfold Task.run
        rcases hserved : Connection.serve ⟨framing, limit, input, {}, dispatcher⟩ with ⟨e | _, c⟩
        · rw [hserved] at hended
          cases e with
          | capacityOverflow => exact absurd rfl hended
          | _ => simp [hserved, Completion.ofSession, Problem.completion]
        · simp [hserved]

end CommandLine

end MacroPlugin
