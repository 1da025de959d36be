import MacroPlugin.Proofs.Dispatch.History
import MacroPlugin.Proofs.Transport.Delivery
import MacroPlugin.Proofs.Transport.Reception
import MacroPlugin.Transport.Connection

/-!
The same octets delivered in two ways. Two streams without failed reads are `Alike` when they
deliver the same octets, however these are cut into reads and wherever reads are interrupted. Every
step of reading takes like streams to the same result and to like streams, so that neither a
reader nor a served connection can tell them apart.
-/

namespace MacroPlugin

namespace Stream

/-- Two streams that deliver the same octets, and neither of them with a failed read. -/
structure Alike (s s' : Stream) : Prop where
  intact : s.Intact
  intact' : s'.Intact
  octets : s.octets = s'.octets

theorem size_eq_length (s : Stream) : s.size = s.octets.length := by
  induction s with
  | nil => rfl
  | cons delivery rest ih =>
    have hoctets : octets (delivery :: rest) = delivery.octets ++ octets rest :=
      List.flatMap_cons
    rw [size, ih, hoctets, List.length_append]

theorem Alike.size {s s' : Stream} (h : Alike s s') : s.size = s'.size := by
  rw [size_eq_length, size_eq_length, h.octets]

/-- Two outcomes with the same result that leave like streams. -/
def Agree {ρ : Type} (outcome outcome' : ρ × Stream) : Prop :=
  outcome.1 = outcome'.1 ∧ Alike outcome.2 outcome'.2

theorem Agree.split {ρ : Type} {outcome outcome' : ρ × Stream} (h : Agree outcome outcome') :
    ∃ result rest rest',
      outcome = (result, rest) ∧ outcome' = (result, rest') ∧ Alike rest rest' :=
  ⟨outcome.1, outcome.2, outcome'.2, rfl, Prod.ext h.1.symm rfl, h.2⟩

section Steps

variable {s s' : Stream} (h : Alike s s')

include h

theorem gather_agree (stop : UInt8 → Bool) (limit : Nat) :
    Agree (s.gather stop limit) (s'.gather stop limit) := by
  obtain ⟨rest, hread, hrest, hleft⟩ := gather_gives h.intact stop limit
  obtain ⟨rest', hread', hrest', hleft'⟩ := gather_gives h.intact' stop limit
  rw [h.octets] at hread hleft
  rw [hread, hread']
  exact ⟨rfl, hrest, hrest', hleft.trans hleft'.symm⟩

theorem takeLengthPrefixed_agree (limit : Nat) :
    Agree (s.takeLengthPrefixed limit) (s'.takeLengthPrefixed limit) := by
  obtain ⟨header, rest, rest', hheader, hheader', hrest⟩ :=
    (gather_agree h (fun _ => false) headerSize).split
  unfold takeLengthPrefixed take
  rw [hheader, hheader']
  cases header with
  | error message => exact ⟨rfl, hrest⟩
  | ok header =>
    obtain ⟨body, last, last', hbody, hbody', hlast⟩ :=
      (gather_agree hrest (fun _ => false) (Octets.toNat header)).split
    simp only [hbody, hbody']
    split
    · exact ⟨rfl, hrest⟩
    · split
      · exact ⟨rfl, hrest⟩
      · split
        · exact ⟨rfl, hrest⟩
        · split
          · exact ⟨rfl, hrest⟩
          · cases body with
            | error message => exact ⟨rfl, hlast⟩
            | ok body =>
              dsimp only
              split <;> exact ⟨rfl, hlast⟩

theorem takeTextLine_agree (fuel limit : Nat) :
    Agree (s.takeTextLine fuel limit) (s'.takeTextLine fuel limit) := by
  induction fuel generalizing s s' with
  | zero => exact ⟨rfl, h⟩
  | succ fuel ih =>
    obtain ⟨line, rest, rest', hline, hline', hrest⟩ :=
      (gather_agree h (· = Ascii.newline) (min (limit + 1) (UInt64.size - 1))).split
    unfold takeTextLine takeLine
    rw [hline, hline']
    cases line with
    | error message => exact ⟨rfl, hrest⟩
    | ok line =>
      dsimp only
      split
      · exact ⟨rfl, hrest⟩
      · split
        · exact ⟨rfl, hrest⟩
        · split
          · exact ih hrest
          · exact ⟨rfl, hrest⟩

theorem receive_agree (α : Type) [Wire α] (framing : Framing) (limit : Nat) :
    Agree (s.receive α framing limit) (s'.receive α framing limit) := by
  have hframe : Agree (s.takeFrame framing limit) (s'.takeFrame framing limit) := by
    cases framing with
    | lengthPrefixed => exact takeLengthPrefixed_agree h limit
    | jsonLines =>
      unfold takeFrame
      rw [h.size]
      exact takeTextLine_agree h (s'.size + 1) limit
  obtain ⟨frame, rest, rest', hframe, hframe', hrest⟩ := hframe.split
  unfold receive
  rw [hframe, hframe']
  rcases frame with e | _ | body
  · exact ⟨rfl, hrest⟩
  · exact ⟨rfl, hrest⟩
  · dsimp only
    split <;> exact ⟨rfl, hrest⟩

end Steps

/-- The results of a number of reads in a row; reading goes on behind errors. -/
def results (α : Type) [Wire α] (framing : Framing) (limit : Nat) :
    Nat → Stream → List (Except TransportError (Option α))
  | 0, _ => []
  | count + 1, s =>
    let (result, rest) := s.receive α framing limit
    result :: results α framing limit count rest

section Runs

variable {s s' : Stream}

theorem results_alike (h : Alike s s') (α : Type) [Wire α] (framing : Framing)
    (limit count : Nat) : s.results α framing limit count = s'.results α framing limit count := by
  induction count generalizing s s' with
  | zero => rfl
  | succ count ih =>
    obtain ⟨result, rest, rest', hread, hread', hrest⟩ := (receive_agree h α framing limit).split
    simp only [results, hread, hread']
    rw [ih hrest]

/-- All that a stream has to say, by induction on how many octets it has. -/
theorem receiveAll_alike (h : Alike s s') (α : Type) [Wire α] (framing : Framing) (limit : Nat) :
    (s.receiveAll α framing limit).messages = (s'.receiveAll α framing limit).messages ∧
      (s.receiveAll α framing limit).ending = (s'.receiveAll α framing limit).ending := by
  induction hsize : s.size using Nat.strongRecOn generalizing s s' with
  | _ size ih =>
    obtain ⟨result, rest, rest', hread, hread', hrest⟩ := (receive_agree h α framing limit).split
    rcases result with e | _ | message
    · rw [receiveAll_of_error hread, receiveAll_of_error hread']
      exact ⟨rfl, rfl⟩
    · rw [receiveAll_of_none hread, receiveAll_of_none hread']
      exact ⟨rfl, rfl⟩
    · obtain ⟨hmessages, hending⟩ := ih rest.size (hsize ▸ receive_size_lt hread) hrest rfl
      rw [receiveAll_of_some hread, receiveAll_of_some hread', hmessages, hending]
      exact ⟨rfl, rfl⟩

end Runs

end Stream

namespace Connection

/-- A connection that is served from like streams writes the same and ends the same, whatever its
sink does. -/
theorem serveFrom_alike {s s' : Stream} (h : s.Alike s') (fuel : Nat) (tally : Tally)
    (framing : Framing) (limit : Nat) (output : Sink) (dispatcher : Dispatcher) :
    let served := serveFrom fuel tally { framing, limit, input := s, output, dispatcher }
    let served' := serveFrom fuel tally { framing, limit, input := s', output, dispatcher }
    served.1 = served'.1 ∧ served.2.output = served'.2.output ∧
      served.2.dispatcher = served'.2.dispatcher := by
  induction fuel generalizing s s' tally output dispatcher with
  | zero => exact ⟨rfl, rfl, rfl⟩
  | succ fuel ih =>
    obtain ⟨result, rest, rest', hread, hread', hrest⟩ :=
      (Stream.receive_agree h Request framing limit).split
    unfold serveFrom
    simp only [hread, hread']
    rcases result with e | _ | request
    · exact ⟨rfl, rfl, rfl⟩
    · exact ⟨rfl, rfl, rfl⟩
    · rcases hsent : output.send framing (dispatcher.answer request).1 with ⟨e | _, output'⟩
      · simp [hsent]
      · simp only [hsent]
        exact ih hrest _ output' _

/-- Nothing depends on how octets are delivered. A reader returns the same results one after
another, behind errors too; up to the first that is no message, that is the same messages and the
same ending. A served connection has the same result, the same output, and a dispatcher in the
same state, whatever its sink does. -/
theorem alike_heard_and_served {s s' : Stream} (hintact : s.Intact) (hintact' : s'.Intact)
    (hoctets : s.octets = s'.octets) (framing : Framing) (limit : Nat) :
    (∀ (α : Type) [Wire α],
      (∀ count, s.results α framing limit count = s'.results α framing limit count) ∧
      (s.receiveAll α framing limit).messages = (s'.receiveAll α framing limit).messages ∧
      (s.receiveAll α framing limit).ending = (s'.receiveAll α framing limit).ending) ∧
    ∀ (output : Sink) (dispatcher : Dispatcher),
      let served := serve { framing, limit, input := s, output, dispatcher }
      let served' := serve { framing, limit, input := s', output, dispatcher }
      served.1 = served'.1 ∧ served.2.output = served'.2.output ∧
        served.2.dispatcher = served'.2.dispatcher := by
  have h : s.Alike s' := ⟨hintact, hintact', hoctets⟩
  refine ⟨fun α _ => ⟨fun count => ?_, ?_⟩, fun output dispatcher => ?_⟩
  · exact Stream.results_alike h α framing limit count
  · exact Stream.receiveAll_alike h α framing limit
  · unfold serve
    simp only [h.size]
    exact serveFrom_alike h _ {} framing limit output dispatcher

/-- A greeting and the start of a header: in one read, and in two with interruptions, the first of
which ends inside the first header. -/
theorem alike_greeting_and_stray_octets :
    let greeting := Octets.ofText (Wire.encode (Request.getCapability none))
    let octets := Framing.lengthPrefixed.frame greeting ++ [1, 2, 3]
    let whole : Stream := [.data octets]
    let cut : Stream := [.interrupted, .data (octets.take 5), .interrupted, .data (octets.drop 5)]
    let dispatcher := Dispatcher.fresh .empty .current false
    whole.octets = cut.octets ∧
      (serve ⟨.lengthPrefixed, 100, whole, {}, dispatcher⟩).1 =
        (serve ⟨.lengthPrefixed, 100, cut, {}, dispatcher⟩).1 := by
  intro greeting octets whole cut dispatcher
  have hoctets : whole.octets = cut.octets := by
    simp [whole, cut, Stream.octets, Delivery.octets]
  have hintact : whole.Intact := by
    intro message hmem
    simp [whole] at hmem
  have hintact' : cut.Intact := by
    intro message hmem
    simp [cut] at hmem
  have hserved := alike_heard_and_served hintact hintact' hoctets .lengthPrefixed 100
  exact ⟨hoctets, (hserved.2 {} dispatcher).1⟩

end Connection

end MacroPlugin
