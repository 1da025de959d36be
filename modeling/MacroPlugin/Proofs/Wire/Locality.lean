import Mathlib.Data.List.TakeWhile
import MacroPlugin.Proofs.Wire.Containers

/-!
What a reader leaves alone. A reader that succeeds has taken some octets off the front and never
depends on those it left: they can be exchanged for others, or cut off (`frame`). Only at the end
of a number it makes a difference whether digits follow, so that what is put behind a reader that
has taken everything must not continue a number.

Readers come in three kinds. A `Whole` reader takes something, and the last octet it takes is no
blank. A `Closing` one may also take nothing. A `Peeking` one may look at the octet that follows
without taking it, and can be trusted only where there is one.
-/

namespace MacroPlugin.Wire

open Json

/-- Nothing, or octets of which the last one is no blank. -/
def Sealed (taken : Octets) : Prop :=
  ∀ octet ∈ taken.getLast?, isBlank octet = false

theorem sealed_nil : Sealed [] := by
  intro octet hmem
  simp at hmem

theorem sealed_singleton {octet : UInt8} (hoctet : isBlank octet = false) : Sealed [octet] := by
  intro other hmem
  simp only [List.getLast?_singleton, Option.mem_def, Option.some.injEq] at hmem
  rw [← hmem]
  exact hoctet

theorem Sealed.append {front back : Octets} (hfront : Sealed front) (hback : Sealed back) :
    Sealed (front ++ back) := by
  intro octet hmem
  rw [List.getLast?_append, Option.mem_def, Option.or_eq_some_iff] at hmem
  rcases hmem with hmem | ⟨-, hmem⟩
  · exact hback octet hmem
  · exact hfront octet hmem

/-- Whatever stands in front of sealed octets. -/
theorem Sealed.behind {back : Octets} (hback : Sealed back) (hsome : back ≠ []) (front : Octets) :
    Sealed (front ++ back) := by
  intro octet hmem
  rw [List.getLast?_append, List.getLast?_eq_some_getLast hsome] at hmem
  refine hback octet ?_
  rw [List.getLast?_eq_some_getLast hsome]
  exact hmem

theorem skipBlank_eq_nil_iff {input : Octets} : skipBlank input = [] ↔ Blank input :=
  List.dropWhile_eq_nil_iff

theorem isBlank_of_skipBlank {input rest : Octets} {octet : UInt8}
    (hskip : skipBlank input = octet :: rest) : isBlank octet = false := by
  have hhead := List.head?_dropWhile_not isBlank input
  unfold skipBlank at hskip
  rw [hskip] at hhead
  simpa using hhead

theorem skipBlank_behind {input rest : Octets} {octet : UInt8}
    (hskip : skipBlank input = octet :: rest) : skipBlank (octet :: rest) = skipBlank input := by
  rw [hskip, skipBlank_self (isBlank_of_skipBlank hskip)]

/-- Sealed octets are not all blanks, unless there are none at all. -/
theorem Sealed.not_blank {taken : Octets} (hsealed : Sealed taken) (htaken : taken ≠ []) :
    ¬ Blank taken := by
  intro hblank
  have hlast := hblank (taken.getLast htaken) (List.getLast_mem htaken)
  rw [hsealed (taken.getLast htaken) (List.getLast?_eq_some_getLast htaken)] at hlast
  exact absurd hlast (by simp)

theorem Blank.of_append {front back : Octets} (h : Blank (front ++ back)) :
    Blank front ∧ Blank back :=
  ⟨fun octet hmem => h octet (List.mem_append_left back hmem),
    fun octet hmem => h octet (List.mem_append_right front hmem)⟩

section Kinds

variable {α : Type}

structure Peeking (reader : Reader α) : Prop where
  takes : ∀ {input value rest}, reader input = .ok (value, rest) → ∃ taken, input = taken ++ rest
  frame : ∀ {front value rest} (back : Octets), ¬ Blank rest →
    (reader (front ++ back) = .ok (value, rest ++ back) ↔ reader front = .ok (value, rest))

structure Closing (reader : Reader α) : Prop where
  takes : ∀ {input value rest}, reader input = .ok (value, rest) →
    ∃ taken, input = taken ++ rest ∧ Sealed taken
  frame : ∀ {front value rest back}, rest ≠ [] ∨ Stops back →
    (reader (front ++ back) = .ok (value, rest ++ back) ↔ reader front = .ok (value, rest))

structure Whole (reader : Reader α) : Prop extends Closing reader where
  moves : ∀ {input value rest}, reader input = .ok (value, rest) → rest ≠ input

end Kinds

section Composition

variable {α β : Type} {reader : Reader α} {next : α → Reader β}

theorem ok_pair_inj {ε : Type} {first first' : α} {second second' : β}
    (h : (.ok (first, second) : Except ε (α × β)) = .ok (first', second')) :
    first = first' ∧ second = second' :=
  Prod.mk.inj (Except.ok.inj h)

theorem andThen_eq_ok {input rest : Octets} {value : β} :
    reader.andThen next input = .ok (value, rest) ↔
      ∃ first mid, reader input = .ok (first, mid) ∧ next first mid = .ok (value, rest) := by
  unfold Reader.andThen
  cases hread : reader input with
  | error fault => simp [bind, Except.bind]
  | ok result =>
    obtain ⟨first, mid⟩ := result
    constructor
    · intro h
      exact ⟨first, mid, rfl, h⟩
    · rintro ⟨first', mid', heq, h⟩
      simp only [Except.ok.injEq, Prod.mk.injEq] at heq
      obtain ⟨rfl, rfl⟩ := heq
      exact h

theorem Whole.taken_ne_nil (h : Whole reader) {taken rest : Octets} {value : α}
    (hread : reader (taken ++ rest) = .ok (value, rest)) : taken ≠ [] := by
  rintro rfl
  exact h.moves hread rfl

theorem Closing.taken_sealed (h : Closing reader) {taken rest : Octets} {value : α}
    (hread : reader (taken ++ rest) = .ok (value, rest)) : Sealed taken := by
  obtain ⟨taken', hinput, htaken⟩ := h.takes hread
  rwa [List.append_cancel_right hinput]

theorem Whole.length_lt (h : Whole reader) {input rest : Octets} {value : α}
    (hread : reader input = .ok (value, rest)) : rest.length < input.length := by
  obtain ⟨taken, rfl, -⟩ := h.takes hread
  have hpos := List.length_pos_iff.mpr (h.taken_ne_nil hread)
  rw [List.length_append]
  omega

theorem Peeking.length_le (h : Peeking reader) {input rest : Octets} {value : α}
    (hread : reader input = .ok (value, rest)) : rest.length ≤ input.length := by
  obtain ⟨taken, rfl⟩ := h.takes hread
  rw [List.length_append]
  exact Nat.le_add_left _ _

theorem Closing.peeking (h : Closing reader) : Peeking reader where
  takes := by
    intro input value rest hread
    obtain ⟨taken, hinput, -⟩ := h.takes hread
    exact ⟨taken, hinput⟩
  frame := by
    intro front value rest back hrest
    refine h.frame (.inl ?_)
    rintro rfl
    exact hrest blank_nil

/-- Two readers in a row, whatever the first one needs to see of what the second one takes. -/
theorem frame_andThen {front rest back : Octets} {value : β}
    (htakes : ∀ {first mid}, next first mid = .ok (value, rest ++ back) →
      ∃ taken, mid = taken ++ (rest ++ back))
    (htakes' : ∀ {first mid}, next first mid = .ok (value, rest) → ∃ taken, mid = taken ++ rest)
    (hreader : ∀ {first taken}, next first (taken ++ (rest ++ back)) = .ok (value, rest ++ back) ∨
      next first (taken ++ rest) = .ok (value, rest) →
      (reader (front ++ back) = .ok (first, (taken ++ rest) ++ back) ↔
        reader front = .ok (first, taken ++ rest)))
    (hnext : ∀ first taken, next first ((taken ++ rest) ++ back) = .ok (value, rest ++ back) ↔
      next first (taken ++ rest) = .ok (value, rest)) :
    reader.andThen next (front ++ back) = .ok (value, rest ++ back) ↔
      reader.andThen next front = .ok (value, rest) := by
  rw [andThen_eq_ok, andThen_eq_ok]
  constructor
  · rintro ⟨first, mid, hread, hthen⟩
    obtain ⟨taken, rfl⟩ := htakes hthen
    have hfront := (hreader (.inl hthen)).mp (by rwa [List.append_assoc])
    exact ⟨first, taken ++ rest, hfront, (hnext first taken).mp (by rwa [List.append_assoc])⟩
  · rintro ⟨first, mid, hread, hthen⟩
    obtain ⟨taken, rfl⟩ := htakes' hthen
    exact ⟨first, (taken ++ rest) ++ back, (hreader (.inr hthen)).mpr hread,
      (hnext first taken).mpr hthen⟩

theorem Peeking.andThen (h : Peeking reader) (hnext : ∀ value, Peeking (next value)) :
    Peeking (reader.andThen next) where
  takes := by
    intro input value rest hread
    obtain ⟨first, mid, hfirst, hthen⟩ := andThen_eq_ok.mp hread
    obtain ⟨taken, rfl⟩ := h.takes hfirst
    obtain ⟨taken', rfl⟩ := (hnext first).takes hthen
    exact ⟨taken ++ taken', (List.append_assoc _ _ _).symm⟩
  frame := by
    intro front value rest back hrest
    refine frame_andThen (hnext _).takes (hnext _).takes (fun {first taken} _ => ?_)
      fun first taken => (hnext first).frame back hrest
    exact h.frame back fun hblank => hrest (Blank.of_append hblank).2

theorem Closing.andThen (h : Closing reader) (hnext : ∀ value, Closing (next value)) :
    Closing (reader.andThen next) where
  takes := by
    intro input value rest hread
    obtain ⟨first, mid, hfirst, hthen⟩ := andThen_eq_ok.mp hread
    obtain ⟨taken, rfl, htaken⟩ := h.takes hfirst
    obtain ⟨taken', rfl, htaken'⟩ := (hnext first).takes hthen
    exact ⟨taken ++ taken', (List.append_assoc _ _ _).symm, htaken.append htaken'⟩
  frame := by
    intro front value rest back hrest
    refine frame_andThen (hnext _).peeking.takes (hnext _).peeking.takes
      (fun {first taken} _ => ?_) fun first taken => (hnext first).frame hrest
    exact h.frame (hrest.imp_left fun hsome hnil => hsome (List.append_eq_nil_iff.mp hnil).2)

theorem Whole.andThen (h : Whole reader) (hnext : ∀ value, Closing (next value)) :
    Whole (reader.andThen next) where
  toClosing := h.toClosing.andThen hnext
  moves := by
    intro input value rest hread
    obtain ⟨first, mid, hfirst, hthen⟩ := andThen_eq_ok.mp hread
    have hmid := h.length_lt hfirst
    have hrest := (hnext first).peeking.length_le hthen
    rintro rfl
    omega

/-- Behind a reader that looks ahead, what it looked at is taken by the next one. -/
theorem Peeking.andThen_whole (h : Peeking reader) (hnext : ∀ value, Whole (next value)) :
    Whole (reader.andThen next) where
  takes := by
    intro input value rest hread
    obtain ⟨first, mid, hfirst, hthen⟩ := andThen_eq_ok.mp hread
    obtain ⟨taken, rfl⟩ := h.takes hfirst
    obtain ⟨taken', rfl, htaken'⟩ := (hnext first).takes hthen
    exact ⟨taken ++ taken', (List.append_assoc _ _ _).symm,
      htaken'.behind ((hnext first).taken_ne_nil hthen) taken⟩
  frame := by
    intro front value rest back hrest
    refine frame_andThen (hnext _).peeking.takes (hnext _).peeking.takes
      (fun {first taken} hthen => h.frame back fun hblank => ?_)
      fun first taken => (hnext first).frame hrest
    have hblank := (Blank.of_append hblank).1
    rcases hthen with hthen | hthen
    · exact ((hnext first).taken_sealed hthen).not_blank ((hnext first).taken_ne_nil hthen) hblank
    · exact ((hnext first).taken_sealed hthen).not_blank ((hnext first).taken_ne_nil hthen) hblank
  moves := by
    intro input value rest hread
    obtain ⟨first, mid, hfirst, hthen⟩ := andThen_eq_ok.mp hread
    have hmid := h.length_le hfirst
    have hrest := (hnext first).length_lt hthen
    rintro rfl
    omega

end Composition

section Parts

variable {α β : Type} {reader : Reader α}

/-- A reader that never succeeds. -/
theorem Whole.never (h : ∀ input result, reader input ≠ .ok result) : Whole reader where
  takes := fun hread => absurd hread (h _ _)
  frame := fun _ => ⟨fun hread => absurd hread (h _ _), fun hread => absurd hread (h _ _)⟩
  moves := fun hread => absurd hread (h _ _)

theorem Whole.fault (fault : Octets → Fault) : Whole fun input => (.error (fault input) :
    Except Fault (α × Octets)) :=
  .never fun input result hread => by simp at hread

/-- A reader that takes nothing. -/
theorem Closing.ok (value : α) : Closing fun input => .ok (value, input) where
  takes := by
    intro input value' rest hread
    rw [Except.ok.injEq, Prod.mk.injEq] at hread
    exact ⟨[], by rw [hread.2, List.nil_append], sealed_nil⟩
  frame := by
    intro front value' rest back _
    simp

theorem Whole.map (h : Whole reader) (f : α → β) :
    Whole (reader.andThen fun value rest => .ok (f value, rest)) :=
  h.andThen fun value => .ok (f value)

theorem Closing.ite {c : Prop} [Decidable c] {reader reader' : Reader α}
    (htrue : c → Closing reader) (hfalse : ¬ c → Closing reader') :
    Closing fun input => if c then reader input else reader' input := by
  by_cases hc : c
  · simp only [if_pos hc]
    exact htrue hc
  · simp only [if_neg hc]
    exact hfalse hc

/-- Reads on by the octet behind the blanks in front, and has a fault where there is none. -/
def leading {β : Type} (fault : Fault) (body : UInt8 → Octets → Except Fault β) (input : Octets) :
    Except Fault β :=
  match skipBlank input with
  | [] => .error fault
  | octet :: rest => body octet rest

theorem leading_cons {β : Type} {fault : Fault} {body : UInt8 → Octets → Except Fault β}
    {input rest : Octets} {octet : UInt8} (hskip : skipBlank input = octet :: rest) :
    leading fault body input = body octet rest := by
  unfold leading
  rw [hskip]

theorem leading_eq_ok {β : Type} {fault : Fault} {body : UInt8 → Octets → Except Fault β}
    {input : Octets} {result : β} :
    leading fault body input = .ok result ↔
      ∃ octet rest, skipBlank input = octet :: rest ∧ body octet rest = .ok result := by
  unfold leading
  cases skipBlank input with
  | nil => simp
  | cons octet rest =>
    constructor
    · exact fun hread => ⟨octet, rest, rfl, hread⟩
    · rintro ⟨octet', rest', hskip, hread⟩
      obtain ⟨rfl, rfl⟩ := List.cons.inj hskip
      exact hread

/-- Only what is behind the blanks matters. -/
theorem leading_skip {β : Type} {fault : Fault} {body : UInt8 → Octets → Except Fault β}
    {input input' : Octets} (h : skipBlank input = skipBlank input') :
    leading fault body input = leading fault body input' := by
  unfold leading
  rw [h]

theorem leading_congr {β : Type} {fault : Fault} {body body' : UInt8 → Octets → Except Fault β}
    {input : Octets}
    (h : ∀ octet rest, skipBlank input = octet :: rest → body octet rest = body' octet rest) :
    leading fault body input = leading fault body' input := by
  unfold leading
  cases hskip : skipBlank input with
  | nil => rfl
  | cons octet rest => exact h octet rest hskip

theorem Whole.lead {fault : Fault} {body : UInt8 → Reader α}
    (hbody : ∀ octet, isBlank octet = false → Closing (body octet)) :
    Whole (leading fault body) := by
  -- Where the reader succeeds, there is an octet behind the blanks.
  have hlead : ∀ {input result}, leading fault body input = .ok result →
      ∃ blanks octet rest, input = blanks ++ octet :: rest ∧ Blank blanks ∧
        isBlank octet = false ∧ body octet rest = .ok result := by
    intro input result hread
    obtain ⟨octet, rest, hskip, hread⟩ := leading_eq_ok.mp hread
    have hinput : input.takeWhile isBlank ++ octet :: rest = input := by
      rw [← hskip]
      exact List.takeWhile_append_dropWhile
    have hblanks : Blank (input.takeWhile isBlank) := fun _ hmem => List.mem_takeWhile_imp hmem
    exact ⟨_, octet, rest, hinput.symm, hblanks, isBlank_of_skipBlank hskip, hread⟩
  have hcons : ∀ {blanks octet rest}, Blank blanks → isBlank octet = false →
      leading fault body (blanks ++ octet :: rest) = body octet rest :=
    fun hblanks hoctet => leading_cons (skipBlank_append hblanks hoctet _)
  refine ⟨⟨?_, ?_⟩, ?_⟩
  · intro input value rest hread
    obtain ⟨blanks, octet, mid, rfl, -, hoctet, hrest⟩ := hlead hread
    obtain ⟨taken, rfl, htaken⟩ := (hbody octet hoctet).takes hrest
    refine ⟨blanks ++ ([octet] ++ taken), by simp, ?_⟩
    exact ((sealed_singleton hoctet).append htaken).behind (by simp) blanks
  · intro front value rest back hrest
    constructor
    · intro hread
      obtain ⟨blanks, octet, mid, hinput, hblanks, hoctet, hbehind⟩ := hlead hread
      obtain ⟨taken, rfl, -⟩ := (hbody octet hoctet).takes hbehind
      have hfront : front = blanks ++ octet :: (taken ++ rest) := by
        apply List.append_cancel_right
        simpa using hinput
      rw [hfront, hcons hblanks hoctet]
      rw [← List.append_assoc] at hbehind
      exact ((hbody octet hoctet).frame hrest).mp hbehind
    · intro hread
      obtain ⟨blanks, octet, mid, rfl, hblanks, hoctet, hbehind⟩ := hlead hread
      rw [List.append_assoc, List.cons_append, hcons hblanks hoctet]
      exact ((hbody octet hoctet).frame hrest).mpr hbehind
  · intro input value rest hread
    obtain ⟨blanks, octet, mid, rfl, -, hoctet, hbehind⟩ := hlead hread
    obtain ⟨taken, rfl, -⟩ := (hbody octet hoctet).takes hbehind
    intro heq
    have hlength := congrArg List.length heq
    simp only [List.length_append, List.length_cons] at hlength
    omega

/-- Reads on behind the first octet. -/
theorem Whole.first (body : UInt8 → Reader α) (hend : ∀ result, reader [] ≠ .ok result)
    (hstep : ∀ octet rest, reader (octet :: rest) = body octet rest)
    (hblank : ∀ octet rest result, isBlank octet = true → body octet rest ≠ .ok result)
    (hbody : ∀ octet, isBlank octet = false → Closing (body octet)) : Whole reader := by
  have hfirst : ∀ {input result}, reader input = .ok result →
      ∃ octet rest, input = octet :: rest ∧ isBlank octet = false ∧
        body octet rest = .ok result := by
    intro input result hread
    cases input with
    | nil => exact absurd hread (hend result)
    | cons octet rest =>
      rw [hstep] at hread
      refine ⟨octet, rest, rfl, ?_, hread⟩
      by_contra hoctet
      exact hblank octet rest result (by simpa using hoctet) hread
  refine ⟨⟨?_, ?_⟩, ?_⟩
  · intro input value rest hread
    obtain ⟨octet, mid, rfl, hoctet, hrest⟩ := hfirst hread
    obtain ⟨taken, rfl, htaken⟩ := (hbody octet hoctet).takes hrest
    exact ⟨[octet] ++ taken, rfl, (sealed_singleton hoctet).append htaken⟩
  · intro front value rest back hrest
    cases front with
    | nil =>
      constructor
      · intro hread
        obtain ⟨octet, mid, hback, hoctet, hbehind⟩ := hfirst hread
        have hlength := (hbody octet hoctet).peeking.length_le hbehind
        have hinput := congrArg List.length hback
        simp only [List.nil_append, List.length_append, List.length_cons] at hlength hinput
        omega
      · exact fun hread => absurd hread (hend _)
    | cons octet front =>
      rw [List.cons_append, hstep, hstep]
      by_cases hoctet : isBlank octet = true
      · exact ⟨fun hread => absurd hread (hblank octet _ _ hoctet),
          fun hread => absurd hread (hblank octet _ _ hoctet)⟩
      · exact (hbody octet (by simpa using hoctet)).frame hrest
  · intro input value rest hread
    obtain ⟨octet, mid, rfl, hoctet, hbehind⟩ := hfirst hread
    have hlength := (hbody octet hoctet).peeking.length_le hbehind
    rintro rfl
    simp only [List.length_cons] at hlength
    omega

/-- Octets that begin no blank and do not stop a number. -/
def Continues (octet : UInt8) : Prop :=
  (Ascii.digit? octet).isSome = true ∨ octet = Ascii.point ∨ Number.isExponentMark octet = true

theorem Continues.isBlank_eq_false {octet : UInt8} (h : Continues octet) :
    isBlank octet = false := by
  by_contra hblank
  obtain ⟨hdigit, hpoint, hmark⟩ := digit?_of_isBlank (by simpa using hblank)
  rcases h with h | h | h <;> simp_all

/-- Goes on where an octet continues a number, and ends the number otherwise. -/
theorem Closing.peek (p : UInt8 → Bool) (stop : Reader α) (more : UInt8 → Reader α)
    (hp : ∀ octet, p octet = true → Continues octet)
    (hend : reader [] = stop [])
    (hstep : ∀ octet rest, reader (octet :: rest) =
      if p octet then more octet rest else stop (octet :: rest))
    (hstop : Closing stop) (hmore : ∀ octet, p octet = true → Closing (more octet)) :
    Closing reader := by
  have htakes : ∀ {input value rest}, reader input = .ok (value, rest) →
      ∃ taken, input = taken ++ rest ∧ Sealed taken := by
    intro input value rest hread
    cases input with
    | nil =>
      rw [hend] at hread
      exact hstop.takes hread
    | cons octet input =>
      rw [hstep] at hread
      split at hread
      · next hoctet =>
        obtain ⟨taken, rfl, htaken⟩ := (hmore octet hoctet).takes hread
        exact ⟨[octet] ++ taken, rfl,
          (sealed_singleton (hp octet hoctet).isBlank_eq_false).append htaken⟩
      · exact hstop.takes hread
  have hstops : ∀ {back}, Stops back → reader back = stop back := by
    intro back hback
    cases back with
    | nil => exact hend
    | cons octet back =>
      rw [hstep, if_neg]
      intro hoctet
      obtain ⟨hdigit, hpoint, hmark⟩ := hback octet rfl
      rcases hp octet hoctet with h | h | h <;> simp_all
  refine ⟨htakes, ?_⟩
  intro front value rest back hrest
  cases front with
  | nil =>
    -- Nothing is taken here, and what follows must stop a number.
    have hnone : ∀ {taken : Octets}, back = taken ++ (rest ++ back) → rest = [] := by
      intro taken hback
      have hlength := congrArg List.length hback
      simp only [List.length_append] at hlength
      exact List.length_eq_zero_iff.mp (by omega)
    constructor
    · intro hread
      obtain ⟨taken, hback, -⟩ := htakes hread
      obtain rfl := hnone hback
      have hback := hrest.resolve_left (by simp)
      rw [List.nil_append, hstops hback] at hread
      rw [hend]
      exact (hstop.frame (.inr hback)).mp hread
    · intro hread
      obtain ⟨taken, hnil, -⟩ := htakes hread
      obtain rfl := (List.append_eq_nil_iff.mp hnil.symm).2
      have hback := hrest.resolve_left (by simp)
      rw [hend] at hread
      rw [List.nil_append, hstops hback]
      exact (hstop.frame (.inr hback)).mpr hread
  | cons octet front =>
    rw [List.cons_append, hstep, hstep]
    split
    · next hoctet => exact (hmore octet hoctet).frame hrest
    · change stop ((octet :: front) ++ back) = _ ↔ _
      exact hstop.frame hrest

/-- A reader that is given back an octet that was looked at. -/
theorem Whole.unread (h : Whole reader) (octet : UInt8) :
    Closing fun input => reader (octet :: input) where
  takes := by
    intro input value rest hread
    obtain ⟨taken, hinput, htaken⟩ := h.takes hread
    cases taken with
    | nil => exact absurd hinput.symm (h.moves hread)
    | cons first taken =>
      obtain ⟨rfl, rfl⟩ := List.cons.inj hinput
      refine ⟨taken, rfl, ?_⟩
      intro other hmem
      refine htaken other ?_
      rw [List.getLast?_cons, hmem]
      rfl
  frame := by
    intro front value rest back hrest
    change reader ((octet :: front) ++ back) = _ ↔ _
    exact h.frame hrest

end Parts

end MacroPlugin.Wire
