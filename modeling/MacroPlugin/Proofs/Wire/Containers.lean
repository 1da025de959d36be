import MacroPlugin.Proofs.Wire.Scalars

/-!
Lists, records and names. The readers of containers are given the readers of their parts, and the
theorems here are about any such parts: if the parts are understood, then so is the whole.
-/

namespace MacroPlugin.Wire

open Json

section Understanding

variable {α β : Type} {closed : Bool} {n : Nat} {reader : Reader α} {json : Json} {value : α}
  {text : Octets}

/-- The reader understands every way to write a JSON value, whatever blanks precede it. -/
def Understands (closed : Bool) (n : Nat) (reader : Reader α) (json : Json) (value : α) : Prop :=
  ∀ blanks text, Blank blanks → Written json text → Reads closed n reader (blanks ++ text) value

theorem Understands.written (h : Understands closed n reader json value)
    (hwritten : Written json text) : Reads closed n reader text value :=
  h [] text blank_nil hwritten

theorem Understands.opened (h : Understands closed n reader json value) :
    Understands false n reader json value :=
  fun blanks text hblank hwritten => (h blanks text hblank hwritten).opened

theorem Understands.map (f : α → β) (h : Understands closed n reader json value) :
    Understands closed n (reader.andThen fun value rest => .ok (f value, rest)) json (f value) :=
  fun blanks text hblank hwritten => (h blanks text hblank hwritten).map f

theorem readColon_blank {input : Octets} (hinput : Blank input) : Ended (readColon input) := by
  unfold readColon
  rw [skipBlank_blank hinput]
  exact ended_here rfl _

/-- What stands behind a key. -/
theorem readContent_reads (h : Understands closed n reader json value)
    (hwritten : WrittenContent json text) :
    Reads closed n (fun input => do reader (← readColon input)) text value := by
  cases hwritten with
  | mk hblank hblank' hvalue =>
    refine .token hblank (fun _ hinput => (readColon_blank hinput).bind _) ?_
      (h _ _ hblank' hvalue)
    intro rest
    unfold readColon
    rw [skipBlank_append hblank (by decide)]
    rfl

end Understanding

/-! Lists -/

section Lists

variable {α : Type} {item : Reader α} {json : α → Json} {n m : Nat}

theorem readElements_blank {fuel : Nat} {first : Bool} {taken : List α} {input : Octets}
    (hinput : Blank input) : Ended (readElements item fuel first taken input) := by
  cases fuel with
  | zero => exact ended_here rfl _
  | succ fuel =>
    unfold readElements nextElement
    rw [skipBlank_blank hinput]
    exact (ended_here rfl _).bind _

theorem readElements_comma_blank {fuel : Nat} {taken : List α} {input : Octets}
    (hinput : Blank input) :
    Ended (readElements item fuel false taken (Ascii.comma :: input)) := by
  cases fuel with
  | zero => exact ended_here rfl _
  | succ fuel =>
    unfold readElements nextElement
    rw [skipBlank_self (by decide)]
    simp only [skipBlank_blank hinput]
    exact (ended_here rfl _).bind _

theorem readElements_skip {fuel : Nat} {first : Bool} {taken : List α} {input input' : Octets}
    (h : skipBlank input = skipBlank input') :
    readElements item (fuel + 1) first taken input =
      readElements item (fuel + 1) first taken input' := by
  unfold readElements nextElement behindClose
  rw [h]

theorem readElements_close {fuel : Nat} {first : Bool} {taken : List α} {blanks : Octets}
    (hblank : Blank blanks) (rest : Octets) :
    readElements item (fuel + 1) first taken (blanks ++ Ascii.closeBracket :: rest) =
      .ok (taken.reverse, rest) := by
  unfold readElements nextElement behindClose
  rw [skipBlank_append hblank (by decide)]
  rfl

/-- Reads an element and the further ones. -/
def readItem (item : Reader α) (fuel : Nat) (taken : List α) : Reader (List α) :=
  item.andThen fun value => readElements item fuel false (value :: taken)

theorem readElements_item {fuel : Nat} {taken : List α} {blanks : Octets} (hblank : Blank blanks)
    {octet : UInt8} (hoctet : isBlank octet = false) (hclose : octet ≠ Ascii.closeBracket)
    (rest : Octets) :
    readElements item (fuel + 1) true taken (blanks ++ octet :: rest) =
      readItem item fuel taken (octet :: rest) := by
  rw [readElements, nextElement, skipBlank_append hblank hoctet]
  simp only [if_neg hclose, if_true]
  rfl

theorem readElements_next {fuel : Nat} {taken : List α} {blanks : Octets} (hblank : Blank blanks)
    {octet : UInt8} (hoctet : isBlank octet = false) (hclose : octet ≠ Ascii.closeBracket)
    (rest : Octets) :
    readElements item (fuel + 1) false taken (Ascii.comma :: (blanks ++ octet :: rest)) =
      readItem item fuel taken (octet :: rest) := by
  rw [readElements, nextElement, skipBlank_self (by decide)]
  simp only [skipBlank_append hblank hoctet, if_neg hclose]
  rfl

theorem readItem_reads {fuel : Nat} {taken values : List α} {value : α} {text more : Octets}
    (hitem : Reads false m item text value) (htext : 0 < text.length)
    (hmore : Reads true (m - 1) (readElements item fuel false (value :: taken)) more values)
    (hstops : Stops more ∧ more ≠ []) :
    Reads true m (readItem item fuel taken) (text ++ more) values :=
  hitem.andThen hmore (by omega)
    (.inr ⟨hstops.1, hstops.2, fun _ => readElements_blank blank_nil⟩)

/-- The fuel bounds the octets that can be read, since every element takes at least one. -/
theorem readElements_reads (hitem : ∀ value, Understands false n item (json value) value) :
    ∀ {values : List α} {first : Bool} {taken : List α} {fuel m : Nat} {text : Octets},
      WrittenItems first (values.map json) text → m ≤ fuel → m ≤ n →
      Reads true m (readElements item fuel first taken) text (taken.reverse ++ values) := by
  intro values
  induction values with
  | nil =>
    intro first taken fuel m text hwritten hfuel hm
    cases hwritten with
    | nil hblank =>
      cases fuel with
      | zero =>
        rw [Nat.le_zero.mp hfuel]
        exact .zero (readElements_blank blank_nil) (by simp)
      | succ fuel =>
        refine .token hblank (fun _ => readElements_blank) (readElements_close hblank) ?_
        rw [List.append_nil]
        exact .pure true m fun _ => rfl
  | cons value values ih =>
    intro first taken fuel m text hwritten hfuel hm
    -- An element and what follows it, whatever stands before.
    have hparts : ∀ {fuel : Nat} {text more : Octets}, Written (json value) text →
        WrittenItems false (values.map json) more → m ≤ fuel + 1 →
        Reads true m (readItem item fuel taken) (text ++ more)
          (taken.reverse ++ value :: values) := by
      intro fuel text more htext hmore hfuel
      have hrest : Reads true (m - 1) (readElements item fuel false (value :: taken)) more
          ((value :: taken).reverse ++ values) :=
        ih hmore (by omega) (by omega)
      rw [List.reverse_cons, List.append_assoc] at hrest
      exact readItem_reads (((hitem value).written htext).of_le hm) htext.length_pos hrest
        hmore.stops
    cases fuel with
    | zero =>
      rw [Nat.le_zero.mp hfuel]
      refine .zero (readElements_blank blank_nil) ?_
      cases hwritten with
      | head hblank htext _ =>
        obtain ⟨octet, rest, rfl, -⟩ := htext.first
        simp
      | next => simp
    | succ fuel =>
      cases hwritten with
      | head hblank htext hmore =>
        have hreads := hparts htext hmore hfuel
        obtain ⟨octet, rest, rfl, hoctet, hclose, -⟩ := htext.first
        exact .blanks hblank (fun _ => readElements_blank)
          (readElements_item hblank hoctet hclose) hreads
      | @next _ _ blanks blanks' _ _ hblank hblank' htext hmore =>
        have hreads := hparts htext hmore hfuel
        obtain ⟨octet, rest, rfl, hoctet, hclose, -⟩ := htext.first
        have hcomma : ∀ input, readElements item (fuel + 1) false taken
            (blanks ++ Ascii.comma :: input) =
            readElements item (fuel + 1) false taken (Ascii.comma :: input) :=
          fun input => readElements_skip (skipBlank_token hblank (by decide) input)
        exact .token hblank (fun _ => readElements_blank) hcomma <|
          .blanks hblank' (fun _ => readElements_comma_blank)
            (readElements_next hblank' hoctet hclose) hreads

theorem readList_understands (hitem : ∀ value, Understands false n item (json value) value)
    (values : List α) :
    Understands true n (readList item n) (.array (values.map json)) values := by
  intro blanks text hblank hwritten
  cases hwritten with
  | array hitems =>
    have hreads : Reads true n (readElements item n true []) _ ([].reverse ++ values) :=
      readElements_reads hitem hitems (Nat.le_refl n) (Nat.le_refl n)
    refine .token hblank ?_ ?_ hreads
    · intro input hinput
      unfold readList
      rw [skipBlank_blank hinput]
      exact ended_here rfl _
    · intro rest
      unfold readList
      rw [skipBlank_append hblank (by decide)]
      rfl

end Lists

/-! Objects -/

section Objects

variable {σ : Type} {entry : String → σ → Reader σ} {n m : Nat}

/-- Reading the contents of the entries one after another takes the one state to the other. -/
inductive Absorbs (n : Nat) (entry : String → σ → Reader σ) :
    σ → List (String × Json) → σ → Prop
  | nil (state : σ) : Absorbs n entry state [] state
  | cons {state state' state'' : σ} {key : String} {json : Json}
      {entries : List (String × Json)}
      (hentry : ∀ text, WrittenContent json text → Reads false n (entry key state) text state')
      (hrest : Absorbs n entry state' entries state'') :
      Absorbs n entry state ((key, json) :: entries) state''

theorem readEntries_blank {fuel : Nat} {first : Bool} {state : σ} {input : Octets}
    (hinput : Blank input) : Ended (readEntries entry fuel first state input) := by
  cases fuel with
  | zero => exact ended_here rfl _
  | succ fuel =>
    unfold readEntries nextKey
    rw [skipBlank_blank hinput]
    exact (ended_here rfl _).bind _

theorem readEntries_comma_blank {fuel : Nat} {state : σ} {input : Octets}
    (hinput : Blank input) :
    Ended (readEntries entry fuel false state (Ascii.comma :: input)) := by
  cases fuel with
  | zero => exact ended_here rfl _
  | succ fuel =>
    unfold readEntries nextKey
    rw [skipBlank_self (by decide)]
    simp only [skipBlank_blank hinput]
    exact (ended_here rfl _).bind _

theorem readEntries_skip {fuel : Nat} {first : Bool} {state : σ} {input input' : Octets}
    (h : skipBlank input = skipBlank input') :
    readEntries entry (fuel + 1) first state input =
      readEntries entry (fuel + 1) first state input' := by
  unfold readEntries nextKey behindClose
  rw [h]

theorem readEntries_close {fuel : Nat} {first : Bool} {state : σ} {blanks : Octets}
    (hblank : Blank blanks) (rest : Octets) :
    readEntries entry (fuel + 1) first state (blanks ++ Ascii.closeBrace :: rest) =
      .ok (state, rest) := by
  unfold readEntries nextKey behindClose
  rw [skipBlank_append hblank (by decide)]
  rfl

/-- Reads a key, what follows it, and the further entries. -/
def readKeyed (entry : String → σ → Reader σ) (fuel : Nat) (state : σ) : Reader σ :=
  Reader.andThen readText fun key => (entry key state).andThen (readEntries entry fuel false)

theorem readKeyed_reads {fuel : Nat} {state state' state'' : σ} {key : String}
    {text more : Octets} (hentry : Reads false m (entry key state) text state')
    (htext : 0 < text.length)
    (hmore : Reads true (m - 1) (readEntries entry fuel false state') more state'')
    (hstops : Stops more ∧ more ≠ []) :
    Reads true m (readKeyed entry fuel state) (textBody key ++ (text ++ more)) state'' := by
  have hcontent := hentry.andThen hmore (by omega)
    (.inr ⟨hstops.1, hstops.2, fun _ => readEntries_blank blank_nil⟩)
  exact (readText_reads m key).andThen hcontent (Nat.le_add_right _ _) (.inl rfl)

theorem readEntries_key {fuel : Nat} {state : σ} {blanks : Octets} (hblank : Blank blanks)
    (rest : Octets) :
    readEntries entry (fuel + 1) true state (blanks ++ Ascii.quote :: rest) =
      readKeyed entry fuel state rest := by
  rw [readEntries, nextKey, skipBlank_append hblank (by decide)]
  rfl

theorem readEntries_next {fuel : Nat} {state : σ} {blanks : Octets} (hblank : Blank blanks)
    (rest : Octets) :
    readEntries entry (fuel + 1) false state
      (Ascii.comma :: (blanks ++ Ascii.quote :: rest)) = readKeyed entry fuel state rest := by
  have hquote : skipBlank (blanks ++ Ascii.quote :: rest) = Ascii.quote :: rest :=
    skipBlank_append hblank (by decide) _
  rw [readEntries, nextKey, skipBlank_self (by decide)]
  simp only [hquote]
  rfl

theorem readEntries_reads {state state' : σ} {entries : List (String × Json)}
    (habsorbs : Absorbs n entry state entries state') :
    ∀ {first : Bool} {fuel m : Nat} {text : Octets},
      WrittenEntries first entries text → m ≤ fuel → m ≤ n →
      Reads true m (readEntries entry fuel first state) text state' := by
  induction habsorbs with
  | nil state =>
    intro first fuel m text hwritten hfuel hm
    cases hwritten with
    | nil hblank =>
      cases fuel with
      | zero =>
        rw [Nat.le_zero.mp hfuel]
        exact .zero (readEntries_blank blank_nil) (by simp)
      | succ fuel =>
        exact .token hblank (fun _ => readEntries_blank) (readEntries_close hblank)
          (.pure true m fun _ => rfl)
  | @cons state state' state'' key json entries hentry _ ih =>
    intro first fuel m text hwritten hfuel hm
    -- An entry behind its opening quote and what follows it, whatever stands before.
    have hparts : ∀ {fuel : Nat} {text more : Octets}, WrittenContent json text →
        WrittenEntries false entries more → m ≤ fuel + 1 →
        Reads true m (readKeyed entry fuel state) (textBody key ++ (text ++ more)) state'' := by
      intro fuel text more htext hmore hfuel
      exact readKeyed_reads ((hentry text htext).of_le hm) htext.length_pos
        (ih hmore (by omega) (by omega)) hmore.stops
    cases fuel with
    | zero =>
      rw [Nat.le_zero.mp hfuel]
      refine .zero (readEntries_blank blank_nil) ?_
      cases hwritten <;> simp
    | succ fuel =>
      cases hwritten with
      | head hblank htext hmore =>
        exact .token hblank (fun _ => readEntries_blank) (readEntries_key hblank)
          (hparts htext hmore hfuel)
      | @next _ _ _ blanks blanks' _ _ hblank hblank' htext hmore =>
        have hcomma : ∀ input, readEntries entry (fuel + 1) false state
            (blanks ++ Ascii.comma :: input) =
            readEntries entry (fuel + 1) false state (Ascii.comma :: input) :=
          fun input => readEntries_skip (skipBlank_token hblank (by decide) input)
        exact .token hblank (fun _ => readEntries_blank) hcomma <|
          .token hblank' (fun _ => readEntries_comma_blank) (readEntries_next hblank')
            (hparts htext hmore hfuel)

/-- Makes a value of what the entries of an object gave. -/
def collectRecord {α : Type} (collect : σ → Except String α) (state : σ) : Reader α := fun rest =>
  match collect state with
  | .ok value => .ok (value, rest)
  | .error key => .error (.here (.mismatch (.missing key)) rest)

/-- A record is read from an object whose entries fill what `collect` asks for. -/
theorem readRecord_understands {α : Type} (title : String) (elements : Reader α) {start state : σ}
    {collect : σ → Except String α} {entries : List (String × Json)} {value : α}
    (habsorbs : Absorbs n entry start entries state) (hcollect : collect state = .ok value) :
    Understands true n (readRecord title n elements entry start collect) (.object entries)
      value := by
  intro blanks text hblank hwritten
  cases hwritten with
  | object hentries =>
    have hreads := readEntries_reads habsorbs hentries (Nat.le_refl n) (Nat.le_refl n)
    have hfinish : ∀ rest, collectRecord collect state rest = .ok (value, rest) := by
      intro rest
      simp only [collectRecord, hcollect]
    refine .token hblank ?_ ?_ (hreads.finish hfinish)
    · intro input hinput
      unfold readRecord
      rw [skipBlank_blank hinput]
      exact ended_here rfl _
    · intro rest
      unfold readRecord
      rw [skipBlank_append hblank (by decide)]
      rfl

end Objects

/-! Names -/

section Names

variable {α : Type} {names : List String} {alone : Fin names.length → Except Fault α}
  {content : Fin names.length → Reader α} {closed : Bool} {n : Nat}

/-- Finds a name that was read among those that are known. -/
def findName (names : List String) (name : String) : Reader (Fin names.length) := fun rest =>
  match names.finIdxOf? name with
  | some index => .ok (index, rest)
  | none => .error (.here (.mismatch (.unknownName name names)) rest)

theorem readName_reads (n : Nat) {index : Fin names.length} (hnames : names.Nodup) :
    Reads true n (readName names) (textBody (names.get index)) index := by
  have hfound : names.finIdxOf? (names.get index) = some index := by
    rw [List.finIdxOf?_eq_some_iff]
    refine ⟨rfl, fun other hother heq => ?_⟩
    exact List.pairwise_iff_getElem.mp hnames other index other.2 index.2 hother heq
  have hname : ∀ rest, findName names (names.get index) rest = .ok (index, rest) := by
    intro rest
    simp only [findName, hfound]
  exact (readText_reads n (names.get index)).finish hname

theorem readNamed_blank {input : Octets} (hinput : Blank input) :
    Ended (readNamed names alone content input) := by
  unfold readNamed
  rw [skipBlank_blank hinput]
  exact ended_here rfl _

theorem readNamed_brace_blank {input : Octets} (hinput : Blank input) :
    Ended (readNamed names alone content (Ascii.openBrace :: input)) := by
  unfold readNamed
  rw [skipBlank_self (by decide)]
  simp only [skipBlank_blank hinput]
  exact ended_here rfl _

theorem readNamed_skip {input input' : Octets} (h : skipBlank input = skipBlank input') :
    readNamed names alone content input = readNamed names alone content input' := by
  unfold readNamed
  rw [h]

/-- A name that stands alone. -/
theorem readNamed_alone {index : Fin names.length} {value : α} (hnames : names.Nodup)
    (halone : alone index = .ok value) :
    Understands true n (readNamed names alone content) (.text (names.get index)) value := by
  intro blanks text hblank hwritten
  cases hwritten with
  | text =>
    let finish (index : Fin names.length) : Reader α := fun rest => do
      return (← alone index, rest)
    have hfinish : ∀ rest, finish index rest = .ok (value, rest) := by
      intro rest
      simp only [finish, halone]
      rfl
    refine .token hblank (fun _ => readNamed_blank) ?_ ((readName_reads n hnames).finish hfinish)
    intro rest
    unfold readNamed
    rw [skipBlank_append hblank (by decide)]
    rfl

/-- Reads the end of an object with one entry. -/
def readOnlyEnd (value : α) : Reader α := fun input =>
  match skipBlank input with
  | [] => .error (.here .endOfObject [])
  | octet :: rest =>
    if octet = Ascii.closeBrace then .ok (value, rest)
    else .error (.here .expectedValue (octet :: rest))

theorem readOnlyEnd_blank {value : α} {input : Octets} (hinput : Blank input) :
    Ended (readOnlyEnd value input) := by
  unfold readOnlyEnd
  rw [skipBlank_blank hinput]
  exact ended_here rfl _

theorem readOnlyEnd_reads {text : Octets} (value : α) (hwritten : WrittenEntries false [] text) :
    Reads true n (readOnlyEnd value) text value := by
  cases hwritten with
  | nil hblank =>
    refine .token hblank (fun _ => readOnlyEnd_blank) ?_ (.pure true n fun _ => rfl)
    intro rest
    unfold readOnlyEnd
    rw [skipBlank_append hblank (by decide)]
    rfl

theorem readNamed_key {blanks : Octets} (hblank : Blank blanks) (rest : Octets) :
    readNamed names alone content (Ascii.openBrace :: (blanks ++ Ascii.quote :: rest)) =
      (readName names).andThen
        (fun index => Reader.andThen (fun input => do content index (← readColon input))
          readOnlyEnd) rest := by
  have hquote : skipBlank (blanks ++ Ascii.quote :: rest) = Ascii.quote :: rest :=
    skipBlank_append hblank (by decide) _
  rw [readNamed, skipBlank_self (by decide)]
  simp only [hquote]
  unfold Reader.andThen
  cases readName names rest with
  | error fault => rfl
  | ok result =>
    obtain ⟨index, rest⟩ := result
    simp only [bind, Except.bind]
    cases readColon rest with
    | error fault => rfl
    | ok rest => rfl

/-- An object whose only entry has a name as its key. -/
theorem readNamed_entry {index : Fin names.length} {json : Json} {value : α}
    (hnames : names.Nodup) (hcontent : Understands closed n (content index) json value) :
    Understands true n (readNamed names alone content) (.object [(names.get index, json)])
      value := by
  intro blanks text hblank hwritten
  cases hwritten with
  | object hentries =>
    cases hentries with
    | head hblank' htext hmore =>
      have hend : Reads true n (readOnlyEnd value) _ value := readOnlyEnd_reads value hmore
      have hvalue := (readContent_reads hcontent htext).andThen hend (Nat.le_add_right _ _)
        (.inr ⟨hmore.stops.1, hmore.stops.2, fun _ => readOnlyEnd_blank blank_nil⟩)
      have hname : Reads true n (readName names) (textBody (names.get index)) index :=
        readName_reads n hnames
      have hbrace : ∀ input, readNamed names alone content (blanks ++ Ascii.openBrace :: input) =
          readNamed names alone content (Ascii.openBrace :: input) :=
        fun input => readNamed_skip (skipBlank_token hblank (by decide) input)
      refine .token hblank (fun _ => readNamed_blank) hbrace <|
        .token hblank' (fun _ => readNamed_brace_blank) (readNamed_key hblank') ?_
      exact hname.andThen hvalue (Nat.le_add_right _ _) (.inl rfl)

end Names

end MacroPlugin.Wire
