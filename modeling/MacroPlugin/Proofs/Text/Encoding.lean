import MacroPlugin.Octets

/-!
The octets of a text: those of its characters, one after the other. A character below U+0080 is
its own octet, and every octet of a larger one lies above all of ASCII, so that no octet with a
meaning in a grammar can hide inside a character. An octet that begins a character is told from one
that continues it, so that octets come apart into characters in one way at most.
-/

namespace MacroPlugin.Octets

@[simp] theorem ofText_append (a b : String) : ofText (a ++ b) = ofText a ++ ofText b := by
  simp [ofText]

theorem ofText_ofList (text : List Char) :
    ofText (String.ofList text) = text.flatMap String.utf8EncodeChar := by
  simp [ofText, List.utf8Encode]

theorem ofText_eq_flatMap (text : String) :
    ofText text = text.toList.flatMap String.utf8EncodeChar := by
  rw [← ofText_ofList, String.ofList_toList]

theorem ofText_join (texts : List String) :
    ofText (String.join texts) = texts.flatMap ofText := by
  induction texts with
  | nil => rfl
  | cons text texts ih => rw [String.join_cons, ofText_append, ih, List.flatMap_cons]

theorem ofText_singleton (c : Char) : ofText c.toString = String.utf8EncodeChar c := by
  simp [ofText_eq_flatMap]

/-- The octets of a text spell that text. -/
@[simp] theorem toText?_ofText (text : String) : (ofText text).toText? = some text := by
  have hbytes : (⟨(ofText text).toArray⟩ : ByteArray) = text.toByteArray := by
    simp [ofText]
  unfold toText? String.fromUTF8?
  rw [hbytes, dif_pos text.isValidUTF8]
  rfl

theorem encodeChar_of_ascii {c : Char} (h : c.toNat < 0x80) :
    String.utf8EncodeChar c = [c.toNat.toUInt8] := by
  have hle : c.val.toNat ≤ 0x7F := Nat.le_of_lt_succ h
  simp only [String.utf8EncodeChar, if_pos hle]
  rfl

theorem continuation_ge {n high : Nat} (hhigh : 0x80 ≤ high) (hlow : n + high < 0x100) :
    (0x80 : UInt8) ≤ UInt8.ofNat (n + high) := by
  rw [UInt8.le_iff_toNat_le, UInt8.toNat_ofNat', Nat.mod_eq_of_lt hlow]
  exact Nat.le_add_left_of_le hhigh

/-- All octets of a character outside ASCII are outside ASCII. -/
theorem encodeChar_ge {c : Char} (h : 0x80 ≤ c.toNat) :
    ∀ octet ∈ String.utf8EncodeChar c, (0x80 : UInt8) ≤ octet := by
  have hnot : ¬ c.val.toNat ≤ 0x7F := Nat.not_le_of_lt h
  intro octet hmem
  simp only [String.utf8EncodeChar, if_neg hnot] at hmem
  split at hmem
  · simp only [List.mem_cons, List.not_mem_nil, or_false] at hmem
    rcases hmem with rfl | rfl <;> exact continuation_ge (by omega) (by omega)
  · split at hmem
    · simp only [List.mem_cons, List.not_mem_nil, or_false] at hmem
      rcases hmem with rfl | rfl | rfl <;> exact continuation_ge (by omega) (by omega)
    · simp only [List.mem_cons, List.not_mem_nil, or_false] at hmem
      rcases hmem with rfl | rfl | rfl | rfl <;> exact continuation_ge (by omega) (by omega)

/-- Octets spell no other text than the one whose octets they are. -/
theorem ofText_of_toText? {octets : Octets} {text : String} (h : octets.toText? = some text) :
    ofText text = octets := by
  unfold toText? String.fromUTF8? at h
  split at h
  · next hvalid =>
    rw [← Option.some.inj h]
    simp [ofText, String.fromUTF8]
  · simp at h

/-- A character begins with an octet that begins characters, and none of its other octets does. -/
theorem encodeChar_first (c : Char) :
    ∃ first others, String.utf8EncodeChar c = first :: others ∧ first.IsUTF8FirstByte ∧
      ∀ octet ∈ others, ¬ octet.IsUTF8FirstByte := by
  obtain ⟨first, others, hencode⟩ := List.exists_cons_of_ne_nil (String.utf8EncodeChar_ne_nil (c := c))
  have hfirst : ∀ i (hi : i < (String.utf8EncodeChar c).length),
      (String.utf8EncodeChar c)[i].IsUTF8FirstByte ↔ i = 0 :=
    fun i hi => UInt8.isUTF8FirstByte_getElem_utf8EncodeChar
  simp only [hencode] at hfirst
  refine ⟨first, others, hencode, (hfirst 0 (by simp)).mpr rfl, ?_⟩
  intro octet hmem
  obtain ⟨i, hi, rfl⟩ := List.getElem_of_mem hmem
  exact fun h => absurd ((hfirst (i + 1) (by simpa using hi)).mp h) (by simp)

/-- Octets begin with one character at most. -/
theorem encodeChar_append_inj {c c' : Char} {rest rest' : Octets}
    (h : String.utf8EncodeChar c ++ rest = String.utf8EncodeChar c' ++ rest') :
    c = c' ∧ rest = rest' := by
  have hdecode : ∀ (c : Char) (rest : Octets),
      ByteArray.utf8DecodeChar? (String.utf8EncodeChar c ++ rest).toByteArray 0 = some c := by
    intro c rest
    rw [List.toByteArray_append]
    exact ByteArray.utf8DecodeChar?_utf8EncodeChar_append
  have hchar : c = c' := by
    have hfirst := hdecode c rest
    rw [h, hdecode c' rest'] at hfirst
    exact (Option.some.inj hfirst).symm
  subst hchar
  exact ⟨rfl, List.append_cancel_left h⟩

/-- Octets without a control character, and so without a line feed. -/
def Unbroken (octets : Octets) : Prop :=
  ∀ octet ∈ octets, Ascii.space ≤ octet

instance (octets : Octets) : Decidable (Unbroken octets) :=
  List.decidableBAll _ octets

theorem Unbroken.append {front back : Octets} (hfront : Unbroken front) (hback : Unbroken back) :
    Unbroken (front ++ back) := by
  intro octet hmem
  rcases List.mem_append.mp hmem with hmem | hmem
  · exact hfront octet hmem
  · exact hback octet hmem

end MacroPlugin.Octets
