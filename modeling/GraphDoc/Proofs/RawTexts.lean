import GraphDoc.Text.Raw

/-!
# Raw texts read as text

Reading loses nothing but the bytes of encodings that break off: the pieces hold all bytes, what was
a text is read as that text, and what is read without a replacement character was the text.
-/
namespace GraphDoc.RawText

/-! ## Encodings -/

theorem bytes_ofString (text : String) :
    (ofString text).bytes = text.toList.flatMap String.utf8EncodeChar := by
  have hencoded : text.toUTF8 = (text.toList.flatMap String.utf8EncodeChar).toByteArray :=
    String.utf8Encode_toList.symm
  rw [ofString, hencoded, List.data_toByteArray]

/-- A character is read off its encoding, whatever follows. -/
theorem firstChar?_append (c : Char) (rest : List UInt8) :
    firstChar? (String.utf8EncodeChar c ++ rest) = some c := by
  have hlength : (String.utf8EncodeChar c).length ≤ 4 := by
    rw [String.length_utf8EncodeChar]
    exact c.utf8Size_le_four
  rw [firstChar?, List.take_append, List.take_of_length_le hlength, List.toByteArray_append]
  exact ByteArray.utf8DecodeChar?_utf8EncodeChar_append

/-- What starts with a character starts with its encoding. -/
theorem exists_of_firstChar? {bytes : List UInt8} {c : Char} (h : firstChar? bytes = some c) :
    ∃ rest, bytes = String.utf8EncodeChar c ++ rest := by
  obtain ⟨rest, hrest⟩ := ByteArray.exists_of_utf8DecodeChar?_eq_some h
  have htake : bytes.take 4 = String.utf8EncodeChar c ++ rest.data.toList := by
    have hdata := congrArg (·.data.toList) hrest
    simpa only [ByteArray.data_append, Array.toList_append, List.data_toByteArray] using hdata
  refine ⟨rest.data.toList ++ bytes.drop 4, ?_⟩
  rw [← List.append_assoc, ← htake, List.take_append_drop]

theorem brokenLength_pos (bytes : List UInt8) : 0 < brokenLength bytes := by
  unfold brokenLength
  split
  · split
    · decide
    · split <;> decide
  · split <;> decide
  · decide

/-! ## Pieces -/

/-- The bytes that a piece was read off. -/
def Piece.bytes : Piece → List UInt8
  | char c => String.utf8EncodeChar c
  | broken bytes => bytes

/-- Bytes that are taken already are passed over. -/
theorem piecesFrom_drop (taken : Nat) (bytes : List UInt8) :
    piecesFrom taken bytes = piecesFrom 0 (bytes.drop taken) := by
  induction bytes generalizing taken with
  | nil => rw [List.drop_nil, piecesFrom, piecesFrom]
  | cons first rest ih =>
    cases taken with
    | zero => rfl
    | succ taken => rw [piecesFrom, ih, List.drop_succ_cons]

/-- After a character comes what stands behind its encoding. -/
theorem piecesFrom_append (c : Char) (rest : List UInt8) :
    piecesFrom 0 (String.utf8EncodeChar c ++ rest) = .char c :: piecesFrom 0 rest := by
  have hlength := String.length_utf8EncodeChar c
  have hfirst := firstChar?_append c rest
  cases hencoded : String.utf8EncodeChar c with
  | nil =>
    rw [hencoded, List.length_nil] at hlength
    exact absurd hlength.symm (Nat.ne_of_gt c.utf8Size_pos)
  | cons first tail =>
    rw [hencoded, List.length_cons] at hlength
    rw [hencoded] at hfirst
    have htaken : (tail ++ rest).drop (c.utf8Size - 1) = rest := by
      rw [← hlength, Nat.add_sub_cancel, List.drop_left]
    rw [List.cons_append, piecesFrom, ← List.cons_append, hfirst]
    simp only [piecesFrom_drop (c.utf8Size - 1), htaken]

/-- The pieces hold all the bytes. -/
theorem flatMap_bytes_piecesFrom (taken : Nat) (bytes : List UInt8) :
    (piecesFrom taken bytes).flatMap Piece.bytes = bytes.drop taken := by
  induction bytes generalizing taken with
  | nil => rw [piecesFrom, List.drop_nil, List.flatMap_nil]
  | cons first rest ih =>
    cases taken with
    | succ taken => rw [piecesFrom, ih, List.drop_succ_cons]
    | zero =>
      rw [piecesFrom]
      cases hfirst : firstChar? (first :: rest) with
      | some c =>
        obtain ⟨tail, htail⟩ := exists_of_firstChar? hfirst
        have hrest : rest.drop (c.utf8Size - 1) = tail := by
          rw [← List.drop_cons c.utf8Size_pos, htail, ← String.length_utf8EncodeChar c,
            List.drop_left]
        rw [List.flatMap_cons, ih, hrest]
        exact htail.symm
      | none =>
        rw [List.flatMap_cons, ih, ← List.drop_cons (brokenLength_pos (first :: rest))]
        exact List.take_append_drop ..

/-- The pieces of an encoded text are its characters. -/
theorem pieces_ofString (text : String) : (ofString text).pieces = text.toList.map .char := by
  rw [pieces, bytes_ofString]
  induction text.toList with
  | nil => rfl
  | cons c chars ih =>
    rw [List.flatMap_cons, piecesFrom_append, ih, List.map_cons]

/-! ## Texts -/

@[simp] theorem shown_ofString (text : String) : (ofString text).shown = text := by
  rw [shown, pieces_ofString, List.map_map]
  exact (congrArg String.ofList (List.map_id _)).trans String.ofList_toList

@[simp] theorem text?_ofString (text : String) : (ofString text).text? = some text := by
  rw [text?, shown_ofString, pieces_ofString, if_pos]
  simp [Piece.isChar]

theorem quoted_ofString (text : String) : (ofString text).quoted = Text.quoted text := by
  rw [quoted, pieces_ofString, List.flatMap_map]
  rfl

/-- What is read without a replacement character was the encoded text. -/
theorem eq_ofString_shown {raw : RawText} (h : '\ufffd' ∉ raw.shown.toList) :
    raw = ofString raw.shown := by
  have hpieces : raw.pieces = (raw.pieces.map Piece.shown).map .char := by
    rw [List.map_map]
    refine (List.map_id raw.pieces).symm.trans (List.map_congr_left fun piece hpiece => ?_)
    cases piece with
    | char c => rfl
    | broken bytes =>
      refine absurd ?_ h
      rw [shown, String.toList_ofList]
      exact List.mem_map.mpr ⟨_, hpiece, rfl⟩
  have hbytes : raw.bytes = (raw.pieces.map Piece.shown).flatMap String.utf8EncodeChar := by
    have hall : raw.pieces.flatMap Piece.bytes = raw.bytes := flatMap_bytes_piecesFrom 0 raw.bytes
    rw [hpieces, List.flatMap_map] at hall
    exact hall.symm
  have hshown : (ofString raw.shown).bytes = raw.bytes := by
    rw [bytes_ofString, shown, String.toList_ofList, hbytes]
  exact congrArg RawText.mk hshown.symm

/-- An encoding that breaks off is read like the replacement character itself. -/
example : (RawText.mk [0x61, 0xff]).shown = ("a\ufffd" : RawText).shown := by decide

end GraphDoc.RawText
