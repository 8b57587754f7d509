import Mathlib.Data.List.Basic
import TypedJson.Files.Bytes
/-!
# Text as bytes

What is written to a file is read back: the bytes of a character are read as that
character, whatever follows them (`Source.firstChar?_bytes`), and so the bytes of a text are
read as the text (`Source.ofBytes_ofText`).

The reader decides by the first byte how many bytes a character has, and then asks of the
others that they continue it.  For the bytes of a character all of this is as it should be,
by its number; the case split is on the four ranges of numbers.
-/
namespace TypedJson

namespace Source

theorem toNat_ofNat {n : Nat} (h : n < 256) : (UInt8.ofNat n).toNat = n := by
  rw [UInt8.toNat_ofNat']
  exact Nat.mod_eq_of_lt h

theorem continuation?_low (n : Nat) : continuation? (UInt8.ofNat (n % 64 + 128)) = some (n % 64) := by
  unfold continuation?
  rw [toNat_ofNat (by omega)]
  have hrange : (decide (0x80 ≤ n % 64 + 128) && decide (n % 64 + 128 < 0xC0)) = true := by
    rw [Bool.and_eq_true, decide_eq_true_eq, decide_eq_true_eq]
    omega
  rw [if_pos hrange, Nat.add_sub_cancel]

theorem charFrom?_toNat {least : Nat} {c : Char} (h : least ≤ c.toNat) :
    charFrom? least c.toNat = some c := by
  have hvalid : (decide (least ≤ c.toNat) && decide c.toNat.isValidChar) = true := by
    rw [Bool.and_eq_true, decide_eq_true_eq, decide_eq_true_eq]
    exact ⟨h, c.valid⟩
  unfold charFrom?
  rw [if_pos hvalid, Char.ofNat_toNat]

/-! One lemma for each length of a character's bytes. -/

section Lengths

variable {c : Char} (rest : Bytes)

theorem firstChar?_one (h : c.toNat ≤ 0x7f) :
    firstChar? (UInt8.ofNat c.toNat :: rest) = some (c, 0) := by
  unfold firstChar?
  dsimp only
  rw [toNat_ofNat (by omega), if_pos (by omega), Char.ofNat_toNat]

theorem firstChar?_two (hlow : 0x80 ≤ c.toNat) (h : c.toNat ≤ 0x7ff) :
    firstChar? (UInt8.ofNat (c.toNat / 64 % 32 + 192) :: UInt8.ofNat (c.toNat % 64 + 128) :: rest) =
      some (c, 1) := by
  have hchar : (c.toNat / 64 % 32 + 192 - 0xC0) * 0x40 + c.toNat % 64 = c.toNat := by omega
  unfold firstChar?
  dsimp only
  rw [toNat_ofNat (by omega), if_neg (by omega), if_neg (by omega), if_pos (by omega), continuation?_low, Option.bind_eq_bind,
    Option.bind_some, hchar, charFrom?_toNat hlow]
  rfl

theorem firstChar?_three (hlow : 0x800 ≤ c.toNat) (h : c.toNat ≤ 0xffff) :
    firstChar? (UInt8.ofNat (c.toNat / 4096 % 16 + 224) :: UInt8.ofNat (c.toNat / 64 % 64 + 128) ::
      UInt8.ofNat (c.toNat % 64 + 128) :: rest) = some (c, 2) := by
  have hchar : ((c.toNat / 4096 % 16 + 224 - 0xE0) * 0x40 + c.toNat / 64 % 64) * 0x40 +
      c.toNat % 64 = c.toNat := by omega
  unfold firstChar?
  dsimp only
  rw [toNat_ofNat (by omega), if_neg (by omega), if_neg (by omega), if_neg (by omega), if_pos (by omega), continuation?_low,
    continuation?_low]
  simp only [Option.bind_eq_bind, Option.bind_some]
  rw [hchar, charFrom?_toNat hlow]
  rfl

theorem firstChar?_four (hlow : 0x10000 ≤ c.toNat) :
    firstChar? (UInt8.ofNat (c.toNat / 262144 % 8 + 240) :: UInt8.ofNat (c.toNat / 4096 % 64 + 128) ::
      UInt8.ofNat (c.toNat / 64 % 64 + 128) :: UInt8.ofNat (c.toNat % 64 + 128) :: rest) =
      some (c, 3) := by
  have hmax : c.toNat < 0x110000 := by
    have hvalid : c.toNat < 0xd800 ∨ 0xdfff < c.toNat ∧ c.toNat < 0x110000 := c.valid
    omega
  have hchar : (((c.toNat / 262144 % 8 + 240 - 0xF0) * 0x40 + c.toNat / 4096 % 64) * 0x40 +
      c.toNat / 64 % 64) * 0x40 + c.toNat % 64 = c.toNat := by omega
  unfold firstChar?
  dsimp only
  rw [toNat_ofNat (by omega), if_neg (by omega), if_neg (by omega), if_neg (by omega), if_neg (by omega), if_pos (by omega),
    continuation?_low, continuation?_low, continuation?_low]
  simp only [Option.bind_eq_bind, Option.bind_some]
  rw [hchar, charFrom?_toNat hlow]
  rfl

end Lengths

/-- The bytes of a character are read as the character, whatever follows them. -/
theorem firstChar?_bytes (c : Char) (rest : Bytes) :
    firstChar? (String.utf8EncodeChar c ++ rest) =
      some (c, (String.utf8EncodeChar c).length - 1) := by
  have hval : c.val.toNat = c.toNat := rfl
  unfold String.utf8EncodeChar
  rw [hval]
  dsimp only
  by_cases h1 : c.toNat ≤ 0x7f
  · rw [if_pos h1]
    exact firstChar?_one rest h1
  by_cases h2 : c.toNat ≤ 0x7ff
  · rw [if_neg h1, if_pos h2]
    exact firstChar?_two rest (by omega) h2
  by_cases h3 : c.toNat ≤ 0xffff
  · rw [if_neg h1, if_neg h2, if_pos h3]
    exact firstChar?_three rest (by omega) h3
  · rw [if_neg h1, if_neg h2, if_neg h3]
    exact firstChar?_four rest (by omega)

theorem ofBytesFrom_passed : ∀ (passed rest : Bytes),
    ofBytesFrom passed.length (passed ++ rest) = ofBytesFrom 0 rest
  | [], _ => rfl
  | _ :: passed, rest => by
    rw [List.length_cons, List.cons_append, ofBytesFrom]
    exact ofBytesFrom_passed passed rest

theorem ofBytesFrom_char (c : Char) (rest : Bytes) :
    ofBytesFrom 0 (String.utf8EncodeChar c ++ rest) = some c :: ofBytesFrom 0 rest := by
  have hfirst := firstChar?_bytes c rest
  obtain ⟨b, more, hbytes⟩ := List.exists_cons_of_ne_nil (String.utf8EncodeChar_ne_nil (c := c))
  rw [hbytes, List.cons_append, List.length_cons, Nat.add_sub_cancel] at hfirst
  rw [hbytes, List.cons_append, ofBytesFrom, hfirst]
  exact congrArg (some c :: ·) (ofBytesFrom_passed more rest)

theorem ofBytes_chars : ∀ cs : List Char,
    ofBytes (cs.flatMap String.utf8EncodeChar) = cs.map some
  | [] => rfl
  | c :: cs => by
    rw [ofBytes, List.flatMap_cons, ofBytesFrom_char, List.map_cons]
    exact congrArg (some c :: ·) (ofBytes_chars cs)

theorem toList_loop (bytes : ByteArray) (i : Nat) (taken : List UInt8) :
    ByteArray.toList.loop bytes i taken = taken.reverse ++ bytes.data.toList.drop i := by
  fun_induction ByteArray.toList.loop bytes i taken with
  | case1 i taken h ih =>
    have hi : i < bytes.data.toList.length := h
    have hget : bytes.get! i = bytes.data.toList[i] := getElem!_pos bytes.data i h
    rw [ih, List.reverse_cons, List.append_assoc, List.drop_eq_getElem_cons hi, hget]
    rfl
  | case2 i taken h =>
    have hi : bytes.data.toList.length ≤ i := Nat.le_of_not_lt h
    rw [List.drop_eq_nil_of_le hi, List.append_nil]

theorem ofText_eq (text : String) :
    Bytes.ofText text = text.toList.flatMap String.utf8EncodeChar := by
  conv => lhs; rw [← String.ofList_toList (s := text)]
  rw [Bytes.ofText, String.toUTF8_eq_toByteArray, String.toByteArray_ofList, ByteArray.toList,
    toList_loop, List.utf8Encode, List.data_toByteArray]
  rfl

/-- **A text is read back from its bytes.** -/
theorem ofBytes_ofText (text : String) : ofBytes (Bytes.ofText text) = ofString text := by
  rw [ofText_eq, ofBytes_chars]
  rfl

theorem toText?_ofString (text : String) : toText? (ofString text) = some text := by
  have hchars : (ofString text).mapM id = some text.toList := by
    rw [ofString, List.mapM_map]
    exact (List.mapM_pure (m := Option) (f := id)).trans (congrArg some (List.map_id _))
  rw [toText?, hchars, Option.map_some, String.ofList_toList]

theorem toText?_ofBytes_ofText (text : String) :
    (ofBytes (Bytes.ofText text)).toText? = some text := by
  rw [ofBytes_ofText, toText?_ofString]

end Source
end TypedJson
