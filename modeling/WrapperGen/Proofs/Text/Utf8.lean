import WrapperGen.Text.Line

namespace WrapperGen

theorem toList_loop (bytes : ByteArray) (i : Nat) (read : List UInt8) :
    ByteArray.toList.loop bytes i read = read.reverse ++ bytes.data.toList.drop i := by
  fun_induction ByteArray.toList.loop bytes i read with
  | case1 i read more ih =>
    have bound : i < bytes.data.toList.length := by simpa using more
    have byte : bytes.get! i = bytes.data.toList[i] := by simp [ByteArray.get!, more]
    rw [ih, List.drop_eq_getElem_cons bound, byte, List.reverse_cons, List.append_assoc]
    rfl
  | case2 i read done =>
    rw [List.drop_eq_nil_of_le (by simpa using done), List.append_nil]

theorem toList_eq_data (bytes : ByteArray) : bytes.toList = bytes.data.toList := by
  rw [ByteArray.toList, toList_loop]
  rfl

theorem toList_toUTF8 (text : String) :
    text.toUTF8.toList = text.toList.flatMap String.utf8EncodeChar := by
  rw [toList_eq_data, String.toUTF8_eq_toByteArray, ← String.utf8Encode_toList, List.utf8Encode,
    List.toList_data_toByteArray]

theorem fromUTF8?_toUTF8 (text : String) : String.fromUTF8? text.toUTF8 = some text := by
  rw [String.toUTF8_eq_toByteArray, String.fromUTF8?, dif_pos text.isValidUTF8]
  rfl

theorem fromUTF8?_eq_some_iff {bytes : ByteArray} {text : String} :
    String.fromUTF8? bytes = some text ↔ bytes.toList = text.toUTF8.toList := by
  rw [toList_eq_data, toList_eq_data]
  constructor
  · intro read
    unfold String.fromUTF8? at read
    split at read
    next =>
      cases read
      rfl
    next => cases read
  · intro same
    have whole : bytes = text.toUTF8 := ByteArray.ext (Array.toList_inj.mp same)
    rw [whole, fromUTF8?_toUTF8]

theorem ten_ne_ofNat {n : Nat} (low : 128 ≤ n) (high : n < 256) : (10 : UInt8) ≠ UInt8.ofNat n := by
  intro same
  have byte := congrArg UInt8.toNat same
  rw [UInt8.toNat_ofNat_of_lt' high] at byte
  have ten : (10 : UInt8).toNat = 10 := rfl
  omega

/-- A line feed is one byte, which no other character has among its bytes. -/
theorem mem_utf8EncodeChar_iff {c : Char} : 10 ∈ String.utf8EncodeChar c ↔ c = '\n' := by
  constructor
  · intro mem
    simp only [String.utf8EncodeChar] at mem
    split at mem
    next ascii =>
      have byte := congrArg UInt8.toNat (List.mem_singleton.mp mem)
      rw [UInt8.toNat_ofNat_of_lt' (Nat.lt_of_le_of_lt ascii (by decide))] at byte
      exact Char.ext (UInt32.toNat_inj.mp byte.symm)
    next =>
      -- All bytes of a longer character are 128 at least.
      split at mem
      next =>
        simp only [List.mem_cons, List.not_mem_nil, or_false] at mem
        rcases mem with byte | byte <;>
          exact absurd byte (ten_ne_ofNat (by omega) (by omega))
      next =>
        split at mem
        next =>
          simp only [List.mem_cons, List.not_mem_nil, or_false] at mem
          rcases mem with byte | byte | byte <;>
            exact absurd byte (ten_ne_ofNat (by omega) (by omega))
        next =>
          simp only [List.mem_cons, List.not_mem_nil, or_false] at mem
          rcases mem with byte | byte | byte | byte <;>
            exact absurd byte (ten_ne_ofNat (by omega) (by omega))
  · rintro rfl
    decide

theorem takeWhile_flatMap_utf8EncodeChar (text : List Char) :
    (text.flatMap String.utf8EncodeChar).takeWhile (· != 10) =
      (text.takeWhile (· ≠ '\n')).flatMap String.utf8EncodeChar := by
  induction text with
  | nil => rfl
  | cons c text ih =>
    by_cases feed : c = '\n'
    · rw [feed]
      rfl
    · have others : ∀ b ∈ String.utf8EncodeChar c, (b != 10) = true := by
        intro b mem
        refine bne_iff_ne.mpr ?_
        rintro rfl
        exact feed (mem_utf8EncodeChar_iff.mp mem)
      rw [List.flatMap_cons, List.takeWhile_append_of_pos others, ih,
        List.takeWhile_cons_of_pos (by simpa using feed), List.flatMap_cons]

end WrapperGen
