import Mathlib.Data.List.Basic
import Mathlib.Data.List.TakeWhile
import SegAsm.Proofs.Lexeme.Place
import SegAsm.Text.Bytes

/-! Texts as bytes. In UTF-8 a byte below 128 stands for an ASCII character and for nothing else, so that
what is looked for byte by byte is found where it stands as a character. -/
namespace SegAsm

namespace Text

theorem bytes_eq_encode (s : String) : bytes s = encode s.toList := by
  unfold bytes encode
  rw [← String.utf8Encode_toList, List.utf8Encode, List.data_toByteArray]

theorem bytes_ofList (cs : List Char) : bytes (String.ofList cs) = encode cs := by
  rw [bytes_eq_encode, String.toList_ofList]

theorem bytes_injective {s t : String} (h : bytes s = bytes t) : s = t :=
  String.toByteArray_inj.mp (ByteArray.ext (Array.toList_inj.mp h))

theorem length_bytes (s : String) : (bytes s).length = s.utf8ByteSize := rfl

@[simp] theorem encode_nil : encode [] = [] := rfl

@[simp] theorem encode_cons (c : Char) (cs : List Char) :
    encode (c :: cs) = String.utf8EncodeChar c ++ encode cs := rfl

@[simp] theorem encode_append (cs ds : List Char) : encode (cs ++ ds) = encode cs ++ encode ds :=
  List.flatMap_append

theorem isEmpty_encode (cs : List Char) : (encode cs).isEmpty = cs.isEmpty := by
  cases cs with
  | nil => rfl
  | cons c cs => simp [String.utf8EncodeChar_ne_nil]

theorem length_encode (cs : List Char) : (encode cs).length = byteLength cs := by
  rw [← bytes_ofList, length_bytes, utf8ByteSize_ofList]

/-- An ASCII character is one byte, and the bytes of any other character are no ASCII. -/
theorem utf8EncodeChar_cases (c : Char) :
    (c.toNat < 128 ∧ String.utf8EncodeChar c = [UInt8.ofNat c.toNat]) ∨
      (128 ≤ c.toNat ∧ ∀ b ∈ String.utf8EncodeChar c, 128 ≤ b.toNat) := by
  have hnat : c.val.toNat = c.toNat := rfl
  simp only [String.utf8EncodeChar, hnat]
  generalize c.toNat = v
  split_ifs with h
  · exact .inl ⟨by omega, rfl⟩
  all_goals
    refine .inr ⟨by omega, ?_⟩
    simp only [List.forall_mem_cons, UInt8.toNat_ofNat', List.not_mem_nil, false_implies, implies_true,
      and_true]
    omega

/-- A byte below 128 is a character of its own. -/
theorem utf8EncodeChar_of_mem {c : Char} {b : UInt8} (h : b ∈ String.utf8EncodeChar c)
    (hb : b.toNat < 128) : String.utf8EncodeChar c = [b] ∧ c = Char.ofNat b.toNat := by
  obtain ⟨hc, hbytes⟩ | ⟨-, hbytes⟩ := utf8EncodeChar_cases c
  · rw [hbytes, List.mem_singleton] at h
    have hnat : b.toNat = c.toNat := by
      rw [h, UInt8.toNat_ofNat']
      omega
    rw [hbytes, ← h, hnat]
    exact ⟨rfl, c.ofNat_toNat.symm⟩
  · have hle := hbytes b h
    omega

theorem utf8EncodeChar_of_ascii {d : Char} (hd : d.toNat < 128) :
    String.utf8EncodeChar d = [UInt8.ofNat d.toNat] := by
  obtain ⟨-, hbytes⟩ | ⟨hle, -⟩ := utf8EncodeChar_cases d
  · exact hbytes
  · omega

/-- The byte of an ASCII character is among the bytes of no other one. -/
theorem mem_utf8EncodeChar_iff {c d : Char} (hd : d.toNat < 128) :
    UInt8.ofNat d.toNat ∈ String.utf8EncodeChar c ↔ c = d := by
  have hbyte : (UInt8.ofNat d.toNat).toNat = d.toNat := by
    rw [UInt8.toNat_ofNat']
    omega
  constructor
  · intro h
    rw [(utf8EncodeChar_of_mem h (by omega)).2, hbyte, d.ofNat_toNat]
  · rintro rfl
    rw [utf8EncodeChar_of_ascii hd]
    exact List.mem_singleton_self _

/-- Bytes up to an ASCII one are the characters up to it. -/
theorem takeWhile_encode {d : Char} (hd : d.toNat < 128) (cs : List Char) :
    (encode cs).takeWhile (· ≠ UInt8.ofNat d.toNat) = encode (cs.takeWhile (· ≠ d)) := by
  induction cs with
  | nil => rfl
  | cons c cs ih =>
    by_cases hc : c = d
    · subst hc
      rw [encode_cons, utf8EncodeChar_of_ascii hd, List.cons_append,
        List.takeWhile_cons_of_neg (by simp), List.takeWhile_cons_of_neg (by simp), encode_nil]
    · have hother : ∀ b ∈ String.utf8EncodeChar c, decide (b ≠ UInt8.ofNat d.toNat) := by
        intro b hb
        refine decide_eq_true ?_
        rintro rfl
        exact hc ((mem_utf8EncodeChar_iff hd).mp hb)
      rw [encode_cons, List.takeWhile_append_of_pos hother, ih,
        List.takeWhile_cons_of_pos (by simpa using hc), encode_cons]

theorem dropWhile_encode {d : Char} (hd : d.toNat < 128) (cs : List Char) :
    (encode cs).dropWhile (· ≠ UInt8.ofNat d.toNat) = encode (cs.dropWhile (· ≠ d)) := by
  have hsame : encode (cs.takeWhile (· ≠ d)) ++ (encode cs).dropWhile (· ≠ UInt8.ofNat d.toNat) =
      encode (cs.takeWhile (· ≠ d)) ++ encode (cs.dropWhile (· ≠ d)) := by
    rw [← encode_append, List.takeWhile_append_dropWhile, ← takeWhile_encode hd,
      List.takeWhile_append_dropWhile]
  exact List.append_cancel_left hsame

theorem splitOn_append_of_not_mem {b : UInt8} {bs : List UInt8} (h : b ∉ bs) (cs : List UInt8) :
    (bs ++ cs).splitOn b = (cs.splitOn b).modifyHead (bs ++ ·) := by
  induction bs with
  | nil => exact (congrFun List.modifyHead_id (cs.splitOn b)).symm
  | cons x bs ih =>
    obtain ⟨hx, hbs⟩ := not_or.mp (mt List.mem_cons.mpr h)
    have hne : (x == b) = false := beq_eq_false_iff_ne.mpr (Ne.symm hx)
    rw [List.cons_append, List.splitOn_cons_eq_if_modifyHead, hne, ih hbs]
    simp [Function.comp_def]

/-- Bytes are split at an ASCII one as the characters are. -/
theorem splitOn_encode {d : Char} (hd : d.toNat < 128) (cs : List Char) :
    (encode cs).splitOn (UInt8.ofNat d.toNat) = (cs.splitOn d).map encode := by
  induction cs with
  | nil => rfl
  | cons c cs ih =>
    rw [encode_cons, List.splitOn_cons_eq_if_modifyHead]
    by_cases hc : c = d
    · subst hc
      rw [utf8EncodeChar_of_ascii hd, List.singleton_append, List.splitOn_cons_eq_if_modifyHead, ih]
      simp
    · rw [splitOn_append_of_not_mem (mt (mem_utf8EncodeChar_iff hd).mp hc), ih,
        if_neg (by simpa using hc)]
      obtain ⟨part, parts, hparts⟩ := List.exists_cons_of_ne_nil (List.splitOn_ne_nil d cs)
      rw [hparts]
      rfl

theorem getLast?_encode_iff {d : Char} (hd : d.toNat < 128) (cs : List Char) :
    (encode cs).getLast? = some (UInt8.ofNat d.toNat) ↔ cs.getLast? = some d := by
  obtain rfl | ⟨init, c, rfl⟩ := List.eq_nil_or_concat cs
  · simp
  · rw [List.concat_eq_append, encode_append, List.getLast?_concat, Option.some_inj, encode_cons,
      encode_nil, List.append_nil, List.getLast?_append_of_ne_nil _ String.utf8EncodeChar_ne_nil]
    constructor
    · exact fun h => (mem_utf8EncodeChar_iff hd).mp (List.mem_of_getLast? h)
    · rintro rfl
      rw [utf8EncodeChar_of_ascii hd]
      rfl

theorem encode_intercalate (sep : List Char) (parts : List (List Char)) :
    encode (sep.intercalate parts) = (encode sep).intercalate (parts.map encode) := by
  match parts with
  | [] => rfl
  | [part] => simp
  | part :: next :: parts =>
    have hrest := encode_intercalate sep (next :: parts)
    rw [List.map_cons] at hrest
    rw [List.intercalate_cons_cons, encode_append, encode_append, hrest, List.map_cons, List.map_cons,
      List.intercalate_cons_cons]

section Decode

theorem firstChar?_encode (c : Char) (bs : List UInt8) :
    firstChar? (String.utf8EncodeChar c ++ bs) = some c := by
  have hlength : (String.utf8EncodeChar c).length ≤ 4 := by
    rw [String.length_utf8EncodeChar]
    exact c.utf8Size_le_four
  unfold firstChar?
  rw [List.take_append, List.take_of_length_le hlength, List.toByteArray_append]
  exact ByteArray.utf8DecodeChar?_utf8EncodeChar_append

/-- The characters of a text are read from its bytes again. -/
theorem decode_encode (stray : Char) (cs : List Char) : decode stray (encode cs) = cs := by
  induction cs with
  | nil =>
    rw [encode_nil, decode]
  | cons c cs ih =>
    have hfirst := firstChar?_encode c (encode cs)
    have hlength := String.length_utf8EncodeChar c
    rw [encode_cons]
    obtain ⟨b, bs, hbytes⟩ := List.exists_cons_of_ne_nil (String.utf8EncodeChar_ne_nil (c := c))
    rw [hbytes, List.length_cons] at hlength
    rw [hbytes, List.cons_append] at hfirst ⊢
    rw [decode, hfirst]
    dsimp only
    rw [← hlength, Nat.add_sub_cancel, List.drop_left, ih]

theorem decode_bytes (stray : Char) (s : String) : decode stray (bytes s) = s.toList := by
  rw [bytes_eq_encode, decode_encode]

end Decode

end Text

end SegAsm
