import SegAsm.Encode

/-! Sizes and bytes of machine code, field by field, and the size of a jump: both forms of it take
the bytes that the first pass reserves. -/
namespace SegAsm

theorem word64_emod {m : Nat} (hm : m ∣ wordCount) (v : Int) : (word64 v : Int) % m = v % m := by
  have hne : (wordCount : Int) ≠ 0 := by decide
  unfold word64
  rw [Int.toNat_of_nonneg (Int.emod_nonneg v hne)]
  exact Int.emod_emod_of_dvd v (Int.natCast_dvd_natCast.mpr hm)

theorem word64_natCast_mod {m : Nat} (hm : m ∣ wordCount) (n : Nat) : word64 n % m = n % m := by
  have hmod := word64_emod hm n
  omega

theorem length_littleEndian (v : Int) (width : Nat) : (littleEndian v width).length = width := by
  simp [littleEndian]

theorem Field.length_bytes (f : Field) : f.bytes.length = f.size := by
  cases f with
  | value v width => exact length_littleEndian v width
  | operandSize => rfl
  | addressSize => rfl
  | override s => rfl
  | byte b => rfl

namespace Code

@[simp] theorem size_nil : Code.size [] = 0 := rfl

@[simp] theorem size_cons (f : Field) (c : Code) : Code.size (f :: c) = f.size + c.size := rfl

@[simp] theorem size_append (c d : Code) : Code.size (c ++ d) = c.size + d.size := by
  induction c with
  | nil => simp
  | cons f c ih =>
    rw [List.cons_append, size_cons, size_cons, ih]
    omega

@[simp] theorem bytes_nil : Code.bytes [] = [] := rfl

@[simp] theorem bytes_cons (f : Field) (c : Code) : Code.bytes (f :: c) = f.bytes ++ c.bytes := rfl

@[simp] theorem bytes_append (c d : Code) : Code.bytes (c ++ d) = c.bytes ++ d.bytes := by
  unfold bytes
  exact List.flatMap_append

theorem length_bytes (c : Code) : c.bytes.length = c.size := by
  induction c with
  | nil => rfl
  | cons f c ih => rw [bytes_cons, List.length_append, Field.length_bytes, ih, size_cons]

theorem size_map_byte (bs : List UInt8) : Code.size (bs.map .byte) = bs.length := by
  induction bs with
  | nil => rfl
  | cons b bs ih =>
    have hb : (Field.byte b).size = 1 := rfl
    rw [List.map_cons, size_cons, ih, hb, List.length_cons]
    omega

theorem bytes_map_byte (bs : List UInt8) : Code.bytes (bs.map .byte) = bs := by
  induction bs with
  | nil => rfl
  | cons b bs ih =>
    rw [List.map_cons, bytes_cons, ih]
    rfl

theorem nops_eq_map (n : Nat) : nops n = (List.replicate n nopByte).map .byte :=
  List.map_replicate.symm

@[simp] theorem size_nops (n : Nat) : (nops n).size = n := by
  rw [nops_eq_map, size_map_byte, List.length_replicate]

theorem bytes_nops (n : Nat) : (nops n).bytes = List.replicate n nopByte := by
  rw [nops_eq_map, bytes_map_byte]

end Code

namespace Jump

theorem two_le_reserved (j : Jump) : 2 ≤ j.reserved :=
  Nat.le_add_left 2 _

theorem size_code (j : Jump) (address target : Nat) : (j.code address target).size = j.reserved := by
  have hreserved := j.two_le_reserved
  unfold code
  simp only
  split
  · simp only [Code.size_append, Code.size_cons, Code.size_nil, Code.size_nops, Field.size]
    omega
  · simp only [Code.size_append, Code.size_map_byte, Code.size_cons, Code.size_nil, Field.size]
    rfl

/-- An encoded jump is told from the room that was left for it. -/
theorem code_ne_nops (j : Jump) (address target : Nat) :
    j.code address target ≠ Code.nops j.reserved := by
  unfold code
  simp only
  split
  · cases j <;> simp [Code.nops, reserved, longOpcode, shortOpcode, nopByte, List.replicate_succ]
  · cases j <;> simp [Code.nops, reserved, longOpcode, nopByte, List.replicate_succ]

end Jump

end SegAsm
