import Mathlib.Algebra.Group.Nat.Defs
import SegAsm.Decode
import SegAsm.Proofs.Code
import SegAsm.Proofs.Operands

/-! The decoder takes the fields of encoded instructions apart again: values, the bytes in front of an
opcode, and memory operands. -/
namespace SegAsm

/-- The low bytes of a natural number, least significant first. -/
def natBytes (n width : Nat) : List UInt8 :=
  (List.range width).map fun i => UInt8.ofNat (n / 256 ^ i)

theorem natBytes_succ (n width : Nat) :
    natBytes n (width + 1) = UInt8.ofNat n :: natBytes (n / 256) width := by
  unfold natBytes
  rw [List.range_succ_eq_map, List.map_cons, List.map_map]
  refine congrArg₂ List.cons (by simp) (List.map_congr_left fun i _ => ?_)
  simp only [Function.comp_apply, Nat.div_div_eq_div_mul, Nat.pow_succ, Nat.mul_comm]

namespace Decoder

theorem unsigned_natBytes (n width : Nat) (bs : List UInt8) :
    unsigned width (natBytes n width ++ bs) = .ok (n % 256 ^ width, bs) := by
  induction width generalizing n with
  | zero =>
    rw [Nat.pow_zero, Nat.mod_one]
    rfl
  | succ width ih =>
    have hsplit : n % 256 ^ (width + 1) = n % 256 + 256 * (n / 256 % 256 ^ width) := by
      rw [Nat.pow_succ', Nat.mod_mul]
    have hbyte : (UInt8.ofNat n).toNat = n % 256 := UInt8.toNat_ofNat'
    rw [natBytes_succ, List.cons_append, unsigned, ih, hbyte, hsplit]
    rfl

theorem unsigned_littleEndian (v : Int) (width : Nat) (bs : List UInt8) :
    unsigned width (littleEndian v width ++ bs) = .ok (word64 v % 256 ^ width, bs) :=
  unsigned_natBytes (word64 v) width bs

theorem unsignedByte_littleEndian (v : Int) (bs : List UInt8) :
    unsignedByte (littleEndian v 1 ++ bs) = .ok (v % 256, bs) := by
  have hmod : ((word64 v % 256 ^ 1 : Nat) : Int) = v % 256 := by
    rw [Nat.pow_one, Int.natCast_emod]
    exact word64_emod (by decide) v
  unfold unsignedByte
  rw [unsigned_littleEndian, ← hmod]
  rfl

/-- A value of up to eight bytes comes back as the nearest one in two's complement. -/
theorem twosComplement_littleEndian (v : Int) {width : Nat} (hwidth : width ≤ 8)
    (bs : List UInt8) :
    twosComplement width (littleEndian v width ++ bs) = .ok (v.bmod (256 ^ width), bs) := by
  have hdvd : 256 ^ width ∣ wordCount := by
    have hcount : wordCount = 256 ^ 8 := by decide
    rw [hcount]
    exact Nat.pow_dvd_pow 256 hwidth
  have hmod : ((word64 v % 256 ^ width : Nat) : Int) = v % (256 ^ width : Nat) := by
    rw [Int.natCast_emod]
    exact word64_emod hdvd v
  unfold twosComplement
  rw [unsigned_littleEndian, Int.bmod_def, ← hmod]
  change Except.ok (if 2 * (word64 v % 256 ^ width) < 256 ^ width then _ else _, bs) = _
  have hhalf : ∀ n m : Nat, 2 * n < m ↔ (n : Int) < ((m : Int) + 1) / 2 := by omega
  simp only [hhalf]
  rfl

end Decoder

namespace Leading

/-- The bytes that the encoder puts in front of an opcode, in its order. -/
def code (l : Leading) : Code :=
  (if l.operandSize then [.operandSize] else []) ++ (l.override.map Field.override).toList ++
    (if l.addressSize then [.addressSize] else [])

theorem read_operandSize (l : Leading) (bs : List UInt8) :
    l.read (0x66 :: bs) = { l with operandSize := true }.read bs := rfl

theorem read_addressSize (l : Leading) (bs : List UInt8) :
    l.read (0x67 :: bs) = { l with addressSize := true }.read bs := rfl

theorem read_override (l : Leading) (s : SegmentRegister) (bs : List UInt8) :
    l.read (UInt8.ofNat s.overrideByte :: bs) = { l with override := some s }.read bs := by
  cases s <;> rfl

/-- A byte that stands for none of the fields in front of an opcode. -/
def isOpcode (b : UInt8) : Bool :=
  b != 0x66 && b != 0x67 && SegmentRegister.all.all fun s => s.overrideByte != b.toNat

theorem read_opcode (l : Leading) {b : UInt8} (hb : isOpcode b) (bs : List UInt8) :
    l.read (b :: bs) = (l, b :: bs) := by
  simp only [isOpcode, Bool.and_eq_true, bne_iff_ne, ne_eq] at hb
  obtain ⟨⟨hoperand, haddress⟩, hoverride⟩ := hb
  have hnone : (SegmentRegister.all.find? fun s => s.overrideByte == b.toNat) = none := by
    rw [List.find?_eq_none]
    intro s hs
    simpa using List.all_eq_true.mp hoverride s hs
  rw [read, if_neg hoperand, if_neg haddress, hnone]

theorem read_code (l : Leading) {b : UInt8} (hb : isOpcode b) (bs : List UInt8) :
    read {} (l.code.bytes ++ b :: bs) = (l, b :: bs) := by
  obtain ⟨operandSize, addressSize, override⟩ := l
  cases operandSize <;> cases addressSize <;> cases override <;>
    simp [code, Field.bytes, read_operandSize, read_addressSize, read_override, read_opcode _ hb]

end Leading

theorem baseNumber_lt (r : Register) : baseNumber r < 8 := by
  cases r <;> decide

/-- The operand byte holds the register field and the number of the base; `ESP` has a scale byte
behind it. -/
theorem bytes_operandBytes {field : Nat} (hfield : field < 8) (base : Register) (isAddress : Bool) :
    (operandBytes field base isAddress).bytes =
      UInt8.ofNat ((if isAddress then 128 else 192) + 8 * field + baseNumber base) ::
        (if base = .esp then [0x24] else []) := by
  have hbase := baseNumber_lt base
  have hbyte : (((if isAddress then 0x80 else 0xc0 : Int) + 8 * field + baseNumber base) %
      256).toNat = (if isAddress then 128 else 192) + 8 * field + baseNumber base := by
    split <;> omega
  unfold operandBytes
  simp only [hbyte]
  split <;> simp [Field.bytes]

/-- The bytes of a memory operand: the operand byte, the scale byte of `ESP`, the displacement. -/
theorem bytes_memoryFields {field : Nat} (hfield : field < 8) (s : Symbol) (m : MemoryOperand) :
    (memoryFields field s m).bytes =
      UInt8.ofNat (128 + 8 * field + baseNumber m.base) ::
        ((if m.base = .esp then [0x24] else []) ++
          littleEndian s.offset (if m.base.isWide then 4 else 2)) := by
  unfold memoryFields
  rw [Code.bytes_append, bytes_operandBytes hfield]
  simp [Field.bytes]

namespace Decoder

theorem base_baseNumber {r : Register} (hr : r.isBase) (bs : List UInt8) :
    base r.isWide (baseNumber r) ((if r = .esp then [0x24] else []) ++ bs) = .ok (r, bs) := by
  cases r <;> first | rfl | exact absurd hr (by decide)

/-- The place in memory that an operand and its symbol give. -/
def memoryAt (s : Symbol) (m : MemoryOperand) : Memory :=
  ⟨m.base, s.offset % (if m.base.isWide then 2 ^ 32 else 2 ^ 16)⟩

theorem memory_memoryFields {field : Nat} (hfield : field < 8) (s : Symbol) {m : MemoryOperand}
    (hbase : m.base.isBase) (bs : List UInt8) :
    memory m.base.isWide ((memoryFields field s m).bytes ++ bs) =
      .ok ((field, memoryAt s m), bs) := by
  have hnumber := baseNumber_lt m.base
  generalize hn : 128 + 8 * field + baseNumber m.base = n
  have hbyte : (UInt8.ofNat n).toNat = n := by
    rw [UInt8.toNat_ofNat']
    omega
  have hmode : (n / 64 != 2) = false := by
    rw [bne_eq_false_iff_eq]
    omega
  have hlow : n % 8 = baseNumber m.base := by omega
  have hmiddle : n / 8 % 8 = field := by omega
  have hwidth : word64 s.offset % 256 ^ (if m.base.isWide then 4 else 2) =
      (memoryAt s m).displacement := by
    unfold memoryAt
    cases m.base.isWide <;> exact word64_natCast_mod (by decide) s.offset
  rw [bytes_memoryFields hfield, hn, List.cons_append, List.append_assoc]
  unfold memory
  simp only [byte, bind, Except.bind, hbyte, hmode, hlow, hmiddle, base_baseNumber hbase,
    unsigned_littleEndian, hwidth, Bool.false_eq_true, if_false]
  rfl

end Decoder

end SegAsm
