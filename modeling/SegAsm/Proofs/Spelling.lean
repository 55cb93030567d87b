import SegAsm.Proofs.Names
import SegAsm.Proofs.SegmentUse
import SegAsm.Proofs.Tiling

/-! Spellings of one name. The tables find names by their upper case, and the end of a segment and the
assumptions compare them up to case folding. The two agree on all names that have the Kelvin sign at the
same places. -/
namespace SegAsm

open Text

/-- The Kelvin sign stands at the same places of both texts. -/
def SameKelvins (a b : String) : Prop :=
  a.toList.map (· == '\u212a') = b.toList.map (· == '\u212a')

instance (a b : String) : Decidable (SameKelvins a b) :=
  inferInstanceAs (Decidable (_ = _))

/-- Whatever is done with a segment under one of the names is done with it under the other one. -/
structure OneSegment (a b : String) : Prop where
  lookedUp : ∀ t : SegmentTable, t.get? a = t.get? b
  opened : ∀ (s : State) (line : Nat) (name : Lexeme) (segment : Segment), name.text = b →
    s.openSegment = noSegment → s.segments.get? a = some segment →
      (s.beginSegment line name).1.segments = s.segments ∧
      (s.beginSegment line name).1.offset = segment.size
  closed : ∀ (s : State) (line : Nat) (name : Lexeme), name.text = b → s.openSegment = a →
    (s.endSegment line name).2.diagnostics = [] ∧
    (s.endSegment line name).1.segments.get? b =
      (s.segments.get? a).map fun segment => { segment with size := s.offset }
  assumed : ∀ (t : AssumeTable) (r : SegmentRegister),
    ((t.set r (upperString a)).holding? b).isSome

section Text

variable {a b : String} (ha : LexemeKind.ofWord a.toList = .identifier)
include ha

theorem sameFold_upperString : sameFold (upperString a) b ↔ sameFold a b := by
  unfold sameFold upperString
  rw [String.toList_ofList, map_fold_upper fun c => LexemeKind.isWordChar_of_identifier ha]

theorem nameKey_eq_iff (hb : LexemeKind.ofWord b.toList = .identifier) :
    nameKey a = nameKey b ↔ sameFold a b ∧ SameKelvins a b := by
  unfold nameKey upperString sameFold SameKelvins
  rw [String.ofList_inj, beq_iff_eq]
  exact map_upper_eq_iff (fun c => LexemeKind.isWordChar_of_identifier ha)
    (fun c => LexemeKind.isWordChar_of_identifier hb)

end Text

namespace SegmentTable

variable {a b : String}

theorem get?_congr (h : nameKey a = nameKey b) (t : SegmentTable) : t.get? a = t.get? b := by
  unfold get?
  rw [h]

theorem add_of_get? {t : SegmentTable} {s : Segment} (h : t.get? a = some s) : t.add a = t := by
  unfold add
  rw [h, Option.isSome_some, if_pos rfl]

/-- A size that is set under one key is found under it. -/
theorem get?_setSize (t : SegmentTable) (name : String) (size : Nat) :
    (t.setSize name size).get? name = (t.get? name).map fun s => { s with size } := by
  unfold get? setSize
  rw [List.find?_map]
  have hkeys : ((fun s : Segment => nameKey s.name == nameKey name) ∘ fun s =>
      if nameKey s.name == nameKey name then { s with size } else s) =
        fun s => nameKey s.name == nameKey name := by
    funext s
    rw [Function.comp_apply]
    split <;> rfl
  rw [hkeys]
  refine Option.map_congr fun s hs => ?_
  rw [if_pos (List.find?_some (p := fun s : Segment => nameKey s.name == nameKey name) hs)]

end SegmentTable

namespace AssumeTable

variable {t : AssumeTable} {r : SegmentRegister} {name segment : String}

theorem isSome_holding?_iff : (t.holding? segment).isSome ↔ ∃ r, t.Maps r segment := by
  unfold holding? Maps
  rw [List.find?_isSome]
  exact ⟨fun ⟨r, _, h⟩ => ⟨r, h⟩, fun ⟨r, h⟩ => ⟨r, by cases r <;> decide, h⟩⟩

theorem maps_set_self : (t.set r name).Maps r segment ↔ sameFold name segment := by
  unfold Maps
  rw [get_set, if_pos rfl]

/-- Where no register addresses a segment, one that is set is the only one to do so. -/
theorem holding?_set (h : ∀ r', ¬t.Maps r' segment) :
    (t.set r name).holding? segment = some r ↔ sameFold name segment := by
  refine ⟨fun hr => maps_set_self.mp (maps_of_holding? hr), fun hsame => ?_⟩
  obtain ⟨r', hr'⟩ := Option.isSome_iff_exists.mp
    (isSome_holding?_iff.mpr ⟨r, maps_set_self.mpr hsame⟩)
  have hmaps := maps_of_holding? hr'
  unfold Maps at hmaps
  rw [get_set] at hmaps
  split_ifs at hmaps with heq
  · rw [hr', heq]
  · exact absurd hmaps (h r')

end AssumeTable

theorem State.diagnostics_endSegment (s : State) (line : Nat) (name : Lexeme) :
    (s.endSegment line name).2.diagnostics = [] ↔ sameFold s.openSegment name.text := by
  unfold endSegment
  split_ifs with hsame
  · simp [hsame]
  · simp [Emission.reject, hsame]

theorem State.segments_endSegment {s : State} {name : Lexeme}
    (h : sameFold s.openSegment name.text) (line : Nat) :
    (s.endSegment line name).1.segments = s.segments.setSize s.openSegment s.offset := by
  unfold endSegment
  rw [if_pos h]

/-- Names under one key are names of one segment wherever names are compared. -/
theorem oneSegment_iff {a b : String} (ha : LexemeKind.ofWord a.toList = .identifier)
    (hb : LexemeKind.ofWord b.toList = .identifier) : OneSegment a b ↔ nameKey a = nameKey b := by
  constructor
  · intro h
    have hfound : SegmentTable.get? [⟨a, 0⟩] a = some ⟨a, 0⟩ := by simp [SegmentTable.get?]
    rw [h.lookedUp] at hfound
    exact (SegmentTable.key_of_get? hfound).2
  · intro hkey
    have hsame := ((nameKey_eq_iff ha hb).mp hkey).1
    constructor
    case lookedUp => exact SegmentTable.get?_congr hkey
    case opened =>
      rintro s line name segment rfl hopen hfound
      rw [SegmentTable.get?_congr hkey] at hfound
      unfold State.beginSegment
      rw [if_pos hopen]
      dsimp only
      rw [SegmentTable.add_of_get? hfound, hfound]
      exact ⟨rfl, rfl⟩
    case closed =>
      rintro s line name rfl rfl
      refine ⟨(s.diagnostics_endSegment line name).mpr hsame, ?_⟩
      rw [State.segments_endSegment hsame, ← SegmentTable.get?_congr hkey, SegmentTable.get?_setSize]
    case assumed =>
      intro t r
      rw [AssumeTable.isSome_holding?_iff]
      exact ⟨r, AssumeTable.maps_set_self.mpr ((sameFold_upperString ha).mpr hsame)⟩

/-- The end of a segment and the assumptions take two names for one exactly if they fold to the same name.
The tables do so exactly if moreover the Kelvin sign stands at the same places, and then all that is done
with a segment under either name is done with one segment. -/
theorem names_compared_alike_iff (a b : String) (ha : LexemeKind.ofWord a.toList = .identifier)
    (hb : LexemeKind.ofWord b.toList = .identifier) :
    (sameFold (upperString a) b ↔ sameFold a b) ∧
    (nameKey a = nameKey b ↔ sameFold a b ∧ SameKelvins a b) ∧
    (OneSegment a b ↔ nameKey a = nameKey b) ∧
    (∀ (s : State) (line : Nat) (name : Lexeme), s.openSegment = a → name.text = b →
      ((s.endSegment line name).2.diagnostics = [] ↔ sameFold a b)) ∧
    ∀ (t : AssumeTable) (r : SegmentRegister), (∀ r', ¬t.Maps r' b) →
      ((t.set r (upperString a)).holding? b = some r ↔ sameFold a b) := by
  refine ⟨sameFold_upperString ha, nameKey_eq_iff ha hb, oneSegment_iff ha hb, ?_, ?_⟩
  · rintro s line name rfl rfl
    exact s.diagnostics_endSegment line name
  · intro t r hfree
    rw [AssumeTable.holding?_set hfree, sameFold_upperString ha]

/-- The long s stands for an `S` everywhere, and a Kelvin sign for itself. -/
theorem names_compared_alike_with_long_s :
    LexemeKind.ofWord "\u212a\u017f1".toList = .identifier ∧
      LexemeKind.ofWord "\u212as1".toList = .identifier ∧
      nameKey "\u212a\u017f1" = nameKey "\u212as1" ∧ OneSegment "\u212a\u017f1" "\u212as1" := by
  have ha : LexemeKind.ofWord "\u212a\u017f1".toList = .identifier := by decide +kernel
  have hb : LexemeKind.ofWord "\u212as1".toList = .identifier := by decide +kernel
  obtain ⟨-, hkey, hone, -⟩ := names_compared_alike_iff _ _ ha hb
  have hsame : nameKey "\u212a\u017f1" = nameKey "\u212as1" :=
    hkey.mpr ⟨by decide, by decide⟩
  exact ⟨ha, hb, hsame, hone.mpr hsame⟩

/-- The Kelvin sign closes the segment `k`, and opens another one. -/
theorem segment_of_kelvin_sign :
    LexemeKind.ofWord "k".toList = .identifier ∧ LexemeKind.ofWord "\u212a".toList = .identifier ∧
      sameFold "k" "\u212a" ∧ sameFold (upperString "k") "\u212a" ∧ nameKey "k" ≠ nameKey "\u212a" ∧
      (assemble "k SEGMENT\nX DB 1\n\u212a ENDS\n\u212a SEGMENT").segments =
        [⟨"k", 1⟩, ⟨"\u212a", 0⟩] := by
  decide +kernel

end SegAsm
