import Mathlib.Data.List.Induction
import SegAsm.Proofs.FirstPass
import SegAsm.Symbol.Indexed

/-! The index of a table leads to the entry that a search through all entries finds first. Every change
keeps the index in step with the entries, and so no two entries have names of one key. -/
namespace SegAsm

/-- No two of the names are the same. -/
def Distinct (names : List String) : Prop :=
  names.Pairwise fun a b => nameKey a ≠ nameKey b

namespace Indexed

variable {α : Type} {name : α → String} {t : Indexed α}

/-- The index holds the places of all entries and nothing else. -/
def Consistent (name : α → String) (t : Indexed α) : Prop :=
  ∀ key i, t.index.lookup key = some i ↔ ∃ a, t.items[i]? = some a ∧ nameKey (name a) = key

theorem consistent_empty : Consistent name {} := by
  simp [Consistent]

namespace Consistent

theorem place?_eq_some_iff (h : t.Consistent name) {i : Nat} {a : α} (ha : t.items[i]? = some a)
    (n : String) : t.place? n = some i ↔ nameKey (name a) = nameKey n := by
  refine (h _ i).trans ⟨?_, fun hkey => ⟨a, ha, hkey⟩⟩
  rintro ⟨b, hb, hkey⟩
  rw [ha] at hb
  cases hb
  exact hkey

theorem key_ne_of_free (h : t.Consistent name) {n : String} (hfree : t.place? n = none) {a : α}
    (ha : a ∈ t.items) : nameKey (name a) ≠ nameKey n := by
  intro hkey
  obtain ⟨i, hi⟩ := List.mem_iff_getElem?.mp ha
  rw [(h.place?_eq_some_iff hi n).mpr hkey] at hfree
  cases hfree

theorem distinct (h : t.Consistent name) : Distinct (t.items.map name) := by
  refine List.pairwise_map.mpr (List.pairwise_iff_getElem.mpr fun i j hi hj hlt hkey => ?_)
  have hplace := (h.place?_eq_some_iff (List.getElem?_eq_getElem hi) _).mpr rfl
  rw [(h.place?_eq_some_iff (List.getElem?_eq_getElem hj) _).mpr hkey.symm] at hplace
  exact absurd (Option.some.inj hplace) (by omega)

/-- The index and a search through the entries find the same one. -/
theorem get?_eq_find? (h : t.Consistent name) (n : String) :
    t.get? n = t.items.find? fun a => nameKey (name a) == nameKey n := by
  unfold get?
  cases hplace : t.place? n with
  | none =>
    refine (List.find?_eq_none.mpr fun a ha => ?_).symm
    simpa using h.key_ne_of_free hplace ha
  | some i =>
    obtain ⟨a, ha, hkey⟩ := (h _ i).mp hplace
    have hfound : (t.items.find? fun a => nameKey (name a) == nameKey n).isSome :=
      List.find?_isSome.mpr ⟨a, List.mem_of_getElem? ha, by simpa using hkey⟩
    obtain ⟨b, hb⟩ := Option.isSome_iff_exists.mp hfound
    -- What is found has the key too, and so it stands where the index says.
    obtain ⟨j, hj⟩ := List.mem_iff_getElem?.mp (List.mem_of_find?_eq_some hb)
    have hbkey : nameKey (name b) = nameKey n := by simpa using List.find?_some hb
    rw [(h.place?_eq_some_iff hj n).mpr hbkey, Option.some.injEq] at hplace
    rw [hb, ← hplace, Option.bind_some, hj]

theorem isSome_place? (h : t.Consistent name) (n : String) :
    (t.place? n).isSome = (t.items.find? fun a => nameKey (name a) == nameKey n).isSome := by
  rw [← h.get?_eq_find?, get?]
  cases hplace : t.place? n with
  | none => rfl
  | some i =>
    obtain ⟨a, ha, -⟩ := (h _ i).mp hplace
    rw [Option.bind_some, ha]
    rfl

theorem add (h : t.Consistent name) (a : α) : ((t.add? (name a) a).getD t).Consistent name := by
  unfold add?
  by_cases htaken : (t.place? (name a)).isSome
  · rw [if_pos htaken]
    exact h
  · have hfree : t.place? (name a) = none := by simpa using htaken
    rw [if_neg htaken, Option.getD_some]
    intro key i
    have hitems (b : α) : (t.items ++ [a])[i]? = some b ↔
        t.items[i]? = some b ∨ i = t.items.length ∧ a = b := by grind
    simp only [hitems, or_and_right, exists_or, ← h key i, List.lookup_cons]
    by_cases hkey : key = nameKey (name a)
    · subst hkey
      have hnone : t.index.lookup (nameKey (name a)) = none := hfree
      simp [hnone, eq_comm]
    · have hother : (key == nameKey (name a)) = false := by simpa using hkey
      simp [hother, Ne.symm hkey]

theorem items_add (h : t.Consistent name) (n : String) (a : α) :
    ((t.add? n a).getD t).items =
      if (t.items.find? fun a => nameKey (name a) == nameKey n).isSome then t.items
      else t.items ++ [a] := by
  rw [add?, h.isSome_place?]
  split <;> rfl

theorem update (h : t.Consistent name) {f : α → α} (hf : ∀ a, name (f a) = name a) (n : String) :
    (t.update n f).Consistent name := by
  unfold Indexed.update
  split
  · rename_i place _
    intro key i
    rw [h, List.getElem?_modify]
    cases t.items[i]? with
    | none => simp
    | some a => by_cases hi : place = i <;> simp [hi, hf]
  · exact h

/-- Only the entry of the name is changed. -/
theorem items_update (h : t.Consistent name) (f : α → α) (n : String) :
    (t.update n f).items = t.items.map fun a => if nameKey (name a) == nameKey n then f a else a := by
  unfold Indexed.update
  split
  · rename_i place hplace
    refine List.ext_getElem? fun i => ?_
    rw [List.getElem?_modify, List.getElem?_map]
    cases ha : t.items[i]? with
    | none => rfl
    | some a =>
      have hkey := h.place?_eq_some_iff ha n
      rw [hplace, Option.some.injEq] at hkey
      simp [hkey]
  · rename_i hfree
    have hkeep : t.items.map (fun a => if nameKey (name a) == nameKey n then f a else a) =
        t.items.map id :=
      List.map_congr_left fun a ha => if_neg (by simpa using h.key_ne_of_free hfree ha)
    rw [hkeep, List.map_id]

end Consistent
end Indexed

theorem SymbolTable.declare_eq (t : SymbolTable) (s : Symbol) :
    t.declare s = if (t.get? s.name).isSome then t else t ++ [s] := by
  by_cases htaken : (t.get? s.name).isSome <;> simp [declare, add?, htaken]

namespace TableChange

/-- What a change does to the entries of the segments. -/
def onSegments (t : SegmentTable) : TableChange → SegmentTable
  | .addSegment name => t.add name
  | .setSize name size => t.setSize name size
  | .declare _ => t

/-- What a change does to the entries of the symbols. -/
def onSymbols (t : SymbolTable) : TableChange → SymbolTable
  | .declare symbol => t.declare symbol
  | _ => t

end TableChange

namespace IndexedTables

structure Consistent (t : IndexedTables) : Prop where
  segments : t.segments.Consistent Segment.name
  symbols : t.symbols.Consistent Symbol.name

variable {t : IndexedTables}

theorem Consistent.apply (h : t.Consistent) (change : TableChange) : (t.apply change).Consistent := by
  cases change with
  | addSegment name => exact ⟨h.segments.add ⟨name, 0⟩, h.symbols⟩
  | setSize name size =>
    have hname (s : Segment) : ({ s with size } : Segment).name = s.name := rfl
    exact ⟨h.segments.update hname name, h.symbols⟩
  | declare symbol => exact ⟨h.segments, h.symbols.add symbol⟩

theorem Consistent.items_apply (h : t.Consistent) (change : TableChange) :
    (t.apply change).segments.items = change.onSegments t.segments.items ∧
      (t.apply change).symbols.items = change.onSymbols t.symbols.items := by
  cases change with
  | addSegment name => exact ⟨h.segments.items_add name ⟨name, 0⟩, rfl⟩
  | setSize name size => exact ⟨h.segments.items_update _ name, rfl⟩
  | declare symbol =>
    refine ⟨rfl, (h.symbols.items_add symbol.name symbol).trans ?_⟩
    exact (SymbolTable.declare_eq t.symbols.items symbol).symm

theorem consistent_after (changes : List TableChange) : (after changes).Consistent := by
  induction changes using List.reverseRecOn with
  | nil => exact ⟨Indexed.consistent_empty, Indexed.consistent_empty⟩
  | append_singleton changes change ih =>
    rw [after, List.foldl_append]
    exact ih.apply change

/-- The entries after some changes are those of the tables without an index. -/
theorem items_after (changes : List TableChange) :
    (after changes).segments.items = changes.foldl TableChange.onSegments [] ∧
      (after changes).symbols.items = changes.foldl TableChange.onSymbols [] := by
  induction changes using List.reverseRecOn with
  | nil => exact ⟨rfl, rfl⟩
  | append_singleton changes change ih =>
    obtain ⟨hsegments, hsymbols⟩ := (consistent_after changes).items_apply change
    rw [ih.1] at hsegments
    rw [ih.2] at hsymbols
    rw [after, List.foldl_append, List.foldl_append, List.foldl_append]
    exact ⟨hsegments, hsymbols⟩

/-- A search through the entries finds what the index finds. -/
theorem get?_after (changes : List TableChange) (name : String) :
    (after changes).segments.get? name = SegmentTable.get? (after changes).segments.items name ∧
      (after changes).symbols.get? name = SymbolTable.get? (after changes).symbols.items name :=
  ⟨(consistent_after changes).segments.get?_eq_find? name,
    (consistent_after changes).symbols.get?_eq_find? name⟩

end IndexedTables
end SegAsm
