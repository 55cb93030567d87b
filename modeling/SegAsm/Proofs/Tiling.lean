import Mathlib.Logic.ExistsUnique
import SegAsm.Proofs.SecondPass

/-! The lines of a segment lie one behind the other, however often it is closed and opened again. One
running offset serves all segments, so that the argument goes through what the offset and the recorded
sizes say about the lines so far. -/
namespace SegAsm

namespace SegmentTable

def keys (t : SegmentTable) : List String :=
  t.map fun s => nameKey s.name

theorem isSome_get?_iff {t : SegmentTable} {name : String} :
    (t.get? name).isSome ↔ nameKey name ∈ t.keys := by
  simp [get?, keys, List.find?_isSome]

theorem key_of_get? {t : SegmentTable} {name : String} {s : Segment} (h : t.get? name = some s) :
    s ∈ t ∧ nameKey s.name = nameKey name := by
  unfold get? at h
  exact ⟨List.mem_of_find?_eq_some h, by simpa using List.find?_some h⟩

theorem keys_add (t : SegmentTable) (name : String) :
    (t.add name).keys = if nameKey name ∈ t.keys then t.keys else t.keys ++ [nameKey name] := by
  unfold add
  by_cases h : nameKey name ∈ t.keys
  · rw [if_pos (isSome_get?_iff.mpr h), if_pos h]
  · rw [if_neg (fun hs => h (isSome_get?_iff.mp hs)), if_neg h]
    simp [keys]

theorem mem_keys_add (t : SegmentTable) (name : String) : nameKey name ∈ (t.add name).keys := by
  rw [keys_add]
  split <;> simp_all

theorem keys_subset_add (t : SegmentTable) (name : String) : t.keys ⊆ (t.add name).keys := by
  rw [keys_add]
  split <;> simp

@[simp] theorem keys_setSize (t : SegmentTable) (name : String) (size : Nat) :
    (t.setSize name size).keys = t.keys := by
  unfold keys setSize
  rw [List.map_map]
  refine List.map_congr_left fun s _ => ?_
  simp only [Function.comp_apply]
  split <;> rfl

theorem mem_keys_of_mem {t : SegmentTable} {s : Segment} (h : s ∈ t) : nameKey s.name ∈ t.keys :=
  List.mem_map.mpr ⟨s, h, rfl⟩

theorem mem_add {t : SegmentTable} {name : String} {s : Segment} (h : s ∈ t.add name) :
    s ∈ t ∨ (s = ⟨name, 0⟩ ∧ nameKey name ∉ t.keys) := by
  unfold add at h
  split at h
  · exact .inl h
  · rename_i hfree
    rw [isSome_get?_iff] at hfree
    rw [List.mem_append, List.mem_singleton] at h
    exact h.imp_right fun hs => ⟨hs, hfree⟩

theorem mem_setSize {t : SegmentTable} {name : String} {size : Nat} {s : Segment}
    (h : s ∈ t.setSize name size) :
    (nameKey s.name = nameKey name ∧ s.size = size) ∨ (nameKey s.name ≠ nameKey name ∧ s ∈ t) := by
  obtain ⟨u, hu, rfl⟩ := List.mem_map.mp h
  by_cases hkey : nameKey u.name = nameKey name
  · rw [if_pos (by simpa using hkey)]
    exact .inl ⟨hkey, rfl⟩
  · rw [if_neg (by simpa using hkey)]
    exact .inr ⟨hkey, hu⟩

end SegmentTable

/-- The records of the segment with the given key. -/
def linesOf (key : String) (rs : List LineRecord) : List LineRecord :=
  rs.filter fun r => nameKey r.segment == key

def totalSize (rs : List LineRecord) : Nat :=
  rs.foldr (fun r n => r.size + n) 0

/-- Each record starts where the ones before it end. -/
def Tiled (rs : List LineRecord) : Prop :=
  ∀ i r, rs[i]? = some r → r.address = totalSize (rs.take i)

theorem totalSize_cons (r : LineRecord) (rs : List LineRecord) :
    totalSize (r :: rs) = r.size + totalSize rs := rfl

theorem totalSize_append (rs rs' : List LineRecord) :
    totalSize (rs ++ rs') = totalSize rs + totalSize rs' := by
  induction rs with
  | nil => exact (Nat.zero_add _).symm
  | cons r rs ih =>
    rw [List.cons_append, totalSize_cons, totalSize_cons, ih, Nat.add_assoc]

theorem totalSize_singleton (r : LineRecord) : totalSize [r] = r.size := rfl

theorem tiled_concat_iff {rs : List LineRecord} {r : LineRecord} :
    Tiled (rs ++ [r]) ↔ Tiled rs ∧ r.address = totalSize rs := by
  unfold Tiled
  constructor
  · intro h
    constructor
    · intro i u hu
      have hi : i < rs.length := (List.getElem?_eq_some_iff.mp hu).1
      have haddress := h i u (by rw [List.getElem?_append_left hi, hu])
      rwa [List.take_append_of_le_length (by omega)] at haddress
    · have haddress := h rs.length r List.getElem?_concat_length
      rwa [List.take_left] at haddress
  · rintro ⟨h, haddress⟩ i u hu
    obtain hi | rfl | hi := Nat.lt_trichotomy i rs.length
    · rw [List.getElem?_append_left hi] at hu
      rw [List.take_append_of_le_length (by omega)]
      exact h i u hu
    · rw [List.getElem?_concat_length] at hu
      cases hu
      rw [List.take_left, haddress]
    · rw [List.getElem?_eq_none (by simp; omega)] at hu
      cases hu

theorem linesOf_concat (key : String) (rs : List LineRecord) (r : LineRecord) :
    linesOf key (rs ++ [r]) =
      linesOf key rs ++ if nameKey r.segment = key then [r] else [] := by
  unfold linesOf
  rw [List.filter_append]
  by_cases h : nameKey r.segment = key <;> simp [h]

theorem totalSize_linesOf_concat (key : String) (rs : List LineRecord) (r : LineRecord) :
    totalSize (linesOf key (rs ++ [r])) =
      totalSize (linesOf key rs) + if nameKey r.segment = key then r.size else 0 := by
  rw [linesOf_concat, totalSize_append]
  split
  · rw [totalSize_singleton]
  · rfl

theorem totalSize_linesOf_concat_empty {key : String} {rs : List LineRecord} {r : LineRecord}
    (hr : r.size = 0) : totalSize (linesOf key (rs ++ [r])) = totalSize (linesOf key rs) := by
  rw [totalSize_linesOf_concat, hr, ite_self, Nat.add_zero]

theorem tiled_linesOf_concat {key : String} {rs : List LineRecord} {r : LineRecord}
    (h : Tiled (linesOf key rs))
    (hr : nameKey r.segment = key → r.address = totalSize (linesOf key rs)) :
    Tiled (linesOf key (rs ++ [r])) := by
  rw [linesOf_concat]
  by_cases hkey : nameKey r.segment = key
  · rw [if_pos hkey, tiled_concat_iff]
    exact ⟨h, hr hkey⟩
  · rw [if_neg hkey, List.append_nil]
    exact h

theorem totalSize_take_le (rs : List LineRecord) {i j : Nat} (h : i ≤ j) :
    totalSize (rs.take i) ≤ totalSize (rs.take j) := by
  have hsplit := List.take_append_drop i (rs.take j)
  rw [List.take_take, Nat.min_eq_left h] at hsplit
  rw [← hsplit, totalSize_append]
  omega

theorem totalSize_take_succ {rs : List LineRecord} {i : Nat} {r : LineRecord}
    (h : rs[i]? = some r) : totalSize (rs.take (i + 1)) = totalSize (rs.take i) + r.size := by
  rw [List.take_add_one, h, Option.toList_some, totalSize_append, totalSize_singleton]

namespace Tiled

variable {rs : List LineRecord}

theorem end_le_start (h : Tiled rs) {i j : Nat} {r u : LineRecord} (hr : rs[i]? = some r)
    (hu : rs[j]? = some u) (hij : i < j) : r.address + r.size ≤ u.address := by
  have hend := totalSize_take_succ hr
  have hle := totalSize_take_le rs (show i + 1 ≤ j by omega)
  rw [h i r hr, h j u hu]
  omega

theorem exists_covering (h : Tiled rs) {k : Nat} (hk : k < totalSize rs) :
    ∃ (i : Nat) (r : LineRecord), rs[i]? = some r ∧ r.address ≤ k ∧ k < r.address + r.size := by
  induction rs using List.reverseRecOn with
  | nil => exact absurd hk (Nat.not_lt_zero k)
  | append_singleton rs r ih =>
    obtain ⟨hrs, haddress⟩ := tiled_concat_iff.mp h
    rw [totalSize_append, totalSize_singleton] at hk
    by_cases hbefore : k < totalSize rs
    · obtain ⟨i, u, hu, hcover⟩ := ih hrs hbefore
      have hi : i < rs.length := (List.getElem?_eq_some_iff.mp hu).1
      exact ⟨i, u, by rw [List.getElem?_append_left hi, hu], hcover⟩
    · exact ⟨rs.length, r, List.getElem?_concat_length, by omega, by omega⟩

/-- Each byte belongs to one record only. -/
theorem existsUnique_covering (h : Tiled rs) {k : Nat} (hk : k < totalSize rs) :
    ∃! i : Nat, ∃ r : LineRecord, rs[i]? = some r ∧ r.address ≤ k ∧ k < r.address + r.size := by
  obtain ⟨i, r, hr, hlow, hhigh⟩ := h.exists_covering hk
  refine ⟨i, ⟨r, hr, hlow, hhigh⟩, ?_⟩
  rintro j ⟨u, hu, hulow, huhigh⟩
  obtain hij | rfl | hij := Nat.lt_trichotomy i j
  · have hsep := h.end_le_start hr hu hij
    omega
  · rfl
  · have hsep := h.end_le_start hu hr hij
    omega

end Tiled

/-- What the segments of a state say about the records so far. The running offset is the end of the
open segment, and a closed segment has its size in the table. -/
structure Placed (s : State) (rs : List LineRecord) : Prop where
  known : ∀ r ∈ rs, r.segment = noSegment ∨ nameKey r.segment ∈ s.segments.keys
  current : s.openSegment = noSegment ∨ nameKey s.openSegment ∈ s.segments.keys
  offset : s.openSegment ≠ noSegment → s.offset = totalSize (linesOf (nameKey s.openSegment) rs)
  closed : ∀ seg ∈ s.segments, nameKey seg.name ≠ nameKey s.openSegment →
    seg.size = totalSize (linesOf (nameKey seg.name) rs)
  tiled : ∀ key, key ≠ nameKey noSegment → Tiled (linesOf key rs)

namespace Placed

variable {s s' : State} {rs : List LineRecord} {r : LineRecord}

theorem initial : Placed {} [] where
  known := by simp
  current := .inl rfl
  offset := fun h => absurd rfl h
  closed := by simp
  tiled := by simp [Tiled, linesOf]

theorem totalSize_of_not_mem (h : Placed s rs) {key : String} (hkey : key ∉ s.segments.keys)
    (hne : key ≠ nameKey noSegment) : totalSize (linesOf key rs) = 0 := by
  have hnone : linesOf key rs = [] := by
    refine List.filter_eq_nil_iff.mpr fun r hr heq => ?_
    have hsegment : nameKey r.segment = key := by simpa using heq
    obtain hno | hknown := h.known r hr
    · exact hne (by rw [← hsegment, hno])
    · exact hkey (hsegment ▸ hknown)
  rw [hnone]
  rfl

theorem known_concat (h : Placed s rs) (hkeys : s.segments.keys ⊆ s'.segments.keys)
    (hr : r.segment = noSegment ∨ nameKey r.segment ∈ s'.segments.keys) :
    ∀ u ∈ rs ++ [r], u.segment = noSegment ∨ nameKey u.segment ∈ s'.segments.keys := by
  intro u hu
  rw [List.mem_append, List.mem_singleton] at hu
  obtain hu | rfl := hu
  · exact (h.known u hu).imp_right fun hmem => hkeys hmem
  · exact hr

theorem tiled_concat (h : Placed s rs) (hsegment : r.segment = s.openSegment)
    (haddress : r.address = s.offset) :
    ∀ key, key ≠ nameKey noSegment → Tiled (linesOf key (rs ++ [r])) := by
  intro key hkey
  refine tiled_linesOf_concat (h.tiled key hkey) fun hr => ?_
  rw [hsegment] at hr
  have hne : s.openSegment ≠ noSegment := fun hno => hkey (by rw [← hr, hno])
  rw [haddress, h.offset hne, hr]

/-- A line that leaves the segments alone is placed at the offset. -/
theorem stay (h : Placed s rs) (hsegments : s'.segments = s.segments)
    (hopen : s'.openSegment = s.openSegment)
    (hoffset : s'.offset = s.offset + r.size) (hsegment : r.segment = s.openSegment)
    (haddress : r.address = s.offset) : Placed s' (rs ++ [r]) where
  known := h.known_concat (by rw [hsegments]; exact List.Subset.refl _)
    (by rw [hsegment, hsegments]; exact h.current)
  current := by
    rw [hopen, hsegments]
    exact h.current
  offset := by
    intro hne
    rw [hopen] at hne ⊢
    rw [hoffset, totalSize_linesOf_concat, hsegment, if_pos rfl, h.offset hne]
  closed := by
    intro seg hseg hne
    rw [hopen] at hne
    rw [hsegments] at hseg
    rw [totalSize_linesOf_concat, hsegment, if_neg (Ne.symm hne), Nat.add_zero]
    exact h.closed seg hseg hne
  tiled := h.tiled_concat hsegment haddress

/-- Opening a segment goes on where its lines end. The line itself may count as outside, if there is
something wrong with its label. -/
theorem opening (h : Placed s rs) {name : String} (hno : s.openSegment = noSegment)
    (hfree : nameKey noSegment ∉ (s.segments.add name).keys)
    (hsegments : s'.segments = s.segments.add name) (hopen : s'.openSegment = name)
    (hoffset : s'.offset = (((s.segments.add name).get? name).map Segment.size).getD 0)
    (hsize : r.size = 0) (hsegment : r.segment = name ∨ r.segment = noSegment)
    (haddress : r.address = s'.offset) : Placed s' (rs ++ [r]) := by
  have hname : nameKey name ≠ nameKey noSegment :=
    fun heq => hfree (heq ▸ s.segments.mem_keys_add name)
  have hold : nameKey noSegment ∉ s.segments.keys :=
    fun hmem => hfree (s.segments.keys_subset_add name hmem)
  -- Outside every segment all segments are closed, and the table has their sizes.
  have hclosed : ∀ seg ∈ s.segments, seg.size = totalSize (linesOf (nameKey seg.name) rs) := by
    intro seg hseg
    refine h.closed seg hseg fun heq => hold ?_
    rw [← hno, ← heq]
    exact SegmentTable.mem_keys_of_mem hseg
  have hresume : s'.offset = totalSize (linesOf (nameKey name) rs) := by
    obtain ⟨seg, hseg⟩ := Option.isSome_iff_exists.mp
      (SegmentTable.isSome_get?_iff.mpr (s.segments.mem_keys_add name))
    obtain ⟨hmem, hkey⟩ := SegmentTable.key_of_get? hseg
    rw [hoffset, hseg, Option.map_some, Option.getD_some]
    obtain hmem | ⟨rfl, hnew⟩ := SegmentTable.mem_add hmem
    · rw [hclosed seg hmem, hkey]
    · exact (h.totalSize_of_not_mem hnew hname).symm
  constructor
  case known =>
    refine h.known_concat ?_ ?_
    · rw [hsegments]
      exact s.segments.keys_subset_add name
    · obtain hr | hr := hsegment
      · rw [hsegments, hr]
        exact .inr (s.segments.mem_keys_add name)
      · exact .inl hr
  case current =>
    rw [hopen, hsegments]
    exact .inr (s.segments.mem_keys_add name)
  case offset =>
    intro _
    rw [totalSize_linesOf_concat_empty hsize, hopen, hresume]
  case closed =>
    intro seg hseg hne
    rw [hsegments] at hseg
    rw [totalSize_linesOf_concat_empty hsize]
    obtain hmem | ⟨rfl, -⟩ := SegmentTable.mem_add hseg
    · exact hclosed seg hmem
    · exact absurd (congrArg nameKey hopen.symm) hne
  case tiled =>
    intro key hkey
    refine tiled_linesOf_concat (h.tiled key hkey) fun hr => ?_
    obtain hu | hu := hsegment
    · rw [haddress, hresume, ← hr, hu]
    · rw [hu] at hr
      exact absurd hr.symm hkey

/-- Closing a segment under its own name records its size. -/
theorem closing (h : Placed s rs) (hfree : nameKey noSegment ∉ s.segments.keys)
    (hsegments : s'.segments = s.segments.setSize s.openSegment s.offset)
    (hopen : s'.openSegment = noSegment) (hsize : r.size = 0)
    (hsegment : r.segment = s.openSegment) (haddress : r.address = s.offset) :
    Placed s' (rs ++ [r]) := by
  have hkeys : s'.segments.keys = s.segments.keys := by
    rw [hsegments, SegmentTable.keys_setSize]
  constructor
  case known =>
    refine h.known_concat ?_ ?_
    · rw [hkeys]
      exact List.Subset.refl _
    · rw [hkeys, hsegment]
      exact h.current
  case current => exact .inl hopen
  case offset => exact fun hne => absurd hopen hne
  case closed =>
    intro seg hseg _
    have hmem := SegmentTable.mem_keys_of_mem hseg
    rw [hkeys] at hmem
    rw [hsegments] at hseg
    rw [totalSize_linesOf_concat_empty hsize]
    obtain ⟨hkey, hoffset⟩ | ⟨hkey, hold⟩ := SegmentTable.mem_setSize hseg
    · -- Closing what is not open has no effect, as no segment has that name.
      have hne : s.openSegment ≠ noSegment := by
        intro hno
        rw [hkey, hno] at hmem
        exact hfree hmem
      rw [hoffset, hkey, h.offset hne]
    · exact h.closed seg hold hkey
  case tiled => exact h.tiled_concat hsegment haddress

end Placed

namespace State

variable {s : State} {line : Nat} {text : String} {c : Classified}

theorem record_segment_cases :
    (s.record line text c).segment = (s.perform line text c).1.openSegment ∨
      (s.record line text c).segment = s.openSegment := by
  unfold record
  simp only
  split
  · exact .inl rfl
  · exact .inr rfl

theorem record_segment_of_stay (h : (s.perform line text c).1.openSegment = s.openSegment) :
    (s.record line text c).segment = s.openSegment :=
  record_segment_cases.elim (·.trans h) id

theorem record_segment_of_kind (h : c.kind ≠ .beginSegment) :
    (s.record line text c).segment = s.openSegment := by
  unfold record
  simp [h]

theorem keys_subset_next (s : State) (line : Nat) (text : String) (c : Classified) :
    s.segments.keys ⊆ (s.next line text c).segments.keys := by
  change s.segments.keys ⊆ (s.perform line text c).1.segments.keys
  obtain ⟨name, -, h⟩ | ⟨name, -, h⟩ | ⟨pairs, -, h⟩ | h := s.perform_cases line text c
  · rw [h, beginSegment]
    split
    · exact s.segments.keys_subset_add name.text
    · exact List.Subset.refl _
  · rw [h, endSegment]
    split
    · rw [SegmentTable.keys_setSize]
      exact List.Subset.refl _
    · exact List.Subset.refl _
  · rw [h]
    exact List.Subset.refl _
  · rw [h]
    exact List.Subset.refl _

theorem openSegment_run (s : State) (lines : List String) :
    (s.run lines).1.openSegment = (s.after lines).openSegment := rfl

/-- A segment that is closed under another name makes its line faulty. -/
theorem sameFold_of_correct {name : Lexeme} (hst : c.statement? = some (.endSegment name))
    (hcorrect : (s.record line text c).correct) :
    Text.sameFold s.openSegment name.text := by
  by_contra hne
  have hopen : (s.labelled line c).openSegment = s.openSegment := by
    rw [labelled_eq]
    rfl
  have hperform : (s.perform line text c).2 =
      .reject ⟨.ofLexeme line name, .segmentMismatch name.text s.openSegment⟩ := by
    rw [perform_of_statement hst]
    simp only [execute, endSegment, hopen]
    rw [if_neg hne]
  have herror : Diagnostic.isError
      ⟨.ofLexeme line name, .segmentMismatch name.text s.openSegment⟩ = true := rfl
  unfold LineRecord.correct record at hcorrect
  simp [hperform, Emission.reject, herror] at hcorrect

end State

namespace Placed

variable {s : State} {rs : List LineRecord} {line : Nat} {text : String} {c : Classified}

theorem next_of_stay (h : Placed s rs)
    (hsegments : (s.perform line text c).1.segments = s.segments)
    (hopen : (s.perform line text c).1.openSegment = s.openSegment)
    (hoffset : (s.perform line text c).1.offset = s.offset) :
    Placed (s.next line text c) (rs ++ [s.record line text c]) := by
  refine h.stay hsegments hopen ?_ (State.record_segment_of_stay hopen) hoffset
  change (s.perform line text c).1.offset + _ = _
  rw [hoffset]
  rfl

theorem next_of_beginSegment (h : Placed s rs) {name : Lexeme}
    (hp : s.perform line text c = (s.declareAll line c.declarations).beginSegment line name)
    (hfree : nameKey noSegment ∉ (s.next line text c).segments.keys) :
    Placed (s.next line text c) (rs ++ [s.record line text c]) := by
  have hd : (s.declareAll line c.declarations).openSegment = s.openSegment := rfl
  by_cases hno : s.openSegment = noSegment
  · rw [State.beginSegment, if_pos (hd.trans hno)] at hp
    have hsegments : (s.next line text c).segments = s.segments.add name.text :=
      congrArg (fun p => p.1.segments) hp
    have hopen : (s.perform line text c).1.openSegment = name.text :=
      congrArg (fun p => p.1.openSegment) hp
    have hsize : (s.perform line text c).2.code.size = 0 := by rw [hp]; rfl
    have hoffset : (s.perform line text c).1.offset =
        (((s.segments.add name.text).get? name.text).map Segment.size).getD 0 :=
      congrArg (fun p => p.1.offset) hp
    have hnext : (s.next line text c).offset = (s.perform line text c).1.offset := by
      unfold State.next
      simp only [hsize, Nat.add_zero]
    refine h.opening hno (hsegments ▸ hfree) hsegments hopen (hnext.trans hoffset) hsize ?_ hnext.symm
    exact State.record_segment_cases.imp (·.trans hopen) (·.trans hno)
  · rw [State.beginSegment, if_neg (fun h => hno (hd.symm.trans h))] at hp
    exact h.next_of_stay (congrArg (fun p => p.1.segments) hp)
      (congrArg (fun p => p.1.openSegment) hp) (congrArg (fun p => p.1.offset) hp)

theorem next_of_endSegment (h : Placed s rs) {name : Lexeme}
    (hst : c.statement? = some (.endSegment name))
    (hp : s.perform line text c = (s.declareAll line c.declarations).endSegment line name)
    (hfree : nameKey noSegment ∉ (s.next line text c).segments.keys)
    (hcorrect : (s.record line text c).correct) :
    Placed (s.next line text c) (rs ++ [s.record line text c]) := by
  have hd : (s.declareAll line c.declarations).openSegment = s.openSegment := rfl
  rw [State.endSegment, hd, if_pos (State.sameFold_of_correct hst hcorrect)] at hp
  have hkind : c.kind ≠ .beginSegment := by
    rw [kind_of_statement? hst]
    exact LineKind.noConfusion
  have hsize : (s.perform line text c).2.code.size = 0 := by rw [hp]; rfl
  refine h.closing (fun hmem => hfree (s.keys_subset_next line text c hmem))
    (congrArg (fun p => p.1.segments) hp) (congrArg (fun p => p.1.openSegment) hp) hsize
    (State.record_segment_of_kind hkind) (congrArg (fun p => p.1.offset) hp)

/-- One line keeps what the segments say about the records, unless it closes a segment under another
name. -/
theorem next (h : Placed s rs) (hfree : nameKey noSegment ∉ (s.next line text c).segments.keys)
    (hend : (s.record line text c).kind = .endSegment → (s.record line text c).correct) :
    Placed (s.next line text c) (rs ++ [s.record line text c]) := by
  rw [State.record_kind] at hend
  obtain ⟨name, -, hp⟩ | ⟨name, hst, hp⟩ | ⟨pairs, -, hp⟩ | hp := s.perform_cases line text c
  · exact h.next_of_beginSegment hp hfree
  · exact h.next_of_endSegment hst hp hfree (hend (kind_of_statement? hst))
  · exact h.next_of_stay (congrArg (fun p => p.1.segments) hp)
      (congrArg (fun p => p.1.openSegment) hp) (congrArg (fun p => p.1.offset) hp)
  · exact h.next_of_stay (congrArg (fun d => d.segments) hp) (congrArg (fun d => d.openSegment) hp)
      (congrArg (fun d => d.offset) hp)

theorem of_run {lines : List String}
    (hfree : nameKey noSegment ∉ (State.after {} lines).segments.keys)
    (hend : ∀ r ∈ (State.run {} lines).2.firstPass, r.kind = .endSegment → r.correct) :
    Placed (State.after {} lines) (State.run {} lines).2.firstPass := by
  induction lines using List.reverseRecOn with
  | nil => exact initial
  | append_singleton lines text ih =>
    rw [State.after_concat] at hfree ⊢
    rw [State.firstPass_concat] at hend ⊢
    -- Names stay in the table, so that the one behind all lines decides for each of them.
    have hbefore := ih (fun hmem => hfree (State.keys_subset_next _ _ _ _ hmem))
      (fun r hr => hend r (List.mem_append_left _ hr))
    exact hbefore.next hfree (hend _ (List.mem_append_right _ (List.mem_singleton_self _)))

end Placed

section Map

variable {rs : List LineRecord} {f : LineRecord → LineRecord}

theorem linesOf_map (key : String) (h : ∀ r ∈ rs, (f r).SamePlace r) :
    linesOf key (rs.map f) = (linesOf key rs).map f := by
  unfold linesOf
  rw [List.filter_map]
  refine congrArg (List.map f) (List.filter_congr fun r hr => ?_)
  simp only [Function.comp_apply, (h r hr).segment]

theorem totalSize_map (h : ∀ r ∈ rs, (f r).SamePlace r) : totalSize (rs.map f) = totalSize rs := by
  induction rs with
  | nil => rfl
  | cons r rs ih =>
    have hrest := ih fun u hu => h u (List.mem_cons_of_mem r hu)
    rw [List.map_cons, totalSize_cons, totalSize_cons, hrest, (h r List.mem_cons_self).size]

theorem Tiled.map (ht : Tiled rs) (h : ∀ r ∈ rs, (f r).SamePlace r) : Tiled (rs.map f) := by
  intro i u hu
  rw [List.getElem?_map] at hu
  obtain ⟨r, hr, rfl⟩ := Option.map_eq_some_iff.mp hu
  have htake : ∀ r ∈ rs.take i, (f r).SamePlace r := fun r hr => h r (List.mem_of_mem_take hr)
  rw [← List.map_take, totalSize_map htake, (h r (List.mem_of_getElem? hr)).address, ht i r hr]

end Map

namespace State

variable {s : State} {lines : List String}

theorem linesOf_lines (key : String) :
    linesOf key (s.run lines).2.lines =
      (linesOf key (s.run lines).2.firstPass).map fun r => ((s.after lines).resolveJump r).1 := by
  rw [lines_run]
  exact linesOf_map key fun r hr => samePlace_of_mem hr

theorem tiled_lines {key : String} (h : Tiled (linesOf key (s.run lines).2.firstPass)) :
    Tiled (linesOf key (s.run lines).2.lines) := by
  rw [linesOf_lines]
  exact h.map fun r hr => samePlace_of_mem (List.mem_of_mem_filter hr)

theorem totalSize_lines (key : String) :
    totalSize (linesOf key (s.run lines).2.lines) =
      totalSize (linesOf key (s.run lines).2.firstPass) := by
  rw [linesOf_lines]
  exact totalSize_map fun r hr => samePlace_of_mem (List.mem_of_mem_filter hr)

theorem mem_lines_of_kind {r : LineRecord} (h : r ∈ (s.run lines).2.firstPass)
    (hk : r.kind ≠ .jump) : r ∈ (s.run lines).2.lines := by
  rw [lines_run]
  exact List.mem_map.mpr ⟨r, h, resolveJump_of_not fun hjump => hk hjump.1⟩

end State

/-- Both passes place the lines of each segment without gap or overlap, and its recorded size is their
total size once it has been closed for good. -/
theorem segment_lines_tiled (source : String)
    (hname : ∀ seg ∈ (assemble source).segments, nameKey seg.name ≠ nameKey noSegment)
    (hend : ∀ r ∈ (assemble source).lines, r.kind = .endSegment → r.correct)
    (seg : Segment) (hseg : seg ∈ (assemble source).segments) :
    let rs := linesOf (nameKey seg.name) (assemble source).lines
    Tiled rs ∧
      (∀ k < totalSize rs, ∃! i : Nat, ∃ r : LineRecord,
        rs[i]? = some r ∧ r.address ≤ k ∧ k < r.address + r.size) ∧
      (nameKey seg.name ≠ nameKey (State.run {} (Text.splitLines source)).1.openSegment →
        seg.size = totalSize rs) := by
  have hfree : nameKey noSegment ∉ (State.after {} (Text.splitLines source)).segments.keys := by
    intro hmem
    obtain ⟨other, hother, hkey⟩ := List.mem_map.mp hmem
    exact hname other hother hkey
  have hplaced := Placed.of_run hfree fun r hr hkind =>
    hend r (State.mem_lines_of_kind hr (by rw [hkind]; exact LineKind.noConfusion)) hkind
  intro rs
  have htiled : Tiled rs := State.tiled_lines (hplaced.tiled _ (hname seg hseg))
  refine ⟨htiled, fun k hk => htiled.existsUnique_covering hk, fun hopen => ?_⟩
  rw [State.openSegment_run] at hopen
  exact (hplaced.closed seg hseg hopen).trans (State.totalSize_lines _).symm

/-- A segment opened again under another spelling goes on behind the lines of its first part. -/
theorem segment_lines_tiled_reopened :
    let source := "A SEGMENT\nX DB 1\nA ENDS\na segment\nY DB 2\na ends"
    let rs := linesOf (nameKey "A") (assemble source).lines
    (assemble source).segments = [⟨"A", 2⟩] ∧ rs.map LineRecord.address = [0, 0, 1, 1, 1, 2] ∧
      Tiled rs ∧ 2 = totalSize rs := by
  intro source rs
  have hfacts : (∀ r ∈ (assemble source).lines, r.kind = .endSegment → r.correct) ∧
      (assemble source).segments = [⟨"A", 2⟩] ∧ rs.map LineRecord.address = [0, 0, 1, 1, 1, 2] ∧
      nameKey "A" ≠ nameKey (State.run {} (Text.splitLines source)).1.openSegment := by
    decide +kernel
  obtain ⟨hend, hsegments, haddress, hopen⟩ := hfacts
  have hname : ∀ seg ∈ (assemble source).segments, nameKey seg.name ≠ nameKey noSegment := by
    rw [hsegments]
    decide +kernel
  have hseg : ⟨"A", 2⟩ ∈ (assemble source).segments := hsegments ▸ List.mem_singleton_self _
  obtain ⟨htiled, -, hsize⟩ := segment_lines_tiled source hname hend ⟨"A", 2⟩ hseg
  exact ⟨hsegments, haddress, htiled, hsize hopen⟩

end SegAsm
