import SegAsm.Proofs.Layout.Stable

/-! What laying out keeps. Lines stay lines, with their comments and their carriage returns; in the
code of a line only white characters come and go, and none of them in a text constant. -/
namespace SegAsm

open Text

/-- The text constants of a line that is being read. -/
structure Quoted where
  closed : List (List Char) := []
  /-- What has been read of the text constant that is open. -/
  opened : Option (List Char) := none
deriving Repr, DecidableEq

/-- A quote opens a text constant, or closes the open one. -/
def Quoted.push (q : Quoted) (c : Char) : Quoted :=
  match q.opened with
  | none => if c = '\x27' then { q with opened := some [] } else q
  | some text =>
    if c = '\x27' then ⟨q.closed ++ [text], none⟩ else { q with opened := some (text ++ [c]) }

def Quoted.ofChars (cs : List Char) : Quoted :=
  cs.foldl Quoted.push {}

/-- The texts between quotes, where every other quote closes the one before it. -/
def quotedTexts (cs : List Char) : List (List Char) :=
  (Quoted.ofChars cs).closed

/-- The characters that are not white. -/
def solid (cs : List Char) : List Char :=
  cs.filter (!isWhite ·)

theorem solid_append (cs ds : List Char) : solid (cs ++ ds) = solid cs ++ solid ds :=
  List.filter_append ..

theorem solid_solid (cs : List Char) : solid (solid cs) = solid cs := by
  unfold solid
  rw [List.filter_filter]
  simp

theorem solid_of_white {cs : List Char} (h : ∀ c ∈ cs, isWhite c) : solid cs = [] := by
  unfold solid
  rw [List.filter_eq_nil_iff]
  intro c hc
  simp [h c hc]

namespace Quoted

variable {q : Quoted} {cs : List Char}

theorem ofChars_concat (cs : List Char) (c : Char) : ofChars (cs ++ [c]) = (ofChars cs).push c :=
  List.foldl_concat ..

/-- Outside of text constants only a quote counts. -/
theorem push_of_outside {c : Char} (hq : q.opened = none) (hc : c ≠ '\x27') : q.push c = q := by
  unfold push
  rw [hq]
  exact if_neg hc

theorem foldl_push_of_outside (hq : q.opened = none) (hcs : '\x27' ∉ cs) : cs.foldl push q = q := by
  induction cs with
  | nil => rfl
  | cons c cs ih =>
    rw [List.mem_cons, not_or] at hcs
    rw [List.foldl_cons, push_of_outside hq (Ne.symm hcs.1), ih hcs.2]

/-- Without a quote no text constant ends. -/
theorem closed_foldl_push (hcs : '\x27' ∉ cs) : (cs.foldl push q).closed = q.closed := by
  induction cs generalizing q with
  | nil => rfl
  | cons c cs ih =>
    rw [List.mem_cons, not_or] at hcs
    have hc : (q.push c).closed = q.closed := by
      unfold push
      split <;> rw [if_neg (Ne.symm hcs.1)]
    rw [List.foldl_cons, ih hcs.2, hc]

theorem isSome_opened_push (q : Quoted) (c : Char) :
    (q.push c).opened.isSome = Layout.turn q.opened.isSome c := by
  unfold push Layout.turn
  split <;> rename_i hq <;> rw [hq] <;> split_ifs <;> simp [hq]

theorem isSome_opened_ofChars (cs : List Char) :
    (ofChars cs).opened.isSome = cs.foldl Layout.turn false := by
  induction cs using List.reverseRecOn with
  | nil => rfl
  | append_singleton cs c ih => rw [ofChars_concat, isSome_opened_push, ih, List.foldl_concat]

end Quoted

/-- The same code but for white characters, and these only outside of text constants. -/
structure SameCode (cs ds : List Char) : Prop where
  solid : solid ds = solid cs
  quoted : quotedTexts ds = quotedTexts cs

theorem quote_not_mem_of_white {cs : List Char} (h : ∀ c ∈ cs, isWhite c) : '\x27' ∉ cs :=
  fun hmem => absurd (h _ hmem) (by decide)

namespace SameCode

variable {cs ds es front front' : List Char}

theorem refl (cs : List Char) : SameCode cs cs :=
  ⟨rfl, rfl⟩

theorem symm (h : SameCode cs ds) : SameCode ds cs :=
  ⟨h.solid.symm, h.quoted.symm⟩

theorem trans (h : SameCode cs ds) (h' : SameCode ds es) : SameCode cs es :=
  ⟨h'.solid.trans h.solid, h'.quoted.trans h.quoted⟩

/-- What stands in front may change where it holds no quote. -/
theorem prepend (hfront : '\x27' ∉ front) (hfront' : '\x27' ∉ front')
    (hsolid : SegAsm.solid front' = SegAsm.solid front) (h : SameCode cs ds) :
    SameCode (front ++ cs) (front' ++ ds) := by
  have hquoted {ws : List Char} (hws : '\x27' ∉ ws) (cs : List Char) :
      quotedTexts (ws ++ cs) = quotedTexts cs := by
    unfold quotedTexts Quoted.ofChars
    rw [List.foldl_append, Quoted.foldl_push_of_outside rfl hws]
  constructor
  · rw [solid_append, solid_append, hsolid, h.solid]
  · rw [hquoted hfront', hquoted hfront, h.quoted]

theorem white_append {ws : List Char} (hws : ∀ c ∈ ws, isWhite c) (cs : List Char) :
    SameCode (ws ++ cs) cs :=
  prepend (quote_not_mem_of_white hws) List.not_mem_nil (solid_of_white hws).symm (refl cs)

theorem append_white {ws : List Char} (hws : ∀ c ∈ ws, isWhite c) (cs : List Char) :
    SameCode (cs ++ ws) cs := by
  constructor
  · rw [solid_append, solid_of_white hws, List.append_nil]
  · unfold quotedTexts Quoted.ofChars
    rw [List.foldl_append, Quoted.closed_foldl_push (quote_not_mem_of_white hws)]

end SameCode

theorem sameCode_trimWhite (cs : List Char) : SameCode cs (trimWhite cs) := by
  have hfront : ∀ c ∈ cs.takeWhile isWhite, isWhite c := fun c hc => List.mem_takeWhile_imp hc
  have hback (ds : List Char) : ∀ c ∈ ds.rtakeWhile isWhite, isWhite c :=
    fun c hc => List.mem_rtakeWhile_imp hc
  have hdrop := SameCode.white_append hfront (cs.dropWhile isWhite)
  rw [List.takeWhile_append_dropWhile] at hdrop
  have htrim := SameCode.append_white (hback (cs.dropWhile isWhite)) (trimWhite cs)
  rw [trimWhite_eq] at htrim ⊢
  rw [List.rdropWhile_append_rtakeWhile] at htrim
  exact hdrop.trans htrim

/-- Where a name is all that is to be read, it is all that is not white. -/
theorem solid_eq_of_texts {cs : List Char} {name : String} (h : texts cs = [name])
    (hkind : LexemeKind.ofWord name.toList = .identifier) : solid cs = name.toList := by
  have hchars := flatMap_texts cs
  rw [h, List.flatMap_singleton] at hchars
  have hname : ∀ c ∈ name.toList, (!isWhite c) = true := fun c hc => by
    rw [LexemeKind.not_white_of_wordChar (LexemeKind.isWordChar_of_identifier hkind hc)]
    rfl
  have hwhite (c : Char) : (!isWhite c && !isSeparator c) = !isWhite c := by
    cases hc : isWhite c
    · rw [Layout.isSeparator_of_not_white hc]
      rfl
    · rfl
  calc solid cs = (cs.filter (!isSeparator ·)).filter (!isWhite ·) := by
        rw [List.filter_filter, solid]
        simp only [hwhite]
    _ = name.toList := by rw [← hchars, List.filter_eq_self.mpr hname]

namespace Layout

theorem isWhite_of_isBlank {c : Char} (h : isBlank c) : isWhite c := by
  simp only [isBlank, Bool.or_eq_true, beq_iff_eq] at h
  obtain rfl | rfl := h <;> decide

/-- The output holds what the characters read so far hold, and its text constants are at the same
point. -/
structure Collapsed.Keeps (s : Collapsed) (cs : List Char) : Prop where
  sound : s.Sound
  solid : solid s.done.reverse = solid cs
  quoted : Quoted.ofChars s.done.reverse = Quoted.ofChars cs

theorem Collapsed.Keeps.push {s : Collapsed} {cs : List Char} (h : s.Keeps cs) (c : Char) :
    (s.push c).Keeps (cs ++ [c]) := by
  -- Outside of text constants a blank more or less makes no difference.
  have hblank {d : Char} (houtside : s.inText = false) (hd : isBlank d) :
      SegAsm.solid [d] = [] ∧ (Quoted.ofChars cs).push d = Quoted.ofChars cs := by
    have hopened : (Quoted.ofChars cs).opened = none := by
      rw [← Option.not_isSome_iff_eq_none, ← h.quoted, Quoted.isSome_opened_ofChars, h.sound.inText,
        houtside]
      exact Bool.false_ne_true
    refine ⟨solid_of_white (List.forall_mem_singleton.mpr (isWhite_of_isBlank hd)), ?_⟩
    apply Quoted.push_of_outside hopened
    rintro rfl
    exact absurd hd (by decide)
  by_cases hwait : turn s.inText c = false ∧ isBlank c
  · have houtside : s.inText = false := by rw [← hwait.1, turn_of_blank hwait.2]
    obtain ⟨hsolid, hquoted⟩ := hblank houtside hwait.2
    have hdone : (s.push c).done = s.done := by rw [push_of_blank hwait.1 hwait.2]
    refine ⟨h.sound.push c, ?_, ?_⟩
    · rw [hdone, solid_append, hsolid, List.append_nil, h.solid]
    · rw [hdone, Quoted.ofChars_concat, hquoted, h.quoted]
  · have hread : SegAsm.solid (if s.pending then ' ' :: s.done else s.done).reverse =
          SegAsm.solid cs ∧
        Quoted.ofChars (if s.pending then ' ' :: s.done else s.done).reverse = Quoted.ofChars cs := by
      split_ifs with hpending
      · obtain ⟨hsolid, hquoted⟩ := hblank (h.sound.outside hpending) (d := ' ') rfl
        rw [List.reverse_cons, solid_append, hsolid, List.append_nil, Quoted.ofChars_concat, h.quoted,
          hquoted]
        exact ⟨h.solid, rfl⟩
      · exact ⟨h.solid, h.quoted⟩
    have hdone : (s.push c).done = c :: (if s.pending then ' ' :: s.done else s.done) := by
      rw [push_of_kept (by simpa [or_iff_not_imp_left] using hwait)]
    refine ⟨h.sound.push c, ?_, ?_⟩
    · rw [hdone, List.reverse_cons, solid_append, solid_append, hread.1]
    · rw [hdone, List.reverse_cons, Quoted.ofChars_concat, Quoted.ofChars_concat, hread.2]

theorem Collapsed.keeps_foldl_push (cs : List Char) : (cs.foldl Collapsed.push {}).Keeps cs := by
  induction cs using List.reverseRecOn with
  | nil => exact ⟨Collapsed.sound_foldl_push [], rfl, rfl⟩
  | append_singleton cs c ih =>
    rw [List.foldl_concat]
    exact ih.push c

theorem sameCode_collapse (code : List Char) : SameCode code (collapse code) := by
  obtain ⟨-, hsolid, hquoted⟩ := Collapsed.keeps_foldl_push (trimWhite code)
  exact (sameCode_trimWhite code).trans ⟨hsolid, congrArg Quoted.closed hquoted⟩

theorem sameCode_layoutCode (column : Nat) {code : List Char} (hcomment : ';' ∉ code) :
    SameCode code (layoutCode column code) := by
  obtain ⟨first, second, third, ls, hlexemes, hkind, hcolon⟩ | hindented := label_or_indented code
  · obtain ⟨before, behind, rfl, hbefore, hname⟩ :=
      exists_label hlexemes (codePart_ofList hcomment) hkind hcolon
    have hscanned : first.Scanned :=
      Lexeme.scanned_of_mem_lexemes first (hlexemes ▸ List.mem_cons_self)
    have hword : LexemeKind.ofWord first.text.toList = .identifier :=
      hscanned.kind_eq.symm.trans hkind
    have hsolid := solid_eq_of_texts hname hword
    have hquote : '\x27' ∉ first.text.toList := fun hmem =>
      absurd (LexemeKind.isWordChar_of_identifier hword hmem) (by decide)
    have hquote' : '\x27' ∉ before := fun hmem =>
      hquote (hsolid ▸ List.mem_filter.mpr ⟨hmem, by decide⟩)
    have hblanks := white_blanks (max 1 (column - first.text.utf8ByteSize - 1))
    rw [layoutCode_of_label hlexemes hkind hcolon, behind_colon hbefore, List.append_cons]
    unfold headed
    apply SameCode.prepend _ _ _ (sameCode_trimWhite behind)
    · simp [hquote']
    · simp [hquote, quote_not_mem_of_white hblanks]
    · rw [List.append_cons, solid_append, solid_append, solid_append, solid_of_white hblanks,
        List.append_nil, ← hsolid, solid_solid]
  · obtain ⟨n, hn⟩ := hindented column
    rw [hn]
    exact (SameCode.white_append (white_blanks n) code).symm

theorem sameCode_laidOut (column : Nat) {code : List Char} (hcode : ';' ∉ code) :
    SameCode code (laidOut column code) := by
  have hcollapse := sameCode_collapse code
  rw [laidOut_eq column hcode]
  split_ifs with hempty
  · rwa [List.isEmpty_iff.mp hempty] at hcollapse
  · apply hcollapse.trans
    apply sameCode_layoutCode
    exact fun hmem => (mem_collapse hmem).elim (by decide) hcode

end Layout

/-- The lines hold the same: both end in a carriage return or neither does, and they have the same
comment and the same code. -/
structure SameContent (line line' : String) : Prop where
  ending : line'.toList.getLast? = some '\r' ↔ line.toList.getLast? = some '\r'
  comment : commentPart line' = commentPart line
  code : SameCode (codePart line) (codePart line')

namespace Layout

namespace Divides

variable {code comment ending : List Char} (h : Divides code comment ending)
include h

theorem getLast?_eq_return_iff :
    (code ++ comment ++ ending).getLast? = some '\r' ↔ ending = ['\r'] := by
  have hending := h.ending_eq
  split_ifs at hending with hlast
  · exact iff_of_true hlast hending.symm
  · refine iff_of_false hlast ?_
    rw [← hending]
    exact List.ne_cons_self

theorem sameCode_codePart :
    SameCode (codePart (String.ofList (code ++ comment ++ ending))) code := by
  have hending : ∀ c ∈ ending, isWhite c := by
    obtain rfl | ⟨rfl, -⟩ := h.ending_cases
    · exact List.forall_mem_singleton.mpr (by decide)
    · exact fun c hc => absurd hc List.not_mem_nil
  unfold codePart
  rw [String.toList_ofList, List.append_assoc, List.takeWhile_append_of_pos h.code_chars]
  apply SameCode.append_white
  intro c hc
  obtain rfl | ⟨cs, rfl⟩ := h.comment_cases
  · exact hending c ((List.takeWhile_prefix _).subset hc)
  · exact absurd hc List.not_mem_nil

theorem commentPart_eq : commentPart (String.ofList (code ++ comment ++ ending)) =
    if comment = [] then [] else comment ++ ending := by
  unfold commentPart
  rw [String.toList_ofList, List.append_assoc, List.dropWhile_append_of_pos h.code_chars]
  obtain rfl | ⟨cs, rfl⟩ := h.comment_cases
  · obtain rfl | ⟨rfl, -⟩ := h.ending_cases <;> rfl
  · simp

end Divides

theorem sameContent_layoutLine (column : Nat) (line : String) :
    SameContent line (layoutLine column line) := by
  obtain ⟨code, comment, ending, h, rfl⟩ := exists_divides line
  have h' := h.divides_laidOut column
  rw [h.layoutLine_eq]
  have hgap : ∀ c ∈ gapBetween (laidOut column code) comment, isWhite c := fun c hc => by
    rw [List.mem_singleton.mp (gapBetween_subset _ _ hc)]
    decide
  refine ⟨?_, ?_, ?_⟩
  · rw [String.toList_ofList, String.toList_ofList, h.getLast?_eq_return_iff,
      h'.getLast?_eq_return_iff]
  · rw [h.commentPart_eq, h'.commentPart_eq]
  · have hcode := h.sameCode_codePart.trans (sameCode_laidOut column h.code_clear)
    have hblank := (SameCode.append_white hgap (laidOut column code)).symm
    exact (hcode.trans hblank).trans h'.sameCode_codePart.symm

end Layout

/-- Laying out a source keeps what its lines hold. -/
theorem reformat_keeps_content (source : String) :
    List.Forall₂ SameContent (pieces source) (pieces (Layout.reformat source)) := by
  rw [Layout.pieces_reformat, List.forall₂_map_right_iff, List.forall₂_same]
  intro line _
  exact Layout.sameContent_layoutLine _ line

end SegAsm
