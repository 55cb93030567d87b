import SegAsm.Program
import SegAsm.Proofs.Reading

/-! `ASSUME` lines. A pair behind a comma is left out wherever it stands before a line is compared with
the form of one pair, so a line counts as `ASSUME` also when such pairs stand between its other parts. -/
namespace SegAsm

open Text

instance (l : Lexeme) (k : LexemeKind) (word : String) : Decidable (l.IsKeyword k word) :=
  inferInstanceAs (Decidable (_ ∧ _))

instance (l : Lexeme) (text : String) : Decidable (l.IsSymbol text) :=
  inferInstanceAs (Decidable (_ ∧ _))

/-- The pair `segment:name`. -/
structure IsPair (segment colon name : Lexeme) : Prop where
  isSegment : segment.kind = .segmentRegister
  isColon : colon.IsSymbol ":"
  isName : name.kind = .identifier

instance (segment colon name : Lexeme) : Decidable (IsPair segment colon name) :=
  decidable_of_iff
    (segment.kind = .segmentRegister ∧ colon.IsSymbol ":" ∧ name.kind = .identifier)
    ⟨fun ⟨hs, hc, hn⟩ => ⟨hs, hc, hn⟩, fun ⟨hs, hc, hn⟩ => ⟨hs, hc, hn⟩⟩

/-- One pair or more, with a single comma between each two. -/
def IsPairList : List Lexeme → Prop
  | [segment, colon, name] => IsPair segment colon name
  | segment :: colon :: name :: comma :: ls =>
    IsPair segment colon name ∧ comma.IsSymbol "," ∧ IsPairList ls
  | _ => False

instance decidableIsPairList : (ls : List Lexeme) → Decidable (IsPairList ls)
  | [] | [_] | [_, _] => isFalse id
  | [segment, colon, name] => inferInstanceAs (Decidable (IsPair segment colon name))
  | segment :: colon :: name :: comma :: ls =>
    have := decidableIsPairList ls
    inferInstanceAs (Decidable (IsPair segment colon name ∧ comma.IsSymbol "," ∧ IsPairList ls))

/-- Behind a label, if there is one, an `ASSUME` and a list of pairs. -/
def IsAssumeLine (ls : List Lexeme) : Prop :=
  match behindLabel ls with
  | directive :: pairs => directive.IsKeyword .directive "ASSUME" ∧ IsPairList pairs
  | [] => False

instance (ls : List Lexeme) : Decidable (IsAssumeLine ls) :=
  match h : behindLabel ls with
  | directive :: pairs =>
    decidable_of_iff (directive.IsKeyword .directive "ASSUME" ∧ IsPairList pairs)
      (by rw [IsAssumeLine, h])
  | [] => isFalse (by simp [IsAssumeLine, h])

/-- The second list is the first with pairs put in anywhere, each behind a comma. -/
inductive PairsAdded : List Lexeme → List Lexeme → Prop
  | nil : PairsAdded [] []
  | kept {l : Lexeme} {core ls : List Lexeme} (h : PairsAdded core ls) :
      PairsAdded (l :: core) (l :: ls)
  | pair {comma segment colon name : Lexeme} {core ls : List Lexeme} (hcomma : comma.IsSymbol ",")
      (hpair : IsPair segment colon name) (h : PairsAdded core ls) :
      PairsAdded core (comma :: segment :: colon :: name :: ls)

/-- Behind a label, if there is one, an `ASSUME` and one pair. -/
def IsOnePair (ls : List Lexeme) : Prop :=
  ∃ directive segment colon name, behindLabel ls = [directive, segment, colon, name] ∧
    directive.IsKeyword .directive "ASSUME" ∧ IsPair segment colon name

/-- A line of one pair with others put in behind its first lexeme. -/
def HasOnePair (ls : List Lexeme) : Prop :=
  ∃ first core rest, ls = first :: rest ∧ PairsAdded core rest ∧ IsOnePair (first :: core)

namespace Lexeme

variable {l : Lexeme} {w : String}

theorem StandsFor.eq_token (h : l.StandsFor w) (hr : l.kind ≠ .generalRegister)
    (hq : l.kind ≠ .quoted) : w = l.token := by
  cases h.2 with
  | token => rfl
  | text hk => exact absurd hk hq
  | operand hk | address hk => exact absurd hk hr

theorem IsSymbol.word_eq {text : String} (hl : l.IsSymbol text) (h : l.StandsFor w) : w = text := by
  have htoken := h.eq_token (by simp [hl.1]) (by simp [hl.1])
  rw [htoken]
  simp [token, hl.1, hl.2]

theorem IsKeyword.word_eq {word : String} (hl : l.IsKeyword .directive word) (h : l.StandsFor w) :
    w = word := by
  have htoken := h.eq_token (by simp [hl.1]) (by simp [hl.1])
  rw [htoken]
  simp [token, hl.1, hl.2]

theorem StandsFor.eq_segment (h : l.StandsFor w) (hl : l.kind = .segmentRegister) : w = "rS" := by
  have htoken := h.eq_token (by simp [hl]) (by simp [hl])
  rw [htoken]
  simp [token, hl]

theorem StandsFor.eq_identifier (h : l.StandsFor w) (hl : l.kind = .identifier) : w = "ID" := by
  have htoken := h.eq_token (by simp [hl]) (by simp [hl])
  rw [htoken]
  simp [token, hl]

end Lexeme

theorem dropPairs_pair (ws : List String) :
    dropPairs ("," :: "rS" :: ":" :: "ID" :: ws) = dropPairs ws := by
  have hpair : [",", "rS", ":", "ID"] <+: "," :: "rS" :: ":" :: "ID" :: ws :=
    List.prefix_append [",", "rS", ":", "ID"] ws
  rw [dropPairs, if_pos hpair]
  rfl

theorem dropPairs_kept {w : String} (hw : w ≠ ",") (ws : List String) :
    dropPairs (w :: ws) = w :: dropPairs ws := by
  have hcomma : ¬ [",", "rS", ":", "ID"] <+: w :: ws := fun h =>
    hw (List.cons_prefix_cons.mp h).1.symm
  rw [dropPairs, if_neg hcomma]

/-- The words that are left are those of the lexemes to which the pairs were added. -/
theorem exists_pairsAdded {ls : List Lexeme} {ws : List String}
    (h : List.Forall₂ Lexeme.StandsFor ls ws) :
    ∃ core, PairsAdded core ls ∧ List.Forall₂ Lexeme.StandsFor core (dropPairs ws) := by
  fun_induction dropPairs ws generalizing ls with
  | case1 =>
    obtain _ | _ := h
    exact ⟨[], .nil, .nil⟩
  | case2 w ws hpre ih =>
    obtain ⟨rest, hrest⟩ := hpre
    obtain ⟨rfl, rfl⟩ := List.cons.inj hrest
    obtain _ | ⟨hcomma, _ | ⟨hsegment, _ | ⟨hcolon, _ | ⟨hname, h⟩⟩⟩⟩ := h
    obtain ⟨core, hadded, hcore⟩ := ih h
    have hpair : IsPair _ _ _ := ⟨hsegment.segment, hcolon.symbol (by decide), hname.identifier⟩
    exact ⟨core, .pair (hcomma.symbol (by decide)) hpair hadded, hcore⟩
  | case3 w ws hpre ih =>
    obtain _ | ⟨hl, h⟩ := h
    obtain ⟨core, hadded, hcore⟩ := ih h
    exact ⟨_, .kept hadded, .cons hl hcore⟩

/-- Pairs that were added are left out, as long as there is no comma besides theirs. -/
theorem PairsAdded.dropPairs {core ls : List Lexeme} (hadded : PairsAdded core ls)
    (hcore : ∀ l ∈ core, l.text ≠ ",") {ws : List String}
    (h : List.Forall₂ Lexeme.StandsFor ls ws) :
    List.Forall₂ Lexeme.StandsFor core (dropPairs ws) := by
  induction hadded generalizing ws with
  | nil =>
    obtain _ | _ := h
    rw [SegAsm.dropPairs]
    exact .nil
  | @kept l core ls _ ih =>
    obtain _ | @⟨_, w, _, _, hl, h⟩ := h
    have hw : w ≠ "," := by
      rintro rfl
      exact hcore l (by simp) (hl.symbol (by decide)).2
    rw [dropPairs_kept hw]
    exact .cons hl (ih (fun p hp => hcore p (by simp [hp])) h)
  | pair hcomma hpair _ ih =>
    obtain _ | ⟨hc, _ | ⟨hs, _ | ⟨hp, _ | ⟨hn, h⟩⟩⟩⟩ := h
    rw [hcomma.word_eq hc, hs.eq_segment hpair.isSegment, hpair.isColon.word_eq hp,
      hn.eq_identifier hpair.isName, dropPairs_pair]
    exact ih hcore h

theorem behindLabel_of_not {name colon : Lexeme} (h : ¬(name.kind = .identifier ∧ colon.text = ":"))
    (ls : List Lexeme) : behindLabel (name :: colon :: ls) = name :: colon :: ls := by
  cases ls with
  | nil => rfl
  | cons l ls => rw [behindLabel, if_neg h]

theorem behindLabel_of_directive {l : Lexeme} (hl : l.kind = .directive) (ls : List Lexeme) :
    behindLabel (l :: ls) = l :: ls := by
  cases ls with
  | nil => rfl
  | cons colon ls => exact behindLabel_of_not (fun h => by simp [hl] at h) ls

theorem behindLabel_of_label {label colon : Lexeme} (hlabel : label.kind = .identifier)
    (hcolon : colon.text = ":") {ls : List Lexeme} (hls : ls ≠ []) :
    behindLabel (label :: colon :: ls) = ls := by
  cases ls with
  | nil => exact absurd rfl hls
  | cons l ls => rw [behindLabel, if_pos ⟨hlabel, hcolon⟩]

/-- The two ways to write a line of one pair. -/
theorem isOnePair_cases {ls : List Lexeme} (h : IsOnePair ls) :
    ∃ directive segment colon name, directive.IsKeyword .directive "ASSUME" ∧
      IsPair segment colon name ∧
      (ls = [directive, segment, colon, name] ∨ ∃ label colon', label.kind = .identifier ∧
        colon'.text = ":" ∧ ls = [label, colon', directive, segment, colon, name]) := by
  obtain ⟨directive, segment, colon, name, hone, hd, hpair⟩ := h
  refine ⟨directive, segment, colon, name, hd, hpair, ?_⟩
  rcases behindLabel_cases ls with hls | ⟨label, colon', hlabel, hcolon, hls⟩
  · exact .inl (hls.symm.trans hone)
  · rw [hone] at hls
    exact .inr ⟨label, colon', hlabel, hcolon, hls⟩

theorem words_eq_of_pair {directive segment colon name : Lexeme} {ws : List String}
    (hd : directive.IsKeyword .directive "ASSUME") (hpair : IsPair segment colon name)
    (h : List.Forall₂ Lexeme.StandsFor [directive, segment, colon, name] ws) :
    ws = Form.assume.words := by
  obtain _ | ⟨hw, _ | ⟨hs, _ | ⟨hc, _ | ⟨hn, _ | _⟩⟩⟩⟩ := h
  rw [hd.word_eq hw, hs.eq_segment hpair.isSegment, hpair.isColon.word_eq hc, hn.eq_identifier hpair.isName]
  rfl

theorem exists_pair_of_words {ls : List Lexeme}
    (h : List.Forall₂ Lexeme.StandsFor ls Form.assume.words) :
    ∃ directive segment colon name, ls = [directive, segment, colon, name] ∧
      directive.IsKeyword .directive "ASSUME" ∧ IsPair segment colon name := by
  obtain _ | ⟨hw, _ | ⟨hs, _ | ⟨hc, _ | ⟨hn, _ | _⟩⟩⟩⟩ := h
  exact ⟨_, _, _, _, rfl, hw.keyword (by decide), hs.segment, hc.symbol (by decide), hn.identifier⟩

/-- The words of a line of one pair, with or without a label. -/
theorem isOnePair_iff_words {ls : List Lexeme} {ws : List String}
    (h : List.Forall₂ Lexeme.StandsFor ls ws) :
    IsOnePair ls ↔ ws = Form.assume.words ∨ ws = "ID" :: ":" :: Form.assume.words := by
  constructor
  · intro hone
    obtain ⟨directive, segment, colon, name, hd, hpair, hls⟩ := isOnePair_cases hone
    rcases hls with rfl | ⟨label, colon', hlabel, hcolon, rfl⟩
    · exact .inl (words_eq_of_pair hd hpair h)
    · obtain _ | ⟨hl, _ | ⟨hc, hrest⟩⟩ := h
      have hsymbol : colon'.IsSymbol ":" := by
        refine ⟨?_, hcolon⟩
        rw [hc.1.kind_eq, hcolon]
        decide
      right
      rw [hl.eq_identifier hlabel, hsymbol.word_eq hc, words_eq_of_pair hd hpair hrest]
  · rintro (rfl | rfl)
    · obtain ⟨directive, segment, colon, name, rfl, hd, hpair⟩ := exists_pair_of_words h
      exact ⟨directive, segment, colon, name, behindLabel_of_directive hd.1 _, hd, hpair⟩
    · obtain _ | ⟨hl, _ | ⟨hc, hrest⟩⟩ := h
      obtain ⟨directive, segment, colon, name, rfl, hd, hpair⟩ := exists_pair_of_words hrest
      have hbehind := behindLabel_of_label hl.identifier (hc.symbol (by decide)).2
        (List.cons_ne_nil directive [segment, colon, name])
      exact ⟨directive, segment, colon, name, hbehind, hd, hpair⟩

theorem IsOnePair.mem {ls : List Lexeme} (h : IsOnePair ls) :
    ∀ l ∈ ls, l.kind ∈ [.directive, .segmentRegister, .identifier] ∨ l.text = ":" := by
  obtain ⟨directive, segment, colon, name, hd, hpair, rfl | ⟨label, colon', hlabel, hcolon, rfl⟩⟩ :=
    isOnePair_cases h
  · simp [hd.1, hpair.isSegment, hpair.isColon.2, hpair.isName]
  · simp [hlabel, hcolon, hd.1, hpair.isSegment, hpair.isColon.2, hpair.isName]

theorem IsOnePair.valid {ls : List Lexeme} (h : IsOnePair ls) (hs : ∀ l ∈ ls, l.Scanned) :
    ∀ l ∈ ls, l.kind ≠ .invalid ∧ l.text ≠ "," := by
  intro l hl
  have hkind := (hs l hl).kind_eq
  rcases h.mem l hl with hmem | hcolon
  · constructor
    · intro hinvalid
      rw [hinvalid] at hmem
      exact absurd hmem (by decide)
    · intro hcomma
      rw [hkind, hcomma] at hmem
      exact absurd hmem (by decide)
  · rw [hkind, hcolon]
    decide

theorem PairsAdded.sublist {core ls : List Lexeme} (h : PairsAdded core ls) :
    List.Sublist core ls := by
  induction h with
  | nil => exact .slnil
  | kept _ ih => exact ih.cons_cons _
  | pair _ _ _ ih => exact (((ih.cons _).cons _).cons _).cons _

theorem PairsAdded.kind_ne_invalid {core ls : List Lexeme} (h : PairsAdded core ls)
    (hcore : ∀ l ∈ core, l.kind ≠ .invalid) : ∀ l ∈ ls, l.kind ≠ .invalid := by
  induction h with
  | nil => exact hcore
  | kept _ ih =>
    rw [List.forall_mem_cons] at hcore ⊢
    exact ⟨hcore.1, ih hcore.2⟩
  | pair hcomma hpair _ ih =>
    simp only [List.forall_mem_cons]
    refine ⟨?_, ?_, ?_, ?_, ih hcore⟩
    · simp [hcomma.1]
    · simp [hpair.isSegment]
    · simp [hpair.isColon.1]
    · simp [hpair.isName]

theorem mergePairs_cons_eq_iff {w : String} {ws vs : List String} (h : "ASSUME" ∈ vs) :
    mergePairs (w :: ws) = vs ↔ w :: dropPairs ws = vs := by
  rw [mergePairs]
  split_ifs with hmem
  · exact Iff.rfl
  · refine iff_of_false ?_ ?_
    · rintro rfl
      exact hmem h
    · rintro rfl
      exact hmem (((dropPairs_sublist ws).cons_cons w).subset h)

/-- What is left of a line without invalid lexemes is a line of one pair, with or without a label. -/
theorem form?_assume_iff_of_cons {first : Lexeme} {rest : List Lexeme}
    (hvalid : ∀ l ∈ first :: rest, l.Valid) :
    (classify (first :: rest)).form? = some .assume ↔
      ∃ core, PairsAdded core rest ∧ IsOnePair (first :: core) := by
  have hstand : List.Forall₂ Lexeme.StandsFor (first :: rest) (shownAs (first :: rest)) :=
    (List.forall₂_and_left _ _).mpr ⟨hvalid, (forall₂_shown hvalid).2⟩
  rw [form?_eq_some_iff hvalid, unlabelled_eq_words_iff]
  generalize shownAs (first :: rest) = ws at hstand
  obtain _ | @⟨_, w, _, ws, hfirst, hrest⟩ := hstand
  rw [mergePairs_cons_eq_iff (by decide), mergePairs_cons_eq_iff (by decide),
    and_iff_right (by decide)]
  constructor
  · intro hwords
    obtain ⟨core, hadded, hcore⟩ := exists_pairsAdded hrest
    exact ⟨core, hadded, (isOnePair_iff_words (.cons hfirst hcore)).mpr hwords⟩
  · rintro ⟨core, hadded, hone⟩
    have hscanned : ∀ l ∈ first :: core, l.Scanned := fun l hl =>
      (hvalid l ((hadded.sublist.cons_cons first).subset hl)).toScanned
    have hcomma : ∀ l ∈ core, l.text ≠ "," := fun l hl => (hone.valid hscanned l (by simp [hl])).2
    exact (isOnePair_iff_words (.cons hfirst (hadded.dropPairs hcomma hrest))).mp hone

theorem form?_assume_iff {ls : List Lexeme} (hs : ∀ l ∈ ls, l.Scanned) :
    (classify ls).form? = some .assume ↔ HasOnePair ls := by
  constructor
  · intro h
    have hvalid := valid_of_form? hs h
    cases ls with
    | nil => exact absurd h (by decide)
    | cons first rest =>
      obtain ⟨core, hadded, hone⟩ := (form?_assume_iff_of_cons hvalid).mp h
      exact ⟨first, core, rest, rfl, hadded, hone⟩
  · rintro ⟨first, core, rest, rfl, hadded, hone⟩
    have hcore : ∀ l ∈ first :: core, l.kind ≠ .invalid := fun l hl =>
      (hone.valid (fun p hp => hs p ((hadded.sublist.cons_cons first).subset hp)) l hl).1
    have hkinds := hadded.kept.kind_ne_invalid hcore
    exact (form?_assume_iff_of_cons fun l hl => ⟨hs l hl, hkinds l hl⟩).mpr ⟨core, hadded, hone⟩

theorem isPairList_of_pairsAdded {segment colon name : Lexeme} (hpair : IsPair segment colon name)
    {ls : List Lexeme} (h : PairsAdded [] ls) : IsPairList (segment :: colon :: name :: ls) := by
  generalize hcore : [] = core at h
  induction h generalizing segment colon name with
  | nil => exact hpair
  | kept => exact absurd hcore (by simp)
  | pair hcomma hnext _ ih => exact ⟨hpair, hcomma, ih hnext hcore⟩

theorem exists_of_isPairList {ls : List Lexeme} (h : IsPairList ls) :
    ∃ segment colon name added, ls = segment :: colon :: name :: added ∧
      IsPair segment colon name ∧ PairsAdded [] added := by
  fun_induction IsPairList ls with
  | case1 segment colon name => exact ⟨segment, colon, name, [], rfl, h, .nil⟩
  | case2 segment colon name comma ls ih =>
    obtain ⟨hpair, hcomma, hrest⟩ := h
    obtain ⟨segment', colon', name', added, rfl, hnext, hadded⟩ := ih hrest
    exact ⟨segment, colon, name, _, rfl, hpair, .pair hcomma hnext hadded⟩
  | case3 => exact h.elim

/-- Pairs can only be added at the end of lexemes that go on without a comma. -/
theorem PairsAdded.exists_append {core ls : List Lexeme} (h : PairsAdded core ls)
    (hcomma : ∀ l ∈ ls.take core.length, l.text ≠ ",") :
    ∃ added, ls = core ++ added ∧ PairsAdded [] added := by
  induction h with
  | nil => exact ⟨[], rfl, .nil⟩
  | @kept l core ls _ ih =>
    rw [List.length_cons, List.take_succ_cons, List.forall_mem_cons] at hcomma
    obtain ⟨added, rfl, hadded⟩ := ih hcomma.2
    exact ⟨added, rfl, hadded⟩
  | @pair comma segment colon name core ls hc hpair h _ =>
    cases core with
    | nil => exact ⟨_, rfl, .pair hc hpair h⟩
    | cons l core => exact absurd hc.2 (hcomma comma (by simp))

theorem hasOnePair_of_isAssumeLine {ls : List Lexeme} (hs : ∀ l ∈ ls, l.Scanned)
    (h : IsAssumeLine ls) :
    HasOnePair ls ∧ ∀ l ∈ (behindLabel ls).take 4, l.text ≠ "," := by
  unfold IsAssumeLine at h
  split at h
  next directive pairs hbehind =>
    obtain ⟨hd, hpairs⟩ := h
    obtain ⟨segment, colon, name, added, rfl, hpair, hadded⟩ := exists_of_isPairList hpairs
    have hone : IsOnePair [directive, segment, colon, name] :=
      ⟨directive, segment, colon, name, behindLabel_of_directive hd.1 _, hd, hpair⟩
    have hadded' : PairsAdded [segment, colon, name] (segment :: colon :: name :: added) :=
      hadded.kept.kept.kept
    constructor
    · rcases behindLabel_cases ls with hls | ⟨label, colon', hlabel, hcolon, hls⟩
      · rw [hbehind] at hls
        exact ⟨directive, _, _, hls.symm, hadded', hone⟩
      · rw [hbehind] at hls
        refine ⟨label, _, _, hls, hadded'.kept.kept, directive, segment, colon, name, ?_, hd, hpair⟩
        exact behindLabel_of_label hlabel hcolon (by simp)
    · rw [hbehind]
      refine fun l hl => (hone.valid (fun p hp => hs p ?_) l hl).2
      refine (behindLabel_suffix ls).subset ?_
      rw [hbehind]
      exact List.mem_of_mem_take (i := 4) hp
  next => exact h.elim

theorem isAssumeLine_of_hasOnePair {ls : List Lexeme} (h : HasOnePair ls)
    (hcomma : ∀ l ∈ (behindLabel ls).take 4, l.text ≠ ",") : IsAssumeLine ls := by
  obtain ⟨first, core, rest, rfl, hadded, hone⟩ := h
  obtain ⟨directive, segment, colon, name, hd, hpair, hwritten⟩ := isOnePair_cases hone
  have hlist : ∀ added, PairsAdded [] added → IsPairList ([segment, colon, name] ++ added) :=
    fun added => isPairList_of_pairsAdded hpair
  rcases hwritten with heq | ⟨label, colon', hlabel, hcolon, heq⟩
  · obtain ⟨rfl, rfl⟩ := List.cons.inj heq
    have hbehind := behindLabel_of_directive hd.1 rest
    rw [hbehind, List.take_succ_cons, List.forall_mem_cons] at hcomma
    obtain ⟨added, rfl, hrest⟩ := hadded.exists_append hcomma.2
    unfold IsAssumeLine
    rw [hbehind]
    exact ⟨hd, hlist added hrest⟩
  · obtain ⟨rfl, rfl⟩ := List.cons.inj heq
    cases hadded with
    | @kept _ _ rest hadded =>
      have hne : rest ≠ [] := by
        rintro rfl
        exact absurd hadded.sublist (by simp)
      have hbehind := behindLabel_of_label hlabel hcolon hne
      rw [hbehind] at hcomma
      obtain ⟨added, rfl, hrest⟩ := hadded.exists_append hcomma
      unfold IsAssumeLine
      rw [hbehind]
      exact ⟨hd, hlist added hrest⟩
    | @pair comma _ _ _ _ _ hc =>
      -- A comma right behind the first lexeme: what is left has a label, the line has none.
      have hnot : ¬(first.kind = .identifier ∧ comma.text = ":") := by simp [hc.2]
      rw [behindLabel_of_not hnot] at hcomma
      exact absurd hc.2 (hcomma comma (by simp))

/-- A line counts as `ASSUME` exactly if it is a line of one pair with others, each behind a comma, put
in anywhere behind its first lexeme. It has a list of pairs as well exactly if none of the first four
lexemes behind its label is a comma. -/
theorem lineKind_assume_iff (line : String) :
    (lineKind line = .assume ↔ HasOnePair (lexemes line)) ∧
    (IsAssumeLine (lexemes line) ↔ lineKind line = .assume ∧
      ∀ l ∈ (behindLabel (lexemes line)).take 4, l.text ≠ ",") := by
  have hs : ∀ l ∈ lexemes line, l.Scanned := Lexeme.scanned_of_mem_lexemes
  have hkind : lineKind line = .assume ↔ HasOnePair (lexemes line) := by
    rw [← form?_assume_iff hs, lineKind, Classified.kind]
    cases (classify (lexemes line)).form? with
    | none => decide
    | some f => cases f <;> decide
  refine ⟨hkind, ?_⟩
  rw [hkind]
  exact ⟨hasOnePair_of_isAssumeLine hs, fun h => isAssumeLine_of_hasOnePair h.1 h.2⟩

/-- A comma in front of the first pair does not make the line invalid, and the first pair is lost. -/
theorem assume_behind_comma :
    lineKind "assume , es:a ds:b" = .assume ∧ ¬ IsAssumeLine (lexemes "assume , es:a ds:b") ∧
      (assemble "assume , es:a ds:b").lines.map LineRecord.assume =
        [some { ds := "B" }] := by
  decide +kernel

end SegAsm
