import SegAsm.Proofs.Alike
import SegAsm.Proofs.ErrorLines

/-! Assembling lines that say the same. Two runs over such lines stay in step: their tables agree
entry by entry, and every line gets the same kind, place, code and correctness in both passes. -/
namespace SegAsm

variable {R : String → String → Prop}

structure Segment.Alike (R : String → String → Prop) (s s' : Segment) : Prop where
  name : R s.name s'.name
  size : s.size = s'.size

structure Symbol.Alike (R : String → String → Prop) (s s' : Symbol) : Prop where
  name : R s.name s'.name
  segment : R s.segment s'.segment
  offset : s.offset = s'.offset
  type : s.type = s'.type
  line : s.line = s'.line

/-- What an encoding depends on is alike; the lines may differ. -/
structure Context.Alike (R : String → String → Prop) (cx cx' : Context) : Prop where
  symbols : List.Forall₂ (Symbol.Alike R) cx.symbols cx'.symbols
  assumes : cx.assumes = cx'.assumes

/-- The same code, and reports of the same severity. -/
structure Emission.Alike (e e' : Emission) : Prop where
  code : e.code = e'.code
  faults : e.diagnostics.map Diagnostic.isError = e'.diagnostics.map Diagnostic.isError

/-- Both computations end with results that are alike, or both stop with a report of the same
severity. -/
inductive ResultAlike {α β : Type} (P : α → β → Prop) :
    Except Diagnostic α → Except Diagnostic β → Prop
  | ok {a : α} {b : β} (h : P a b) : ResultAlike P (.ok a) (.ok b)
  | error {d d' : Diagnostic} (h : d.isError = d'.isError) : ResultAlike P (.error d) (.error d')

structure State.Alike (R : String → String → Prop) (s s' : State) : Prop where
  segments : List.Forall₂ (Segment.Alike R) s.segments s'.segments
  symbols : List.Forall₂ (Symbol.Alike R) s.symbols s'.symbols
  assumes : s.assumes = s'.assumes
  openSegment : R s.openSegment s'.openSegment
  outside_iff : s.openSegment = noSegment ↔ s'.openSegment = noSegment
  offset : s.offset = s'.offset
  resolving : s.resolving = s'.resolving

/-- The same outcome of two lines that do the same. -/
structure LineRecord.Alike (R : String → String → Prop) (r r' : LineRecord) : Prop where
  text : (classify (lexemes r.text)).Alike R (classify (lexemes r'.text))
  number : r.number = r'.number
  kind : r.kind = r'.kind
  address : r.address = r'.address
  segment : R r.segment r'.segment
  code : r.code = r'.code
  correct : r.correct = r'.correct
  assume : r.assume = r'.assume

theorem rel_cases {α β : Type} {P : α → β → Prop} {o : Option α} {o' : Option β}
    (h : Option.Rel P o o') :
    (o = none ∧ o' = none) ∨ ∃ a b, o = some a ∧ o' = some b ∧ P a b := by
  cases h with
  | none => exact .inl ⟨rfl, rfl⟩
  | some h => exact .inr ⟨_, _, rfl, rfl, h⟩

theorem find?_alike {α β : Type} {P : α → β → Prop} {p : α → Bool} {q : β → Bool} {xs : List α}
    {ys : List β} (h : List.Forall₂ P xs ys) (hpq : ∀ a b, P a b → p a = q b) :
    Option.Rel P (xs.find? p) (ys.find? q) := by
  induction h with
  | nil => exact .none
  | @cons a b xs ys hab _ ih =>
    rw [List.find?_cons, List.find?_cons, ← hpq a b hab]
    cases p a with
    | true => exact .some hab
    | false => exact ih

namespace ResultAlike

variable {α β γ δ : Type} {P : α → β → Prop} {Q : γ → δ → Prop}

theorem bind {x : Except Diagnostic α} {y : Except Diagnostic β} {k : α → Except Diagnostic γ}
    {k' : β → Except Diagnostic δ} (h : ResultAlike P x y)
    (hk : ∀ a b, P a b → ResultAlike Q (k a) (k' b)) : ResultAlike Q (x >>= k) (y >>= k') := by
  cases h with
  | ok h => exact hk _ _ h
  | error h => exact .error h

/-- A check that both computations make. -/
theorem guard {p p' : Prop} [Decidable p] [Decidable p'] {d d' : Diagnostic}
    {k : Unit → Except Diagnostic γ} {k' : Unit → Except Diagnostic δ} (hp : p ↔ p')
    (hd : d.isError = d'.isError) (hk : ResultAlike Q (k ()) (k' ())) :
    ResultAlike Q (if p then throw d >>= k else k ()) (if p' then throw d' >>= k' else k' ()) := by
  by_cases h : p
  · rw [if_pos h, if_pos (hp.mp h)]
    exact .error hd
  · rw [if_neg h, if_neg (mt hp.mpr h)]
    exact hk

theorem ofExcept {x y : Except Diagnostic Emission} (h : ResultAlike Emission.Alike x y) :
    (Emission.ofExcept x).Alike (Emission.ofExcept y) := by
  cases h with
  | ok h => exact h
  | error h => exact ⟨rfl, congrArg (· :: []) h⟩

end ResultAlike

theorem isEmpty_filter_isError (ds : List Diagnostic) :
    (ds.filter Diagnostic.isError).isEmpty = (ds.map Diagnostic.isError).all (!·) := by
  induction ds with
  | nil => rfl
  | cons d ds ih => cases hd : d.isError <;> simp [hd, ih]

namespace Emission

theorem alike_reject {d d' : Diagnostic} (h : d.isError = d'.isError) :
    (reject d).Alike (reject d') :=
  ⟨rfl, congrArg (· :: []) h⟩

theorem alike_ofCode {code code' : Code} (h : code = code') : (ofCode code).Alike (ofCode code') :=
  ⟨h, rfl⟩

end Emission

section

variable (hR : Likeness R)
include hR

theorem SymbolTable.get?_alike {t t' : SymbolTable} (h : List.Forall₂ (Symbol.Alike R) t t')
    {name name' : String} (hname : R name name') :
    Option.Rel (Symbol.Alike R) (t.get? name) (t'.get? name') := by
  refine find?_alike h fun s s' hs => ?_
  rw [(hR.letters hs.name).nameKey_eq, (hR.letters hname).nameKey_eq]

namespace SegmentTable

variable {t t' : SegmentTable} (h : List.Forall₂ (Segment.Alike R) t t') {name name' : String}
  (hname : R name name')
include h hname

theorem get?_alike : Option.Rel (Segment.Alike R) (t.get? name) (t'.get? name') := by
  refine find?_alike h fun s s' hs => ?_
  rw [(hR.letters hs.name).nameKey_eq, (hR.letters hname).nameKey_eq]

theorem add_alike : List.Forall₂ (Segment.Alike R) (t.add name) (t'.add name') := by
  unfold add
  obtain ⟨hn, hn'⟩ | ⟨s, s', hs, hs', -⟩ := rel_cases (get?_alike hR h hname)
  · rw [hn, hn']
    exact List.rel_append h (.cons ⟨hname, rfl⟩ .nil)
  · rw [hs, hs']
    exact h

theorem setSize_alike (size : Nat) :
    List.Forall₂ (Segment.Alike R) (t.setSize name size) (t'.setSize name' size) := by
  unfold setSize
  refine List.rel_map (fun s s' hs => ?_) h
  rw [(hR.letters hs.name).nameKey_eq, (hR.letters hname).nameKey_eq]
  split_ifs
  · exact ⟨hs.name, rfl⟩
  · exact hs

end SegmentTable

theorem AssumeTable.holding?_eq (t : AssumeTable) {name name' : String} (h : R name name') :
    t.holding? name = t.holding? name' := by
  unfold holding? Text.sameFold
  rw [(hR.letters h).fold_eq]

theorem AssumeTable.assumeFrom_eq {ls ls' : List Lexeme}
    (h : List.Forall₂ (Lexeme.Alike R) ls ls') (t : AssumeTable) (r : SegmentRegister)
    (name : String) : t.assumeFrom r name ls = t.assumeFrom r name ls' := by
  induction h generalizing t r name with
  | nil => rfl
  | @cons l l' ls ls' hl _ ih =>
    have hletters := hR.letters hl.text
    have hcomma := hletters.eq_iff_of_no_letter (u := ",") (by decide)
    unfold assumeFrom
    simp only [hl.kind, hletters.segmentRegister_eq, hletters.upperString_eq, hcomma, ih]

namespace Context

variable {cx cx' : Context} (h : cx.Alike R cx') {m m' : MemoryOperand} (hm : m.Alike R m')
include h

section Operand

include hm

theorem resolve_alike : ResultAlike (Symbol.Alike R) (cx.resolve m) (cx'.resolve m') := by
  unfold resolve
  obtain ⟨hn, hn'⟩ | ⟨s, s', hs, hs', halike⟩ :=
    rel_cases (SymbolTable.get?_alike hR h.symbols hm.name.text)
  · rw [hn, hn']
    exact .error rfl
  · rw [hs, hs']
    exact .ok halike

variable {s s' : Symbol} (hs : s.Alike R s')
include hs

theorem overrideOf_alike : ResultAlike Eq (cx.overrideOf s m) (cx'.overrideOf s' m') := by
  unfold overrideOf
  rw [← hm.override, h.assumes, AssumeTable.holding?_eq hR _ hs.segment]
  split
  · exact .ok rfl
  · split
    · exact .error rfl
    · exact .ok rfl
    · exact .ok rfl

theorem leadingFields_alike : ResultAlike Eq (cx.leadingFields s m) (cx'.leadingFields s' m') := by
  unfold leadingFields
  refine (overrideOf_alike hR h hm hs).bind ?_
  rintro override _ rfl
  rw [hs.type, hm.base]
  exact .ok rfl

omit hR h in
theorem memoryFields_eq (registerField : Nat) :
    memoryFields registerField s m = memoryFields registerField s' m' := by
  unfold memoryFields
  rw [hm.base, hs.offset]

end Operand

include hm in
theorem inc_alike (mnemonic mnemonic' : Lexeme) :
    ResultAlike Emission.Alike (cx.inc mnemonic m) (cx'.inc mnemonic' m') := by
  unfold inc
  refine (resolve_alike hR h hm).bind fun s s' hs => ?_
  refine (leadingFields_alike hR h hm hs).bind ?_
  rintro leading _ rfl
  rw [hs.type, memoryFields_eq hm hs]
  refine .ok ⟨rfl, ?_⟩
  dsimp only
  split_ifs <;> rfl

include hm in
theorem add_alike {immediate immediate' : Lexeme} (hi : immediate.Alike R immediate') :
    ResultAlike Emission.Alike (cx.add m immediate) (cx'.add m' immediate') := by
  unfold add
  refine (resolve_alike hR h hm).bind fun s s' hs => ?_
  refine (leadingFields_alike hR h hm hs).bind ?_
  rintro leading _ rfl
  rw [hi.kind, hi.constant_eq hR, hs.type, memoryFields_eq hm hs]
  refine .guard Iff.rfl rfl (.ok ⟨rfl, ?_⟩)
  dsimp only
  split_ifs <;> rfl

include hm in
theorem memoryRegister_alike (byteOpcode opcode : UInt8) {register register' : Lexeme}
    (hr : register.Alike R register') :
    ResultAlike Emission.Alike (cx.memoryRegister byteOpcode opcode m register)
      (cx'.memoryRegister byteOpcode opcode m' register') := by
  unfold memoryRegister
  rw [hr.register_eq hR]
  refine (resolve_alike hR h hm).bind fun s s' hs => ?_
  rw [hs.type]
  refine .guard Iff.rfl rfl ?_
  refine (leadingFields_alike hR h hm hs).bind ?_
  rintro leading _ rfl
  rw [memoryFields_eq hm hs]
  exact .ok ⟨rfl, rfl⟩

omit h in
theorem mov_alike (r : Register) {immediate immediate' : Lexeme}
    (hi : immediate.Alike R immediate') :
    ResultAlike Emission.Alike (cx.mov r immediate) (cx'.mov r immediate') := by
  unfold mov
  rw [hi.kind, hi.constant_eq hR]
  refine .guard Iff.rfl rfl ?_
  obtain ⟨v, size?⟩ := immediate'.constant
  refine .guard Iff.rfl rfl ?_
  exact .ok ⟨rfl, rfl⟩

omit h in
theorem or_alike {first first' second second' : Lexeme} (hfirst : first.Alike R first')
    (hsecond : second.Alike R second') :
    ResultAlike Emission.Alike (cx.or first second) (cx'.or first' second') := by
  unfold or
  rw [hfirst.register_eq hR, hsecond.register_eq hR]
  refine .guard Iff.rfl rfl ?_
  exact .ok ⟨rfl, rfl⟩

theorem jump_alike (resolving : Bool) (address : Nat) (j : Jump) {target target' : Lexeme}
    (ht : target.Alike R target') :
    (cx.jump resolving address j target).Alike (cx'.jump resolving address j target') := by
  unfold jump
  obtain ⟨hn, hn'⟩ | ⟨s, s', hs, hs', halike⟩ :=
    rel_cases (SymbolTable.get?_alike hR h.symbols ht.text)
  · rw [hn, hn']
    cases resolving with
    | true => exact Emission.alike_reject rfl
    | false => exact Emission.alike_ofCode rfl
  · rw [hs, hs']
    exact Emission.alike_ofCode (congrArg (j.code address) halike.offset)

omit h in
theorem datum_alike (type : SymbolType) {value value' : Lexeme} (hv : value.Alike R value') :
    (cx.datum type value).Alike (cx'.datum type value') := by
  unfold datum
  rw [← hv.kind, ← hv.constant_eq hR]
  split_ifs with hquoted
  · rw [hv.quoted hquoted]
    exact Emission.alike_ofCode rfl
  · split
    · exact Emission.alike_reject rfl
    · split_ifs
      · exact Emission.alike_reject rfl
      · exact Emission.alike_ofCode rfl

end Context

namespace State

variable {s s' : State} (h : s.Alike R s')

omit hR in
theorem Alike.context {s s' : State} (h : s.Alike R s') (line : Nat) :
    (s.context line).Alike R (s'.context line) :=
  ⟨h.symbols, h.assumes⟩

include h

theorem declare_alike (line : Nat) (type : SymbolType) {name name' : Lexeme}
    (hname : name.Alike R name') :
    (s.declare line name type).1.Alike R (s'.declare line name' type).1 ∧
      (s.declare line name type).2.map Diagnostic.isError =
        (s'.declare line name' type).2.map Diagnostic.isError := by
  rw [declare_eq, declare_eq]
  obtain ⟨hn, hn'⟩ | ⟨u, u', hu, hu', -⟩ :=
    rel_cases (SymbolTable.get?_alike hR h.symbols hname.text)
  · rw [hn, hn']
    refine ⟨{ h with symbols := List.rel_append h.symbols (.cons ?_ .nil) }, rfl⟩
    exact ⟨hname.text, h.openSegment, h.offset, rfl, rfl⟩
  · rw [hu, hu']
    exact ⟨h, rfl⟩

/-- A segment that is opened must not be mistaken for none under the name of one of the lines. -/
theorem beginSegment_alike (line : Nat) {name name' : Lexeme} (hname : name.Alike R name')
    (hnone : s.openSegment = noSegment → (name.text = noSegment ↔ name'.text = noSegment)) :
    (s.beginSegment line name).1.Alike R (s'.beginSegment line name').1 ∧
      (s.beginSegment line name).2.Alike (s'.beginSegment line name').2 := by
  unfold beginSegment
  by_cases hopen : s.openSegment = noSegment
  · rw [if_pos hopen, if_pos (h.outside_iff.mp hopen)]
    have hsegments := SegmentTable.add_alike hR h.segments hname.text
    have hoffset : (((s.segments.add name.text).get? name.text).map Segment.size).getD 0 =
        (((s'.segments.add name'.text).get? name'.text).map Segment.size).getD 0 := by
      obtain ⟨hn, hn'⟩ | ⟨u, u', hu, hu', halike⟩ :=
        rel_cases (SegmentTable.get?_alike hR hsegments hname.text)
      · rw [hn, hn']
      · rw [hu, hu', Option.map_some, Option.map_some, halike.size]
    exact ⟨⟨hsegments, h.symbols, h.assumes, hname.text, hnone hopen, hoffset, h.resolving⟩,
      Emission.alike_ofCode rfl⟩
  · rw [if_neg hopen, if_neg (mt h.outside_iff.mpr hopen)]
    exact ⟨h, Emission.alike_reject rfl⟩

theorem endSegment_alike (line : Nat) {name name' : Lexeme} (hname : name.Alike R name') :
    (s.endSegment line name).1.Alike R (s'.endSegment line name').1 ∧
      (s.endSegment line name).2.Alike (s'.endSegment line name').2 := by
  have hsame : Text.sameFold s.openSegment name.text =
      Text.sameFold s'.openSegment name'.text := by
    unfold Text.sameFold
    rw [(hR.letters h.openSegment).fold_eq, (hR.letters hname.text).fold_eq]
  have houtside : noSegment = noSegment ↔ noSegment = noSegment := Iff.rfl
  unfold endSegment
  rw [hsame, h.offset]
  split_ifs
  · have hsegments := SegmentTable.setSize_alike hR h.segments h.openSegment s'.offset
    exact ⟨⟨hsegments, h.symbols, h.assumes, hR.noSegment, houtside, rfl, h.resolving⟩,
      Emission.alike_ofCode rfl⟩
  · exact ⟨⟨h.segments, h.symbols, h.assumes, hR.noSegment, houtside, rfl, h.resolving⟩,
      Emission.alike_reject rfl⟩

theorem data_alike (line : Nat) (type : SymbolType) {name name' value value' : Lexeme}
    (hname : name.Alike R name') (hvalue : value.Alike R value') :
    (s.data line type name value).1.Alike R (s'.data line type name' value').1 ∧
      (s.data line type name value).2.Alike (s'.data line type name' value').2 := by
  unfold data
  rw [hvalue.kind]
  split_ifs
  · exact ⟨h, Emission.alike_reject rfl⟩
  · have hdeclare := declare_alike hR h line type hname
    have hdatum : ((s.context line).datum type value).Alike
        ((s'.context line).datum type value') := Context.datum_alike hR type hvalue
    refine ⟨hdeclare.1, hdatum.code, ?_⟩
    dsimp only
    rw [List.map_append, List.map_append, hdeclare.2, hdatum.faults]

theorem execute_alike (line : Nat) {st st' : Statement} (hst : st.Alike R st')
    (hnone : ∀ name t, st = .beginSegment name → s.openSegment = noSegment → R name.text t →
      (name.text = noSegment ↔ t = noSegment)) :
    (s.execute line st).1.Alike R (s'.execute line st').1 ∧
      (s.execute line st).2.Alike (s'.execute line st').2 := by
  have hcx := h.context line
  unfold execute
  cases hst with
  | beginSegment hname =>
    exact beginSegment_alike hR h line hname fun hopen => hnone _ _ rfl hopen hname.text
  | endSegment hname => exact endSegment_alike hR h line hname
  | assume hpairs =>
    refine ⟨{ h with assumes := ?_ }, Emission.alike_ofCode rfl⟩
    dsimp only [AssumeTable.assume]
    rw [h.assumes, AssumeTable.assumeFrom_eq hR hpairs]
  | label hname =>
    have hdeclare := declare_alike hR h line .label hname
    exact ⟨hdeclare.1, rfl, hdeclare.2⟩
  | data hname hvalue => exact data_alike hR h line _ hname hvalue
  | finish | empty | cli | dec => exact ⟨h, Emission.alike_ofCode rfl⟩
  | inc hm => exact ⟨h, (Context.inc_alike hR hcx hm _ _).ofExcept⟩
  | add hm hi => exact ⟨h, (Context.add_alike hR hcx hm hi).ofExcept⟩
  | cmp hm hr => exact ⟨h, (Context.memoryRegister_alike hR hcx hm _ _ hr).ofExcept⟩
  | xor hm hr => exact ⟨h, (Context.memoryRegister_alike hR hcx hm _ _ hr).ofExcept⟩
  | mov hi => exact ⟨h, (Context.mov_alike hR _ hi).ofExcept⟩
  | or hfirst hsecond =>
    -- Reduced first: the whole encoding would be unfolded to compare the emissions.
    dsimp only
    exact ⟨h, (Context.or_alike hR hfirst hsecond).ofExcept⟩
  | jump htarget =>
    dsimp only
    rw [h.resolving, h.offset]
    exact ⟨h, Context.jump_alike hR hcx _ _ _ htarget⟩

variable {c c' : Classified} (hc : c.Alike R c')
include hc

theorem declareLabel_alike (line : Nat) :
    (s.declareLabel line c.label).1.Alike R (s'.declareLabel line c'.label).1 ∧
      (s.declareLabel line c.label).2.map Diagnostic.isError =
        (s'.declareLabel line c'.label).2.map Diagnostic.isError := by
  obtain ⟨hn, hn'⟩ | ⟨label, label', hl, hl', halike⟩ := rel_cases hc.label
  · rw [hn, hn']
    exact ⟨h, rfl⟩
  · rw [hl, hl']
    exact declare_alike hR h line .label halike

/-- The name of the segment that the line opens stands for none if and only if that of a like line
does. -/
def Separates (R : String → String → Prop) (s : State) (c : Classified) : Prop :=
  ∀ name t, c.statement? = some (.beginSegment name) → s.openSegment = noSegment → R name.text t →
    (name.text = noSegment ↔ t = noSegment)

variable (hnone : s.Separates R c) (line : Nat) (text text' : String)
include hnone

theorem perform_alike :
    (s.perform line text c).1.Alike R (s'.perform line text' c').1 ∧
      (s.perform line text c).2.Alike (s'.perform line text' c').2 := by
  have hlabelled : (s.labelled line c).Alike R (s'.labelled line c') :=
    (declareLabel_alike hR h hc line).1
  obtain ⟨hn, hn'⟩ | ⟨st, st', hst, hst', halike⟩ := rel_cases hc.statement
  · unfold perform
    rw [hn, hn']
    exact ⟨hlabelled, Emission.alike_reject rfl⟩
  · rw [perform_of_statement hst, perform_of_statement hst']
    refine execute_alike hR hlabelled line halike fun name t heq hopen => ?_
    rw [labelled_eq] at hopen
    exact hnone name t (heq ▸ hst) hopen

theorem next_alike : (s.next line text c).Alike R (s'.next line text' c') := by
  obtain ⟨hstate, hemission⟩ := perform_alike hR h hc hnone line text text'
  refine { hstate with offset := ?_ }
  dsimp only [next]
  rw [hstate.offset, hemission.code]

theorem record_alike (hc' : c = classify (lexemes text)) (hc'' : c' = classify (lexemes text')) :
    (s.record line text c).Alike R (s'.record line text' c') := by
  obtain ⟨hstate, hemission⟩ := perform_alike hR h hc hnone line text text'
  have hfaults : (s.reported line text c).map Diagnostic.isError =
      (s'.reported line text' c').map Diagnostic.isError := by
    unfold reported
    rw [List.map_append, List.map_append, (declareLabel_alike hR h hc line).2, hemission.faults]
  have herrors : (s.record line text c).errors.isEmpty = (s'.record line text' c').errors.isEmpty := by
    rw [record_errors, record_errors, isEmpty_filter_isError, isEmpty_filter_isError, hfaults]
  refine ⟨?_, rfl, hc.kind, hstate.offset, ?_, hemission.code, herrors, ?_⟩
  · rw [record_text, record_text, ← hc', ← hc'']
    exact hc
  · have hsegment : ∀ t : State, ∀ x : String, ∀ d : Classified, (t.record line x d).segment =
        if d.kind = .beginSegment && (t.record line x d).errors.isEmpty
          then (t.perform line x d).1.openSegment else t.openSegment := fun _ _ _ => rfl
    rw [hsegment, hsegment, herrors, hc.kind]
    split_ifs
    · exact hstate.openSegment
    · exact h.openSegment
  · dsimp only [record]
    rw [hc.kind, hstate.assumes]

omit hc hnone in
theorem resolveJump_alike {r r' : LineRecord} (hr : r.Alike R r') :
    (s.resolveJump r).1.Alike R (s'.resolveJump r').1 := by
  unfold resolveJump
  rw [hr.kind, hr.correct]
  split_ifs with hjump
  · obtain ⟨hn, hn'⟩ | ⟨st, st', hst, hst', halike⟩ := rel_cases hr.text.statement
    · rw [hn, hn']
      exact hr
    · rw [hst, hst']
      cases halike with
      | @jump j target target' htarget =>
        have hemission := Context.jump_alike hR (h.context (r.number - 1)) true r.address j htarget
        have hsize : r.size = r'.size := congrArg Code.size hr.code
        dsimp only
        rw [← hr.number, ← hr.address, hsize, hemission.code]
        refine { hr with number := rfl, kind := rfl, address := rfl, code := rfl, correct := ?_ }
        unfold LineRecord.correct
        rw [isEmpty_filter_isError, isEmpty_filter_isError, hemission.faults]
      | _ => exact hr
  · exact hr

end State

end

/-- The lines do the same up to names. -/
def LineAlike (R : String → String → Prop) (text text' : String) : Prop :=
  (classify (lexemes text)).Alike R (classify (lexemes text'))

theorem exists_of_forall₂ {α β : Type} {P : α → β → Prop} {xs : List α} {ys : List β}
    (h : List.Forall₂ P xs ys) {i : Nat} {a : α} (ha : xs[i]? = some a) :
    ∃ b, ys[i]? = some b ∧ P a b := by
  obtain ⟨hi, rfl⟩ := List.getElem?_eq_some_iff.mp ha
  have hi' : i < ys.length := h.length_eq ▸ hi
  exact ⟨ys[i], List.getElem?_eq_getElem hi', h.get hi hi'⟩

theorem forall₂_of_getElem? {α β : Type} {P : α → β → Prop} {xs : List α} {ys : List β}
    (hlength : xs.length = ys.length)
    (h : ∀ (i : Nat) a b, xs[i]? = some a → ys[i]? = some b → P a b) : List.Forall₂ P xs ys :=
  List.forall₂_iff_get.mpr ⟨hlength, fun i hi hi' =>
    h i _ _ (List.getElem?_eq_getElem hi) (List.getElem?_eq_getElem hi')⟩

theorem map_eq_of_forall₂ {α β γ : Type} {P : α → β → Prop} {xs : List α} {ys : List β}
    (h : List.Forall₂ P xs ys) {f : α → γ} {g : β → γ} (hfg : ∀ a b, P a b → f a = g b) :
    xs.map f = ys.map g := by
  induction h with
  | nil => rfl
  | @cons a b xs ys hab _ ih => rw [List.map_cons, List.map_cons, hfg a b hab, ih]

theorem map_filter_eq_of_forall₂ {α β γ : Type} {P : α → β → Prop} {xs : List α} {ys : List β}
    (h : List.Forall₂ P xs ys) {p : α → Bool} {q : β → Bool} {f : α → γ} {g : β → γ}
    (hpq : ∀ a b, P a b → p a = q b) (hfg : ∀ a b, P a b → f a = g b) :
    (xs.filter p).map f = (ys.filter q).map g := by
  induction h with
  | nil => rfl
  | @cons a b xs ys hab _ ih =>
    rw [List.filter_cons, List.filter_cons, hpq a b hab]
    split_ifs
    · rw [List.map_cons, List.map_cons, hfg a b hab, ih]
    · exact ih

/-- Programs that agree line by line and table by table. -/
structure Program.Alike (R : String → String → Prop) (p p' : Program) : Prop where
  lines : List.Forall₂ (LineRecord.Alike R) p.lines p'.lines
  firstPass : List.Forall₂ (LineRecord.Alike R) p.firstPass p'.firstPass
  segments : List.Forall₂ (Segment.Alike R) p.segments p'.segments
  symbols : List.Forall₂ (Symbol.Alike R) p.symbols p'.symbols
  errorLines : p.errorLines = p'.errorLines

namespace State

variable {s s' : State} {lines lines' : List String} (hR : Likeness R) (h : s.Alike R s')
  (hlines : List.Forall₂ (LineAlike R) lines lines')
  (hnone : ∀ i text, lines[i]? = some text →
    (s.after (lines.take i)).Separates R (classify (lexemes text)))
include hR h hlines hnone

theorem after_take_alike (i : Nat) :
    (s.after (lines.take i)).Alike R (s'.after (lines'.take i)) := by
  induction i with
  | zero => exact h
  | succ i ih =>
    cases htext : lines[i]? with
    | none =>
      have hlength := hlines.length_eq
      have hi := List.getElem?_eq_none_iff.mp htext
      rw [List.take_of_length_le (by omega), List.take_of_length_le (by omega)] at ih ⊢
      exact ih
    | some text =>
      obtain ⟨text', htext', halike⟩ := exists_of_forall₂ hlines htext
      rw [after_take_succ htext, after_take_succ htext']
      exact next_alike hR ih halike (hnone i text htext) i text text'

theorem after_alike : (s.after lines).Alike R (s'.after lines') := by
  have hall := after_take_alike hR h hlines hnone lines.length
  rwa [List.take_length, hlines.length_eq, List.take_length] at hall

theorem firstPass_alike :
    List.Forall₂ (LineRecord.Alike R) (s.run lines).2.firstPass (s'.run lines').2.firstPass := by
  refine forall₂_of_getElem? ?_ fun i r r' hr hr' => ?_
  · rw [length_firstPass, length_firstPass, hlines.length_eq]
  · rw [getElem?_firstPass] at hr hr'
    obtain ⟨text, htext, rfl⟩ := Option.map_eq_some_iff.mp hr
    obtain ⟨text', htext', rfl⟩ := Option.map_eq_some_iff.mp hr'
    obtain ⟨_, htext'', halike⟩ := exists_of_forall₂ hlines htext
    obtain rfl := Option.some.inj (htext'.symm.trans htext'')
    have hbefore := after_take_alike hR h hlines hnone i
    exact record_alike hR hbefore halike (hnone i text htext) i text text' rfl rfl

/-- Two runs over lines that do the same, from states that are alike. -/
theorem run_alike (herrors : s.errorLines = s'.errorLines) :
    (s.run lines).2.Alike R (s'.run lines').2 := by
  have hfirst := firstPass_alike hR h hlines hnone
  have hafter := after_alike hR h hlines hnone
  refine ⟨?_, hfirst, hafter.segments, hafter.symbols, ?_⟩
  · rw [lines_run, lines_run]
    exact List.rel_map (fun r r' hr => resolveJump_alike hR hafter hr) hfirst
  · have hfaulty : faultyLines (s.run lines).2.firstPass = faultyLines (s'.run lines').2.firstPass :=
      map_filter_eq_of_forall₂ hfirst (fun r r' hr => by rw [hr.correct]) fun r r' hr => hr.number
    have hfailed : s.failedJumps lines = s'.failedJumps lines' :=
      map_filter_eq_of_forall₂ hfirst
        (fun r r' hr => by rw [hr.correct, (resolveJump_alike hR hafter hr).correct])
        fun r r' hr => hr.number
    rw [errorLines_run, errorLines_run, herrors, hfaulty, hfailed]

end State

end SegAsm
