import SegAsm.Proofs.Operands

/-! Reading a line word by word. A lexeme stands for a word that depends on its two neighbours alone,
and a line is of a form, `ASSUME` apart, if its words behind the label are those of the form. -/
namespace SegAsm

open Text

/-- The directive that declares bytes. -/
def Lexeme.declaresBytes (l : Lexeme) : Bool :=
  l.kind == .dataDirective && upperString l.text == "DB"

/-- The word that a lexeme stands for between its neighbours. A register between brackets is an
address if it can be one, and a text counts as a number unless a `DB` stands right in front of it. An
invalid lexeme stands for no word. -/
def Lexeme.wordBetween (before after : Option Lexeme) (l : Lexeme) : Option String :=
  match l.kind with
  | .mnemonic | .directive | .dataDirective => some (upperString l.text)
  | .generalRegister =>
    if before.any (·.text == "[") && after.any (·.text == "]") &&
      (Register.ofName? l.text).any Register.isBase
    then some "ADDR" else some "reg"
  | .segmentRegister => some "rS"
  | .binary | .decimal | .hexadecimal => some "CONST"
  | .quoted => if before.any Lexeme.declaresBytes then some "C_STR" else some "CONST"
  | .symbol => some l.text
  | .identifier => some "ID"
  | .invalid => none

/-- The words of the lexemes behind `before`. -/
def wordsFrom (before : Option Lexeme) : List Lexeme → List (Option String)
  | [] => []
  | l :: ls => l.wordBetween before ls.head? :: wordsFrom (some l) ls

/-- The lexemes behind a label; a label alone stays. -/
def behindLabel : List Lexeme → List Lexeme
  | name :: colon :: l :: ls =>
    if name.kind = .identifier ∧ colon.text = ":" then l :: ls else name :: colon :: l :: ls
  | ls => ls

/-- The word of a token between the tokens of its neighbours. -/
def tokenBetween (before after : Option String) (t : String) : String :=
  if t ∈ LexemeKind.generalRegister.tokens then
    if before = some "[" ∧ after = some "]" ∧ t ∈ ["r16a", "r32"] then "ADDR" else "reg"
  else if t = "C_STR" ∧ before ≠ some "DB" then "CONST"
  else t

def tokensFrom (before : Option String) : List String → List String
  | [] => []
  | t :: ts => tokenBetween before ts.head? t :: tokensFrom (some t) ts

theorem tokenBetween_of_other {k : LexemeKind} (hr : k ≠ .generalRegister) (hq : k ≠ .quoted)
    {t : String} (ht : t ∈ k.tokens) (before after : Option String) :
    tokenBetween before after t = t := by
  have hregister : t ∉ LexemeKind.generalRegister.tokens := fun h =>
    hr (LexemeKind.eq_generalRegister ht h)
  have htext : t ≠ "C_STR" := fun h => hq (LexemeKind.eq_quoted (h ▸ ht))
  rw [tokenBetween, if_neg hregister, if_neg fun h => htext h.1]

namespace Lexeme

theorem Valid.kind_of_token {l : Lexeme} (h : l.Valid) {t : String} {k : LexemeKind}
    (ht : l.token = t) (hk : ∀ k' ∈ LexemeKind.all, t ∈ k'.tokens → k' = k) : l.kind = k := by
  have hall : l.kind ∈ LexemeKind.all := by cases l.kind <;> decide
  exact hk l.kind hall (ht ▸ h.token_mem)

theorem Valid.text_eq_iff {l : Lexeme} (h : l.Valid) {t : String} (ht : t ∈ [":", "[", "]", ","]) :
    l.text = t ↔ l.token = t := by
  constructor
  · rintro rfl
    have hsymbol : ∀ t ∈ [":", "[", "]", ","], LexemeKind.ofWord t.toList = .symbol := by decide
    have hkind : l.kind = .symbol := h.kind_eq.trans (hsymbol _ ht)
    simp [token, hkind]
  · intro heq
    have honly : ∀ t ∈ [":", "[", "]", ","], ∀ k ∈ LexemeKind.all, t ∈ k.tokens → k = .symbol := by
      decide
    have hkind := h.kind_of_token heq (honly t ht)
    simpa [token, hkind] using heq

theorem Valid.declaresBytes_iff {l : Lexeme} (h : l.Valid) :
    l.declaresBytes = true ↔ l.token = "DB" := by
  unfold declaresBytes
  rw [Bool.and_eq_true, beq_iff_eq, beq_iff_eq]
  constructor
  · rintro ⟨hkind, htext⟩
    simpa [token, hkind] using htext
  · intro heq
    have hkind : l.kind = .dataDirective := h.kind_of_token heq (by decide)
    refine ⟨hkind, ?_⟩
    simpa [token, hkind] using heq

theorem any_isBase_iff {l : Lexeme} (hk : l.kind = .generalRegister) :
    (Register.ofName? l.text).any Register.isBase = true ↔ l.token ∈ ["r16a", "r32"] := by
  have htoken : l.token = registerToken (.ofOperand l.text) := by simp [token, hk]
  have hbase : ∀ r : Register, r.isBase = true ↔ registerToken r ∈ ["r16a", "r32"] := by
    intro r
    cases r <;> decide
  rw [htoken, Register.ofOperand]
  cases Register.ofName? l.text with
  | none => decide
  | some r => exact hbase r

/-- What a neighbour says about a lexeme, it says by its token. -/
theorem any_iff_token {o : Option Lexeme} (ho : ∀ p ∈ o, p.Valid) {q : Lexeme → Bool} {t : String}
    (hq : ∀ p : Lexeme, p.Valid → (q p = true ↔ p.token = t)) :
    o.any q = true ↔ o.map token = some t := by
  cases o with
  | none => simp
  | some p => simpa using hq p (ho p rfl)

theorem Valid.wordBetween_eq {l : Lexeme} (h : l.Valid) {before after : Option Lexeme}
    (hb : ∀ p ∈ before, p.Valid) (ha : ∀ p ∈ after, p.Valid) :
    l.wordBetween before after =
      some (tokenBetween (before.map token) (after.map token) l.token) := by
  have hmem := h.token_mem
  cases hkind : l.kind with
  | generalRegister =>
    have hopen : before.any (·.text == "[") = true ↔ before.map token = some "[" :=
      any_iff_token hb fun p hp => beq_iff_eq.trans (hp.text_eq_iff (by decide))
    have hclose : after.any (·.text == "]") = true ↔ after.map token = some "]" :=
      any_iff_token ha fun p hp => beq_iff_eq.trans (hp.text_eq_iff (by decide))
    rw [hkind] at hmem
    simp only [wordBetween, hkind, tokenBetween, if_pos hmem, Bool.and_eq_true, hopen, hclose,
      any_isBase_iff hkind, and_assoc]
    split_ifs <;> rfl
  | quoted =>
    have htoken : l.token = "C_STR" := by simp [token, hkind]
    have hdeclares : before.any declaresBytes = true ↔ before.map token = some "DB" :=
      any_iff_token hb fun p hp => hp.declaresBytes_iff
    have hregister : "C_STR" ∉ LexemeKind.generalRegister.tokens := by decide
    simp only [wordBetween, hkind, tokenBetween, htoken, if_neg hregister, hdeclares, true_and]
    by_cases hdb : before.map token = some "DB"
    · rw [if_pos hdb, if_neg (not_not.mpr hdb)]
    · rw [if_neg hdb, if_pos hdb]
  | invalid => exact absurd hkind h.ne_invalid
  | _ =>
    rw [hkind] at hmem
    rw [tokenBetween_of_other (by decide) (by decide) hmem]
    simp [wordBetween, token, hkind]

end Lexeme

theorem wordsFrom_eq {ls : List Lexeme} (hls : ∀ l ∈ ls, l.Valid) {before : Option Lexeme}
    (hb : ∀ p ∈ before, p.Valid) :
    wordsFrom before ls =
      (tokensFrom (before.map Lexeme.token) (ls.map Lexeme.token)).map some := by
  induction ls generalizing before with
  | nil => rfl
  | cons l ls ih =>
    have hl : l.Valid := hls l (by simp)
    have hafter : ∀ p ∈ ls.head?, p.Valid := fun p hp => hls p (by simp [List.mem_of_mem_head? hp])
    have hrest : wordsFrom (some l) ls = _ :=
      ih (fun p hp => hls p (by simp [hp])) (by simpa using hl)
    rw [wordsFrom, hl.wordBetween_eq hb hafter, hrest, List.map_cons, tokensFrom, List.map_cons,
      List.head?_map]
    rfl

/-- Each text is read by the word in front of it; `declared` says that a `DB` stands there. -/
def readTexts (declared : Bool) : List String → List String
  | [] => []
  | w :: ws => (if w = "C_STR" ∧ declared = false then "CONST" else w) :: readTexts (w == "DB") ws

theorem registerWord_keeps_text : ∀ t ∈ LexemeKind.allTokens,
    (registerWord t == "DB") = (t == "DB") ∧
      (t ∉ LexemeKind.generalRegister.tokens → registerWord t = t) ∧
      (t ∈ LexemeKind.generalRegister.tokens → registerWord t = "reg") := by
  decide

/-- Whether tokens go on as an address once a bracket has been opened. -/
def ClosesAddress (ts : List String) : Prop :=
  ["r16a", "]"] <+: ts ∨ ["r32", "]"] <+: ts

theorem tokenBetween_eq {t : String} (ht : t ∈ LexemeKind.allTokens) {before : Option String}
    {ts : List String} (hb : before = some "[" → ¬ ClosesAddress (t :: ts)) :
    tokenBetween before ts.head? t =
      if registerWord t = "C_STR" ∧ (before == some "DB") = false then "CONST"
      else registerWord t := by
  obtain ⟨-, hother, hregister⟩ := registerWord_keeps_text t ht
  unfold tokenBetween
  by_cases hr : t ∈ LexemeKind.generalRegister.tokens
  · have hclosed : ¬(before = some "[" ∧ ts.head? = some "]" ∧ t ∈ ["r16a", "r32"]) := by
      rintro ⟨hopen, hclose, haddress⟩
      obtain ⟨rest, rfl⟩ := List.head?_eq_some_iff.mp hclose
      refine hb hopen ?_
      simp only [List.mem_cons, List.not_mem_nil, or_false] at haddress
      rcases haddress with rfl | rfl
      · exact .inl (List.prefix_append ["r16a", "]"] rest)
      · exact .inr (List.prefix_append ["r32", "]"] rest)
    rw [if_pos hr, if_neg hclosed, hregister hr, if_neg (by simp)]
  · rw [if_neg hr, hother hr]
    simp

theorem tokensFrom_address {a : String} (ha : a ∈ ["r16a", "r32"]) (before : Option String)
    (rest : List String) :
    tokensFrom before ("[" :: a :: "]" :: rest) =
      "[" :: "ADDR" :: "]" :: tokensFrom (some "]") rest := by
  have hbracket : ∀ b ∈ ["[", "]"], ∀ o o', tokenBetween o o' b = b := by
    intro b hb o o'
    have hsymbol : ∀ b ∈ ["[", "]"], b ∈ LexemeKind.symbol.tokens := by decide
    exact tokenBetween_of_other (by decide) (by decide) (hsymbol b hb) o o'
  have haddress : ∀ a ∈ ["r16a", "r32"], tokenBetween (some "[") (some "]") a = "ADDR" := by decide
  simp only [tokensFrom, List.head?_cons]
  rw [hbracket "[" (by decide), hbracket "]" (by decide), haddress a ha]

theorem readTexts_address (declared : Bool) (ws : List String) :
    readTexts declared (("[" :: "ADDR" :: "]" :: ws).map registerWord) =
      "[" :: "ADDR" :: "]" :: readTexts false (ws.map registerWord) := by
  have hwords : ["[", "ADDR", "]"].map registerWord = ["[", "ADDR", "]"] := by decide
  change readTexts declared (["[", "ADDR", "]"].map registerWord ++ ws.map registerWord) = _
  rw [hwords]
  simp [readTexts]

/-- The words of tokens can be found in three goes: addresses, then registers, then texts. -/
theorem tokensFrom_eq {ts : List String} (hts : ts ⊆ LexemeKind.allTokens) {before : Option String}
    (hb : before = some "[" → ¬ ClosesAddress ts) :
    tokensFrom before ts =
      readTexts (before == some "DB") ((mergeAddresses ts).map registerWord) := by
  fun_induction mergeAddresses ts generalizing before with
  | case1 => rfl
  | case2 w ws h ih =>
    have haddress : ∃ a ∈ ["r16a", "r32"], ∃ rest, w :: ws = "[" :: a :: "]" :: rest := by
      rcases h with ⟨rest, h⟩ | ⟨rest, h⟩
      · exact ⟨"r16a", by decide, rest, h.symm⟩
      · exact ⟨"r32", by decide, rest, h.symm⟩
    obtain ⟨a, ha, rest, heq⟩ := haddress
    obtain ⟨rfl, rfl⟩ := List.cons.inj heq
    have hrest : tokensFrom (some "]") rest = readTexts false ((mergeAddresses rest).map registerWord) :=
      ih (fun t ht => hts (by simp at ht; simp [ht])) (by simp)
    rw [tokensFrom_address ha, readTexts_address, hrest]
    rfl
  | case3 w ws h ih =>
    have hw : w ∈ LexemeKind.allTokens := hts (by simp)
    have hopen : some w = some "[" → ¬ ClosesAddress ws := by
      rintro heq hclose
      obtain rfl : w = "[" := Option.some.inj heq
      exact h (hclose.imp (List.prefix_cons_inj _).mpr (List.prefix_cons_inj _).mpr)
    have hrest := ih (fun t ht => hts (by simp [ht])) hopen
    have hdb : (some w == some "DB") = (registerWord w == "DB") :=
      ((registerWord_keeps_text w hw).1).symm
    rw [tokensFrom, List.map_cons, readTexts, tokenBetween_eq hw hb, hrest, hdb]

theorem textWord_of_shown : ∀ w ∈ shownWords,
    textWord w = if w = "C_STR" then "CONST" else w := by
  decide

theorem readTexts_of_not_declared {declared : Bool} {ws : List String} (hws : ws ⊆ shownWords)
    (hhead : declared = true → ws.head? ≠ some "C_STR") (h : ¬ ["DB", "C_STR"] <:+: ws) :
    readTexts declared ws = ws.map textWord := by
  induction ws generalizing declared with
  | nil => rfl
  | cons w ws ih =>
    have hnext : (w == "DB") = true → ws.head? ≠ some "C_STR" := by
      intro hdb htext
      obtain rfl : w = "DB" := beq_iff_eq.mp hdb
      obtain ⟨rest, rfl⟩ := List.head?_eq_some_iff.mp htext
      exact h (List.prefix_append ["DB", "C_STR"] rest).isInfix
    have hrest : readTexts (w == "DB") ws = ws.map textWord :=
      ih (fun v hv => hws (by simp [hv])) hnext fun hin => h (List.infix_cons hin)
    have hw : (w = "C_STR" ∧ declared = false) ↔ w = "C_STR" := by
      refine and_iff_left_of_imp ?_
      rintro rfl
      cases declared with
      | false => rfl
      | true => exact absurd rfl (hhead rfl)
    rw [readTexts, List.map_cons, hrest, textWord_of_shown w (hws (by simp)), if_congr hw rfl rfl]

theorem infix_readTexts (declared : Bool) {ws : List String} (h : ["DB", "C_STR"] <:+: ws) :
    ["DB", "C_STR"] <:+: readTexts declared ws := by
  induction ws generalizing declared with
  | nil => exact h
  | cons w ws ih =>
    rcases List.infix_cons_iff.mp h with ⟨rest, h⟩ | h
    · obtain ⟨rfl, rfl⟩ := List.cons.inj h
      exact (List.prefix_append ["DB", "C_STR"] (readTexts false rest)).isInfix
    · exact List.infix_cons (ih _ h)

theorem readTexts_eq_self {declared : Bool} {ws : List String}
    (h : "CONST" ∉ readTexts declared ws) : readTexts declared ws = ws := by
  induction ws generalizing declared with
  | nil => rfl
  | cons w ws ih =>
    rw [readTexts, List.mem_cons, not_or] at h
    rw [readTexts, ih h.2]
    split_ifs at h ⊢ with hw
    · exact absurd rfl h.1
    · rfl

/-- Texts may be read all at once or each by its neighbour: for words that are settled and hold a
number or a declared text, but not both, it makes no difference. -/
theorem mergeTexts_eq_iff {ws vs : List String} (hws : ws ⊆ shownWords)
    (hvs : readTexts false vs = vs) (hone : ["DB", "C_STR"] <:+: vs → "CONST" ∉ vs) :
    mergeTexts ws = vs ↔ readTexts false ws = vs := by
  unfold mergeTexts
  by_cases h : ["DB", "C_STR"] <:+: ws
  · rw [if_pos h]
    constructor
    · rintro rfl
      exact hvs
    · intro heq
      have hnumber : "CONST" ∉ readTexts false ws := by
        rw [heq]
        exact hone (heq ▸ infix_readTexts false h)
      rw [← heq, readTexts_eq_self hnumber]
  · rw [if_neg h, readTexts_of_not_declared hws (by simp) h]

theorem Form.settled_words (f : Form) : ∀ vs ∈ [f.words, "ID" :: ":" :: f.words],
    readTexts false vs = vs ∧ (["DB", "C_STR"] <:+: vs → "CONST" ∉ vs) := by
  cases f <;> decide

theorem unlabelled_eq_words_iff {ws : List String} {f : Form} :
    unlabelled ws = f.words ↔
      ws = f.words ∨ f.words ≠ [] ∧ ws = "ID" :: ":" :: f.words := by
  have hform : ¬ Labelled f.words := by cases f <;> decide
  unfold unlabelled
  constructor
  · split_ifs with h
    · obtain ⟨⟨rest, rfl⟩, hlength⟩ := h
      rintro heq
      have hrest : rest = f.words := heq
      refine .inr ⟨?_, by rw [← hrest]; rfl⟩
      rintro hnil
      rw [hrest, hnil] at hlength
      exact absurd hlength (by decide)
    · exact .inl
  · rintro (rfl | ⟨hne, rfl⟩)
    · rw [if_neg hform]
    · have hlabel : Labelled ("ID" :: ":" :: f.words) := by
        refine ⟨List.prefix_append ["ID", ":"] f.words, ?_⟩
        have hpos := List.length_pos_iff.mpr hne
        simp only [List.length_cons]
        omega
      rw [if_pos hlabel]
      rfl

theorem unlabelled_mergeTexts_iff {ws : List String} (hws : ws ⊆ shownWords) {f : Form} :
    unlabelled (mergeTexts ws) = f.words ↔ unlabelled (readTexts false ws) = f.words := by
  have hsame : ∀ vs ∈ [f.words, "ID" :: ":" :: f.words],
      (mergeTexts ws = vs ↔ readTexts false ws = vs) := fun vs hvs =>
    mergeTexts_eq_iff hws (f.settled_words vs hvs).1 (f.settled_words vs hvs).2
  rw [unlabelled_eq_words_iff, unlabelled_eq_words_iff, hsame _ (by simp), hsame _ (by simp)]

theorem tokenBetween_eq_iff {w : String} (hw : w ∈ ["ID", ":"]) (t : String)
    (before after : Option String) : tokenBetween before after t = w ↔ t = w := by
  have hplain : ∀ w ∈ ["ID", ":"], w ∉ LexemeKind.generalRegister.tokens ∧ w ≠ "ADDR" ∧ w ≠ "reg" ∧
      w ≠ "CONST" ∧ w ≠ "C_STR" := by
    decide
  obtain ⟨hregister, haddress, hreg, hconst, htext⟩ := hplain w hw
  unfold tokenBetween
  split_ifs with hr ha hq
  · exact iff_of_false (Ne.symm haddress) fun h => hregister (h ▸ hr)
  · exact iff_of_false (Ne.symm hreg) fun h => hregister (h ▸ hr)
  · exact iff_of_false (Ne.symm hconst) fun h => htext (h.symm.trans hq.1)
  · exact Iff.rfl

theorem Lexeme.Valid.kind_identifier_iff {l : Lexeme} (h : l.Valid) :
    l.kind = .identifier ↔ l.token = "ID" := by
  constructor
  · intro hkind
    simp [Lexeme.token, hkind]
  · intro htoken
    exact h.kind_of_token htoken (by decide)

theorem tokensFrom_colon (ts : List String) : tokensFrom (some ":") ts = tokensFrom none ts := by
  cases ts with
  | nil => rfl
  | cons t ts => simp [tokensFrom, tokenBetween]

theorem labelled_tokensFrom_iff {name colon l : Lexeme} (hname : name.Valid) (hcolon : colon.Valid)
    (rest : List Lexeme) :
    Labelled (tokensFrom none ((name :: colon :: l :: rest).map Lexeme.token)) ↔
      name.kind = .identifier ∧ colon.text = ":" := by
  have hid := tokenBetween_eq_iff (w := "ID") (by decide)
  have hsymbol := tokenBetween_eq_iff (w := ":") (by decide)
  rw [hname.kind_identifier_iff, hcolon.text_eq_iff (by decide)]
  simp only [Labelled, List.map_cons, tokensFrom, List.cons_prefix_cons, List.nil_prefix, and_true,
    List.length_cons, eq_comm (a := "ID"), eq_comm (a := ":"), hid, hsymbol]
  refine and_iff_left ?_
  omega

theorem wordsFrom_behindLabel {ls : List Lexeme} (hls : ∀ l ∈ ls, l.Valid) :
    wordsFrom none (behindLabel ls) =
      (unlabelled (tokensFrom none (ls.map Lexeme.token))).map some := by
  have hwords : wordsFrom none ls = (tokensFrom none (ls.map Lexeme.token)).map some :=
    wordsFrom_eq hls (by simp)
  match ls with
  | [] => rfl
  | [_] | [_, _] =>
    rw [unlabelled, if_neg fun h => absurd h.2 (by simp [tokensFrom])]
    exact hwords
  | name :: colon :: l :: rest =>
    have hcolon : colon.Valid := hls colon (by simp)
    have hlabel : _ ↔ _ := labelled_tokensFrom_iff (l := l) (hls name (by simp)) hcolon rest
    rw [behindLabel, unlabelled]
    by_cases h : name.kind = .identifier ∧ colon.text = ":"
    · have htoken : colon.token = ":" := (hcolon.text_eq_iff (by decide)).mp h.2
      have hrest : wordsFrom none (l :: rest) = (tokensFrom none ((l :: rest).map Lexeme.token)).map some :=
        wordsFrom_eq (fun p hp => hls p (by simp at hp; simp [hp])) (by simp)
      rw [if_pos h, if_pos (hlabel.mpr h), hrest, ← tokensFrom_colon, ← htoken]
      rfl
    · rw [if_neg h, if_neg (mt hlabel.mp h), hwords]

theorem mergePairs_of_not_mem {ws : List String} (h : "ASSUME" ∉ ws) : mergePairs ws = ws :=
  mergePairs_eq_self fun hmem => h ((mergePairs_sublist ws).subset hmem)

theorem form?_iff_wordsFrom {ls : List Lexeme} (hls : ∀ l ∈ ls, l.Valid) {f : Form}
    (hf : f ≠ .assume) :
    (classify ls).form? = some f ↔ wordsFrom none (behindLabel ls) = f.words.map some := by
  obtain ⟨hkept, -⟩ := forall₂_shown hls
  have hread : unlabelled (shownAs ls) = f.words ↔
      unlabelled (tokensFrom none (ls.map Lexeme.token)) = f.words := by
    rw [tokensFrom_eq (tokens_subset_allTokens hls) (by simp)]
    exact unlabelled_mergeTexts_iff (subset_shownWords hls hkept)
  have hpairs : unlabelled (mergePairs (shownAs ls)) = f.words ↔
      unlabelled (shownAs ls) = f.words := by
    constructor
    · intro h
      rwa [mergePairs_eq_of_form hf h] at h
    · intro h
      have hassume : "ASSUME" ∉ shownAs ls := by
        intro hmem
        refine Form.assume_not_mem_words hf ?_
        rw [← h]
        exact mem_unlabelled (by decide) hmem
      rwa [mergePairs_of_not_mem hassume]
  have hsome : Function.Injective (List.map (some : String → Option String)) :=
    List.map_injective_iff.mpr fun _ _ => Option.some.inj
  rw [form?_eq_some_iff hls, hpairs, hread, wordsFrom_behindLabel hls, hsome.eq_iff]

theorem kind_ne_invalid_of_words {before : Option Lexeme} {ls : List Lexeme}
    (h : none ∉ wordsFrom before ls) : ∀ l ∈ ls, l.kind ≠ .invalid := by
  induction ls generalizing before with
  | nil => simp
  | cons l ls ih =>
    rw [wordsFrom, List.mem_cons, not_or] at h
    have hl : l.kind ≠ .invalid := fun hkind => h.1 (by simp [Lexeme.wordBetween, hkind])
    simpa using ⟨hl, ih h.2⟩

theorem behindLabel_cases (ls : List Lexeme) :
    behindLabel ls = ls ∨ ∃ label colon, label.kind = .identifier ∧ colon.text = ":" ∧
      ls = label :: colon :: behindLabel ls := by
  match ls with
  | [] | [_] | [_, _] => exact .inl rfl
  | label :: colon :: l :: ls =>
    rw [behindLabel]
    split_ifs with h
    · exact .inr ⟨label, colon, h.1, h.2, rfl⟩
    · exact .inl rfl

theorem valid_of_behindLabel {ls : List Lexeme} (hs : ∀ l ∈ ls, l.Scanned)
    (h : ∀ l ∈ behindLabel ls, l.kind ≠ .invalid) : ∀ l ∈ ls, l.Valid := by
  intro l hl
  refine ⟨hs l hl, ?_⟩
  rcases behindLabel_cases ls with hls | ⟨label, colon, hlabel, hcolon, hls⟩
  · rw [hls] at h
    exact h l hl
  · rw [hls, List.mem_cons, List.mem_cons] at hl
    rcases hl with rfl | rfl | hl
    · simp [hlabel]
    · rw [(hs l (by rw [hls]; simp)).kind_eq, hcolon]
      decide
    · exact h l hl

theorem length_wordsFrom (before : Option Lexeme) (ls : List Lexeme) :
    (wordsFrom before ls).length = ls.length := by
  induction ls generalizing before with
  | nil => rfl
  | cons l ls ih => rw [wordsFrom, List.length_cons, List.length_cons, ih]

theorem behindLabel_suffix (ls : List Lexeme) : behindLabel ls <:+ ls := by
  rcases behindLabel_cases ls with hls | ⟨label, colon, -, -, hls⟩
  · rw [hls]
  · exact ⟨[label, colon], hls.symm⟩

/-- The label that a line is taken to have is the one that it starts with. -/
theorem operands_eq_behindLabel {ls : List Lexeme} (hs : ∀ l ∈ ls, l.Scanned) {f : Form}
    (hf : f ≠ .assume) (h : (classify ls).form? = some f) :
    (classify ls).operands = behindLabel ls := by
  have hwords := (form?_iff_wordsFrom (valid_of_form? hs h) hf).mp h
  have hlength : (behindLabel ls).length = (classify ls).operands.length := by
    rw [(operands_shown hs h hf).length_eq, ← length_wordsFrom none, hwords, List.length_map]
  have hsuffix := List.suffix_of_suffix_length_le (operands_suffix ls) (behindLabel_suffix ls)
    hlength.ge
  exact hsuffix.eq_of_length hlength.symm

theorem form?_eq_none_of_invalid {ls : List Lexeme} (hs : ∀ l ∈ ls, l.Scanned) {l : Lexeme}
    (hl : l ∈ ls) (hk : l.kind = .invalid) : (classify ls).form? = none := by
  cases h : (classify ls).form? with
  | none => rfl
  | some f => exact absurd hk (valid_of_form? hs h l hl).ne_invalid

/-- A line is of a form but `ASSUME` exactly if the lexemes behind its label stand for the words of
the form, and never if one of its lexemes is invalid. Whatever its form, it has the statement that the
form asks for, and every lexeme of the statement is of the kind that its place asks for. -/
theorem form?_iff_words_and_readFrom (line : String) :
    (∀ f, f ≠ .assume →
      ((classify (lexemes line)).form? = some f ↔
        wordsFrom none (behindLabel (lexemes line)) = f.words.map some)) ∧
    ((∃ l ∈ lexemes line, l.kind = .invalid) → lineKind line = .invalid) ∧
    ∀ f, (classify (lexemes line)).form? = some f →
      (f ≠ .assume → (classify (lexemes line)).operands = behindLabel (lexemes line)) ∧
      ∃ st, (classify (lexemes line)).statement? = some st ∧ st.kind = f.kind ∧
        st.ReadFrom (classify (lexemes line)).operands := by
  have hs : ∀ l ∈ lexemes line, l.Scanned := Lexeme.scanned_of_mem_lexemes
  refine ⟨fun f hf => ⟨fun h => ?_, fun h => ?_⟩, ?_, fun f h => ⟨fun hf => ?_, ?_⟩⟩
  · exact (form?_iff_wordsFrom (valid_of_form? hs h) hf).mp h
  · have hkinds : ∀ l ∈ behindLabel (lexemes line), l.kind ≠ .invalid :=
      kind_ne_invalid_of_words (by rw [h]; simp)
    exact (form?_iff_wordsFrom (valid_of_behindLabel hs hkinds) hf).mpr h
  · rintro ⟨l, hl, hk⟩
    rw [lineKind, Classified.kind, form?_eq_none_of_invalid hs hl hk, Option.map_none,
      Option.getD_none]
  · exact operands_eq_behindLabel hs hf h
  · obtain ⟨st, hst, hread⟩ := readFrom_of_form hs h
    have hkind := kind_of_statement? hst
    rw [Classified.kind, h, Option.map_some, Option.getD_some] at hkind
    exact ⟨st, hst, hkind.symm, hread⟩

theorem form?_of_labelled_override :
    wordsFrom none (behindLabel (lexemes "go: add fs:sum[ebp], 'A'")) =
      Form.addOverride.words.map some ∧
    (classify (lexemes "go: add fs:sum[ebp], 'A'")).form? = some .addOverride ∧
    ∃ st, (classify (lexemes "go: add fs:sum[ebp], 'A'")).statement? = some st ∧
      st.ReadFrom (behindLabel (lexemes "go: add fs:sum[ebp], 'A'")) := by
  have hwords : wordsFrom none (behindLabel (lexemes "go: add fs:sum[ebp], 'A'")) =
      Form.addOverride.words.map some := by decide +kernel
  obtain ⟨hform, -, hread⟩ := form?_iff_words_and_readFrom "go: add fs:sum[ebp], 'A'"
  have hoverride := (hform .addOverride (by decide)).mpr hwords
  obtain ⟨hoperands, st, hst, -, hfrom⟩ := hread .addOverride hoverride
  rw [hoperands (by decide)] at hfrom
  exact ⟨hwords, hoverride, st, hst, hfrom⟩

end SegAsm
