import Mathlib.Data.List.Forall2
import SegAsm.Proofs.Lexeme.Token
import SegAsm.Proofs.Text.Words

/-! The template of a line as a list of words, one for each lexeme: what the replacements in the
joined text do to the words. -/
namespace SegAsm

open Text

/-- A register that can address memory becomes an address between brackets. -/
def mergeAddresses : List String → List String
  | [] => []
  | w :: ws =>
    if ["[", "r16a", "]"] <+: w :: ws ∨ ["[", "r32", "]"] <+: w :: ws then
      "[" :: "ADDR" :: "]" :: mergeAddresses (ws.drop 2)
    else w :: mergeAddresses ws
termination_by ws => ws.length
decreasing_by all_goals simp; try omega

/-- Pairs behind a comma are left out. -/
def dropPairs : List String → List String
  | [] => []
  | w :: ws =>
    if [",", "rS", ":", "ID"] <+: w :: ws then dropPairs (ws.drop 3) else w :: dropPairs ws
termination_by ws => ws.length
decreasing_by all_goals simp; try omega

/-- What the tokens are like as words: none starts a longer one where a replacement looks. -/
theorem tokens_addresses : ∀ t ∈ LexemeKind.allTokens, (t ≠ "[" → '[' ∉ t.toList) ∧ ' ' ∉ t.toList ∧
    ∀ p ∈ ["[", "r16a", "r32", "]"], p.toList <+: t.toList → p = t := by
  decide

/-- The patterns of addresses, in front of words. -/
theorem address_prefix_iff {b : String} (hb : b ∈ ["r16a", "r32"]) {ws : List String}
    (hws : ws ⊆ LexemeKind.allTokens) :
    '[' :: spaced [b, "]"] <+: '[' :: spaced ws ↔ ["[", b, "]"] <+: "[" :: ws := by
  have hblank : ∀ b ∈ ["r16a", "r32"], ∀ p ∈ [b, "]"], ' ' ∉ p.toList := by decide
  have hsub : ∀ b ∈ ["r16a", "r32"], ∀ p ∈ [b, "]"], p ∈ ["[", "r16a", "r32", "]"] := by decide
  rw [List.cons_prefix_cons, List.cons_prefix_cons, spaced_prefix_iff (hblank b hb)
    (fun w hw => (tokens_addresses w (hws hw)).2.1)
    (fun p hp w hw => (tokens_addresses w (hws hw)).2.2 p (hsub b hb p hp))]
  simp

theorem replace_addresses {ts : List String} (hts : ts ⊆ LexemeKind.allTokens) :
    replaceAny ["[ r16a ]", "[ r32 ]"] "[ ADDR ]" (spaced ts) = spaced (mergeAddresses ts) := by
  have hne : ∀ p ∈ ["[ r16a ]", "[ r32 ]"], p.toList ≠ [] := by decide
  have hhead : ∀ p ∈ ["[ r16a ]", "[ r32 ]"], p.toList.head? = some '[' := by decide
  have hblank : ∀ p ∈ ["[ r16a ]", "[ r32 ]"], ∀ cs, ¬ p.toList <+: ' ' :: cs := fun p hp =>
    not_prefix_cons (hne p hp) (by simp [hhead p hp])
  fun_induction mergeAddresses ts with
  | case1 => rfl
  | case2 w ws h ih =>
    rw [spaced_cons, replaceAny_keep fun p hp => hblank p hp _]
    rcases h with ⟨rest, h⟩ | ⟨rest, h⟩
    · obtain ⟨rfl, rfl⟩ := List.cons.inj h
      change ' ' :: replaceAny _ _ ("[ r16a ]".toList ++ spaced rest) = _
      rw [replaceAny_found_append (by decide) rfl]
      exact congrArg (" [ ADDR ]".toList ++ ·) (ih fun t ht => hts (by simp at ht; simp [ht]))
    · obtain ⟨rfl, rfl⟩ := List.cons.inj h
      change ' ' :: replaceAny _ _ ("[ r32 ]".toList ++ spaced rest) = _
      rw [replaceAny_found_append (by decide) rfl]
      exact congrArg (" [ ADDR ]".toList ++ ·) (ih fun t ht => hts (by simp at ht; simp [ht]))
  | case3 w ws h ih =>
    have hws : ws ⊆ LexemeKind.allTokens := fun t ht => hts (by simp [ht])
    rw [spaced_cons, replaceAny_keep fun p hp => hblank p hp _]
    by_cases hopen : w = "["
    · subst hopen
      have hkeep : ∀ p ∈ ["[ r16a ]", "[ r32 ]"], ¬ p.toList <+: '[' :: spaced ws := by
        intro p hp hpre
        simp only [List.mem_cons, List.not_mem_nil, or_false] at hp
        rcases hp with rfl | rfl
        · exact h (Or.inl ((address_prefix_iff (by decide) hws).mp hpre))
        · exact h (Or.inr ((address_prefix_iff (by decide) hws).mp hpre))
      change ' ' :: replaceAny _ _ ('[' :: spaced ws) = _
      rw [replaceAny_keep hkeep, ih hws]
      rfl
    · have hw := (tokens_addresses w (hts (by simp))).1 hopen
      have hpass : ∀ c ∈ w.toList, ∀ p ∈ ["[ r16a ]", "[ r32 ]"], p.toList.head? ≠ some c := by
        intro c hc p hp hph
        rw [hhead p hp, Option.some.injEq] at hph
        exact hw (hph ▸ hc)
      rw [replaceAny_append hne hpass, ih hws]
      simp

theorem replace_pairs {ts : List String} (hts : ∀ t ∈ ts, ' ' ∉ t.toList)
    (hfull : ∀ p ∈ [",", "rS", ":", "ID"], ∀ t ∈ ts, p.toList <+: t.toList → p = t) :
    replaceAny [" , rS : ID"] "" (spaced ts) = spaced (dropPairs ts) := by
  have hpair : " , rS : ID".toList = spaced [",", "rS", ":", "ID"] := rfl
  have hne : ∀ p ∈ [" , rS : ID"], p.toList ≠ [] := by decide
  fun_induction dropPairs ts with
  | case1 => rfl
  | case2 w ws h ih =>
    obtain ⟨rest, h⟩ := h
    rw [← h] at hts hfull ⊢
    obtain ⟨rfl, rfl⟩ := List.cons.inj h
    change replaceAny _ _ (" , rS : ID".toList ++ spaced rest) = _
    rw [replaceAny_found_append (by decide) rfl]
    exact ih (fun t ht => hts t (by simp at ht; simp [ht]))
      (fun p hp t ht => hfull p hp t (by simp at ht; simp [ht]))
  | case3 w ws h ih =>
    have hkeep : ∀ p ∈ [" , rS : ID"], ¬ p.toList <+: ' ' :: (w.toList ++ spaced ws) := by
      intro p hp hpre
      rw [List.mem_singleton.mp hp, hpair, ← spaced_cons, spaced_prefix_iff (by decide) hts hfull] at hpre
      exact h hpre
    have hpass : ∀ c ∈ w.toList, ∀ p ∈ [" , rS : ID"], p.toList.head? ≠ some c := by
      intro c hc p hp hph
      rw [List.mem_singleton.mp hp] at hph
      have hc' : ' ' = c := Option.some.inj hph
      exact hts w (by simp) (hc' ▸ hc)
    rw [spaced_cons, replaceAny_keep hkeep, replaceAny_append hne hpass,
      ih (fun t ht => hts t (by simp [ht])) (fun p hp t ht => hfull p hp t (by simp [ht]))]
    simp

/-- The words that can stand for a lexeme in a template. -/
inductive Lexeme.Shown (l : Lexeme) : String → Prop
  | token (h : l.kind ≠ .generalRegister) : Shown l l.token
  | text (h : l.kind = .quoted) : Shown l "CONST"
  | operand (h : l.kind = .generalRegister) : Shown l "reg"
  | address (h : l.kind = .generalRegister) (ha : l.token = "r16a" ∨ l.token = "r32") :
    Shown l "ADDR"

/-- A replacement of patterns without blanks, on one word. -/
def replaceWord (patterns : List String) (new w : String) : String :=
  String.ofList (replaceAny patterns new w.toList)

def registerWord (w : String) : String :=
  replaceWord ["r16a", "r16", "r32", "r8"] "reg" w

def textWord (w : String) : String :=
  replaceWord ["C_STR"] "CONST" w

theorem mergeAddresses_forall₂ (ts : List String) :
    List.Forall₂ (fun t w => w = t ∨ w = "ADDR" ∧ (t = "r16a" ∨ t = "r32")) ts
      (mergeAddresses ts) := by
  fun_induction mergeAddresses ts with
  | case1 => exact .nil
  | case2 w ws h ih =>
    rcases h with ⟨rest, h⟩ | ⟨rest, h⟩
    · obtain ⟨rfl, rfl⟩ := List.cons.inj h
      exact .cons (Or.inl rfl) (.cons (Or.inr (by simp)) (.cons (Or.inl rfl) ih))
    · obtain ⟨rfl, rfl⟩ := List.cons.inj h
      exact .cons (Or.inl rfl) (.cons (Or.inr (by simp)) (.cons (Or.inl rfl) ih))
  | case3 w ws h ih => exact .cons (Or.inl rfl) ih

theorem registerWord_of_token : ∀ t ∈ LexemeKind.allTokens,
    registerWord t = if t ∈ LexemeKind.generalRegister.tokens then "reg" else t := by
  decide

theorem textWord_of_token : ∀ t ∈ LexemeKind.allTokens,
    textWord t = if t = "C_STR" then "CONST" else t := by
  decide

theorem LexemeKind.eq_generalRegister {k : LexemeKind} {t : String} (h : t ∈ k.tokens)
    (hr : t ∈ LexemeKind.generalRegister.tokens) : k = .generalRegister := by
  revert t
  cases k <;> decide

theorem LexemeKind.eq_quoted {k : LexemeKind} (h : "C_STR" ∈ k.tokens) : k = .quoted := by
  revert h
  cases k <;> decide

theorem Lexeme.Valid.shown {l : Lexeme} (h : l.Valid) {w : String}
    (hw : w = l.token ∨ w = "ADDR" ∧ (l.token = "r16a" ∨ l.token = "r32")) :
    l.Shown (registerWord w) ∧ l.Shown (textWord (registerWord w)) := by
  have hmem := h.token_mem
  have hall := h.token_mem_allTokens
  by_cases hr : l.kind = .generalRegister
  · rw [hr] at hmem
    rcases hw with rfl | ⟨rfl, ha⟩
    · have htext : textWord "reg" = "reg" := by decide
      rw [registerWord_of_token _ hall, if_pos hmem, htext]
      exact ⟨.operand hr, .operand hr⟩
    · have hregister : registerWord "ADDR" = "ADDR" := by decide
      have htext : textWord "ADDR" = "ADDR" := by decide
      rw [hregister, htext]
      exact ⟨.address hr ha, .address hr ha⟩
  · have hnot : l.token ∉ LexemeKind.generalRegister.tokens := fun hreg =>
      hr (LexemeKind.eq_generalRegister hmem hreg)
    have hwt : w = l.token := by
      refine hw.resolve_right fun ⟨_, ha⟩ => hnot ?_
      rcases ha with ha | ha <;> rw [ha] <;> decide
    rw [hwt, registerWord_of_token _ hall, if_neg hnot, textWord_of_token _ hall]
    refine ⟨.token hr, ?_⟩
    by_cases hq : l.token = "C_STR"
    · rw [if_pos hq]
      exact .text (LexemeKind.eq_quoted (hq ▸ hmem))
    · rw [if_neg hq]
      exact .token hr

/-- All words of templates without invalid lexemes. -/
def shownWords : List String :=
  LexemeKind.allTokens ++ ["reg", "ADDR"]

theorem Lexeme.Valid.mem_shownWords {l : Lexeme} (h : l.Valid) {w : String} (hw : l.Shown w) :
    w ∈ shownWords := by
  cases hw with
  | token => exact List.mem_append_left _ h.token_mem_allTokens
  | text | operand | address => decide

theorem shownWords_blank : ∀ w ∈ shownWords, ' ' ∉ w.toList := by
  decide

theorem shownWords_pair : ∀ p ∈ [",", "rS", ":", "ID"], ∀ w ∈ shownWords,
    p.toList <+: w.toList → p = w := by
  decide

theorem shownWords_assume : ∀ w ∈ shownWords, "ASSUME".toList <:+: w.toList → w = "ASSUME" := by
  decide

theorem dropPairs_sublist (ws : List String) : List.Sublist (dropPairs ws) ws := by
  fun_induction dropPairs ws with
  | case1 => exact .slnil
  | case2 w ws h ih => exact (ih.trans (List.drop_sublist 3 ws)).cons w
  | case3 w ws h ih => exact ih.cons_cons w

theorem mem_dropPairs {v : String} (hv : v ∉ [",", "rS", ":", "ID"]) {ws : List String}
    (h : v ∈ ws) : v ∈ dropPairs ws := by
  fun_induction dropPairs ws with
  | case1 => exact h
  | case2 w ws hpre ih =>
    obtain ⟨rest, hrest⟩ := hpre
    rw [← hrest] at h
    refine ih ?_
    have hr : v ∈ rest := (List.mem_append.mp h).resolve_left hv
    obtain ⟨-, rfl⟩ := List.cons.inj hrest
    exact hr
  | case3 w ws _ ih =>
    rcases List.mem_cons.mp h with rfl | h
    · simp
    · exact List.mem_cons_of_mem _ (ih h)

theorem mergeRegisters_words {ts : List String} (hts : ts ⊆ LexemeKind.allTokens) :
    mergeRegisters (String.intercalate " " ts).toList =
      (String.intercalate " " ((mergeAddresses ts).map registerWord)).toList := by
  unfold mergeRegisters
  rw [replaceAny_intercalate (by decide) (by decide) (replace_addresses hts),
    replaceAny_intercalate (by decide) (by decide) (replaceAny_spaced (by decide) (by decide) _)]
  rfl

/-- Texts stand for numbers, unless one of them is declared by a `DB`. -/
def mergeTexts (ws : List String) : List String :=
  if ["DB", "C_STR"] <:+: ws then ws else ws.map textWord

theorem shownWords_text : ∀ w ∈ shownWords, ("DB".toList <:+ w.toList → w = "DB") ∧
    ("C_STR".toList <+: w.toList → w = "C_STR") := by
  decide

theorem occurs_text_iff {ws : List String} (hws : ws ⊆ shownWords) :
    occurs "DB C_STR".toList (String.intercalate " " ws).toList = true ↔
      ["DB", "C_STR"] <:+: ws := by
  rw [occurs_eq_true_iff]
  constructor
  · intro h
    cases ws with
    | nil => exact absurd h (by decide)
    | cons w ws =>
      have hw := shownWords_blank w (hws (by simp))
      have hrest : ∀ v ∈ ws, ' ' ∉ v.toList := fun v hv => shownWords_blank v (hws (by simp [hv]))
      have hpattern : "DB C_STR".toList = "DB".toList ++ ' ' :: "C_STR".toList := rfl
      rw [toList_intercalate_cons, hpattern] at h
      rcases exists_pair_of_infix_spaced (by decide) (by decide) hw hrest h with
        ⟨b, bs, rfl, hdb, hstr⟩ | ⟨a, b, hab, hdb, hstr⟩
      · rw [(shownWords_text w (hws (by simp))).1 hdb, (shownWords_text b (hws (by simp))).2 hstr]
        exact (List.prefix_append ["DB", "C_STR"] bs).isInfix
      · have ha : a ∈ ws := hab.subset (by simp)
        have hb : b ∈ ws := hab.subset (by simp)
        rw [(shownWords_text a (hws (by simp [ha]))).1 hdb,
          (shownWords_text b (hws (by simp [hb]))).2 hstr] at hab
        exact List.infix_cons hab
  · exact infix_intercalate (by simp)

theorem mergeText_words {ws : List String} (hws : ws ⊆ shownWords) :
    mergeText (String.intercalate " " ws).toList =
      (String.intercalate " " (mergeTexts ws)).toList := by
  unfold mergeText mergeTexts
  simp only [occurs_text_iff hws]
  split_ifs
  · rfl
  · exact replaceAny_intercalate (by decide) (by decide) (replaceAny_spaced (by decide) (by decide) _)

/-- With an `ASSUME` in the line the pairs behind its first word are left out. -/
def mergePairs : List String → List String
  | [] => []
  | w :: ws => if "ASSUME" ∈ w :: ws then w :: dropPairs ws else w :: ws

theorem mergePairs_sublist (ws : List String) : List.Sublist (mergePairs ws) ws := by
  cases ws with
  | nil => exact .slnil
  | cons w ws =>
    rw [mergePairs]
    split_ifs
    · exact (dropPairs_sublist ws).cons_cons w
    · exact List.Sublist.refl _

/-- Leaving pairs out never touches the `ASSUME` that calls for it. -/
theorem mergePairs_eq_self {ws : List String} (h : "ASSUME" ∉ mergePairs ws) :
    mergePairs ws = ws := by
  cases ws with
  | nil => rfl
  | cons w ws =>
    rw [mergePairs] at h ⊢
    split_ifs at h ⊢ with hmem
    · refine absurd ?_ h
      rcases List.mem_cons.mp hmem with hw | hw
      · simp [hw]
      · exact List.mem_cons_of_mem _ (mem_dropPairs (by decide) hw)
    · rfl

theorem occurs_assume_iff {ws : List String} (hws : ws ⊆ shownWords) :
    occurs "ASSUME".toList (String.intercalate " " ws).toList = true ↔ "ASSUME" ∈ ws := by
  rw [occurs_eq_true_iff]
  constructor
  · intro h
    cases ws with
    | nil => exact absurd h (by decide)
    | cons w ws =>
      rw [toList_intercalate_cons] at h
      rcases exists_infix_of_infix_spaced (by decide) (by decide) h with h | ⟨v, hv, h⟩
      · simp [shownWords_assume w (hws (by simp)) h]
      · simp [← shownWords_assume v (hws (by simp [hv])) h, hv]
  · intro h
    have hinfix : ["ASSUME"] <:+: ws := by
      obtain ⟨before, after, rfl⟩ := List.append_of_mem h
      exact ⟨before, after, by simp⟩
    simpa using infix_intercalate (by simp) hinfix

theorem mergeAssumes_words {ws : List String} (hws : ws ⊆ shownWords) :
    mergeAssumes (String.intercalate " " ws).toList =
      (String.intercalate " " (mergePairs ws)).toList := by
  cases ws with
  | nil => rfl
  | cons w ws =>
    unfold mergeAssumes mergePairs
    simp only [occurs_assume_iff hws]
    split_ifs
    · have hhead : ∀ c ∈ w.toList, ∀ p ∈ [" , rS : ID"], p.toList.head? ≠ some c := by
        intro c hc p hp hph
        rw [List.mem_singleton.mp hp] at hph
        have hc' : ' ' = c := Option.some.inj hph
        exact shownWords_blank w (hws (by simp)) (hc' ▸ hc)
      rw [toList_intercalate_cons, toList_intercalate_cons, replaceAny_append (by decide) hhead,
        replace_pairs (fun t ht => shownWords_blank t (hws (by simp [ht])))
          (fun p hp t ht => shownWords_pair p hp t (hws (by simp [ht])))]
    · rfl

private theorem mem_of_forall₂ {α β : Type} {p : β → Prop} {l : List α} {u : List β}
    (h : List.Forall₂ (fun _ b => p b) l u) : ∀ b ∈ u, p b := by
  induction h with
  | nil => simp
  | cons hb _ ih => simpa using ⟨hb, ih⟩

/-- The words of lexemes before pairs are left out, one for each. -/
def shownAs (ls : List Lexeme) : List String :=
  mergeTexts ((mergeAddresses (ls.map Lexeme.token)).map registerWord)

section

variable {ls : List Lexeme} (hls : ∀ l ∈ ls, l.Valid)
include hls

theorem tokens_subset_allTokens : ls.map Lexeme.token ⊆ LexemeKind.allTokens := by
  intro t ht
  obtain ⟨l, hl, rfl⟩ := List.mem_map.mp ht
  exact (hls l hl).token_mem_allTokens

theorem forall₂_shown : List.Forall₂ Lexeme.Shown ls
      ((mergeAddresses (ls.map Lexeme.token)).map registerWord) ∧
    List.Forall₂ Lexeme.Shown ls (shownAs ls) := by
  have hmerged := (List.forall₂_and_left _ _).mpr
    ⟨hls, List.forall₂_map_left_iff.mp (mergeAddresses_forall₂ (ls.map Lexeme.token))⟩
  have hkept := List.forall₂_map_right_iff.mpr (hmerged.imp fun l w hw => (hw.1.shown hw.2).1)
  refine ⟨hkept, ?_⟩
  unfold shownAs mergeTexts
  split_ifs
  · exact hkept
  · rw [List.map_map, List.forall₂_map_right_iff]
    exact hmerged.imp fun l w hw => (hw.1.shown hw.2).2

theorem subset_shownWords {ws : List String} (hws : List.Forall₂ Lexeme.Shown ls ws) :
    ws ⊆ shownWords :=
  mem_of_forall₂
    (((List.forall₂_and_left _ _).mpr ⟨hls, hws⟩).imp fun _ _ hw => hw.1.mem_shownWords hw.2)

/-- The template of lexemes of which none is invalid is a list of words. -/
theorem template_eq_words : template ls = String.intercalate " " (mergePairs (shownAs ls)) := by
  obtain ⟨hkept, hshown⟩ := forall₂_shown hls
  rw [template, mergeRegisters_words (tokens_subset_allTokens hls),
    mergeText_words (subset_shownWords hls hkept), ← shownAs,
    mergeAssumes_words (subset_shownWords hls hshown), String.ofList_toList]

theorem mergePairs_shownAs_subset : mergePairs (shownAs ls) ⊆ shownWords :=
  fun _ hw => subset_shownWords hls (forall₂_shown hls).2 ((mergePairs_sublist _).subset hw)

end

/-- An invalid lexeme leaves its mark in the template. -/
theorem mem_template_of_invalid {ls : List Lexeme} {l : Lexeme} (hl : l ∈ ls) (h : l.Scanned)
    (hk : l.kind = .invalid) : '<' ∈ (template ls).toList := by
  have htoken : '<' ∈ l.token.toList := by
    have hne : l.text ≠ "" := fun he => h.ne_nil (by rw [he]; rfl)
    simp [Lexeme.token, hk, hne]
  have hjoined : '<' ∈ (String.intercalate " " (ls.map Lexeme.token)).toList :=
    mem_intercalate (List.mem_map_of_mem hl) htoken
  have hregisters : '<' ∈ mergeRegisters (String.intercalate " " (ls.map Lexeme.token)).toList :=
    mem_replaceAny (by decide) (by decide) (mem_replaceAny (by decide) (by decide) hjoined)
  have htext : '<' ∈ mergeText (mergeRegisters
      (String.intercalate " " (ls.map Lexeme.token)).toList) := by
    unfold mergeText
    split_ifs
    · exact hregisters
    · exact mem_replaceAny (by decide) (by decide) hregisters
  rw [template, String.toList_ofList]
  unfold mergeAssumes
  split_ifs
  · exact mem_replaceAny (by decide) (by decide) htext
  · exact htext

end SegAsm
