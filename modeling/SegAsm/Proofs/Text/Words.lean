import Mathlib.Data.List.Find
import Mathlib.Data.List.Infix
import SegAsm.Text.Replace

/-! Replacing in a text made of words with blanks between them. A pattern without blanks acts on
each word alone. -/
namespace SegAsm.Text

/-- The words with a blank in front of each. -/
def spaced (ws : List String) : List Char :=
  ws.flatMap fun w => ' ' :: w.toList

@[simp] theorem spaced_nil : spaced [] = [] := rfl

@[simp] theorem spaced_cons (w : String) (ws : List String) :
    spaced (w :: ws) = ' ' :: (w.toList ++ spaced ws) := by
  simp [spaced]

theorem toList_intercalate_cons (w : String) (ws : List String) :
    (String.intercalate " " (w :: ws)).toList = w.toList ++ spaced ws := by
  induction ws generalizing w with
  | nil => simp
  | cons v vs ih =>
    rw [String.intercalate_cons_cons, String.toList_append, String.toList_append, ih v]
    simp

theorem mem_intercalate {ws : List String} {w : String} (hw : w ∈ ws) {c : Char}
    (hc : c ∈ w.toList) : c ∈ (String.intercalate " " ws).toList := by
  cases ws with
  | nil => simp at hw
  | cons v vs =>
    rw [toList_intercalate_cons, List.mem_append]
    rcases List.mem_cons.mp hw with rfl | hw
    · exact Or.inl hc
    · exact Or.inr (List.mem_flatMap.mpr ⟨w, hw, List.mem_cons_of_mem _ hc⟩)

theorem intercalate_eq_empty_iff {ws : List String} (hne : ∀ w ∈ ws, w ≠ "") :
    String.intercalate " " ws = "" ↔ ws = [] := by
  cases ws with
  | nil => simp
  | cons w ws =>
    rw [← String.toList_inj, toList_intercalate_cons]
    simp [hne w (by simp)]

/-- Words that are neither empty nor hold a blank can be read off their text. -/
theorem intercalate_inj {ws vs : List String} (hws : ∀ w ∈ ws, w ≠ "" ∧ ' ' ∉ w.toList)
    (hvs : ∀ v ∈ vs, v ≠ "" ∧ ' ' ∉ v.toList)
    (h : String.intercalate " " ws = String.intercalate " " vs) : ws = vs := by
  by_cases hw : ws = []
  · rw [hw, String.intercalate_nil, eq_comm,
      intercalate_eq_empty_iff fun v hv => (hvs v hv).1] at h
    rw [hw, h]
  · have hv : vs ≠ [] := by
      rintro rfl
      exact hw ((intercalate_eq_empty_iff fun w hw => (hws w hw).1).mp h)
    have hl := congrArg (fun s => s.toList.splitOn ' ') h
    have hblank : " ".toList = [' '] := rfl
    simp only [String.toList_intercalate] at hl
    rw [hblank, List.splitOn_intercalate ' ' (by simpa using fun w hw => (hws w hw).2)
        (by simpa using hw),
      List.splitOn_intercalate ' ' (by simpa using fun v hv => (hvs v hv).2)
        (by simpa using hv)] at hl
    exact List.map_injective_iff.mpr (fun _ _ => String.toList_inj.mp) hl

/-- If neither holds a blank, a word in front of a blank is one word only. -/
theorem append_blank_prefix_iff {p w ps rest : List Char} (hp : ' ' ∉ p) (hw : ' ' ∉ w) :
    p ++ ' ' :: ps <+: w ++ ' ' :: rest ↔ p = w ∧ ps <+: rest := by
  induction p generalizing w with
  | nil =>
    cases w with
    | nil => simp
    | cons c w =>
      have hc : ' ' ≠ c := fun h => hw (h ▸ List.mem_cons_self)
      simp [hc]
  | cons a p ih =>
    cases w with
    | nil =>
      have ha : a ≠ ' ' := fun h => hp (by simp [h])
      simp [ha]
    | cons c w =>
      have hp' : ' ' ∉ p := fun h => hp (by simp [h])
      have hw' : ' ' ∉ w := fun h => hw (by simp [h])
      simp only [List.cons_append, List.cons_prefix_cons, ih hp' hw', List.cons.injEq, and_assoc]

/-- A pattern without blanks that starts in a word lies in that word. -/
theorem prefix_append_spaced_iff {p w : List Char} (hp : ' ' ∉ p) (ws : List String) :
    p <+: w ++ spaced ws ↔ p <+: w := by
  induction p generalizing w with
  | nil => simp
  | cons a p ih =>
    have ha : a ≠ ' ' := fun h => hp (h ▸ List.mem_cons_self)
    have hp' : ' ' ∉ p := fun h => hp (List.mem_cons_of_mem _ h)
    cases w with
    | cons c w => simp only [List.cons_append, List.cons_prefix_cons, ih hp']
    | nil => cases ws <;> simp [ha]

/-- Where no word of `ps` starts a longer word of `ws`, the first words of a text can be read off. -/
theorem spaced_prefix_iff {ps ws : List String} (hps : ∀ p ∈ ps, ' ' ∉ p.toList)
    (hws : ∀ w ∈ ws, ' ' ∉ w.toList)
    (hfull : ∀ p ∈ ps, ∀ w ∈ ws, p.toList <+: w.toList → p = w) :
    spaced ps <+: spaced ws ↔ ps <+: ws := by
  induction ps generalizing ws with
  | nil => simp
  | cons p ps ih =>
    cases ws with
    | nil => simp
    | cons w ws =>
      have hp : ' ' ∉ p.toList := hps p (by simp)
      have hw : ' ' ∉ w.toList := hws w (by simp)
      have hpw := hfull p (by simp) w (by simp)
      have ih' := @ih ws (fun q hq => hps q (by simp [hq])) (fun v hv => hws v (by simp [hv]))
        (fun q hq v hv => hfull q (by simp [hq]) v (by simp [hv]))
      simp only [spaced_cons, List.cons_prefix_cons, true_and]
      cases ps with
      | nil =>
        rw [spaced_nil, List.append_nil, prefix_append_spaced_iff hp]
        exact ⟨fun h => ⟨hpw h, by simp⟩, fun h => h.1 ▸ List.prefix_rfl⟩
      | cons q qs =>
        cases ws with
        | nil =>
          have hblank : ¬ p.toList ++ spaced (q :: qs) <+: w.toList := fun h =>
            hw (h.mem (by simp))
          simpa using hblank
        | cons v vs =>
          rw [spaced_cons, spaced_cons, append_blank_prefix_iff hp hw, String.toList_inj, ← ih',
            spaced_cons, spaced_cons, List.cons_prefix_cons]
          simp

/-- A pattern without blanks occurs in a text only if it occurs in one of its words. -/
theorem exists_infix_of_infix_spaced {p w : List Char} (hp : p ≠ []) (hb : ' ' ∉ p)
    {ws : List String} (h : p <:+: w ++ spaced ws) :
    p <:+: w ∨ ∃ v ∈ ws, p <:+: v.toList := by
  induction ws generalizing w with
  | nil => exact Or.inl (by simpa using h)
  | cons v vs ihs =>
    induction w with
    | nil =>
      rw [List.nil_append, spaced_cons, List.infix_cons_iff] at h
      rcases h with h | h
      · cases p with
        | nil => exact absurd rfl hp
        | cons a p => exact absurd (List.cons_prefix_cons.mp h).1 fun ha => hb (by simp [ha])
      · right
        rcases ihs h with hv | ⟨u, hu, hpu⟩
        · exact ⟨v, by simp, hv⟩
        · exact ⟨u, by simp [hu], hpu⟩
    | cons c w ih =>
      rw [List.cons_append, List.infix_cons_iff, ← List.cons_append,
        prefix_append_spaced_iff hb] at h
      rcases h with h | h
      · exact Or.inl h.isInfix
      · exact (ih h).imp_left fun hw => hw.trans (List.infix_cons List.infix_rfl)

/-- A pattern of two words with a blank between them ends one word of a text and starts the next. -/
theorem exists_pair_of_infix_spaced {p q w : List Char} (hp : ' ' ∉ p) (hq : ' ' ∉ q)
    (hw : ' ' ∉ w) {ws : List String} (hws : ∀ v ∈ ws, ' ' ∉ v.toList)
    (h : p ++ ' ' :: q <:+: w ++ spaced ws) :
    (∃ b bs, ws = b :: bs ∧ p <:+ w ∧ q <+: b.toList) ∨
      ∃ a b, [a, b] <:+: ws ∧ p <:+ a.toList ∧ q <+: b.toList := by
  induction ws generalizing w with
  | nil =>
    rw [spaced_nil, List.append_nil] at h
    exact absurd (h.mem (by simp)) hw
  | cons v vs ihs =>
    have hv : ' ' ∉ v.toList := hws v (by simp)
    have hvs : ∀ u ∈ vs, ' ' ∉ u.toList := fun u hu => hws u (by simp [hu])
    induction w with
    | nil =>
      rw [List.nil_append, spaced_cons, List.infix_cons_iff] at h
      rcases h with h | h
      · cases p with
        | nil =>
          rw [List.nil_append, List.cons_prefix_cons, prefix_append_spaced_iff hq] at h
          exact Or.inl ⟨v, vs, rfl, List.suffix_rfl, h.2⟩
        | cons a p => exact absurd (List.cons_prefix_cons.mp h).1 fun ha => hp (by simp [ha])
      · rcases ihs hv hvs h with ⟨b, bs, rfl, hpv, hqb⟩ | ⟨a, b, hab, hpa, hqb⟩
        · exact Or.inr ⟨v, b, (List.prefix_append [v, b] bs).isInfix, hpv, hqb⟩
        · exact Or.inr ⟨a, b, List.infix_cons hab, hpa, hqb⟩
    | cons c w ih =>
      have hw' : ' ' ∉ w := fun hmem => hw (List.mem_cons_of_mem c hmem)
      rw [List.cons_append, List.infix_cons_iff, ← List.cons_append] at h
      rcases h with h | h
      · rw [spaced_cons, append_blank_prefix_iff hp hw, prefix_append_spaced_iff hq] at h
        exact Or.inl ⟨v, vs, rfl, h.1 ▸ List.suffix_rfl, h.2⟩
      · refine (ih hw' h).imp_left fun ⟨b, bs, hb, hpw, hqb⟩ => ?_
        exact ⟨b, bs, hb, hpw.trans (List.suffix_cons c w), hqb⟩

theorem spaced_eq_cons {ws : List String} (h : ws ≠ []) :
    spaced ws = ' ' :: (String.intercalate " " ws).toList := by
  cases ws with
  | nil => exact absurd rfl h
  | cons w ws => rw [spaced_cons, toList_intercalate_cons]

theorem infix_intercalate {ps ws : List String} (hps : ps ≠ []) (h : ps <:+: ws) :
    (String.intercalate " " ps).toList <:+: (String.intercalate " " ws).toList := by
  have hws : ws ≠ [] := by
    rintro rfl
    exact hps (List.infix_nil.mp h)
  have hspaced : spaced ps <:+: spaced ws := by
    obtain ⟨xs, ys, rfl⟩ := h
    simp only [spaced, List.flatMap_append]
    exact List.infix_append _ _ _
  rw [spaced_eq_cons hps, spaced_eq_cons hws, List.infix_cons_iff] at hspaced
  rcases hspaced with h | h
  · exact (List.cons_prefix_cons.mp h).2.isInfix
  · exact (List.suffix_cons _ _).isInfix.trans h

theorem occurs_eq_true_iff {p cs : List Char} : occurs p cs = true ↔ p <:+: cs := by
  induction cs with
  | nil => simp [occurs]
  | cons c cs ih =>
    rw [occurs, Bool.or_eq_true, ih, List.isPrefixOf_iff_prefix, List.infix_cons_iff]

section Replace

variable {patterns : List String} {new : String}

theorem replaceFrom_done {ps : List (List Char)} {n : List Char} (done : List Char) (skip : Nat)
    (cs : List Char) :
    replaceFrom ps n done skip cs = done.reverse ++ replaceFrom ps n [] skip cs := by
  induction cs generalizing done skip with
  | nil => simp [replaceFrom]
  | cons c cs ih =>
    cases skip with
    | succ skip => exact ih done skip
    | zero =>
      simp only [replaceFrom]
      split
      · rw [ih (n.reverse ++ done), ih (n.reverse ++ [])]
        simp
      · rw [ih (c :: done), ih [c]]
        simp

theorem replaceFrom_skip {ps : List (List Char)} {n : List Char} (skip : Nat) (cs : List Char) :
    replaceFrom ps n [] skip cs = replaceFrom ps n [] 0 (cs.drop skip) := by
  induction cs generalizing skip with
  | nil => simp [replaceFrom]
  | cons c cs ih =>
    cases skip with
    | zero => rfl
    | succ skip => simpa only [replaceFrom, List.drop_succ_cons] using ih skip

@[simp] theorem replaceAny_nil : replaceAny patterns new [] = [] := rfl

theorem replaceAny_keep {c : Char} {cs : List Char}
    (h : ∀ p ∈ patterns, ¬ p.toList <+: c :: cs) :
    replaceAny patterns new (c :: cs) = c :: replaceAny patterns new cs := by
  have hnone : (patterns.map String.toList).find? (fun p => p.isPrefixOf (c :: cs)) = none := by
    simpa [List.find?_eq_none, List.isPrefixOf_iff_prefix] using h
  simp only [replaceAny, replaceFrom, hnone]
  rw [replaceFrom_done]
  rfl

theorem replaceAny_found {p : String} {cs : List Char} (hp : p.toList ≠ [])
    (h : patterns.find? (fun q => q.toList.isPrefixOf cs) = some p) :
    replaceAny patterns new cs =
      new.toList ++ replaceAny patterns new (cs.drop p.toList.length) := by
  have hpre : p.toList <+: cs := by simpa using List.find?_some h
  cases cs with
  | nil => exact absurd (List.prefix_nil.mp hpre) hp
  | cons c cs =>
    have hf : (patterns.map String.toList).find? (fun q => q.isPrefixOf (c :: cs)) =
        some p.toList := by
      rw [List.find?_map, Function.comp_def, h]
      rfl
    simp only [replaceAny, replaceFrom, hf]
    rw [replaceFrom_done, replaceFrom_skip]
    have hl : p.toList.length = p.toList.length - 1 + 1 := by
      have := List.length_pos_iff.mpr hp
      omega
    conv_rhs => rw [hl, List.drop_succ_cons]
    simp

theorem replaceAny_found_append {p : String} (hp : p.toList ≠ []) {rest : List Char}
    (h : patterns.find? (fun q => q.toList.isPrefixOf (p.toList ++ rest)) = some p) :
    replaceAny patterns new (p.toList ++ rest) = new.toList ++ replaceAny patterns new rest := by
  rw [replaceAny_found hp h, List.drop_left]

/-- One step of a replacement: a character stays, or a pattern is replaced. -/
theorem replaceAny_cases (hne : ∀ p ∈ patterns, p.toList ≠ []) (new : String) (c : Char)
    (cs : List Char) :
    ((∀ p ∈ patterns, ¬ p.toList <+: c :: cs) ∧
        replaceAny patterns new (c :: cs) = c :: replaceAny patterns new cs) ∨
      ∃ p ∈ patterns, p.toList <+: c :: cs ∧ replaceAny patterns new (c :: cs) =
        new.toList ++ replaceAny patterns new ((c :: cs).drop p.toList.length) := by
  cases hf : patterns.find? (fun q => q.toList.isPrefixOf (c :: cs)) with
  | none =>
    have hkeep : ∀ p ∈ patterns, ¬ p.toList <+: c :: cs := by
      simpa [List.find?_eq_none, List.isPrefixOf_iff_prefix] using hf
    exact Or.inl ⟨hkeep, replaceAny_keep hkeep⟩
  | some p =>
    have hp := List.mem_of_find?_eq_some hf
    have hpre : p.toList <+: c :: cs := by simpa using List.find?_some hf
    exact Or.inr ⟨p, hp, hpre, replaceAny_found (hne p hp) hf⟩

theorem not_prefix_cons {p : List Char} (hne : p ≠ []) {c : Char} (hc : p.head? ≠ some c)
    (cs : List Char) : ¬ p <+: c :: cs := by
  cases p with
  | nil => exact absurd rfl hne
  | cons a p =>
    intro h
    exact hc (by rw [(List.cons_prefix_cons.mp h).1]; rfl)

/-- Characters with which no pattern starts are passed over. -/
theorem replaceAny_append (hne : ∀ p ∈ patterns, p.toList ≠ []) {w : List Char}
    (hw : ∀ c ∈ w, ∀ p ∈ patterns, p.toList.head? ≠ some c) (rest : List Char) :
    replaceAny patterns new (w ++ rest) = w ++ replaceAny patterns new rest := by
  induction w with
  | nil => rfl
  | cons c w ih =>
    have hc : ∀ p ∈ patterns, ¬ p.toList <+: c :: (w ++ rest) := fun p hp =>
      not_prefix_cons (hne p hp) (hw c (by simp) p hp) _
    rw [List.cons_append, replaceAny_keep hc, ih fun d hd => hw d (by simp [hd])]
    rfl

/-- A character that no pattern holds is not lost. -/
theorem mem_replaceAny (hne : ∀ p ∈ patterns, p.toList ≠ []) {c : Char}
    (hc : ∀ p ∈ patterns, c ∉ p.toList) {cs : List Char} (h : c ∈ cs) :
    c ∈ replaceAny patterns new cs := by
  induction hn : cs.length using Nat.strong_induction_on generalizing cs with
  | _ n ih =>
    cases cs with
    | nil => simp at h
    | cons d ds =>
      rcases replaceAny_cases hne new d ds with ⟨-, heq⟩ | ⟨p, hp, hpre, heq⟩
      · rw [heq]
        rcases List.mem_cons.mp h with rfl | hds
        · simp
        · exact List.mem_cons_of_mem _ (ih ds.length (by simp at hn; omega) hds rfl)
      · rw [heq]
        obtain ⟨rest, hrest⟩ := hpre
        have hmem : c ∈ rest := by
          rw [← hrest] at h
          exact (List.mem_append.mp h).resolve_left (hc p hp)
        have hpos := List.length_pos_iff.mpr (hne p hp)
        rw [← hrest, List.drop_left]
        refine List.mem_append_right _ (ih rest.length ?_ hmem rfl)
        rw [← hn, ← hrest, List.length_append]
        omega

/-- Patterns without blanks are replaced in the first word alone. -/
theorem replaceAny_append_spaced (hne : ∀ p ∈ patterns, p.toList ≠ [])
    (hb : ∀ p ∈ patterns, ' ' ∉ p.toList) (w : List Char) (ws : List String) :
    replaceAny patterns new (w ++ spaced ws) =
      replaceAny patterns new w ++ replaceAny patterns new (spaced ws) := by
  induction hn : w.length using Nat.strong_induction_on generalizing w with
  | _ n ih =>
    have hsame : patterns.find? (fun q => q.toList.isPrefixOf (w ++ spaced ws)) =
        patterns.find? (fun q => q.toList.isPrefixOf w) := by
      refine List.find?_congr fun q hq => ?_
      rw [Bool.eq_iff_iff, List.isPrefixOf_iff_prefix, List.isPrefixOf_iff_prefix,
        prefix_append_spaced_iff (hb q hq)]
    cases hf : patterns.find? (fun q => q.toList.isPrefixOf w) with
    | some p =>
      have hp := hne p (List.mem_of_find?_eq_some hf)
      have hpre : p.toList <+: w := by simpa using List.find?_some hf
      have hlen := hpre.length_le
      have hpos := List.length_pos_iff.mpr hp
      have ih' := ih (w.drop p.toList.length).length (by rw [List.length_drop]; omega) _ rfl
      rw [replaceAny_found hp (hsame.trans hf), replaceAny_found hp hf,
        List.drop_append_of_le_length hlen, ih', List.append_assoc]
    | none =>
      cases w with
      | nil => simp
      | cons c w =>
        have hkeep : ∀ p ∈ patterns, ¬ p.toList <+: c :: w := by
          simpa [List.find?_eq_none, List.isPrefixOf_iff_prefix] using hf
        have hkeep' : ∀ p ∈ patterns, ¬ p.toList <+: c :: (w ++ spaced ws) := by
          simpa [List.find?_eq_none, List.isPrefixOf_iff_prefix] using hsame.trans hf
        rw [List.cons_append, replaceAny_keep hkeep', replaceAny_keep hkeep,
          ih w.length (by simp at hn; omega) w rfl]
        rfl

theorem replaceAny_spaced (hne : ∀ p ∈ patterns, p.toList ≠ [])
    (hb : ∀ p ∈ patterns, ' ' ∉ p.toList) (ws : List String) :
    replaceAny patterns new (spaced ws) =
      spaced (ws.map fun w => String.ofList (replaceAny patterns new w.toList)) := by
  induction ws with
  | nil => rfl
  | cons w ws ih =>
    have hblank : ∀ p ∈ patterns, ¬ p.toList <+: ' ' :: (w.toList ++ spaced ws) := fun p hp =>
      not_prefix_cons (hne p hp) (fun h => hb p hp (List.mem_of_mem_head? h)) _
    rw [spaced_cons, replaceAny_keep hblank, replaceAny_append_spaced hne hb, ih]
    simp

/-- A replacement that starts at no blank acts on a text as on its words. -/
theorem replaceAny_intercalate (hne : ∀ p ∈ patterns, p.toList ≠ [])
    (hb : ∀ p ∈ patterns, p.toList.head? ≠ some ' ') {ws vs : List String}
    (h : replaceAny patterns new (spaced ws) = spaced vs) :
    replaceAny patterns new (String.intercalate " " ws).toList =
      (String.intercalate " " vs).toList := by
  cases ws with
  | nil =>
    cases vs with
    | nil => rfl
    | cons v vs => simp at h
  | cons w ws =>
    have hblank : ∀ p ∈ patterns, ¬ p.toList <+: ' ' :: (w.toList ++ spaced ws) := fun p hp =>
      not_prefix_cons (hne p hp) (hb p hp) _
    rw [spaced_cons, replaceAny_keep hblank] at h
    cases vs with
    | nil => simp at h
    | cons v vs =>
      rw [toList_intercalate_cons, toList_intercalate_cons]
      simpa using h

end Replace
end SegAsm.Text
