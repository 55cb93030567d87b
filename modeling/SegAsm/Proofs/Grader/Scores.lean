import Mathlib.Data.List.Perm.Basic
import SegAsm.Proofs.Grader.Accepted

/-! Grading an assignment. Every test case counts in the test of its visibility and in no other, whatever
the order of the cases, and it is passed exactly if its listing can be read and agrees with its
reference. -/
namespace SegAsm

/-- Looking at files changes none of them. -/
structure FileAccess.Still {σ : Type} (fs : FileAccess (StateM σ)) : Prop where
  read : ∀ path files, ((fs.read path).run files).2 = files
  isThere : ∀ path files, ((fs.isThere path).run files).2 = files

theorem FileTree.still_access : FileTree.access.Still :=
  ⟨fun _ _ => rfl, fun _ _ => rfl⟩

namespace Grader

section Compare

/-- The last line, if there is one, is not empty. -/
def EndsFull (lines : List String) : Prop :=
  ∀ line ∈ lines.getLast?, line ≠ ""

theorem endsFull_normalize (text : String) : EndsFull (normalize text) := by
  unfold normalize
  dsimp only
  generalize (dropHeader _).map dropBlankEnd = lines
  intro line hline
  rw [Text.toList_popWhile] at hline
  have hne : lines.rdropWhile String.isEmpty ≠ [] := by
    intro hnil
    rw [hnil] at hline
    cases hline
  rw [List.getLast?_eq_some_getLast hne] at hline
  have hlast := List.rdropWhile_last_not String.isEmpty lines hne
  rw [Option.some.inj hline] at hlast
  simpa using hlast

/-- Filling up with empty lines makes no lines that end with another one. -/
theorem eq_of_filled {lines filled : List String} {n : Nat} (h : EndsFull filled)
    (heq : lines ++ List.replicate n "" = filled) : lines = filled := by
  cases n with
  | zero => rwa [List.replicate_zero, List.append_nil] at heq
  | succ n =>
    rw [List.replicate_succ', ← List.append_assoc] at heq
    refine absurd rfl (h "" ?_)
    rw [← heq, List.getLast?_concat]
    rfl

theorem length_fillTo (n : Nat) (lines : List String) :
    (fillTo n lines).length = max n lines.length := by
  rw [fillTo, List.length_append, List.length_replicate]
  omega

theorem fillTo_eq_of_mismatches {expected submitted : List String}
    (h : mismatches expected submitted = []) :
    fillTo submitted.length expected = fillTo expected.length submitted := by
  have hlength : (fillTo submitted.length expected).length =
      (fillTo expected.length submitted).length := by
    rw [length_fillTo, length_fillTo]
    omega
  unfold mismatches at h
  dsimp only at h
  generalize fillTo submitted.length expected = es at h hlength ⊢
  generalize fillTo expected.length submitted = ss at h hlength ⊢
  have hsame : ∀ p ∈ es.zip ss, p.1 = p.2 := by
    intro p hp
    rw [← List.zipIdx_map_fst 1 (es.zip ss)] at hp
    obtain ⟨⟨q, i⟩, hq, rfl⟩ := List.mem_map.mp hp
    have hnone := List.filterMap_eq_nil_iff.mp h _ hq
    by_contra hne
    simp [hne] at hnone
  calc es = (es.zip ss).map Prod.fst := (List.map_fst_zip hlength.le).symm
    _ = (es.zip ss).map Prod.snd := List.map_congr_left hsame
    _ = ss := List.map_snd_zip hlength.ge

/-- Listings without empty lines at their ends differ somewhere unless they are the same. -/
theorem mismatches_eq_nil_iff {expected submitted : List String} (he : EndsFull expected)
    (hs : EndsFull submitted) : mismatches expected submitted = [] ↔ submitted = expected := by
  constructor
  · intro h
    have hfill := fillTo_eq_of_mismatches h
    unfold fillTo at hfill
    obtain hle | hle := Nat.le_total submitted.length expected.length
    · rw [Nat.sub_eq_zero_of_le hle, List.replicate_zero, List.append_nil] at hfill
      exact eq_of_filled he hfill.symm
    · rw [Nat.sub_eq_zero_of_le hle, List.replicate_zero, List.append_nil] at hfill
      exact (eq_of_filled hs hfill).symm
  · rintro rfl
    exact mismatches_self submitted

theorem Submission.fault?_eq_none_iff (o : Listing.Options) (s : Submission) :
    s.fault? o = none ↔
      ∃ text, s.listing = some text ∧ normalize text = referenceLines o s.reference := by
  have hreference : EndsFull (referenceLines o s.reference) := endsFull_normalize _
  unfold fault?
  cases s.listing with
  | none => simp
  | some text =>
    have hiff := mismatches_eq_nil_iff hreference (endsFull_normalize text)
    dsimp only
    rw [← List.isEmpty_iff] at hiff
    split_ifs with hempty
    · simpa using hiff.mp hempty
    · simpa using mt hiff.mpr hempty

end Compare

section Groups

theorem nodup_eraseDups (vs : List String) : vs.eraseDups.Nodup := by
  match vs with
  | [] => simp
  | v :: vs =>
    rw [List.eraseDups_cons, List.nodup_cons]
    refine ⟨by simp, nodup_eraseDups _⟩
termination_by vs.length
decreasing_by
  have hle := List.length_filter_le (fun w => !w == v) vs
  rw [List.length_cons]
  omega

theorem mem_visibilities {cases : List TestCase} {v : String} :
    v ∈ visibilities cases ↔ ∃ c ∈ cases, c.visibility = v := by
  unfold visibilities
  rw [List.mem_mergeSort, List.mem_eraseDups, List.mem_map]

theorem nodup_visibilities (cases : List TestCase) : (visibilities cases).Nodup :=
  (List.mergeSort_perm _ _).nodup_iff.mpr (nodup_eraseDups _)

theorem pairwise_visibilities (cases : List TestCase) : (visibilities cases).Pairwise (· < ·) := by
  have htrans (a b c : String) (hab : decide (a ≤ b) = true) (hbc : decide (b ≤ c) = true) :
      decide (a ≤ c) = true :=
    decide_eq_true (String.le_trans (of_decide_eq_true hab) (of_decide_eq_true hbc))
  have htotal (a b : String) : (decide (a ≤ b) || decide (b ≤ a)) = true := by
    rw [Bool.or_eq_true, decide_eq_true_eq, decide_eq_true_eq]
    exact String.le_total a b
  have hsorted : (visibilities cases).Pairwise fun a b => decide (a ≤ b) = true :=
    List.pairwise_mergeSort htrans htotal _
  refine (hsorted.and (nodup_visibilities cases)).imp fun h => ?_
  by_contra hlt
  exact h.2 (String.le_antisymm (of_decide_eq_true h.1) (String.not_lt.mp hlt))

theorem visibilities_of_perm {cases cases' : List TestCase} (h : cases.Perm cases') :
    visibilities cases = visibilities cases' := by
  refine List.Perm.eq_of_pairwise (fun a b _ _ hab hba => absurd hba (String.lt_asymm hab))
    (pairwise_visibilities cases) (pairwise_visibilities cases') ?_
  rw [List.perm_ext_iff_of_nodup (nodup_visibilities cases) (nodup_visibilities cases')]
  intro v
  simp only [mem_visibilities, h.mem_iff]

/-- The test cases of one visibility. -/
def casesOf (v : String) (cases : List TestCase) : List TestCase :=
  cases.filter (·.visibility == v)

/-- Where the cases are put into groups, each is in one of them. -/
theorem flatMap_casesOf_perm {vs : List String} (hvs : vs.Nodup) {cases : List TestCase}
    (h : ∀ c ∈ cases, c.visibility ∈ vs) : (vs.flatMap (casesOf · cases)).Perm cases := by
  induction vs generalizing cases with
  | nil =>
    obtain rfl : cases = [] := List.eq_nil_iff_forall_not_mem.mpr fun c hc => by simpa using h c hc
    exact .nil
  | cons v vs ih =>
    obtain ⟨hv, hvs⟩ := List.nodup_cons.mp hvs
    let others := cases.filter fun c => !c.visibility == v
    have hothers : (vs.flatMap (casesOf · others)).Perm others := by
      refine ih hvs fun c hc => ?_
      obtain ⟨hc, hne⟩ := List.mem_filter.mp hc
      exact (List.mem_cons.mp (h c hc)).resolve_left (by simpa using hne)
    have hsame : vs.flatMap (casesOf · cases) = vs.flatMap (casesOf · others) := by
      refine List.flatMap_congr fun w hw => ?_
      unfold casesOf
      rw [List.filter_filter]
      refine List.filter_congr fun c _ => ?_
      by_cases hc : c.visibility = w
      · have hne : w ≠ v := fun heq => hv (heq ▸ hw)
        simp [hc, hne]
      · simp [hc]
    rw [List.flatMap_cons, hsame]
    exact (hothers.append_left _).trans (List.filter_append_perm _ cases)

theorem sum_of_perm {ps qs : List Points} (h : ps.Perm qs) : ps.sum = qs.sum := by
  induction h with
  | nil => rfl
  | cons p _ ih => rw [List.sum_cons, List.sum_cons, ih]
  | swap p q ps =>
    rw [List.sum_cons, List.sum_cons, List.sum_cons, List.sum_cons, ← Int64.add_assoc,
      ← Int64.add_assoc, Int64.add_comm q p]
  | trans _ _ ih ih' => rw [ih, ih']

/-- The points of some test cases together. -/
def pointsOf (cases : List TestCase) : Points :=
  (cases.map TestCase.points).sum

theorem pointsOf_of_perm {cases cases' : List TestCase} (h : cases.Perm cases') :
    pointsOf cases = pointsOf cases' :=
  sum_of_perm (h.map _)

theorem pointsOf_flatMap (vs : List String) (group : String → List TestCase) :
    pointsOf (vs.flatMap group) = (vs.map fun v => pointsOf (group v)).sum := by
  induction vs with
  | nil => rfl
  | cons v vs ih =>
    rw [List.flatMap_cons, List.map_cons, List.sum_cons, ← ih]
    unfold pointsOf
    rw [List.map_append, List.sum_append]

/-- No point is lost or counted twice. -/
theorem sum_pointsOf_visibilities (cases : List TestCase) :
    ((visibilities cases).map fun v => pointsOf (casesOf v cases)).sum = pointsOf cases := by
  have hcover : ∀ c ∈ cases, c.visibility ∈ visibilities cases := fun c hc =>
    mem_visibilities.mpr ⟨c, hc, rfl⟩
  rw [← pointsOf_flatMap]
  exact pointsOf_of_perm (flatMap_casesOf_perm (nodup_visibilities cases) hcover)

theorem sum_ite_points (p : TestCase → Bool) (cases : List TestCase) :
    (cases.map fun c => if p c then c.points else 0).sum = pointsOf (cases.filter p) := by
  induction cases with
  | nil => rfl
  | cons c cases ih =>
    rw [List.map_cons, List.sum_cons, ih]
    unfold pointsOf
    by_cases hp : p c
    · rw [if_pos hp, List.filter_cons_of_pos hp, List.map_cons, List.sum_cons]
    · rw [if_neg hp, List.filter_cons_of_neg hp, Int64.zero_add]

end Groups

section Tests

theorem Status.ofBool_eq_passed_iff {b : Bool} : ofBool b = .passed ↔ b = true := by
  cases b <;> decide

theorem Status.ofBool_eq_failed_iff {b : Bool} : ofBool b = .failed ↔ b = false := by
  cases b <;> decide

/-- A test but for its output. -/
def Test.silent (t : Test) : Test :=
  { t with output := "" }

/-- A test that sums up some test cases: it is worth their points, it gives the points of those that
are passed, and it is passed if all of them are. -/
structure Test.SumsUp (t : Test) (cases : List TestCase) (passes : TestCase → Prop)
    [DecidablePred passes] : Prop where
  maxScore : t.maxScore = pointsOf cases
  score : t.score = pointsOf (cases.filter (passes ·))
  passed_iff : t.status = some .passed ↔ ∀ c ∈ cases, passes c
  failed_iff : t.status = some .failed ↔ ¬ ∀ c ∈ cases, passes c

/-- The outcomes of some test cases, given what is wrong with each. -/
def outcomesOf (fault : TestCase → Option String) (cases : List TestCase) : List Outcome :=
  cases.map fun c => ⟨c, fault c⟩

variable {fault : TestCase → Option String}

theorem filter_outcomesOf (fault : TestCase → Option String) (v : String) (cases : List TestCase) :
    (outcomesOf fault cases).filter (·.testCase.visibility == v) =
      outcomesOf fault (casesOf v cases) := by
  unfold outcomesOf
  rw [List.filter_map]
  rfl

/-- A test with its score. -/
def scored (t : Test × Points) : Test :=
  { t.1 with score := t.2 }

theorem tests_foldl_addTest (r : Report) (ts : List (Test × Points)) :
    (ts.foldl (fun r t => r.addTest t.1 t.2) r).tests = r.tests ++ ts.map scored := by
  induction ts generalizing r with
  | nil => simp
  | cons t ts ih =>
    rw [List.foldl_cons, ih, Report.addTest, List.append_assoc]
    rfl

theorem maxScore_groupTest (fault : TestCase → Option String) (v : String) (cases : List TestCase) :
    (scored (groupTest v (outcomesOf fault cases))).maxScore = pointsOf cases := by
  change ((outcomesOf fault cases).map (·.testCase.points)).sum = _
  unfold outcomesOf
  rw [List.map_map]
  rfl

theorem score_groupTest (fault : TestCase → Option String) (v : String) (cases : List TestCase) :
    (scored (groupTest v (outcomesOf fault cases))).score =
      pointsOf (cases.filter fun c => (fault c).isNone) := by
  change ((outcomesOf fault cases).map Outcome.earned).sum = _
  unfold outcomesOf
  rw [List.map_map, ← sum_ite_points]
  rfl

theorem status_groupTest (fault : TestCase → Option String) (v : String) (cases : List TestCase) :
    (scored (groupTest v (outcomesOf fault cases))).status =
      some (.ofBool (decide (∀ c ∈ cases, (fault c).isNone))) := by
  change some (Status.ofBool
    (((outcomesOf fault cases).filter Outcome.passed).length == (outcomesOf fault cases).length)) = _
  have hall : ((outcomesOf fault cases).filter Outcome.passed).length =
      (outcomesOf fault cases).length ↔ ∀ c ∈ cases, (fault c).isNone := by
    rw [List.length_filter_eq_length_iff]
    exact List.forall_mem_map
  rw [beq_eq_decide, decide_eq_decide.mpr hall]

theorem sumsUp_groupTest {passes : TestCase → Prop} [DecidablePred passes] (v : String)
    {cases : List TestCase} (h : ∀ c ∈ cases, fault c = none ↔ passes c) :
    (scored (groupTest v (outcomesOf fault cases))).SumsUp cases passes := by
  have hfilter : (cases.filter fun c => (fault c).isNone) = cases.filter (passes ·) := by
    refine List.filter_congr fun c hc => ?_
    rw [Bool.eq_iff_iff, Option.isNone_iff_eq_none, h c hc, decide_eq_true_eq]
  have hall : (∀ c ∈ cases, (fault c).isNone) ↔ ∀ c ∈ cases, passes c :=
    forall₂_congr fun c hc => by rw [Option.isNone_iff_eq_none, h c hc]
  refine ⟨maxScore_groupTest fault v cases, ?_, ?_, ?_⟩
  · rw [score_groupTest, hfilter]
  · rw [status_groupTest, ← hall, Option.some_inj, Status.ofBool_eq_passed_iff, decide_eq_true_eq]
  · rw [status_groupTest, ← hall, Option.some_inj, Status.ofBool_eq_failed_iff,
      decide_eq_false_iff_not]

theorem silent_groupTest_of_perm (fault : TestCase → Option String) (v : String)
    {cases cases' : List TestCase} (h : cases.Perm cases') :
    (scored (groupTest v (outcomesOf fault cases))).silent =
      (scored (groupTest v (outcomesOf fault cases'))).silent := by
  have hstatus : (scored (groupTest v (outcomesOf fault cases))).status =
      (scored (groupTest v (outcomesOf fault cases'))).status := by
    simp only [status_groupTest, h.mem_iff]
  have hscore : (scored (groupTest v (outcomesOf fault cases))).score =
      (scored (groupTest v (outcomesOf fault cases'))).score := by
    rw [score_groupTest, score_groupTest, pointsOf_of_perm (h.filter _)]
  have hmax : (scored (groupTest v (outcomesOf fault cases))).maxScore =
      (scored (groupTest v (outcomesOf fault cases'))).maxScore := by
    rw [maxScore_groupTest, maxScore_groupTest, pointsOf_of_perm h]
  unfold Test.silent
  rw [hstatus, hscore, hmax]
  rfl

theorem formatTest_cases (points : Points) (submissions : List Submission) :
    (scored (formatTest points submissions)).silent =
      if ∀ s ∈ submissions, s.present then
        ⟨"Format", points, points, "", "visible", some .passed⟩
      else ⟨"Format", points, 0, "", "visible", some .failed⟩ := by
  have hmissing : (submissions.filter (!·.present)).isEmpty ↔ ∀ s ∈ submissions, s.present := by
    rw [List.isEmpty_iff, List.filter_eq_nil_iff]
    simp
  unfold formatTest
  dsimp only
  split_ifs with hempty hall hall
  · rfl
  · exact absurd (hmissing.mp hempty) hall
  · exact absurd (hmissing.mpr hall) hempty
  · rfl

theorem name_formatTest (points : Points) (submissions : List Submission) :
    (scored (formatTest points submissions)).name = "Format" := by
  unfold formatTest
  dsimp only
  split_ifs <;> rfl

theorem maxScore_formatTest (points : Points) (submissions : List Submission) :
    (scored (formatTest points submissions)).maxScore = points := by
  unfold formatTest
  dsimp only
  split_ifs <;> rfl

/-- The tests of a report, where what belongs to each test case is given. -/
theorem tests_grade (points : Points) (o : Listing.Options) {sub : TestCase → Submission}
    (hsub : ∀ c, (sub c).testCase = c) (cases : List TestCase) :
    (grade points o (cases.map sub)).tests = scored (formatTest points (cases.map sub)) ::
      (visibilities cases).map fun v =>
        scored (groupTest v (outcomesOf (fun c => (sub c).fault? o) (casesOf v cases))) := by
  have hcases : (cases.map sub).map Submission.testCase = cases := by
    rw [List.map_map]
    exact (List.map_congr_left fun c _ => hsub c).trans (List.map_id cases)
  have houtcomes : ((cases.map sub).map fun s => (⟨s.testCase, s.fault? o⟩ : Outcome)) =
      outcomesOf (fun c => (sub c).fault? o) cases := by
    rw [List.map_map]
    refine List.map_congr_left fun c _ => ?_
    rw [Function.comp_apply, hsub]
  unfold grade
  simp only [hcases, houtcomes, filter_outcomesOf, tests_foldl_addTest, List.map_cons, List.map_map,
    List.nil_append]
  rfl

end Tests

section Files

variable {σ : Type} (fs : FileAccess (StateM σ)) (files : σ)

/-- A step that leaves the files as they are hands its value on. -/
theorem run_bind {σ α β : Type} {files : σ} {x : StateM σ α} {v : α} (h : x.run files = (v, files))
    (f : α → StateM σ β) : (x >>= f).run files = (f v).run files := by
  rw [StateT.run_bind, h]
  rfl

/-- What reading a file gives. -/
def content (path : String) : Except FileFailure String :=
  ((fs.read path).run files).1

namespace Assignment

variable (a : Assignment) (o : Listing.Options) (c : TestCase)

/-- Where the reference program of a test case is. -/
def referencePath : String :=
  Path.join a.codeDirectory (Text.signed c.number ++ ".asm")

/-- Where the listing of a test case should be. -/
def listingPath : String :=
  Path.join a.studentDirectory (Text.signed c.number ++ ".lst")

/-- The listing can be read, and after both are normalized its lines are those of the reference. -/
def Passes : Prop :=
  ∃ source text, content fs files (a.referencePath c) = .ok source ∧
    content fs files (a.listingPath c) = .ok text ∧ normalize text = referenceLines o source

/-- What belongs to a test case whose reference program can be read. -/
def submission : Submission :=
  { testCase := c
    reference := (content fs files (a.referencePath c)).toOption.getD ""
    present := ((fs.isThere (a.listingPath c)).run files).1
    listing := (content fs files (a.listingPath c)).toOption }

variable {fs files a o c}

instance : Decidable (a.Passes fs files o c) :=
  match hsource : content fs files (a.referencePath c), htext : content fs files (a.listingPath c) with
  | .ok source, .ok text =>
    decidable_of_iff (normalize text = referenceLines o source)
      ⟨fun h => ⟨source, text, hsource, htext, h⟩, fun ⟨_, _, hs, ht, h⟩ =>
        Except.ok.inj (hs.symm.trans hsource) ▸ Except.ok.inj (ht.symm.trans htext) ▸ h⟩
  | .error _, _ => isFalse fun ⟨_, _, hs, _⟩ => nomatch hsource.symm.trans hs
  | _, .error _ => isFalse fun ⟨_, _, _, ht, _⟩ => nomatch htext.symm.trans ht

theorem passes_iff_fault? {source : String}
    (h : content fs files (a.referencePath c) = .ok source) :
    (a.submission fs files c).fault? o = none ↔ a.Passes fs files o c := by
  have hsource : (a.submission fs files c).reference = source := by
    unfold submission
    rw [h]
    rfl
  have hlisting (text : String) : (a.submission fs files c).listing = some text ↔
      content fs files (a.listingPath c) = .ok text := by
    unfold submission
    cases content fs files (a.listingPath c) <;> simp [Except.toOption]
  rw [Submission.fault?_eq_none_iff, hsource]
  unfold Passes
  simp only [hlisting, h, Except.ok.injEq, exists_and_left, exists_eq_left']

theorem collect_eq (hstill : fs.Still) {source : String}
    (h : content fs files (a.referencePath c) = .ok source) :
    (Submission.collect fs a c).run files = (.ok (a.submission fs files c), files) := by
  have hthere : (fs.isThere (a.listingPath c)).run files = (_, files) :=
    Prod.ext rfl (hstill.isThere _ files)
  have hlisting : (fs.read (a.listingPath c)).run files = (_, files) :=
    Prod.ext rfl (hstill.read _ files)
  have hreference : (fs.read (a.referencePath c)).run files = (.ok source, files) :=
    Prod.ext h (hstill.read _ files)
  unfold Submission.collect
  refine (run_bind hthere _).trans ((run_bind hreference _).trans ((run_bind hlisting _).trans ?_))
  unfold submission
  rw [h]
  rfl

end Assignment

theorem run_mapM {α β : Type} {f : α → StateM σ β} {g : α → β} {files : σ} {xs : List α}
    (h : ∀ x ∈ xs, (f x).run files = (g x, files)) : (xs.mapM f).run files = (xs.map g, files) := by
  induction xs with
  | nil => rfl
  | cons x xs ih =>
    obtain ⟨hx, hxs⟩ := List.forall_mem_cons.mp h
    rw [List.mapM_cons, run_bind hx, run_bind (ih hxs)]
    rfl

theorem mapM_id_ok {α β ε : Type} (g : α → β) (xs : List α) :
    (xs.map fun x => (.ok (g x) : Except ε β)).mapM id = .ok (xs.map g) := by
  induction xs with
  | nil => rfl
  | cons x xs ih =>
    rw [List.map_cons, List.mapM_cons, ih]
    rfl

variable {fs files}

/-- An assignment whose references can all be read is graded, and the files stay as they are. -/
theorem Assignment.grade_eq (hstill : fs.Still) {a : Assignment} {o : Listing.Options}
    (hoptions : Listing.Options.parse a.listingOptions = .ok o)
    (h : ∀ c ∈ a.cases, ∃ source, content fs files (a.referencePath c) = .ok source) :
    (a.grade fs).run files =
      (.ok (Grader.grade a.formatPoints o (a.cases.map (a.submission fs files))), files) := by
  have hcollect : ∀ c ∈ a.cases, (Submission.collect fs a c).run files =
      (.ok (a.submission fs files c), files) := by
    intro c hc
    obtain ⟨source, hsource⟩ := h c hc
    exact collect_eq hstill hsource
  unfold Assignment.grade
  rw [hoptions]
  refine (run_bind (run_mapM hcollect) _).trans ?_
  rw [mapM_id_ok]
  rfl

theorem exists_of_isOk {α ε : Type} {x : Except ε α} (h : x.isOk) : ∃ v, x = .ok v := by
  cases x with
  | ok v => exact ⟨v, rfl⟩
  | error e => cases h

theorem sum_maxScore_grade (points : Points) (o : Listing.Options) {sub : TestCase → Submission}
    (hsub : ∀ c, (sub c).testCase = c) (cases : List TestCase) :
    ((Grader.grade points o (cases.map sub)).tests.map Test.maxScore).sum = points + pointsOf cases := by
  rw [tests_grade points o hsub, List.map_cons, List.sum_cons, maxScore_formatTest, List.map_map,
    ← sum_pointsOf_visibilities cases]
  refine congrArg (points + List.sum ·) (List.map_congr_left fun v _ => ?_)
  exact maxScore_groupTest _ v _

/-- But for what is printed, a report does not depend on the order of the test cases. -/
theorem silent_grade_of_perm (points : Points) (o : Listing.Options) {sub : TestCase → Submission}
    (hsub : ∀ c, (sub c).testCase = c) {cases cases' : List TestCase} (h : cases.Perm cases') :
    (Grader.grade points o (cases.map sub)).tests.map Test.silent =
      (Grader.grade points o (cases'.map sub)).tests.map Test.silent := by
  have hformat : (scored (formatTest points (cases.map sub))).silent =
      (scored (formatTest points (cases'.map sub))).silent := by
    simp only [formatTest_cases, (h.map sub).mem_iff]
  rw [tests_grade points o hsub, tests_grade points o hsub, List.map_cons, List.map_cons, hformat,
    visibilities_of_perm h, List.map_map, List.map_map]
  refine congrArg (_ :: ·) (List.map_congr_left fun v _ => ?_)
  exact silent_groupTest_of_perm _ v (h.filter _)

/-- An assignment whose references can all be read gets a report: the format test, and behind it one
test for each visibility that there is, in order. The tests are worth what the format and all test
cases are worth, each of the others sums up the test cases of its visibility, and a test case is passed
if its listing can be read and agrees with the reference. The order of the test cases shows in the
output of the tests alone. -/
theorem grade_sums_up_visibilities {σ : Type} (fs : FileAccess (StateM σ)) (files : σ)
    (a : Assignment) (o : Listing.Options) (hstill : fs.Still)
    (hoptions : Listing.Options.parse a.listingOptions = .ok o)
    (h : ∀ c ∈ a.cases, ∃ source, content fs files (a.referencePath c) = .ok source) :
    ∃ report format groups, (a.grade fs).run files = (.ok report, files) ∧
      report.tests = format :: groups ∧ format.name = "Format" ∧ format.maxScore = a.formatPoints ∧
      (groups.map Test.visibility).Pairwise (· < ·) ∧
      (∀ v, v ∈ groups.map Test.visibility ↔ ∃ c ∈ a.cases, c.visibility = v) ∧
      (report.tests.map Test.maxScore).sum = a.formatPoints + pointsOf a.cases ∧
      (∀ t ∈ groups, t.SumsUp (casesOf t.visibility a.cases) (a.Passes fs files o)) ∧
      (∀ c ∈ a.cases, ∃ s, (Submission.collect fs a c).run files = (.ok s, files) ∧
        (s.fault? o = none ↔ a.Passes fs files o c)) ∧
      ∀ cases', cases'.Perm a.cases → ∃ report',
        (({ a with testCases := some cases' } : Assignment).grade fs).run files =
            (.ok report', files) ∧
          report'.tests.map Test.silent = report.tests.map Test.silent := by
  have hsub (c : TestCase) : (a.submission fs files c).testCase = c := rfl
  have hfault : ∀ c ∈ a.cases,
      (a.submission fs files c).fault? o = none ↔ a.Passes fs files o c := fun c hc => by
    obtain ⟨source, hsource⟩ := h c hc
    exact Assignment.passes_iff_fault? hsource
  have hvisibilities : ((visibilities a.cases).map fun v => scored (groupTest v
      (outcomesOf (fun c => (a.submission fs files c).fault? o) (casesOf v a.cases)))).map
        Test.visibility = visibilities a.cases := by
    rw [List.map_map]
    exact List.map_id _
  refine ⟨_, _, _, Assignment.grade_eq hstill hoptions h, tests_grade a.formatPoints o hsub a.cases,
    name_formatTest _ _, maxScore_formatTest _ _, ?_, ?_,
    sum_maxScore_grade a.formatPoints o hsub a.cases, ?_, ?_, ?_⟩
  · rw [hvisibilities]
    exact pairwise_visibilities a.cases
  · intro v
    rw [hvisibilities, mem_visibilities]
  · rw [List.forall_mem_map]
    intro v _
    exact sumsUp_groupTest v fun c hc => hfault c (List.mem_filter.mp hc).1
  · intro c hc
    obtain ⟨source, hsource⟩ := h c hc
    exact ⟨_, Assignment.collect_eq hstill hsource, hfault c hc⟩
  · intro cases' hperm
    let a' : Assignment := { a with testCases := some cases' }
    have h' : ∀ c ∈ a'.cases, ∃ source, content fs files (a'.referencePath c) = .ok source :=
      fun c hc => h c (hperm.mem_iff.mp hc)
    exact ⟨_, Assignment.grade_eq hstill hoptions h', silent_grade_of_perm a.formatPoints o hsub hperm⟩

/-- One listing counts for two test cases of different visibilities, and another one is not there. -/
theorem grade_sums_up_shared_listing :
    let o : Listing.Options := { assume := true }
    let header : Listing.Header := { title := "Lab 1", generated := some ⟨2024, 5, 17, 9, 30, 0⟩ }
    let written := Listing.document header (Listing.render o (assemble "cli"))
    let files := FileTree.ofEntries
      [("ref/1.asm", "cli"), ("ref/-2.asm", ""), ("sub/1.lst", written)]
    let missing : TestCase := { number := -2, visibility := "hidden", points := 20 }
    let shared : TestCase := { number := 1, visibility := "hidden", points := 7 }
    let a : Assignment :=
      { codeDirectory := "ref", studentDirectory := "sub/", formatPoints := 5, listingOptions := "-a"
        testCases := some [missing, { shared with visibility := "visible", points := 10 }, shared] }
    Listing.Options.parse a.listingOptions = .ok o ∧
      (∀ c ∈ a.cases, (content FileTree.access files (a.referencePath c)).isOk) ∧
      ∃ report, (a.grade FileTree.access).run files = (.ok report, files) ∧
        (report.tests.map Test.maxScore).sum = 42 ∧
        ∃ t ∈ report.tests, t.visibility = "hidden" ∧ t.maxScore = 27 ∧ t.score = 7 ∧
          t.status = some .failed := by
  intro o header written files missing shared a
  have hsame : normalize written = referenceLines o "cli" := by
    rw [referenceLines_eq]
    exact normalize_document o "cli" rfl (by decide) (by decide) (by decide)
  have hoptions : Listing.Options.parse a.listingOptions = .ok o := by decide
  have hread : ∀ c ∈ a.cases, (content FileTree.access files (a.referencePath c)).isOk := by
    decide +kernel
  have hpaths : a.referencePath shared = "ref/1.asm" ∧ a.listingPath shared = "sub/1.lst" ∧
      (content FileTree.access files (a.listingPath missing)).isOk = false := by
    decide +kernel
  obtain ⟨hreference, hlisting, habsent⟩ := hpaths
  have hcontents (text : String) :
      let entries := [("ref/1.asm", "cli"), ("ref/-2.asm", ""), ("sub/1.lst", text)]
      content FileTree.access (.ofEntries entries) "ref/1.asm" = .ok "cli" ∧
        content FileTree.access (.ofEntries entries) "sub/1.lst" = .ok text :=
    ⟨rfl, rfl⟩
  have hshared : a.Passes FileTree.access files o shared := by
    unfold Assignment.Passes
    rw [hreference, hlisting]
    exact ⟨"cli", written, (hcontents written).1, (hcontents written).2, hsame⟩
  have hmissing : ¬ a.Passes FileTree.access files o missing := by
    rintro ⟨_, _, -, htext, -⟩
    rw [htext] at habsent
    cases habsent
  have hhidden : casesOf "hidden" a.cases = [missing, shared] := by decide
  obtain ⟨report, format, groups, hgrade, htests, -, -, -, hmem, hmax, hsums, -, -⟩ :=
    grade_sums_up_visibilities FileTree.access files a o FileTree.still_access hoptions
      fun c hc => exists_of_isOk (hread c hc)
  obtain ⟨t, ht, hvisibility⟩ := List.mem_map.mp ((hmem "hidden").mpr ⟨shared, by decide, rfl⟩)
  have hsum := hsums t ht
  rw [hvisibility, hhidden] at hsum
  refine ⟨hoptions, hread, report, hgrade, hmax.trans (by decide), t, ?_, hvisibility,
    hsum.maxScore.trans (by decide), ?_, hsum.failed_iff.mpr ?_⟩
  · rw [htests]
    exact List.mem_cons_of_mem _ ht
  · rw [hsum.score, List.filter_cons_of_neg (by simpa using hmissing),
      List.filter_cons_of_pos (by simpa using hshared)]
    decide
  · exact fun hall => hmissing (hall missing List.mem_cons_self)

end Files

end Grader

end SegAsm
