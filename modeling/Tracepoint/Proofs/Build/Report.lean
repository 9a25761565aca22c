import Mathlib.Tactic.Common
import Tracepoint.Build.Tool
import Tracepoint.Proofs.Effects
import Tracepoint.Proofs.Model.Build

/-!
# What a failed build reports

A build that fails is judged by the text that its two streams make, one written after the
other. What either stream reports is found in that text: the digits of a count may go on in
the other stream, but a count that is not zero stays one. Two kinds of reports come on top.
One starts in the first stream and ends in the other. The other one is a summary that counts
nothing but does not write `0` for it, since counts are compared as texts.

Results:

* `digits?_eq_some_iff`, `summary?_eq_some_iff`, `mem_summaries_iff`: summaries as they are
  read.
* `reportsFailedTests_iff`: what is taken for a report.
* `reports_append_iff`: the reports in a text that is written after another one.
* `run_verdict`: what every build comes to.
* `judge_without_report`: builds without failed tests that are taken for builds with failed
  tests.
-/

namespace Tracepoint.Build

open Shell Text

/-! ## Numerals -/

/-- A run of decimal digits, of any script. -/
structure IsNumeral (n : List Char) : Prop where
  ne_nil : n ≠ []
  digits : ∀ c ∈ n, isDecimalDigit c = true

/-- The value of a decimal digit. Digits of one script follow each other from 0 to 9. -/
def digitValue (c : Char) : Nat :=
  if c.toNat < 0x80 then c.toNat - '0'.toNat
  else
    ((decimalDigitRanges.find? fun r => r.1 ≤ c.toNat && c.toNat ≤ r.2).map
      fun r => (c.toNat - r.1) % 10).getD 0

/-- The number that digits write. -/
def number (n : List Char) : Nat := n.foldl (fun v c => 10 * v + digitValue c) 0

/-- A text does not start with a digit. -/
def StopsDigits (s : List Char) : Prop := ∀ c ∈ s.head?, isDecimalDigit c = false

theorem stopsDigits_nil : StopsDigits [] := fun c hc => by cases hc

theorem stopsDigits_cons {c : Char} {s : List Char} :
    StopsDigits (c :: s) ↔ isDecimalDigit c = false := by
  simp [StopsDigits]

/-- What stands before a text decides on its start, unless nothing does. -/
theorem StopsDigits.of_append {s t : List Char} (h : StopsDigits (s ++ t)) : StopsDigits s := by
  cases s with
  | nil => exact stopsDigits_nil
  | cons c s => exact stopsDigits_cons.2 (stopsDigits_cons.1 h)

theorem stopsDigits_append_of_comma {words : List Char} (h : words.head? = some ',')
    (s : List Char) : StopsDigits (words ++ s) := by
  cases words with
  | nil => cases h
  | cons c words =>
    cases h
    exact stopsDigits_cons.2 (by decide)

theorem stopsDigits_dropWhile (s : List Char) : StopsDigits (s.dropWhile isDecimalDigit) := by
  cases hrest : s.dropWhile isDecimalDigit with
  | nil => exact stopsDigits_nil
  | cons c rest =>
    have := List.head_dropWhile_not isDecimalDigit (l := s) (by simp [hrest])
    exact stopsDigits_cons.2 (by simpa [hrest] using this)

/-- Digits read off a text are as many as there are. -/
theorem digits?_eq_some_iff {s run rest : List Char} :
    digits? s = some (run, rest) ↔ IsNumeral run ∧ StopsDigits rest ∧ s = run ++ rest := by
  constructor
  · intro h
    rw [digits?] at h
    split at h
    · cases h
    · rename_i hne
      cases h
      exact ⟨⟨hne, fun c => List.mem_takeWhile_imp⟩, stopsDigits_dropWhile s,
        List.takeWhile_append_dropWhile.symm⟩
  · rintro ⟨⟨hne, hdigits⟩, hstop, rfl⟩
    have htake : (run ++ rest).takeWhile isDecimalDigit = run := by
      rw [List.takeWhile_append_of_pos hdigits]
      cases rest with
      | nil => simp
      | cons c rest =>
        rw [List.takeWhile_cons_of_neg (by simp [stopsDigits_cons.1 hstop]), List.append_nil]
    have hdrop : (run ++ rest).dropWhile isDecimalDigit = rest := by
      rw [List.dropWhile_append_of_pos hdigits]
      cases rest with
      | nil => rfl
      | cons c rest =>
        exact List.dropWhile_cons_of_neg (by simp [stopsDigits_cons.1 hstop])
    rw [digits?, htake, hdrop]
    cases run with
    | nil => exact absurd rfl hne
    | cons c run => rfl

/-! ## Summaries -/

/-- The text of a summary of tests. -/
def summaryText (run : List Char) (x : Summary) : List Char :=
  "Tests run: ".toList ++ run ++ ", Failures: ".toList ++ x.failures ++
    ", Errors: ".toList ++ x.errors

/-- A summary of tests stands in a text between two others. -/
structure Summarizes (x : Summary) (pre post s : List Char) : Prop where
  failures : IsNumeral x.failures
  errors : IsNumeral x.errors
  stops : StopsDigits post
  eq : ∃ run, IsNumeral run ∧ s = pre ++ summaryText run x ++ post

theorem summaryText_append (run : List Char) (x : Summary) (post : List Char) :
    summaryText run x ++ post =
      "Tests run: ".toList ++ (run ++ (", Failures: ".toList ++ (x.failures ++
        (", Errors: ".toList ++ (x.errors ++ post))))) := by
  unfold summaryText
  rw [List.append_assoc, List.append_assoc, List.append_assoc, List.append_assoc,
    List.append_assoc]

theorem summaryText_ne_nil (run : List Char) (x : Summary) : summaryText run x ≠ [] := by
  have hwords : "Tests run: ".toList ≠ [] := by decide
  unfold summaryText
  exact List.append_ne_nil_of_left_ne_nil (List.append_ne_nil_of_left_ne_nil
    (List.append_ne_nil_of_left_ne_nil (List.append_ne_nil_of_left_ne_nil
      (List.append_ne_nil_of_left_ne_nil hwords _) _) _) _) _

theorem summary?_eq_some_iff {s : List Char} {x : Summary} :
    summary? s = some x ↔ ∃ post, Summarizes x [] post s := by
  rw [summary?]
  simp only [Option.bind_eq_bind, Option.bind_eq_some_iff, Prod.exists, dropStart?_eq_some_iff,
    digits?_eq_some_iff, pure, Option.some.injEq]
  constructor
  · rintro ⟨_, rfl, run, _, ⟨hrun, -, rfl⟩, _, rfl, failures, _, ⟨hfailures, -, rfl⟩, _, rfl,
      errors, post, ⟨herrors, hstops, rfl⟩, rfl⟩
    exact ⟨post, hfailures, herrors, hstops, run, hrun,
      (summaryText_append run ⟨failures, errors⟩ post).symm⟩
  · rintro ⟨post, hfailures, herrors, hstops, run, hrun, rfl⟩
    -- Each count ends where the comma of the next words stands.
    have hfirst : StopsDigits (", Failures: ".toList ++ (x.failures ++
        (", Errors: ".toList ++ (x.errors ++ post)))) := stopsDigits_append_of_comma (by decide) _
    have hsecond : StopsDigits (", Errors: ".toList ++ (x.errors ++ post)) :=
      stopsDigits_append_of_comma (by decide) _
    exact ⟨_, summaryText_append run x post, run, _, ⟨hrun, hfirst, rfl⟩, _, rfl, x.failures, _,
      ⟨hfailures, hsecond, rfl⟩, _, rfl, x.errors, post, ⟨herrors, hstops, rfl⟩, rfl⟩

theorem mem_summaries_iff {s : List Char} {x : Summary} :
    x ∈ summaries s ↔ ∃ pre post, Summarizes x pre post s := by
  induction s with
  | nil =>
    refine ⟨fun h => absurd h List.not_mem_nil, ?_⟩
    rintro ⟨pre, post, -, -, -, run, -, h⟩
    rw [eq_comm, List.append_eq_nil_iff, List.append_eq_nil_iff] at h
    exact absurd h.1.2 (summaryText_ne_nil run x)
  | cons c s ih =>
    rw [summaries, List.mem_append, Option.mem_toList, summary?_eq_some_iff, ih]
    constructor
    · rintro (⟨post, h⟩ | ⟨pre, post, hf, he, hs, run, hrun, rfl⟩)
      · exact ⟨[], post, h⟩
      · exact ⟨c :: pre, post, hf, he, hs, run, hrun, rfl⟩
    · rintro ⟨_ | ⟨d, pre⟩, post, hf, he, hs, run, hrun, h⟩
      · exact .inl ⟨post, hf, he, hs, run, hrun, h⟩
      · obtain ⟨rfl, rfl⟩ := List.cons.inj h
        exact .inr ⟨pre, post, hf, he, hs, run, hrun, rfl⟩

/-! ## Reports -/

/-- A report of failed tests stands in a text between two others: one of the phrases, or a
    summary with a count that is more than nothing. -/
inductive ReportAt (counts : List Char → Prop) (pre post s : List Char) : Prop
  | phrase (p : String) (hp : p ∈ phrases) (h : s = pre ++ p.toList ++ post)
  | summary (x : Summary) (h : Summarizes x pre post s) (hc : counts x.failures ∨ counts x.errors)

/-- A text reports failed tests. -/
def Reports (counts : List Char → Prop) (s : List Char) : Prop :=
  ∃ pre post, ReportAt counts pre post s

/-- A report of failed tests starts in one text and ends in the next one. -/
def Straddles (counts : List Char → Prop) (s t : List Char) : Prop :=
  ∃ pre post, pre.length < s.length ∧ post.length < t.length ∧ ReportAt counts pre post (s ++ t)

theorem reports_or_iff {counts counts' : List Char → Prop} {s : List Char} :
    Reports (fun n => counts n ∨ counts' n) s ↔ Reports counts s ∨ Reports counts' s := by
  constructor
  · rintro ⟨pre, post, ⟨p, hp, h⟩ | ⟨x, h, (hc | hc) | (hc | hc)⟩⟩
    · exact .inl ⟨pre, post, .phrase p hp h⟩
    · exact .inl ⟨pre, post, .summary x h (.inl hc)⟩
    · exact .inr ⟨pre, post, .summary x h (.inl hc)⟩
    · exact .inl ⟨pre, post, .summary x h (.inr hc)⟩
    · exact .inr ⟨pre, post, .summary x h (.inr hc)⟩
  · rintro (⟨pre, post, ⟨p, hp, h⟩ | ⟨x, h, hc⟩⟩ | ⟨pre, post, ⟨p, hp, h⟩ | ⟨x, h, hc⟩⟩)
    · exact ⟨pre, post, .phrase p hp h⟩
    · exact ⟨pre, post, .summary x h (hc.imp .inl .inl)⟩
    · exact ⟨pre, post, .phrase p hp h⟩
    · exact ⟨pre, post, .summary x h (hc.imp .inr .inr)⟩

/-- Reports are found by looking for the phrases and reading the summaries. -/
theorem reports_iff {counts : List Char → Prop} {s : List Char} :
    Reports counts s ↔ (∃ p ∈ phrases, occursIn p.toList s = true) ∨
      ∃ x ∈ summaries s, counts x.failures ∨ counts x.errors := by
  simp only [occursIn_iff, mem_summaries_iff]
  constructor
  · rintro ⟨pre, post, ⟨p, hp, h⟩ | ⟨x, h, hc⟩⟩
    · exact .inl ⟨p, hp, pre, post, h.symm⟩
    · exact .inr ⟨x, ⟨pre, post, h⟩, hc⟩
  · rintro (⟨p, hp, pre, post, h⟩ | ⟨x, ⟨pre, post, h⟩, hc⟩)
    · exact ⟨pre, post, .phrase p hp h.symm⟩
    · exact ⟨pre, post, .summary x h hc⟩

/-- The output of a build is taken to report failed tests if it has one of the phrases or a
    summary with a count that is not written `0`. -/
theorem reportsFailedTests_iff {s : List Char} :
    reportsFailedTests s = true ↔ Reports (· ≠ ['0']) s := by
  simp only [reports_iff, reportsFailedTests, Summary.counts, Bool.or_eq_true, List.any_eq_true,
    decide_eq_true_eq]

/-- A report is a piece of text, and it is one wherever it stands before no digit. -/
theorem ReportAt.piece {counts : List Char → Prop} {pre post s : List Char}
    (h : ReportAt counts pre post s) :
    ∃ x, s = pre ++ x ++ post ∧
      ∀ pre' post', (StopsDigits post → StopsDigits post') →
        ReportAt counts pre' post' (pre' ++ x ++ post') := by
  obtain ⟨p, hp, rfl⟩ | ⟨x, ⟨hf, he, hs, run, hrun, rfl⟩, hc⟩ := h
  · exact ⟨p.toList, rfl, fun pre' post' _ => .phrase p hp rfl⟩
  · exact ⟨summaryText run x, rfl,
      fun pre' post' h => .summary x ⟨hf, he, h hs, run, hrun, rfl⟩ hc⟩

/-! ## Reports in two texts -/

/-- The digits at the end of a summary may go on in a further text. -/
theorem Reports.append_right {counts : List Char → Prop}
    (hmore : ∀ n m, IsNumeral n → counts n → counts (n ++ m)) {s : List Char}
    (h : Reports counts s) (t : List Char) : Reports counts (s ++ t) := by
  obtain ⟨pre, post, ⟨p, hp, rfl⟩ | ⟨x, ⟨hf, he, -, run, hrun, rfl⟩, hc⟩⟩ := h
  · exact ⟨pre, post ++ t, .phrase p hp (List.append_assoc ..)⟩
  · let more := (post ++ t).takeWhile isDecimalDigit
    let rest := (post ++ t).dropWhile isDecimalDigit
    have hsplit : post ++ t = more ++ rest := List.takeWhile_append_dropWhile.symm
    have herrors : IsNumeral (x.errors ++ more) :=
      ⟨List.append_ne_nil_of_left_ne_nil he.ne_nil more,
        fun c hc => (List.mem_append.1 hc).elim (he.digits c) List.mem_takeWhile_imp⟩
    have htext : pre ++ summaryText run x ++ post ++ t =
        pre ++ summaryText run ⟨x.failures, x.errors ++ more⟩ ++ rest := by
      unfold summaryText
      rw [List.append_assoc _ post, hsplit]
      simp only [List.append_assoc]
    exact ⟨pre, rest, .summary ⟨x.failures, x.errors ++ more⟩
      ⟨hf, herrors, stopsDigits_dropWhile _, run, hrun, htext⟩
      (hc.imp_right (hmore _ more he))⟩

theorem Reports.append_left {counts : List Char → Prop} {t : List Char}
    (h : Reports counts t) (s : List Char) : Reports counts (s ++ t) := by
  obtain ⟨pre, post, h⟩ := h
  obtain ⟨x, rfl, hmove⟩ := h.piece
  refine ⟨s ++ pre, post, ?_⟩
  rw [List.append_assoc pre, ← List.append_assoc s, ← List.append_assoc]
  exact hmove (s ++ pre) post id

/-- A text that is written after another one reports what either of them reports and what
    starts in the first and ends in the second one. -/
theorem reports_append_iff {counts : List Char → Prop}
    (hmore : ∀ n m, IsNumeral n → counts n → counts (n ++ m)) {s t : List Char} :
    Reports counts (s ++ t) ↔ Reports counts s ∨ Reports counts t ∨ Straddles counts s t := by
  constructor
  · rintro ⟨pre, post, h⟩
    obtain ⟨x, heq, hmove⟩ := h.piece
    by_cases hpost : t.length ≤ post.length
    · -- It ends in the first text.
      obtain ⟨rest, rfl⟩ : t <:+ post := by
        refine List.suffix_of_suffix_length_le (List.suffix_append s t) ?_ hpost
        exact heq ▸ List.suffix_append (pre ++ x) post
      rw [← List.append_assoc, List.append_cancel_right_eq] at heq
      exact .inl ⟨pre, rest, heq ▸ hmove pre rest StopsDigits.of_append⟩
    · by_cases hpre : s.length ≤ pre.length
      · -- It starts in the second text.
        obtain ⟨rest, rfl⟩ : s <+: pre := by
          refine List.prefix_of_prefix_length_le (List.prefix_append s t) ?_ hpre
          rw [heq, List.append_assoc]
          exact List.prefix_append pre _
        rw [List.append_assoc s, List.append_assoc s, List.append_cancel_left_eq] at heq
        exact .inr (.inl ⟨rest, post, heq ▸ hmove rest post id⟩)
      · exact .inr (.inr ⟨pre, post, by omega, by omega, h⟩)
  · rintro (h | h | ⟨pre, post, -, -, h⟩)
    · exact h.append_right hmore t
    · exact h.append_left s
    · exact ⟨pre, post, h⟩

/-! ## What builds come to -/

/-- A count that is more than nothing. -/
def Counts (n : List Char) : Prop := number n ≠ 0

instance (n : List Char) : Decidable (Counts n) := inferInstanceAs (Decidable (number n ≠ 0))

/-- Nothing, written in another way than `0`. -/
def OddZero (n : List Char) : Prop := number n = 0 ∧ n ≠ ['0']

theorem ne_zero_iff (n : List Char) : n ≠ ['0'] ↔ Counts n ∨ OddZero n := by
  have hzero : number ['0'] = 0 := by decide
  constructor
  · intro h
    by_cases hn : number n = 0
    · exact .inr ⟨hn, h⟩
    · exact .inl hn
  · rintro (h | h)
    · rintro rfl
      exact h hzero
    · exact h.2

theorem ne_zero_append {n : List Char} (m : List Char) (hn : IsNumeral n) (h : n ≠ ['0']) :
    n ++ m ≠ ['0'] := by
  intro heq
  obtain ⟨hnil, -⟩ | ⟨hzero, -⟩ := List.append_eq_singleton_iff.1 heq
  · exact hn.ne_nil hnil
  · exact h hzero

/-- One of the two streams of a build alone reports failed tests. -/
def Reported (stdout stderr : List Char) : Prop := Reports Counts stdout ∨ Reports Counts stderr

/-- What is taken for a report of failed tests and is none: a summary in one of the streams that
    writes a nothing oddly, or a report that only the two together make. -/
def Misread (stdout stderr : List Char) : Prop :=
  (Reports OddZero stdout ∨ Reports OddZero stderr) ∨ Straddles (· ≠ ['0']) stdout stderr

theorem reportsFailedTests_append_iff {s t : List Char} :
    reportsFailedTests (s ++ t) = true ↔ Reported s t ∨ Misread s t := by
  have hsplit : ∀ u, Reports (· ≠ ['0']) u ↔ Reports Counts u ∨ Reports OddZero u := fun u => by
    rw [← reports_or_iff, funext fun n => propext (ne_zero_iff n)]
  rw [reportsFailedTests_iff, reports_append_iff fun n m => ne_zero_append m, hsplit, hsplit,
    Reported, Misread]
  tauto

/-- A build comes to success exactly with status 0, and else to failed tests exactly under a
    condition. -/
structure Verdict (failed : Prop) (status : Option Nat) (stdout stderr : String)
    (milliseconds : Nat) (r : Except BuildError Success) : Prop where
  success : r = .ok ⟨stdout, stderr, milliseconds⟩ ↔ status = some 0
  testsFailed : r = .error (.testsFailed status (stdout ++ stderr)) ↔ status ≠ some 0 ∧ failed
  compileFailed : r = .error (.compileFailed status (stdout ++ stderr)) ↔
    status ≠ some 0 ∧ ¬ failed

/-- A verdict holds under two conditions exactly if they agree on every build that fails. -/
theorem Verdict.iff_of_condition {failed : Prop} {status : Option Nat} {stdout stderr : String}
    {milliseconds : Nat} {r : Except BuildError Success}
    (h : Verdict failed status stdout stderr milliseconds r) {failed' : Prop} :
    Verdict failed' status stdout stderr milliseconds r ↔
      (status ≠ some 0 → (failed ↔ failed')) := by
  constructor
  · intro h' hstatus
    have hboth := h.testsFailed.symm.trans h'.testsFailed
    rwa [and_iff_right hstatus, and_iff_right hstatus] at hboth
  · intro hsame
    exact ⟨h.success, h.testsFailed.trans (and_congr_right hsame),
      h.compileFailed.trans (and_congr_right fun hstatus => not_congr (hsame hstatus))⟩

theorem judge_verdict (status : Option Nat) (stdout stderr : String) (milliseconds : Nat) :
    Verdict (Reported stdout.toList stderr.toList ∨ Misread stdout.toList stderr.toList)
      status stdout stderr milliseconds (judge status stdout stderr milliseconds) := by
  rw [judge, ← reportsFailedTests_append_iff, ← String.toList_append]
  by_cases hstatus : status = some 0
  · rw [if_pos hstatus]
    exact ⟨by simp [hstatus], by simp [hstatus], by simp [hstatus]⟩
  · rw [if_neg hstatus]
    by_cases hreport : reportsFailedTests (stdout ++ stderr).toList = true
    · rw [if_pos hreport]
      exact ⟨by simp [hstatus], iff_of_true rfl ⟨hstatus, hreport⟩,
        iff_of_false (by simp) fun h => h.2 hreport⟩
    · rw [if_neg hreport]
      exact ⟨by simp [hstatus], iff_of_false (by simp) fun h => hreport h.2,
        iff_of_true rfl ⟨hstatus, hreport⟩⟩

/-- Two streams that report nothing, and a summary that counts nothing, can be taken for failed
    tests. -/
theorem judge_without_report :
    (¬ Reports Counts "Tests run: 4, Failures: 1".toList ∧
      ¬ Reports Counts ", Errors: 0".toList ∧
      judge (some 1) "Tests run: 4, Failures: 1" ", Errors: 0" 0 =
        .error (.testsFailed (some 1) "Tests run: 4, Failures: 1, Errors: 0")) ∧
    (¬ Reports Counts "Tests run: 4, Failures: 00, Errors: 0".toList ∧
      judge (some 1) "Tests run: 4, Failures: 00, Errors: 0" "" 0 =
        .error (.testsFailed (some 1) "Tests run: 4, Failures: 00, Errors: 0")) := by
  simp only [reports_iff]
  decide +kernel

/-! ## Running a build -/

/-- The log is nothing to a program. -/
theorem launch_logged (program : String) (args : List String) (dir : Path) (w : World)
    (lines : List LogLine) :
    (launch program args dir (w.logged lines)).1 = (launch program args dir w).1 := by
  have hget : ∀ v : World, (get : Action World) v = (.ok v, v) := fun _ => rfl
  rw [launch, Effect.bind_of_ok (hget (w.logged lines)), Effect.bind_of_ok (hget w),
    World.disk_logged, World.cwd_logged]
  cases w.disk.resolve w.cwd dir true with
  | error fault => rfl
  | ok cwd =>
    cases w.disk.entryAt w.cwd dir with
    | error fault => rfl
    | ok entry =>
      cases entry with
      | directory =>
        dsimp only
        split
        · rfl
        · cases utility? (programName program) args { disk := w.disk, cwd := cwd } <;> rfl
      | file _ => rfl
      | link _ => rfl

theorem logLines_apply (texts : List String) (w : World) :
    logLines texts w = (.ok (), w.logged ((texts.flatMap fun text => lines text.toList).map
      fun line => ⟨.info, String.ofList line⟩)) := by
  rw [logLines]
  generalize (texts.flatMap fun text => lines text.toList) = shown
  induction shown generalizing w with
  | nil => exact congrArg _ (World.logged_nil w).symm
  | cons line shown ih =>
    show (Action.info (String.ofList line) >>= fun _ => shown.forM _) w = _
    rw [Effect.bind_of_ok (Action.info_apply _ w), ih, World.logged_logged]
    rfl

/-- A build whose program cannot start or takes too long fails for that. Every other one is
    judged by its status and its streams, whether they are shown or not. -/
theorem run_eq (t : Tool) (dir : Path) (w : World) {r : Except Fault Finished}
    (h : (launch t.program t.phases dir w).1 = .ok r) :
    (t.run dir w).1 =
      match r with
      | .error fault => .error (.build (.spawn t.program fault))
      | .ok finished =>
        match t.exceeded? finished.milliseconds with
        | some limit => .error (.build (.timeout limit))
        | none =>
          (judge (statusOf finished.ending) (decoded finished.stdout) (decoded finished.stderr)
            finished.milliseconds).mapError .build := by
  unfold Tool.run
  dsimp only
  rw [Effect.bind_of_ok (Action.info_apply _ w)]
  rw [← launch_logged] at h
  rw [Effect.bind_of_ok (Prod.ext h rfl)]
  cases r with
  | error fault => rfl
  | ok finished =>
    dsimp only
    cases t.exceeded? finished.milliseconds with
    | some limit => rfl
    | none =>
      dsimp only
      generalize judge (statusOf finished.ending) (decoded finished.stdout)
        (decoded finished.stderr) finished.milliseconds = judged
      cases t.verbose with
      | false => cases judged <;> rfl
      | true =>
        rw [if_pos rfl, Effect.bind_of_ok (logLines_apply _ _)]
        cases judged <;> rfl

/-- A build succeeds exactly with status 0. Otherwise its tests failed exactly if one of its
    streams alone reports that or something is misread for it, and else it did not compile. So
    what a stream reports is never lost, and the reports of the streams alone decide unless a
    build fails that reports nothing and has something misread. Running a tool comes to the
    same for what its process left, if it ends in time. -/
theorem run_verdict (status : Option Nat) (stdout stderr : String) (milliseconds : Nat) :
    Verdict (Reported stdout.toList stderr.toList ∨ Misread stdout.toList stderr.toList)
      status stdout stderr milliseconds (judge status stdout stderr milliseconds) ∧
    (Verdict (Reported stdout.toList stderr.toList) status stdout stderr milliseconds
        (judge status stdout stderr milliseconds) ↔
      (status ≠ some 0 → Misread stdout.toList stderr.toList →
        Reported stdout.toList stderr.toList)) ∧
    ∀ (t : Tool) (dir : Path) (w : World) (finished : Finished),
      (launch t.program t.phases dir w).1 = .ok (.ok finished) →
      statusOf finished.ending = status → decoded finished.stdout = stdout →
      decoded finished.stderr = stderr → finished.milliseconds = milliseconds →
      t.exceeded? milliseconds = none →
      (t.run dir w).1 = (judge status stdout stderr milliseconds).mapError .build := by
  have hverdict := judge_verdict status stdout stderr milliseconds
  refine ⟨hverdict, ?_, ?_⟩
  · rw [hverdict.iff_of_condition, or_iff_left_iff_imp]
  · rintro t dir w finished hlaunch rfl rfl rfl rfl hintime
    rw [run_eq t dir w hlaunch]
    dsimp only
    rw [hintime]

/-- A tool that misses a file, and what it says about it. -/
def complaining : Tool := { program := "cat", phases := ["There are test failures"] }

def complaint : String := "cat: There are test failures: No such file or directory\n"

theorem run_verdict_of_complaint :
    (∃ finished, (launch complaining.program complaining.phases ⟨"/"⟩ {}).1 =
      .ok (.ok finished) ∧ complaining.exceeded? finished.milliseconds = none) ∧
    (complaining.run ⟨"/"⟩ {}).1 = .error (.build (.testsFailed (some 1) complaint)) := by
  have hlaunch : (launch complaining.program complaining.phases ⟨"/"⟩ {}).1 =
      .ok (.ok ⟨.empty, complaint.toUTF8, .exited 1, 0⟩) := by
    rw [complaint]
    rfl
  have hstdout : decoded .empty = "" := by decide +kernel
  have hstderr : decoded complaint.toUTF8 = complaint := by decide +kernel
  have hreport : Reports Counts complaint.toList := by
    rw [reports_iff]
    decide +kernel
  obtain ⟨hverdict, -, hrun⟩ := run_verdict (some 1) "" complaint 0
  have hfailed := hverdict.testsFailed.2 ⟨by decide, .inl (.inr hreport)⟩
  refine ⟨⟨_, hlaunch, rfl⟩, ?_⟩
  rw [hrun complaining ⟨"/"⟩ {} _ hlaunch rfl hstdout hstderr rfl rfl, hfailed,
    String.empty_append]
  rfl

end Tracepoint.Build
