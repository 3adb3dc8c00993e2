import AgentTrajectory.IncrementalDocument
import AgentTrajectory.IncrementalRuns
import AgentTrajectory.PyJsonRoundtrip
import AgentTrajectory.PyLines

/-! The numbers of the task headings in the documents of `run_incremental`. The sections of
hard-frozen tasks keep the number of the run that rendered them, so the headings count from
one without a gap only as long as exactly the first tasks stay frozen. -/
namespace AgentTrajectory.IncrementalSegment
open PyText PyDict PyJson TaskStitch LlmSegment

/-- The number that a heading line carries. -/
def headingNumber (line : PyStr) : Option ℕ :=
  let digits := (line.drop headingMark.length).takeWhile isDigit
  if startswith line headingMark && !digits.isEmpty then some (digitsValue digits) else none

/-- The numbers of the task headings of a document. -/
def headingNumbers (md : PyStr) : List ℕ := (splitlines md).filterMap headingNumber

lemma headingNumber_nil : headingNumber [] = none := by decide

lemma headingNumber_eq_none {line : PyStr} (h : startswith line headingMark = false) :
    headingNumber line = none := by
  simp [headingNumber, h]

lemma headingNumbers_oneLine {line : PyStr} (h : oneLine line = true) :
    headingNumbers line = (headingNumber line).toList := by
  rw [headingNumbers, splitlines_oneLine h]
  split_ifs with hline
  · simp [hline, headingNumber_nil]
  · cases hn : headingNumber line <;> simp [hn]

lemma headingNumbers_join (ls : List PyStr) :
    headingNumbers (join (py "\n") ls) = ls.flatMap headingNumbers :=
    filterMap_splitlines_join headingNumber_nil ls

lemma headingNumber_snoc (line : PyStr) {c : CodePoint} (hc : isSpace c = true) :
    headingNumber (line ++ [c]) = headingNumber line := by
  have hdigit := isDigit_of_isSpace hc
  by_cases hline : headingMark <+: line
  · obtain ⟨r, rfl⟩ := hline
    have htake : (r ++ [c]).takeWhile isDigit = r.takeWhile isDigit := by
      rw [List.takeWhile_append]
      split_ifs with hall
      · have hr : r.takeWhile isDigit = r := (List.takeWhile_prefix isDigit).eq_of_length hall
        simp [hr, hdigit]
      · rfl
    rw [headingNumber, headingNumber, List.append_assoc, List.drop_left, List.drop_left,
      htake, startswith_append, startswith_append]
  · rw [headingNumber_eq_none (Bool.eq_false_iff.mpr (mt (startswith_iff _ _).mp hline))]
    by_cases hsnoc : headingMark <+: line ++ [c]
    · have hmark : headingMark = line ++ [c] :=
        (List.prefix_concat_iff.mp hsnoc).resolve_right hline
      rw [← hmark]
      decide
    · exact headingNumber_eq_none (Bool.eq_false_iff.mpr (mt (startswith_iff _ _).mp hsnoc))

lemma numbers_splitlinesFrom_snoc (s : PyStr) {c : CodePoint} (hc : isSpace c = true)
    {cr : Bool} {cur : PyStr} (hcr : cr = true → cur = []) :
    (splitlinesFrom cr cur (s ++ [c])).filterMap headingNumber =
      (splitlinesFrom cr cur s).filterMap headingNumber := by
  induction s generalizing cr cur with
  | nil =>
    rw [List.nil_append]
    conv_lhs => rw [splitlinesFrom]
    split_ifs with hswallow hbreak
    · obtain rfl := hcr (Bool.and_eq_true_iff.mp hswallow).1
      rfl
    · by_cases hcur : cur = []
      · simp [splitlinesFrom, hcur, headingNumber_nil]
      · simp [splitlinesFrom, hcur]
    · have hsnoc := headingNumber_snoc cur.reverse hc
      by_cases hcur : cur = []
      · subst hcur
        simpa [splitlinesFrom, headingNumber_nil] using hsnoc
      · simp [splitlinesFrom, hcur, List.filterMap_cons, hsnoc]
  | cons x s ih =>
    rw [List.cons_append, splitlinesFrom, splitlinesFrom]
    split_ifs
    · exact ih (by simp)
    · rw [List.filterMap_cons, List.filterMap_cons, ih (by simp)]
    · exact ih (by simp)

lemma headingNumbers_rstrip (s : PyStr) : headingNumbers (rstrip s) = headingNumbers s := by
  induction s using List.reverseRecOn with
  | nil => rfl
  | append_singleton s c ih =>
    rw [rstrip, List.rdropWhile_concat]
    split_ifs with hc
    · exact ih.trans (numbers_splitlinesFrom_snoc s hc (by simp)).symm
    · rfl

lemma headingNumbers_blank {s : PyStr} (h : strip s = []) : headingNumbers s = [] := by
  have hspaces : ∀ c ∈ s, isSpace c = true := by
    intro c hc
    rw [← List.takeWhile_append_dropWhile (p := isSpace) (l := s)] at hc
    rcases List.mem_append.mp hc with hc | hc
    · exact List.mem_takeWhile_imp hc
    · exact List.rdropWhile_eq_nil_iff.mp h c hc
  rw [← headingNumbers_rstrip, rstrip, List.rdropWhile_eq_nil_iff.mpr hspaces]
  rfl

/-- A line at which `split_task_sections` opens a section. -/
def isMark (line : PyStr) : Bool := startswith line headingMark

def markNumber (line : PyStr) :
    Option (Option ℕ) := if isMark line then some (headingNumber line) else none

def marks (md : PyStr) : List (Option ℕ) := (splitlines md).filterMap markNumber

lemma markNumber_nil : markNumber [] = none := by decide

lemma marks_join (ls : List PyStr) : marks (join (py "\n") ls) = ls.flatMap marks :=
  filterMap_splitlines_join markNumber_nil ls

lemma headingNumbers_eq_marks (md : PyStr) : headingNumbers md = (marks md).reduceOption := by
  rw [headingNumbers, marks, List.reduceOption, List.filterMap_filterMap]
  refine List.filterMap_congr fun l _ => ?_
  rw [markNumber]
  split_ifs with hl
  · rfl
  · exact headingNumber_eq_none (by simpa [isMark] using hl)

lemma length_marks (md : PyStr) : (marks md).length = (splitlines md).countP isMark := by
  rw [marks]
  induction splitlines md with
  | nil => rfl
  | cons l ls ih =>
    by_cases hl : isMark l = true
    · simp [markNumber, hl, ih]
    · simp [markNumber, hl, ih]

lemma marks_text {lit : PyStr} (hlit : 2 ≤ lit.length)
    (hne : lit.take 2 ≠ headingMark.take 2) {s : PyStr}
    (h : oneLine (lit ++ s) = true) : marks (lit ++ s) = [] := by
  have hmark : ¬ headingMark <+: lit ++ s := by
    rintro ⟨r, hr⟩
    refine hne ?_
    have htake := congrArg (List.take 2) hr
    rw [List.take_append_of_le_length (by decide), List.take_append_of_le_length hlit] at htake
    exact htake.symm
  have hnone : markNumber (lit ++ s) = none :=
    if_neg fun hstart => hmark ((startswith_iff _ _).mp hstart)
  rw [marks, splitlines_oneLine h]
  split_ifs
  · rfl
  · simp [hnone]

lemma flatMap_headingNumbers {lines : List PyStr} (h : ∀ l ∈ lines, oneLine l = true) :
    lines.flatMap headingNumbers = lines.filterMap headingNumber := by
  induction lines with
  | nil => rfl
  | cons l ls ih =>
    rw [List.flatMap_cons, headingNumbers_oneLine (h l (by simp)), List.filterMap_cons,
      ih fun l' hl' => h l' (List.mem_cons_of_mem _ hl')]
    cases headingNumber l <;> rfl

lemma headingNumbers_closeSection {lines : List PyStr} (h : ∀ l ∈ lines, oneLine l = true) :
    headingNumbers (closeSection lines) = lines.filterMap headingNumber := by
  have hnl : headingNumbers (closeSection lines) =
    headingNumbers (rstrip (join (py "\n") lines)) ++ [] :=
    filterMap_splitlines_append headingNumber_nil _ []
  rw [hnl, List.append_nil, headingNumbers_rstrip, headingNumbers_join, flatMap_headingNumbers h]

lemma splitLoop_numbers (lines cur : List PyStr) (hcur : ∀ l ∈ cur, oneLine l = true)
    (hlines : ∀ l ∈ lines, oneLine l = true) :
    (splitLoop cur lines).flatMap headingNumbers = (cur ++ lines).filterMap headingNumber := by
  induction lines generalizing cur with
  | nil =>
    rw [splitLoop, List.append_nil]
    split_ifs with hnil
    · simp [hnil]
    · simpa using headingNumbers_closeSection hcur
  | cons l ls ih =>
    have hl : oneLine l = true := hlines l (by simp)
    have hls : ∀ x ∈ ls, oneLine x = true := fun x hx => hlines x (List.mem_cons_of_mem _ hx)
    rw [splitLoop]
    split_ifs with hmark hnil hnil
    · subst hnil
      exact ih [l] (by simpa using hl) hls
    · rw [List.flatMap_cons, headingNumbers_closeSection hcur, ih [l] (by simpa using hl) hls,
        ← List.filterMap_append]
      simp
    · subst hnil
      rw [ih [] (by simp) hls, List.nil_append, List.nil_append, List.filterMap_cons,
        headingNumber_eq_none (by simpa using hmark)]
    · rw [ih (cur ++ [l]) (by simpa [or_imp, forall_and] using ⟨hcur, hl⟩) hls, List.append_assoc]
      rfl

lemma length_splitLoop (lines cur : List PyStr) :
    (splitLoop cur lines).length = (if cur = [] then 0 else 1) + lines.countP isMark := by
  induction lines generalizing cur with
  | nil =>
    rw [splitLoop]
    split_ifs <;> rfl
  | cons l ls ih =>
    rw [splitLoop]
    split_ifs with hmark hnil hnil
    · rw [ih, List.countP_cons_of_pos (p := isMark) hmark]
      simp [Nat.add_comm]
    · rw [List.length_cons, ih, List.countP_cons_of_pos (p := isMark) hmark]
      simp [Nat.add_comm]
    · rw [ih, List.countP_cons_of_neg (p := isMark) hmark]
      simp
    · rw [ih, List.countP_cons_of_neg (p := isMark) hmark]
      simp

lemma splitLoop_single (lines cur : List PyStr) (hcur : ∀ l ∈ cur, oneLine l = true)
    (hlines : ∀ l ∈ lines, oneLine l = true) (hone : (cur.filterMap headingNumber).length ≤ 1) :
    ∀ sec ∈ splitLoop cur lines, (headingNumbers sec).length ≤ 1 := by
  induction lines generalizing cur with
  | nil =>
    rw [splitLoop]
    split_ifs
    · simp
    · simpa [headingNumbers_closeSection hcur] using hone
  | cons l ls ih =>
    have hl : oneLine l = true := hlines l (by simp)
    have hls : ∀ x ∈ ls, oneLine x = true := fun x hx => hlines x (List.mem_cons_of_mem _ hx)
    have hsingle : ([l].filterMap headingNumber).length ≤ 1 := List.length_filterMap_le _ _
    rw [splitLoop]
    split_ifs with hmark hnil hnil
    · exact ih [l] (by simpa using hl) hls hsingle
    · intro sec hsec
      rcases List.mem_cons.mp hsec with rfl | hsec
      · rwa [headingNumbers_closeSection hcur]
      · exact ih [l] (by simpa using hl) hls hsingle sec hsec
    · exact ih [] (by simp) hls (by simp)
    · refine ih (cur ++ [l]) (by simpa [or_imp, forall_and] using ⟨hcur, hl⟩) hls ?_
      simpa [headingNumber_eq_none (by simpa using hmark : startswith l headingMark = false)] using
        hone

lemma splitlines_lines (md : PyStr) : ∀ l ∈ splitlines md, oneLine l = true :=
  oneLine_of_mem_splitlinesFrom rfl

lemma splitTaskSections_numbers (md : PyStr) :
    (splitTaskSections md).flatMap headingNumbers = headingNumbers md :=
  splitLoop_numbers _ [] (by simp) (splitlines_lines md)

lemma length_splitTaskSections (md : PyStr) :
    (splitTaskSections md).length = (splitlines md).countP isMark := by
  rw [splitTaskSections, length_splitLoop, if_pos rfl, Nat.zero_add]

lemma splitTaskSections_single (md : PyStr) :
    ∀ sec ∈ splitTaskSections md, (headingNumbers sec).length ≤ 1 :=
  splitLoop_single _ [] (by simp) (splitlines_lines md) (by simp)

section Documents
variable (d : DocEnv)

lemma oneLine_windowDesc (events : List Event) : oneLine (windowDesc d events) = true := by
  rw [windowDesc]
  split
  · simp only [oneLine_append, d.clock_oneLine, oneLine_natDigits, and_true, true_and]
    decide +kernel
  · decide +kernel

lemma marks_window (events : List Event) :
    marks (py "- 群：`" ++ d.groupId ++ py "`　窗口：" ++ windowDesc d events) = [] := by
  rw [List.append_assoc, List.append_assoc]
  refine marks_text (by decide +kernel) (by decide +kernel) ?_
  simp only [oneLine_append, d.groupId_oneLine, oneLine_windowDesc, and_true, true_and]
  decide +kernel

lemma headingNumbers_sections (sections : List PyStr) :
    headingNumbers
      (rstrip (join (py "\n") ((sections.filter fun s => !(strip s).isEmpty).map rstrip))) =
      sections.flatMap headingNumbers := by
  rw [headingNumbers_rstrip, headingNumbers_join, List.flatMap_map]
  induction sections with
  | nil => rfl
  | cons s ss ih =>
    rw [List.filter_cons, List.flatMap_cons, ← ih]
    split_ifs with hs
    · rw [List.flatMap_cons, headingNumbers_rstrip]
    · rw [headingNumbers_blank (by simpa using hs), List.nil_append]

lemma headingNumbers_combined (events : List Event) (sections : List PyStr) :
    headingNumbers (combinedDecomposeMd d (windowDesc d events) sections) =
      sections.flatMap headingNumbers := by
  have hwindow : headingNumbers (py "- 群：`" ++ d.groupId ++ py "`　窗口：" ++ windowDesc d events) =
      [] := by
    rw [headingNumbers_eq_marks, marks_window]
    rfl
  have hcount : headingNumbers (py "- 任务数：" ++ natDigits sections.length ++
      py "（冻结任务原样复用，活动尾巴重新下钻）") = [] := by
    rw [headingNumbers_eq_marks, List.append_assoc,
      marks_text (by decide +kernel) (by decide +kernel)]
    · rfl
    · simp only [oneLine_append, oneLine_natDigits, true_and]
      decide +kernel
  have htitle : headingNumbers (py "# 任务 → 子需求　增量两级拆分") = [] := by decide +kernel
  have hrule : headingNumbers (py "---") = [] := by decide +kernel
  rw [combinedDecomposeMd, headingNumbers_join]
  simp only [List.flatMap_cons, List.flatMap_nil, htitle, hrule, hcount, hwindow,
    headingNumbers_sections, show headingNumbers [] = [] from rfl, List.nil_append, List.append_nil]

/-- The headings of a section that is rendered with number `ti`: its own, and those that its
texts bring along. -/
def textMarks (ti : ℕ) (t : TaskText) : List (Option ℕ) :=
  some ti :: ((splitlines t.rest).tail ++ t.body.flatMap splitlines).filterMap markNumber

/-- The headings of rendered sections, numbered from `start` on. -/
def taskMarks (start : ℕ) (texts : List TaskText) : List (Option ℕ) :=
  (texts.zipIdx start).flatMap fun t => textMarks t.2 t.1

lemma headingNumber_heading (ti : ℕ) (s : PyStr) :
    headingNumber (headingMark ++ natDigits ti ++ cp '　' :: s) = some ti := by
  have hdigits : (natDigits ti ++ cp '　' :: s).takeWhile isDigit = natDigits ti := by
    rw [List.takeWhile_append_of_pos (natDigits_isDigit ti),
      List.takeWhile_cons_of_neg (by decide), List.append_nil]
  rw [headingNumber, List.append_assoc, List.drop_left, hdigits, startswith_append]
  simp [natDigits_ne_nil, digitsValue_natDigits]

lemma splitlines_heading (ti : ℕ) (t : TaskText) :
    ∃ first, splitlines (headingMark ++ natDigits ti ++ t.rest) =
      (headingMark ++ natDigits ti ++ cp '　' :: first) :: (splitlines t.rest).tail := by
  have hrest : t.rest = cp '　' ::
    (t.title ++ if t.terminal then [] else py "　⏳**未终结(incomplete)**") := rfl
  have hfront : oneLine (headingMark ++ natDigits ti) = true :=
    oneLine_append.mpr ⟨by decide, oneLine_natDigits ti⟩
  have hwide : isLineBreak (cp '　') = false := by decide
  have hopen : ∀ cur r, splitlinesFrom false cur (cp '　' :: r) =
      splitlinesFrom false (cp '　' :: cur) r := by
    intro cur r
    rw [splitlinesFrom]
    simp [hwide]
  rw [hrest]
  generalize t.title ++ (if t.terminal then [] else py "　⏳**未终结(incomplete)**") = r
  obtain ⟨first, rest, hfirst⟩ := splitlinesFrom_open (List.cons_ne_nil (cp '　') []) r
  refine ⟨first, ?_⟩
  rw [splitlines, splitlinesFrom_oneLine hfront, hopen, splitlines, hopen, List.append_nil,
    ← List.singleton_append, splitlinesFrom_modifyHead _ (by simp), hfirst]
  simp

lemma marks_section (ti : ℕ) (t : TaskText) :
    (sectionLines ti t).flatMap marks = textMarks ti t := by
  obtain ⟨first, hfirst⟩ := splitlines_heading ti t
  have hmark : markNumber (headingMark ++ natDigits ti ++ cp '　' :: first) = some (some ti) := by
    rw [markNumber, headingNumber_heading, isMark, List.append_assoc, startswith_append]
    rfl
  rw [sectionLines, textMarks, List.flatMap_cons, marks, hfirst, List.filterMap_cons,
    hmark, List.filterMap_append, List.filterMap_flatMap]
  rfl

lemma marks_head (events : List Event) (tasks subtasks : ℕ) :
    (renderHead d (windowDesc d events) tasks subtasks).flatMap marks = [] := by
  have htitle : marks (py "# 任务 → 子需求　两级拆分（model=" ++ d.model ++ py "）") = [] := by
    rw [List.append_assoc]
    refine marks_text (by decide +kernel) (by decide +kernel) ?_
    simp only [oneLine_append, d.model_oneLine, true_and]
    decide +kernel
  have hcount : marks (py "- " ++ natDigits tasks ++ py " 个任务 → 共 **" ++ natDigits subtasks ++
      py "** 个子需求（子需求=「小目标→走偏→被纠→做对」的改写单位）") = [] := by
    rw [List.append_assoc, List.append_assoc, List.append_assoc]
    refine marks_text (by decide +kernel) (by decide +kernel) ?_
    simp only [oneLine_append, oneLine_natDigits, true_and]
    decide +kernel
  have hrule : marks (py "---") = [] := by decide +kernel
  rw [renderHead]
  simp only [List.flatMap_cons, List.flatMap_nil, htitle, hcount, hrule, marks_window,
    show marks [] = [] from rfl, List.nil_append]

lemma marks_activeDocument (events : List Event) (start : ℕ) (texts : List TaskText) (a : Answer) :
    marks (activeDocument d (windowDesc d events) start texts a) = taskMarks start texts := by
  rw [activeDocument]
  split_ifs with htexts
  · rw [htexts]
    rfl
  · rw [renderDecompose, marks_join, List.flatMap_append, marks_head, List.nil_append,
      List.flatMap_assoc, taskMarks]
    exact List.flatMap_congr fun t _ => marks_section t.2 t.1

end Documents

section Runs

/-- The stored state after any number of runs that wrote a document. -/
inductive WrittenRuns : Option State → Prop
  | start : WrittenRuns none
  | run {state : Option State} {out : Output} (d : DocEnv) (batch : List Event)
    (thawHours : ℤ) (answer : RunAnswer) :
      WrittenRuns state → runWithDocument d state batch thawHours answer = some out →
        WrittenRuns (some out.state)

/-- What a run renders for the active area. -/
def runTexts (d : DocEnv) (state : Option State) (batch : List Event)
    (thawHours : ℤ) (answer : RunAnswer) :
    List TaskText :=
  match runClusters d state batch thawHours (some answer) with
  | some r => taskTexts d r.1 answer
  | none => []

/-- The numbers in the stored sections of tasks. -/
def storedNumbers (tasks : List TaskRecord) :
    List ℕ := tasks.flatMap fun t => headingNumbers t.renderMd

variable {d : DocEnv} {state : Option State} {batch : List Event} {thawHours : ℤ}
    {answer : RunAnswer} {out : Output}

structure DocumentOf (d : DocEnv) (state : Option State) (batch : List Event)
    (thawHours : ℤ) (answer : RunAnswer) (out : Output) : Prop where
  hard : out.hardSections = (keptTasks state batch thawHours).map TaskRecord.renderMd
  numbers : headingNumbers out.document = storedNumbers (keptTasks state batch thawHours) ++
    (taskMarks ((keptTasks state batch thawHours).length + 1)
      (runTexts d state batch thawHours answer)).reduceOption
  active : out.activeSections.length =
    (taskMarks ((keptTasks state batch thawHours).length + 1)
      (runTexts d state batch thawHours answer)).length
  single : ∀ sec ∈ out.activeSections, (headingNumbers sec).length ≤ 1
  frozen : ∃ (cs : List (List Event × Meta)) (a : Answer),
    out.state.frozenTasks = keptTasks state batch thawHours ++
    (collectClusters d.env cs { a with sections := out.activeSections }).1

lemma runWithDocument_spec (h : runWithDocument d state batch thawHours answer = some out) :
    DocumentOf d state batch thawHours answer out := by
  cases state with
  | none =>
    obtain ⟨⟨cs, a⟩, hcs, rfl⟩ := Option.map_eq_some_iff.mp h
    have htexts : runTexts d none batch thawHours answer = taskTexts d cs answer := by
      rw [runTexts, hcs]
    have hmarks := marks_activeDocument d (sortByTs batch) 1 (taskTexts d cs answer) a
    refine ⟨rfl, ?_, ?_, splitTaskSections_single _, cs, a, rfl⟩
    · rw [headingNumbers_eq_marks, hmarks, htexts]
      rfl
    · rw [length_splitTaskSections, ← length_marks, hmarks, htexts]
      rfl
  | some s =>
    rw [runWithDocument] at h
    split_ifs at h
    obtain ⟨⟨cs, a⟩, hcs, rfl⟩ := Option.map_eq_some_iff.mp h
    have htexts : runTexts d (some s) batch thawHours answer = taskTexts d cs answer := by
      rw [runTexts, hcs]
    have hmarks := marks_activeDocument d (sortByTs (activeEvents s batch thawHours))
      ((hardTasks s batch thawHours).length + 1) (taskTexts d cs answer) a
    refine ⟨rfl, ?_, ?_, splitTaskSections_single _, cs, a, rfl⟩
    · simp only [List.length_map]
      rw [headingNumbers_combined, List.flatMap_append, splitTaskSections_numbers,
        headingNumbers_eq_marks (activeDocument ..), hmarks, htexts, List.flatMap_map]
      rfl
    · simp only [List.length_map]
      rw [length_splitTaskSections, ← length_marks, hmarks, htexts]
      rfl

lemma segmentEvents_sections {env : Env} {events : List Event} {prior : List TitleAnchor}
    {cs : List (List Event × Meta)} {a : Answer} {sections : List PyStr}
    (h : segmentEvents env events prior (some (answer.toAnswer [])) = some (cs, a))
    (hcs : cs = [] → sections = []) :
    segmentEvents env events prior (some (answer.toAnswer sections)) =
      some (cs, { a with sections := sections }) := by
  simp only [segmentEvents] at h ⊢
  split_ifs at h ⊢
  · obtain ⟨rfl, rfl⟩ := Prod.mk.inj (Option.some.inj h)
    rw [hcs rfl]
  · obtain ⟨rfl, rfl⟩ := Prod.mk.inj (Option.some.inj h)
    rfl

lemma activeDocument_nil (d : DocEnv) (answer : RunAnswer) (window : PyStr) (start : ℕ) (a : Answer)
    {cs : List (List Event × Meta)} (hcs : cs = []) :
    splitTaskSections (activeDocument d window start (taskTexts d cs answer) a) = [] := by
  subst hcs
  rfl

theorem runWithDocument_state (h : runWithDocument d state batch thawHours answer = some out) :
    runIncremental d.env state batch thawHours (some (answer.toAnswer out.activeSections)) =
      some out.state := by
  cases state with
  | none =>
    obtain ⟨⟨cs, a⟩, hcs, rfl⟩ := Option.map_eq_some_iff.mp h
    have hseg := segmentEvents_sections hcs
      (activeDocument_nil d answer (windowDesc d (sortByTs batch)) 1 a)
    exact congrArg (Option.map fun r => buildState d.env batch r.1 r.2 thawHours) hseg
  | some s =>
    rw [runWithDocument] at h
    split_ifs at h with hbatch
    obtain ⟨⟨cs, a⟩, hcs, rfl⟩ := Option.map_eq_some_iff.mp h
    have hcs : segmentEvents d.env (activeEvents s batch thawHours) s.titleAnchors
      (some (answer.toAnswer [])) =
      some (cs, a) := hcs
    have hseg := segmentEvents_sections hcs
      (activeDocument_nil d answer (windowDesc d (sortByTs (activeEvents s batch thawHours)))
        (((hardTasks s batch thawHours).map TaskRecord.renderMd).length + 1) a)
    rw [runIncremental, if_neg hbatch]
    dsimp only
    rw [hseg, Option.map_some]

lemma collect_renderMd (env : Env) (a : Answer) (i : ℕ) (tail : Tail)
    (l : List ((List Event × Meta) × Bool)) :
    ∀ t ∈ (collect env a i tail l).1, t.renderMd ∈ a.sections ∨ t.renderMd = [] := by
  induction l generalizing i tail with
  | nil => simp [collect]
  | cons c l ih =>
    obtain ⟨⟨cluster, m⟩, terminal⟩ := c
    rw [collect]
    split_ifs
    · intro t ht
      rcases List.mem_cons.mp ht with rfl | ht
      · rw [taskRecord]
        by_cases hi : i < a.sections.length
        · left
          simp [List.getD_eq_getElem?_getD, hi]
        · right
          simp [List.getD_eq_getElem?_getD, hi]
      · exact ih _ _ t ht
    · exact ih _ _

lemma writtenRuns_single (h : WrittenRuns state) :
    ∀ s ∈ state, ∀ t ∈ s.frozenTasks, (headingNumbers t.renderMd).length ≤ 1 := by
  induction h with
  | start => simp
  | @run state out d batch thawHours answer _ hrun ih =>
    intro s hs t ht
    obtain rfl := Option.some.inj hs
    have hdoc := runWithDocument_spec hrun
    obtain ⟨cs, a, hfrozen⟩ := hdoc.frozen
    rw [hfrozen] at ht
    rcases List.mem_append.mp ht with ht | ht
    · cases state with
      | none => simp [keptTasks] at ht
      | some s =>
        exact ih s rfl t ((hard_append_thawed s batch thawHours).mem_iff.mp
          (List.mem_append_left _ ht))
    · rcases collect_renderMd _ _ _ _ _ t ht with hsec | hsec
      · exact hdoc.single _ hsec
      · rw [hsec]
        exact Nat.zero_le _

lemma length_storedNumbers (h : WrittenRuns state) (batch : List Event) (thawHours : ℤ) :
    (storedNumbers (keptTasks state batch thawHours)).length ≤
      (keptTasks state batch thawHours).length := by
  have hsingle : ∀ t ∈ keptTasks state batch thawHours, (headingNumbers t.renderMd).length ≤ 1 := by
    cases state with
    | none => simp [keptTasks]
    | some s =>
      intro t ht
      exact writtenRuns_single h s rfl t
        ((hard_append_thawed s batch thawHours).mem_iff.mp (List.mem_append_left _ ht))
  rw [storedNumbers]
  generalize keptTasks state batch thawHours = kept at hsingle ⊢
  induction kept with
  | nil => exact Nat.zero_le _
  | cons t ts ih =>
    rw [List.flatMap_cons, List.length_append, List.length_cons]
    have ht := hsingle t (by simp)
    have hts := ih fun t' ht' => hsingle t' (List.mem_cons_of_mem _ ht')
    omega

lemma append_eq_range' {xs ys : List ℕ} {k n : ℕ} (hxs : xs.length ≤ k) (hys : ys.length ≤ n) :
    xs ++ ys = List.range' 1 (k + n) ↔ xs = List.range' 1 k ∧ ys = List.range' (k + 1) n := by
  rw [← List.range'_append_1, Nat.add_comm 1 k]
  constructor
  · intro h
    have hlen := congrArg List.length h
    simp only [List.length_append, List.length_range'] at hlen
    exact List.append_inj h (by rw [List.length_range']; omega)
  · rintro ⟨rfl, rfl⟩
    rfl

lemma eq_map_some_reduceOption {α : Type} {ms : List (Option α)} (h : ∀ m ∈ ms, m.isSome = true) :
    ms = ms.reduceOption.map some := by
  induction ms with
  | nil => rfl
  | cons m ms ih =>
    obtain ⟨x, rfl⟩ := Option.isSome_iff_exists.mp (h m (by simp))
    rw [List.reduceOption_cons_of_some, List.map_cons, ← ih fun m' hm' =>
      h m' (List.mem_cons_of_mem _ hm')]

lemma reduceOption_eq_range' {ms : List (Option ℕ)} {k : ℕ} :
    ms.reduceOption = List.range' k ms.length ↔ ms = (List.range' k ms.length).map some := by
  constructor
  · intro h
    have hall := List.reduceOption_length_eq_iff.mp (by rw [h, List.length_range'])
    rw [← h]
    exact eq_map_some_reduceOption hall
  · intro h
    rw [h]
    simp [List.reduceOption]

/-- The headings of a document count from one exactly if the sections it takes over do, and
those rendered, with any heading that the model's texts bring along, go on counting. -/
theorem headings_count_up_iff (state : Option State) (h : WrittenRuns state)
    (d : DocEnv) (batch : List Event) (thawHours : ℤ) (answer : RunAnswer) (out : Output)
    (hrun : runWithDocument d state batch thawHours answer = some out) :
    headingNumbers out.document =
      List.range' 1 (out.hardSections.length + out.activeSections.length) ↔
      storedNumbers (keptTasks state batch thawHours) =
        List.range' 1 (keptTasks state batch thawHours).length ∧
      taskMarks ((keptTasks state batch thawHours).length + 1)
        (runTexts d state batch thawHours answer) =
        (List.range' ((keptTasks state batch thawHours).length + 1) (taskMarks
          ((keptTasks state batch thawHours).length + 1)
            (runTexts d state batch thawHours answer)).length).map some := by
  have hdoc := runWithDocument_spec hrun
  rw [hdoc.numbers, hdoc.active, hdoc.hard, List.length_map,
    append_eq_range' (length_storedNumbers h batch thawHours)
      (List.reduceOption_length_le _), reduceOption_eq_range']

def plainDoc : DocEnv where
  env := asciiEnv
  groupId := py "oc_1"
  model := py "m"
  clock := fun _ => py "01-01 09:00"
  str := fun _ => []
  groupId_oneLine := by decide
  model_oneLine := by decide
  clock_oneLine := fun _ => by decide

/-- Every atomic segment becomes a task of its own. -/
def eachSegment : RunAnswer :=
  ⟨[⟨.str (py "deploy"), .str [], .str [], [py "1"]⟩,
    ⟨.str (py "report"), .str [], .str [], [py "2"]⟩,
    ⟨.str (py "backup"), .str [], .str [], [py "3"]⟩], [], [], []⟩

def threeTasks :
    List Event := [ask, reply, nextAsk, ⟨200000000, .user, py "m4", [], py "check the backup"⟩]

lemma exists_run_threeTasks :
    ∃ first, runWithDocument plainDoc none threeTasks 24 eachSegment = some first :=
  Option.isSome_iff_exists.mp (by decide +kernel)

/-- A late reply to the first task. -/
def lateReply : Event := ⟨200001000, .user, py "m5", py "m1", py "it is down again"⟩

/-- The first task is reopened while the second stays frozen with its number: the number is
given twice. -/
theorem reopened_task_repeats_number :
    ∃ s out, WrittenRuns (some s) ∧ runWithDocument plainDoc (some s)
    [lateReply] 24 eachSegment = some out ∧
      out.hardSections.length + out.activeSections.length = 2 ∧
        headingNumbers out.document = [2, 2] := by
  obtain ⟨first, hfirst⟩ := exists_run_threeTasks
  have hnext : ∀ first ∈ runWithDocument plainDoc none threeTasks 24 eachSegment,
      (runWithDocument plainDoc (some first.state) [lateReply] 24 eachSegment).isSome = true ∧
      ∀ out ∈ runWithDocument plainDoc (some first.state) [lateReply] 24 eachSegment,
        out.hardSections.length + out.activeSections.length = 2 ∧
          headingNumbers out.document = [2, 2] := by
    decide +kernel
  obtain ⟨hsome, hnumbers⟩ := hnext first hfirst
  obtain ⟨out, hout⟩ := Option.isSome_iff_exists.mp hsome
  exact ⟨first.state, out, .run plainDoc threeTasks 24 eachSegment .start hfirst,
    hout, hnumbers out hout⟩

theorem headings_count_up_iff_frozen : ∃ s out, WrittenRuns (some s) ∧
      runWithDocument plainDoc (some s)
        [{ lateReply with parentId := [] }] 24 eachSegment = some out ∧
      out.hardSections.length = 2 ∧
      headingNumbers out.document =
        List.range' 1 (out.hardSections.length + out.activeSections.length) := by
  obtain ⟨first, hfirst⟩ := exists_run_threeTasks
  have hnext : ∀ first ∈ runWithDocument plainDoc none threeTasks 24 eachSegment,
      (runWithDocument plainDoc (some first.state) [{ lateReply with parentId := [] }] 24
        eachSegment).isSome = true ∧
      (∀ out ∈ runWithDocument plainDoc (some first.state)
        [{ lateReply with parentId := [] }] 24 eachSegment,
        out.hardSections.length = 2) ∧
      storedNumbers (keptTasks (some first.state) [{ lateReply with parentId := [] }] 24) =
        List.range' 1 (keptTasks (some first.state) [{ lateReply with parentId := [] }] 24).length ∧
      taskMarks ((keptTasks (some first.state) [{ lateReply with parentId := [] }] 24).length + 1)
          (runTexts plainDoc (some first.state)
            [{ lateReply with parentId := [] }] 24 eachSegment) =
        (List.range' ((keptTasks (some first.state) [{ lateReply with parentId := [] }] 24).length +
          1)
          (taskMarks ((keptTasks (some first.state) [{ lateReply with parentId := [] }] 24).length +
            1)
            (runTexts plainDoc (some first.state) [{ lateReply with parentId := [] }] 24
              eachSegment)).length).map
          some := by
    decide +kernel
  obtain ⟨hsome, hhard, hcond⟩ := hnext first hfirst
  obtain ⟨out, hout⟩ := Option.isSome_iff_exists.mp hsome
  have hruns : WrittenRuns (some first.state) :=
    .run plainDoc threeTasks 24 eachSegment .start hfirst
  exact ⟨first.state, out, hruns, hout, hhard out hout,
    (headings_count_up_iff _ hruns plainDoc _ 24 eachSegment out hout).mpr hcond⟩

end Runs

end AgentTrajectory.IncrementalSegment
