import AgentTrajectory.DeliveryVerdicts
import AgentTrajectory.PyLines

/-! What `split_task_sections` reads back from the document of `render_decompose`. Titles,
goals, fields of the answers and error texts are written as they are, so a section is opened
at every line of theirs that looks like a heading. -/
namespace AgentTrajectory.RenderDecompose
open PyText PyDict PyJson PyValue TaskStitch LlmSegment LlmDecompose RouteDay
    DecomposeTask IncrementalSegment

lemma splitlines_front {p : PyStr} (hp : oneLine p = true) (hne : p ≠ []) (b : PyStr) :
    ∃ first rest, splitlines (p ++ b) = (p ++ first) :: rest := by
  obtain ⟨first, rest, h⟩ := splitlinesFrom_open (List.reverse_ne_nil_iff.mpr hne) b
  refine ⟨first, rest, ?_⟩
  rw [splitlines, splitlinesFrom_oneLine hp, List.append_nil, h, List.reverse_reverse]

/-- The lines of texts that are joined by newlines, text by text. -/
def blocks : List PyStr → List (List PyStr)
  | [] => []
  | [t] => [splitlines t]
  | t :: t' :: ts => splitlines (t ++ [cp '\n']) :: blocks (t' :: ts)

lemma splitlines_join (ts : List PyStr) : splitlines (join (py "\n") ts) = (blocks ts).flatten := by
  induction ts with
  | nil => rfl
  | cons t ts ih =>
    cases ts with
    | nil => simp [join, blocks]
    | cons t' ts =>
      rw [join, blocks, List.flatten_cons, ← ih, List.append_assoc]
      exact splitlines_newline t _

lemma closeSection_snoc_nil (ls : List PyStr) : closeSection (ls ++ [[]]) = closeSection ls := by
  cases ls with
  | nil => rfl
  | cons l ls =>
    have hnewline : ∀ c ∈ py "\n", isSpace c = true := by
      intro c hc
      obtain rfl : c = cp '\n' := List.mem_singleton.mp hc
      decide
    rw [closeSection, join_append (by simp) (by simp), join, List.append_nil,
      rstrip_append_spaces hnewline, closeSection]

lemma closeSection_newline (t : PyStr) :
    closeSection (splitlines (t ++ [cp '\n'])) = closeSection (splitlines t) := by
  rcases splitlines_snoc_newline t with h | h
  · rw [h]
  · rw [h, closeSection_snoc_nil]

lemma map_closeSection_blocks (ts : List PyStr) :
    (blocks ts).map closeSection = ts.map fun t => closeSection (splitlines t) := by
  induction ts with
  | nil => rfl
  | cons t ts ih =>
    cases ts with
    | nil => rfl
    | cons t' ts =>
      rw [blocks, List.map_cons, ih, closeSection_newline]
      rfl

lemma splitLoop_skip {ls : List PyStr} (h : ∀ l ∈ ls, isMark l = false) (more : List PyStr) :
    splitLoop [] (ls ++ more) = splitLoop [] more := by
  induction ls with
  | nil => rfl
  | cons l ls ih =>
    have hl : startswith l headingMark = false := h l (by simp)
    rw [List.cons_append, splitLoop, hl]
    simpa using ih fun l' hl' => h l' (by simp [hl'])

lemma splitLoop_take {cur ls : List PyStr} (hcur : cur ≠ [])
    (h : ∀ l ∈ ls, isMark l = false) (more : List PyStr) :
    splitLoop cur (ls ++ more) = splitLoop (cur ++ ls) more := by
  induction ls generalizing cur with
  | nil => simp
  | cons l ls ih =>
    have hl : startswith l headingMark = false := h l (by simp)
    rw [List.cons_append, splitLoop, hl]
    simp only [Bool.false_eq_true, if_false, hcur]
    rw [ih (by simp) fun l' hl' => h l' (by simp [hl']), List.append_assoc, List.singleton_append]

def IsSection (ls : List PyStr) :
    Prop := ∃ l rest, ls = l :: rest ∧ isMark l = true ∧ ∀ l' ∈ rest, isMark l' = false

lemma splitLoop_open {cur : List PyStr} {bs : List (List PyStr)} (hcur : cur ≠ [])
    (h : ∀ b ∈ bs, IsSection b) :
    splitLoop cur bs.flatten = closeSection cur :: bs.map closeSection := by
  induction bs generalizing cur with
  | nil => simp [splitLoop, hcur]
  | cons b bs ih =>
    obtain ⟨l, rest, rfl, hmark, hrest⟩ := h b (by simp)
    have hl : startswith l headingMark = true := hmark
    rw [List.flatten_cons, List.cons_append, splitLoop, hl]
    simp only [if_true, hcur, if_false]
    rw [splitLoop_take (by simp) hrest, ih (by simp) fun b' hb' => h b' (by simp [hb'])]
    rfl

lemma splitLoop_blocks {bs : List (List PyStr)} (h : ∀ b ∈ bs, IsSection b) :
    splitLoop [] bs.flatten = bs.map closeSection := by
  cases bs with
  | nil => rfl
  | cons b bs =>
    obtain ⟨l, rest, rfl, hmark, hrest⟩ := h b (by simp)
    have hl : startswith l headingMark = true := hmark
    rw [List.flatten_cons, List.cons_append, splitLoop, hl]
    simp only [if_true]
    rw [splitLoop_take (by simp) hrest, splitLoop_open (by simp) fun b' hb' => h b' (by simp [hb'])]
    rfl

def sectionText (ti : ℕ) (t : TaskText) : PyStr := join (py "\n") (sectionLines ti t)

/-- The section as it is read back. -/
def sectionOf (ti : ℕ) (t : TaskText) : PyStr := closeSection (splitlines (sectionText ti t))

/-- The section starts with the heading number `n`. -/
def HeadedBy (n : ℕ) (sec : PyStr) : Prop :=
  startswith sec (headingMark ++ natDigits n) = true ∧ headingNumber sec = some n

def carriedLines (t : TaskText) :
    List PyStr := (splitlines t.rest).tail ++ t.body.flatMap splitlines

lemma sectionText_front (ti : ℕ) (t : TaskText) :
    ∃ b, sectionText ti t = (headingMark ++ natDigits ti ++ [cp '　']) ++ b := by
  have hrest : ∃ r, t.rest = cp '　' :: r := ⟨_, rfl⟩
  obtain ⟨r, hr⟩ := hrest
  rw [sectionText, sectionLines, hr]
  by_cases hbody : t.body = []
  · exact ⟨r, by simp [hbody, join]⟩
  · exact ⟨r ++ py "\n" ++ join (py "\n") t.body, by simp [join_cons hbody]⟩

lemma oneLine_front (ti : ℕ) : oneLine (headingMark ++ natDigits ti ++ [cp '　']) = true := by
  simp only [oneLine_append, oneLine_natDigits, and_true]
  decide

lemma rstrip_heading (ti : ℕ) :
    rstrip (headingMark ++ natDigits ti) = headingMark ++ natDigits ti := by
  rw [rstrip, List.rdropWhile_eq_self_iff]
  intro hne hspace
  rw [List.getLast_append_of_ne_nil _ (natDigits_ne_nil ti)] at hspace
  have hdigit := natDigits_isDigit ti _ (List.getLast_mem (natDigits_ne_nil ti))
  rw [isDigit_of_isSpace hspace] at hdigit
  exact Bool.false_ne_true hdigit

lemma headedBy_closeSection (ti : ℕ) (first : PyStr) (rest : List PyStr) :
    HeadedBy ti (closeSection ((headingMark ++ natDigits ti ++ [cp '　'] ++ first) :: rest)) := by
  have hjoin : ∃ x, join (py "\n") ((headingMark ++ natDigits ti ++ [cp '　'] ++ first) :: rest) =
      headingMark ++ natDigits ti ++ cp '　' :: x := by
    by_cases hrest : rest = []
    · exact ⟨first, by simp [hrest, join]⟩
    · exact ⟨first ++ py "\n" ++ join (py "\n") rest, by simp [join_cons hrest]⟩
  obtain ⟨x, hx⟩ := hjoin
  have hclose : closeSection ((headingMark ++ natDigits ti ++ [cp '　'] ++ first) :: rest) =
      headingMark ++ (natDigits ti ++ (rstrip (cp '　' :: x) ++ py "\n")) := by
    rw [closeSection, hx, rstrip_append (rstrip_heading ti)]
    simp only [List.append_assoc]
  have hnondigit : (rstrip (cp '　' :: x) ++ py "\n").takeWhile isDigit = [] := by
    rcases List.prefix_cons_iff.mp (List.rdropWhile_prefix isSpace (l := cp '　' :: x)) with hnil |
      ⟨y, hy, -⟩
    · rw [rstrip, hnil]
      decide
    · rw [rstrip, hy, List.cons_append]
      exact List.takeWhile_cons_of_neg (by decide)
  have hdigits : (natDigits ti ++ (rstrip (cp '　' :: x) ++ py "\n")).takeWhile isDigit =
      natDigits ti := by
    rw [List.takeWhile_append_of_pos (natDigits_isDigit ti), hnondigit, List.append_nil]
  rw [HeadedBy, hclose]
  constructor
  · rw [← List.append_assoc]
    exact startswith_append _ _
  · rw [headingNumber, List.drop_left, hdigits, startswith_append]
    simp [natDigits_ne_nil, digitsValue_natDigits]

lemma markNumber_eq_none {line : PyStr} : markNumber line = none ↔ isMark line = false := by
  rw [markNumber]
  split_ifs with h
  · simp [h]
  · simpa using h

lemma marks_newline (t : PyStr) : marks (t ++ [cp '\n']) = marks t := by
  rcases splitlines_snoc_newline t with h | h
  · rw [marks, h, marks]
  · rw [marks, h, List.filterMap_append, marks]
    simp [markNumber_nil]

lemma marks_sectionText (ti : ℕ) (t : TaskText) :
    marks (sectionText ti t) = some ti :: (carriedLines t).filterMap markNumber := by
  rw [sectionText, marks_join, marks_section]
  rfl

lemma filterMap_markNumber_eq_nil {ls : List PyStr} :
    ls.filterMap markNumber = [] ↔ ∀ l ∈ ls, isMark l = false := by
  rw [List.filterMap_eq_nil_iff]
  exact forall₂_congr fun l _ => markNumber_eq_none

lemma marks_eq_nil {text : PyStr} : marks text = [] ↔ ∀ l ∈ splitlines text, isMark l = false :=
  filterMap_markNumber_eq_nil

lemma flatMap_marks (ls : List PyStr) :
    ls.flatMap marks = (ls.flatMap splitlines).filterMap markNumber :=
  (List.filterMap_flatMap ..).symm

lemma isSection_lines {ti : ℕ} {t : TaskText} (h : ∀ l ∈ carriedLines t,
    isMark l = false) {text tail : PyStr}
    (htext : text = sectionText ti t ++ tail) (hmarks : marks text = marks (sectionText ti t)) :
    IsSection (splitlines text) := by
  obtain ⟨b, hb⟩ := sectionText_front ti t
  obtain ⟨first, rest, hlines⟩ := splitlines_front (oneLine_front ti) (by simp) (b ++ tail)
  rw [← List.append_assoc, ← hb, ← htext] at hlines
  have hmark : isMark ((headingMark ++ natDigits ti ++ [cp '　']) ++ first) = true := by
    rw [isMark, List.append_assoc, List.append_assoc, startswith_append]
  refine ⟨_, rest, hlines, hmark, ?_⟩
  rw [marks_sectionText, filterMap_markNumber_eq_nil.mpr h, marks, hlines,
    List.filterMap_cons, markNumber, hmark] at hmarks
  exact filterMap_markNumber_eq_nil.mp (List.cons.inj hmarks).2

section Document
variable (doc : DocEnv)

def documentTexts (window : PyStr) (total s : ℕ) (texts : List TaskText) : List PyStr :=
  join (py "\n") (renderHead doc window texts.length total) :: (texts.zipIdx s).map fun t =>
    sectionText t.2 t.1

lemma renderDecompose_eq (window : PyStr) (total s : ℕ) (texts : List TaskText) :
    renderDecompose doc window total s texts = join (py "\n")
    (documentTexts doc window total s texts) := by
  have hne : ∀ l ∈ renderHead doc window texts.length total :: (texts.zipIdx s).map fun t =>
    sectionLines t.2 t.1,
      l ≠ [] := by
    intro l hl
    rcases List.mem_cons.mp hl with rfl | hl
    · simp [renderHead]
    · obtain ⟨t, -, rfl⟩ := List.mem_map.mp hl
      simp [sectionLines]
  have hjoin := @join_flatten (py "\n") _ hne
  rw [List.flatten_cons, List.map_cons, List.map_map] at hjoin
  rw [renderDecompose, documentTexts, List.flatMap]
  exact hjoin

lemma isSection_blocks {texts : List TaskText} (h : ∀ t ∈ texts, ∀ l ∈ carriedLines t,
    isMark l = false) (s : ℕ) :
    ∀ b ∈ blocks ((texts.zipIdx s).map fun t => sectionText t.2 t.1), IsSection b := by
  induction texts generalizing s with
  | nil => simp [blocks]
  | cons t texts ih =>
    have ht := h t (by simp)
    intro b hb
    rw [List.zipIdx_cons, List.map_cons] at hb
    cases hrest : (texts.zipIdx (s + 1)).map fun t => sectionText t.2 t.1 with
    | nil =>
      rw [hrest, blocks, List.mem_singleton] at hb
      rw [hb]
      exact isSection_lines ht (List.append_nil _).symm rfl
    | cons t' ts =>
      rw [hrest, blocks, List.mem_cons] at hb
      rcases hb with rfl | hb
      · exact isSection_lines ht rfl (marks_newline _)
      · rw [← hrest] at hb
        exact ih (fun t' ht' => h t' (by simp [ht'])) (s + 1) b hb

variable {doc}

lemma splitTaskSections_render {window : PyStr} {total s : ℕ} {texts : List TaskText}
    (hhead : ∀ l ∈ (renderHead doc window texts.length total).flatMap splitlines, isMark l = false)
    (htexts : ∀ t ∈ texts, ∀ l ∈ carriedLines t, isMark l = false) :
    splitTaskSections (renderDecompose doc window total s texts) =
      (texts.zipIdx s).map fun t => sectionOf t.2 t.1 := by
  have hfront : marks (join (py "\n") (renderHead doc window texts.length total)) = [] := by
    rw [marks_join, flatMap_marks]
    exact filterMap_markNumber_eq_nil.mpr hhead
  rw [splitTaskSections, renderDecompose_eq, splitlines_join, documentTexts]
  cases hrest : (texts.zipIdx s).map fun t => sectionText t.2 t.1 with
  | nil =>
    rw [List.map_eq_nil_iff.mp hrest, blocks, List.flatten_singleton]
    have hskip := splitLoop_skip (marks_eq_nil.mp hfront) []
    rwa [List.append_nil] at hskip
  | cons t' ts =>
    rw [← marks_newline] at hfront
    rw [blocks, List.flatten_cons, splitLoop_skip (marks_eq_nil.mp hfront), ← hrest,
      splitLoop_blocks (isSection_blocks htexts s), map_closeSection_blocks, List.map_map]
    rfl

lemma headedBy_sectionOf (ti : ℕ) (t : TaskText) : HeadedBy ti (sectionOf ti t) := by
  obtain ⟨b, hb⟩ := sectionText_front ti t
  obtain ⟨first, rest, hlines⟩ := splitlines_front (oneLine_front ti) (by simp) b
  rw [sectionOf, hb, hlines]
  exact headedBy_closeSection ti first rest

lemma length_taskMarks (s : ℕ) (texts : List TaskText) : (taskMarks s texts).length =
      texts.length + (texts.map fun t => ((carriedLines t).filterMap markNumber).length).sum := by
  induction texts generalizing s with
  | nil => rfl
  | cons t texts ih =>
    have hcons : taskMarks s (t :: texts) = textMarks s t ++ taskMarks (s + 1) texts := by
      rw [taskMarks, List.zipIdx_cons, List.flatMap_cons, taskMarks]
    rw [hcons, List.length_append, ih, textMarks, List.length_cons, List.length_cons,
      List.map_cons, List.sum_cons, carriedLines]
    omega

lemma length_sections (window : PyStr) (total s : ℕ) (texts : List TaskText) :
    (splitTaskSections (renderDecompose doc window total s texts)).length =
      ((renderHead doc window texts.length total).flatMap marks).length + (texts.length +
        (texts.map fun t => ((carriedLines t).filterMap markNumber).length).sum) := by
  have hmarks : marks (renderDecompose doc window total s texts) =
      (renderHead doc window texts.length total).flatMap marks ++ taskMarks s texts := by
    rw [renderDecompose, marks_join, List.flatMap_append, List.flatMap_assoc, taskMarks]
    exact congrArg _ (List.flatMap_congr fun t _ => marks_section t.2 t.1)
  rw [length_splitTaskSections, ← length_marks, hmarks, List.length_append, length_taskMarks]

lemma no_stray_of_length {window : PyStr} {total s : ℕ} {texts : List TaskText}
    (h : (splitTaskSections (renderDecompose doc window total s texts)).length = texts.length) :
    (∀ l ∈ (renderHead doc window texts.length total).flatMap splitlines, isMark l = false) ∧
      ∀ t ∈ texts, ∀ l ∈ carriedLines t, isMark l = false := by
  rw [length_sections] at h
  have hhead : ((renderHead doc window texts.length total).flatMap marks).length = 0 := by omega
  have hsum : (texts.map fun t => ((carriedLines t).filterMap markNumber).length).sum =
    0 := by omega
  rw [List.length_eq_zero_iff, flatMap_marks] at hhead
  refine ⟨filterMap_markNumber_eq_nil.mp hhead, fun t ht => filterMap_markNumber_eq_nil.mp ?_⟩
  rw [List.sum_eq_zero_iff] at hsum
  exact List.length_eq_zero_iff.mp (hsum _ (List.mem_map.mpr ⟨t, ht, rfl⟩))

end Document

lemma length_terminals (d : Display) (tasks : List TaskInput) :
    (terminals d tasks).length = tasks.length := by
  cases tasks with
  | nil => rfl
  | cons t tasks => simp [terminals, computeTerminal]

lemma length_renderTasks {d : Display} {setOrder : ℕ → ℕ → Bool} {doc : DocEnv}
    {tasks : List TaskInput}
    {parts : List RenderedTask} (h : renderTasks d setOrder doc tasks = .ok parts) :
    parts.length = tasks.length := by
  have hlength := (mapM_eq_ok.mp h).length_eq
  rw [List.length_zip, length_terminals, min_self] at hlength
  exact hlength.symm

/-- A line break of the text is followed by the mark of a heading. -/
def OpensHeading (s : PyStr) : Prop := ∃ c, isLineBreak c = true ∧ (c :: headingMark) <:+: s

lemma not_mem_headingMark {c : CodePoint} (h : isLineBreak c = true) : c ∉ headingMark := by
  have hplain : oneLine headingMark = true := by decide
  intro hc
  simpa [h] using List.all_eq_true.mp hplain c hc

lemma isMark_append_cons {x : CodePoint} (hx : x ∉ headingMark) (u b : PyStr) :
    isMark (u ++ x :: b) = isMark u := by
  rw [isMark, isMark, Bool.eq_iff_iff, startswith_iff, startswith_iff]
  constructor
  · intro h
    rcases List.prefix_or_prefix_of_prefix h (List.prefix_append u (x :: b)) with hu | ⟨t, ht⟩
    · exact hu
    · cases t with
      | nil => exact ⟨[], by rw [← ht, List.append_nil, List.append_nil]⟩
      | cons y t =>
        rw [← ht, List.prefix_append_right_inj, List.cons_prefix_cons] at h
        exact absurd (by rw [← ht, h.1]; simp) hx
  · exact fun h => h.trans (List.prefix_append _ _)

lemma opensHeading_cons {c : CodePoint} {s : PyStr} :
    OpensHeading (c :: s) ↔ isLineBreak c = true ∧ isMark s = true ∨ OpensHeading s := by
  simp only [OpensHeading, List.infix_cons_iff, List.cons_prefix_cons, isMark, startswith_iff]
  constructor
  · rintro ⟨b, hb, ⟨rfl, hs⟩ | hs⟩
    · exact .inl ⟨hb, hs⟩
    · exact .inr ⟨b, hb, hs⟩
  · rintro (⟨hc, hs⟩ | ⟨b, hb, hs⟩)
    · exact ⟨c, hc, .inl ⟨rfl, hs⟩⟩
    · exact ⟨b, hb, .inr hs⟩

lemma not_opensHeading_of_oneLine {s : PyStr} (h : oneLine s = true) : ¬ OpensHeading s := by
  rintro ⟨c, hc, hs⟩
  have hbreak := List.all_eq_true.mp h c (hs.subset (by simp))
  simp [hc] at hbreak

lemma opensHeading_append_oneLine {p : PyStr} (hp : oneLine p = true) (s : PyStr) :
    OpensHeading (p ++ s) ↔ OpensHeading s := by
  induction p with
  | nil => rfl
  | cons c p ih =>
    have hc : isLineBreak c = false ∧ oneLine p = true := by simpa [oneLine] using hp
    rw [List.cons_append, opensHeading_cons, ih hc.2]
    simp [hc.1]

lemma opensHeading_split {x : CodePoint} (hx : x ∉ headingMark)
    (hbreak : isLineBreak x = false) (a b : PyStr) :
    OpensHeading (a ++ x :: b) ↔ OpensHeading a ∨ OpensHeading b := by
  induction a with
  | nil =>
    have hnil : ¬ OpensHeading [] := not_opensHeading_of_oneLine rfl
    rw [List.nil_append, opensHeading_cons]
    simp [hbreak, hnil]
  | cons c a ih =>
    rw [List.cons_append, opensHeading_cons, isMark_append_cons hx, ih, opensHeading_cons, or_assoc]

lemma exists_mark_splitlinesFrom (s : PyStr) {cr : Bool} {cur : PyStr} (hcr : cr = true → cur = [])
    (hcur : oneLine cur = true) :
    (∃ l ∈ splitlinesFrom cr cur s, isMark l = true) ↔
      isMark (cur.reverse ++ s) = true ∨ OpensHeading s := by
  induction s generalizing cr cur with
  | nil =>
    have hnil : ¬ OpensHeading [] := not_opensHeading_of_oneLine rfl
    rw [splitlinesFrom, List.append_nil]
    split_ifs with h
    · simp [h, hnil, show isMark [] = false by decide]
    · simp [hnil]
  | cons c s ih =>
    have hopen (hc : isLineBreak c = true) : isMark (cur.reverse ++ c :: s) = isMark cur.reverse :=
      isMark_append_cons (not_mem_headingMark hc) _ _
    rw [splitlinesFrom, opensHeading_cons]
    split_ifs with hpair hbreak
    · simp only [Bool.and_eq_true, beq_iff_eq] at hpair
      obtain ⟨hcr', rfl⟩ := hpair
      rw [ih (by simp) rfl, hopen (by decide), hcr hcr']
      simp [show isLineBreak (cp '\n') = true by decide, show isMark [] = false by decide]
    · simp only [List.mem_cons, exists_eq_or_imp]
      rw [ih (by simp) rfl, hopen hbreak]
      simp [hbreak]
    · rw [ih (by simp) (by simpa [oneLine, hbreak] using hcur)]
      simp [hbreak]

lemma no_mark_iff (s : PyStr) :
    (∀ l ∈ splitlines s, isMark l = false) ↔ isMark s = false ∧ ¬ OpensHeading s := by
  have h := not_congr (@exists_mark_splitlinesFrom s false [] (by simp) rfl)
  rw [not_or] at h
  simpa [splitlines] using h

lemma opensHeading_field (a b : PyStr) :
    OpensHeading (a ++ (py " | " ++ b)) ↔ OpensHeading (a ++ [cp ' ']) ∨ OpensHeading b := by
  have hsplit : a ++ (py " | " ++ b) = (a ++ [cp ' ']) ++ cp '|' :: cp ' ' :: b := by simp [py]
  rw [hsplit, opensHeading_split (by decide) (by decide), opensHeading_cons]
  simp [show isLineBreak (cp ' ') = false by decide]

lemma opensHeading_last (a : PyStr) :
    OpensHeading (a ++ py " |") ↔ OpensHeading (a ++ [cp ' ']) := by
  have hsplit : a ++ py " |" = (a ++ [cp ' ']) ++ cp '|' :: [] := by simp [py]
  rw [hsplit, opensHeading_split (by decide) (by decide),
    or_iff_left (not_opensHeading_of_oneLine rfl)]

lemma opensHeading_join (ts : List PyStr) :
    OpensHeading (join (py "；") ts) ↔ ∃ t ∈ ts, OpensHeading t := by
  induction ts with
  | nil => simpa [join] using not_opensHeading_of_oneLine rfl
  | cons t ts ih =>
    cases ts with
    | nil => simp [join]
    | cons t' ts =>
      rw [join_cons (by simp), List.append_assoc]
      have hsplit : t ++ (py "；" ++ join (py "；") (t' :: ts)) = t ++ cp '；' ::
        join (py "；") (t' :: ts) := rfl
      rw [hsplit, opensHeading_split (by decide) (by decide), ih]
      simp

section Free
variable (d : Display) (setOrder : ℕ → ℕ → Bool)

def rowTexts (dominant : PyStr) (s : Subreq) : List PyStr :=
  [textOf d (s.id.getD (.str [])), textOf d (s.title.getD (.str [])), dominant,
    textOf d s.type, textOf d s.status,
    join (py ",") (s.memberIdx.map memberText)].map (· ++ [cp ' '])

def writtenGoal (m : Meta) (v : Verdict) : PyStr :=
  let taskGoal := (stripped v.taskGoal).toOption.getD []
  if taskGoal = [] then textOf d m.goal else taskGoal

/-- The texts from outside that the section of a task takes up: its title, its goal, and the error
or the fields of the rows and the edges. -/
def freeTexts (t : TaskInput) (terminal : Bool) : List PyStr :=
  textOf d t.data.title ::
    if nreal t.cluster < 2 then [textOf d t.data.goal]
    else match decomposeWith d setOrder 150 100 t.cluster t.calls.answers terminal with
      | .error _ => [textOf d t.data.goal, t.calls.error]
      | .ok (res, _) => writtenGoal d t.data res.2 ::
          ((res.1.subreqs.mapIdx fun i s => rowTexts d (t.calls.dominants i) s).flatten ++
            res.1.edges.map (edgeText d))

end Free

def Plain (b : PyStr) : Prop := isMark b = false ∧ ¬ OpensHeading b

lemma plain_of_oneLine {b : PyStr} (h : oneLine b = true) (hmark : isMark b = false) : Plain b :=
  ⟨hmark, not_opensHeading_of_oneLine h⟩

lemma plain_append {p : PyStr} (hp : oneLine p = true)
    (hmark : ∀ s, isMark (p ++ s) = false) (s : PyStr) :
    Plain (p ++ s) ↔ ¬ OpensHeading s := by
  rw [Plain, opensHeading_append_oneLine hp, and_iff_right (hmark s)]

lemma isMark_cons {c : CodePoint} (hc : c ≠ cp '#') (s : PyStr) : isMark (c :: s) = false := by
  have hmark : headingMark = cp '#' :: py "# 任务 " := rfl
  rw [isMark, Bool.eq_false_iff, ne_eq, startswith_iff, hmark, List.cons_prefix_cons]
  exact fun h => hc h.1.symm

lemma no_mark_flatMap_iff (body : List PyStr) :
    (∀ l ∈ body.flatMap splitlines, isMark l = false) ↔ ∀ b ∈ body, Plain b := by
  simp only [List.mem_flatMap, Plain, ← no_mark_iff]
  exact ⟨fun h b hb l hl => h l ⟨b, hb, hl⟩, fun h l ⟨b, hb, hl⟩ => h b hb l hl⟩

lemma no_mark_rest_iff (t : TaskText) :
    (∀ l ∈ (splitlines t.rest).tail, isMark l = false) ↔ ¬ OpensHeading t.title := by
  have hrest : t.rest = [cp '　'] ++
      (t.title ++ if t.terminal then [] else py "　⏳**未终结(incomplete)**") := by
    rw [TaskText.rest, List.append_assoc]
    rfl
  obtain ⟨first, more, hlines⟩ := splitlines_front (p := [cp '　']) (by decide) (by simp)
    (t.title ++ if t.terminal then [] else py "　⏳**未终结(incomplete)**")
  rw [← hrest] at hlines
  have hall : (∀ l ∈ (splitlines t.rest).tail, isMark l = false) ↔
      ∀ l ∈ splitlines t.rest, isMark l = false := by
    rw [hlines, List.tail_cons, List.forall_mem_cons]
    exact (and_iff_right (isMark_cons (by decide) _)).symm
  have hflag : OpensHeading (t.title ++ if t.terminal then [] else py "　⏳**未终结(incomplete)**") ↔
      OpensHeading t.title := by
    split_ifs
    · rw [List.append_nil]
    · exact (opensHeading_split (by decide) (by decide) _ _).trans
        (or_iff_left (not_opensHeading_of_oneLine (by decide)))
  rw [hall, no_mark_iff, hrest, opensHeading_append_oneLine (by decide), hflag]
  exact and_iff_right (isMark_cons (by decide) _)

lemma carriedLines_iff (t : TaskText) : (∀ l ∈ carriedLines t, isMark l = false) ↔
    ¬ OpensHeading t.title ∧ ∀ b ∈ t.body, Plain b := by
  rw [carriedLines, List.forall_mem_append, no_mark_rest_iff, no_mark_flatMap_iff]

section Lines
variable {d : Display} {setOrder : ℕ → ℕ → Bool} {doc : DocEnv}

lemma oneLine_numbersText (ns : List ℕ) : oneLine (numbersText ns) = true := by
  rw [numbersText, oneLine_append, oneLine_append]
  refine ⟨⟨by decide, ?_⟩, by decide⟩
  induction ns with
  | nil => rfl
  | cons n ns ih =>
    cases ns with
    | nil => exact oneLine_natDigits n
    | cons n' ns =>
      rw [List.map_cons, join_cons (by simp), oneLine_append, oneLine_append]
      exact ⟨⟨oneLine_natDigits n, by decide⟩, ih⟩

lemma metaTail_ok {cluster : List DayEvent} {m : Meta} {n : ℕ} {tail : PyStr}
    (h : metaTail doc cluster m n = .ok tail) : ∃ x, tail = cp '　' :: x ∧ oneLine x = true := by
  rw [metaTail] at h
  split at h
  · rename_i first last hfirst hlast
    refine ⟨_, (Except.ok.inj h).symm, ?_⟩
    change oneLine (py "| 跨度：" ++ doc.clock first.ts ++ py "→" ++ doc.clock last.ts ++
      py " | " ++ natDigits n ++
      py " 条有效 | 原子段 " ++ numbersText m.segs) = true
    simp only [oneLine_append, doc.clock_oneLine, oneLine_natDigits, oneLine_numbersText, and_true]
    decide
  · cases h

lemma plain_goalLine {tail : PyStr} (htail : ∃ x, tail = cp '　' :: x ∧
    oneLine x = true) (goal : PyStr) :
    Plain (goalLine goal tail) ↔ ¬ OpensHeading goal := by
  obtain ⟨x, rfl, hx⟩ := htail
  rw [goalLine, List.append_assoc, plain_append (by decide) fun s => isMark_cons (by decide) _,
    opensHeading_split (by decide) (by decide), or_iff_left (not_opensHeading_of_oneLine hx)]

lemma plain_subreqRow (dominant : PyStr) (s : Subreq) :
    Plain (subreqRow d dominant s) ↔ ∀ f ∈ rowTexts d dominant s, ¬ OpensHeading f := by
  simp only [subreqRow, List.append_assoc, plain_append (p := py "| ") (by decide) fun s =>
    isMark_cons (by decide) _,
    opensHeading_field, opensHeading_last, rowTexts, List.map_cons, List.map_nil,
      List.forall_mem_cons, not_or,
    List.not_mem_nil, false_implies, implies_true, and_true]

lemma plain_auditLines (subs : List Subreq) (n : ℕ) : ∀ b ∈ auditLines d subs n, Plain b := by
  have hnumbers (ns : List ℕ) : oneLine (numbersOrNone ns) = true := by
    rw [numbersOrNone]
    split_ifs
    · decide
    · exact oneLine_numbersText ns
  intro b hb
  rw [auditLines] at hb
  split_ifs at hb
  · simp at hb
  · obtain rfl := List.mem_singleton.mp hb
    rw [List.append_assoc, List.append_assoc, plain_append (by decide) fun s =>
      isMark_cons (by decide) _]
    refine not_opensHeading_of_oneLine ?_
    rw [oneLine_append, oneLine_append]
    exact ⟨hnumbers _, by decide, hnumbers _⟩

lemma plain_edgeLines (edges : List Edge) :
    (∀ b ∈ edgeLines d edges, Plain b) ↔ ∀ f ∈ edges.map (edgeText d), ¬ OpensHeading f := by
  rw [edgeLines]
  split_ifs with h
  · simp [h]
  · rw [List.forall_mem_singleton, plain_append (by decide) fun s =>
      isMark_cons (by decide) _, opensHeading_join]
    simp

lemma plain_resultLines (dominants : ℕ → PyStr) (res : Result) (n : ℕ) :
    (∀ b ∈ resultLines d dominants res n, Plain b) ↔
      ∀ f ∈ (res.subreqs.mapIdx fun i s => rowTexts d (dominants i) s).flatten ++
        res.edges.map (edgeText d), ¬ OpensHeading f := by
  have hcount : Plain (py "- **" ++ natDigits res.subreqs.length ++ py " 个子需求**：") := by
    rw [List.append_assoc, plain_append (by decide) fun s => isMark_cons (by decide) _]
    refine not_opensHeading_of_oneLine ?_
    rw [oneLine_append]
    exact ⟨oneLine_natDigits _, by decide⟩
  have hfixed : ∀ b ∈ [py "- **" ++ natDigits res.subreqs.length ++ py " 个子需求**：", [],
      py "| id | 子需求 | 主导 | type | status | 消息# |", py "|---|---|---|---|---|---|"], Plain b :=
    List.forall_mem_cons.mpr ⟨hcount, List.forall_mem_cons.mpr ⟨plain_of_oneLine rfl (by decide),
      List.forall_mem_cons.mpr ⟨plain_of_oneLine (by decide) (by decide),
        List.forall_mem_singleton.mpr (plain_of_oneLine (by decide) (by decide))⟩⟩⟩
  have hrows : (∀ b ∈ res.subreqs.mapIdx (fun i s => subreqRow d (dominants i) s), Plain b) ↔
      ∀ f ∈ (res.subreqs.mapIdx fun i s => rowTexts d (dominants i) s).flatten,
        ¬ OpensHeading f := by
    rw [List.mapIdx_eq_zipIdx_map, List.mapIdx_eq_zipIdx_map, List.forall_mem_map]
    simp only [plain_subreqRow, List.mem_flatten, List.mem_map]
    constructor
    · rintro h f ⟨_, ⟨p, hp, rfl⟩, hf⟩
      exact h p hp f hf
    · exact fun h p hp f hf => h f ⟨_, ⟨p, hp, rfl⟩, hf⟩
  rw [resultLines, List.forall_mem_append, List.forall_mem_append,
    List.forall_mem_append, List.forall_mem_append,
    hrows, plain_edgeLines, List.forall_mem_append, List.forall_mem_singleton]
  have hlast : Plain [] := plain_of_oneLine rfl (by decide)
  have haudit := plain_auditLines (d := d) res.subreqs n
  tauto

lemma freeTexts_iff {t : TaskInput} {terminal : Bool} {part : RenderedTask}
    (h : renderTask d setOrder doc terminal t.cluster t.data t.calls = .ok part) :
    (∀ l ∈ carriedLines part.text, isMark l = false) ↔
    ∀ f ∈ freeTexts d setOrder t terminal, ¬ OpensHeading f := by
  obtain ⟨tail, htail, h⟩ := bind_eq_ok.mp h
  have hgoal := plain_goalLine (metaTail_ok htail)
  have hend : Plain [] := plain_of_oneLine rfl (by decide)
  rw [carriedLines_iff, freeTexts, List.forall_mem_cons]
  split_ifs at h ⊢ with hreal
  · obtain rfl := Except.ok.inj h
    have hstatus : Plain (py "- **1 个子需求**（任务本身，单条消息无内部闭环）· status=" ++
        textOf d (if terminal then passed else unfinished)) := by
      refine plain_of_oneLine ?_ (isMark_cons (by decide) _)
      rw [oneLine_append]
      refine ⟨by decide, ?_⟩
      cases terminal
      · exact (by decide : oneLine (py "未终结") = true)
      · exact (by decide : oneLine (py "一遍过") = true)
    simp only [singleTask, List.forall_mem_cons, hgoal, hstatus, hend, List.not_mem_nil,
      false_implies, implies_true, and_true]
  · cases hres : decomposeWith d setOrder 150 100 t.cluster t.calls.answers terminal with
    | error e =>
      rw [hres] at h
      obtain rfl := Except.ok.inj h
      have herror : Plain (py "- ⚠️ 子需求拆分失败（重试3次仍坏）：" ++ t.calls.error) ↔
        ¬ OpensHeading t.calls.error :=
        plain_append (by decide) (fun s => isMark_cons (by decide) _) _
      simp only [failedTask, List.forall_mem_cons, hgoal, herror, hend, List.not_mem_nil,
        false_implies, implies_true, and_true]
    | ok out =>
      rw [hres] at h
      obtain ⟨goal, hg, h⟩ := bind_eq_ok.mp h
      obtain ⟨delivery, -, h⟩ := bind_eq_ok.mp h
      obtain rfl := Except.ok.inj h
      have hwritten : writtenGoal d t.data out.1.2 = if goal = [] then
          textOf d t.data.goal else goal := by
        rw [writtenGoal, hg]
        rfl
      simp only [List.forall_mem_cons, hgoal, plain_resultLines, hwritten]

lemma renderHead_iff (window : PyStr) (n total : ℕ) :
    (∀ l ∈ (renderHead doc window n total).flatMap splitlines, isMark l = false) ↔
    ¬ OpensHeading window := by
  have hmodel : Plain (py "# 任务 → 子需求　两级拆分（model=" ++ doc.model ++ py "）") := by
    refine plain_of_oneLine ?_ rfl
    rw [oneLine_append, oneLine_append]
    exact ⟨⟨by decide, doc.model_oneLine⟩, by decide⟩
  have hcount : Plain (py "- " ++ natDigits n ++ py " 个任务 → 共 **" ++ natDigits total ++
      py "** 个子需求（子需求=「小目标→走偏→被纠→做对」的改写单位）") := by
    refine plain_of_oneLine ?_ (isMark_cons (by decide) _)
    simp only [oneLine_append, oneLine_natDigits, and_true]
    decide
  have hwindow : Plain (py "- 群：`" ++ doc.groupId ++ py "`　窗口：" ++ window) ↔
      ¬ OpensHeading window := by
    refine plain_append ?_ (fun s => isMark_cons (by decide) _) window
    rw [oneLine_append, oneLine_append]
    exact ⟨⟨by decide, doc.groupId_oneLine⟩, by decide⟩
  have hempty : Plain [] := plain_of_oneLine rfl (by decide)
  have hrule : Plain (py "---") := plain_of_oneLine (by decide) (by decide)
  rw [no_mark_flatMap_iff]
  simp only [renderHead, List.forall_mem_cons, hmodel, hcount, hwindow, hempty, hrule,
    List.not_mem_nil, false_implies, implies_true, and_true, true_and]

end Lines

/-- One section is read back for every task, and it is that of the task and starts with its
number, exactly if neither the window nor a title, goal, error text or field of a row or an edge
has a line break that the mark of a heading follows. -/
theorem sections_of_tasks_iff (d : Display) (setOrder : ℕ → ℕ → Bool) (doc : DocEnv)
    (window : PyStr) (s : ℕ) (tasks : List TaskInput) (parts : List RenderedTask) (out : Rendered)
    (hparts : renderTasks d setOrder doc tasks = .ok parts)
    (hout : render d setOrder doc window s tasks = .ok out) :
    ((splitTaskSections out.md).length = tasks.length ∧
      ∀ i sec, (splitTaskSections out.md)[i]? = some sec →
        HeadedBy (s + i) sec ∧ ∃ part, parts[i]? = some part ∧ sec = sectionOf (s + i) part.text) ↔
      ¬ OpensHeading window ∧
        ∀ t ∈ tasks.zip (terminals d tasks),
          ∀ f ∈ freeTexts d setOrder t.1 t.2, ¬ OpensHeading f := by
  obtain ⟨parts', hparts', hout⟩ := bind_eq_ok.mp hout
  obtain rfl : parts = parts' := Except.ok.inj (hparts.symm.trans hparts')
  obtain rfl := Except.ok.inj hout
  have hlength : (parts.map RenderedTask.text).length = tasks.length := by
    rw [List.length_map, length_renderTasks hparts]
  have hall : (∀ t ∈ tasks.zip (terminals d tasks),
      ∀ f ∈ freeTexts d setOrder t.1 t.2, ¬ OpensHeading f) ↔
        ∀ t ∈ parts.map RenderedTask.text, ∀ l ∈ carriedLines t, isMark l = false := by
    rw [List.forall_mem_map]
    have hrendered := mapM_eq_ok.mp hparts
    constructor
    · intro h part hpart
      obtain ⟨t, ht, hrender⟩ := RelatedLists.forall₂_mem_right hrendered hpart
      exact (freeTexts_iff hrender).mpr (h t ht)
    · intro h t ht
      obtain ⟨part, hpart, hrender⟩ := RelatedLists.forall₂_mem_left hrendered ht
      exact (freeTexts_iff hrender).mp (h part hpart)
  dsimp only
  rw [hall, ← @renderHead_iff doc window (parts.map RenderedTask.text).length
    (parts.map RenderedTask.subtasks).sum, ← hlength]
  constructor
  · rintro ⟨hcount, -⟩
    exact no_stray_of_length hcount
  · rintro ⟨hhead, htexts⟩
    rw [splitTaskSections_render hhead htexts]
    refine ⟨by simp, fun i sec hsec => ?_⟩
    rw [List.getElem?_map, List.getElem?_zipIdx, List.getElem?_map] at hsec
    cases hpart : parts[i]? with
    | none => simp [hpart] at hsec
    | some part =>
      obtain rfl : sectionOf (s + i) part.text = sec := by simpa [hpart] using hsec
      exact ⟨headedBy_sectionOf _ _, part, rfl, rfl⟩

/-- A task with a title of two lines. -/
def twoLineTitle : TaskInput :=
  ⟨[⟨ask, []⟩], ⟨.str (py "deploy\n## 任务 9"), .str [], .str [], []⟩, callsWith "已交付"⟩

/-- The second line of the title opens a section, and that of the second task becomes the third. -/
theorem title_opens_section :
    ∃ out, render plainDisplay (fun _ _ => true) plainDoc [] 1 [twoLineTitle, laterTask] = .ok out ∧
      (splitTaskSections out.md).map headingNumber = [some 1, some 9, some 2] :=
  ok_of_toOption (by decide +kernel)

theorem sections_of_tasks_iff_shortTask :
    ∃ parts out, renderTasks plainDisplay (fun _ _ => true) plainDoc [shortTask,
      laterTask] = .ok parts ∧
      render plainDisplay (fun _ _ => true) plainDoc [] 1 [shortTask, laterTask] = .ok out ∧
      (splitTaskSections out.md).length = 2 ∧
      ∀ i sec, (splitTaskSections out.md)[i]? = some sec →
        HeadedBy (1 + i) sec ∧ ∃ part, parts[i]? = some part ∧
          sec = sectionOf (1 + i) part.text := by
  obtain ⟨parts, hparts, -⟩ := ok_of_toOption
    (show ∃ parts ∈ (renderTasks plainDisplay (fun _ _ =>
      true) plainDoc [shortTask, laterTask]).toOption,
      True by decide +kernel)
  obtain ⟨out, hout, -⟩ := ok_of_toOption
    (show ∃ out ∈ (render plainDisplay (fun _ _ =>
      true) plainDoc [] 1 [shortTask, laterTask]).toOption,
      True by decide +kernel)
  have htexts : ∀ t ∈ [shortTask, laterTask].zip (terminals plainDisplay [shortTask, laterTask]),
      ∀ f ∈ freeTexts plainDisplay (fun _ _ => true) t.1 t.2, oneLine f = true := by decide +kernel
  exact ⟨parts, out, hparts, hout,
    (sections_of_tasks_iff plainDisplay (fun _ _ => true) plainDoc [] 1
    [shortTask, laterTask] parts out hparts hout).mpr ⟨not_opensHeading_of_oneLine rfl,
      fun t ht f hf => not_opensHeading_of_oneLine (htexts t ht f hf)⟩⟩

end AgentTrajectory.RenderDecompose
