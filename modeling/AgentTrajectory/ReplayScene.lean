import AgentTrajectory.PreInstructionSnapshot

/-! The scene a replay leg runs in: the baseline prompt of a snapshot with its instruction
replaced. The instruction is looked for in the rendered text, between the first marker and the
first blank line behind it. -/
namespace AgentTrajectory.ReplayReconstruct
open PyText PreInstructionSnapshot

/-- `s.replace(old, new, 1)` for a text `old` that is not empty. -/
def replaceFirst (old new s : PyStr) : PyStr :=
  match cut old s with
  | some (before, behind) => before ++ new ++ behind
  | none => s

structure Snapshot where
  originalInstruction : Option PyStr
  prompts : Option Prompts

def marker : PyStr := py "【原始指令】\n"

def blankLine : PyStr := py "\n\n"

/-- `_scene_from_snapshot`; no rewritten prompt reads as an empty one. -/
def sceneFromSnapshot (snap : Option Snapshot) (rewritten : PyStr) : Option PyStr :=
  snap.map fun snap =>
    let context := (snap.prompts.map Prompts.baseline).getD []
    let original := snap.originalInstruction.getD []
    if rewritten = [] ∨ original = [] ∨ contains original context = false then context
    else
      match cut marker context with
      | none => replaceFirst original rewritten context
      | some (before, rest) =>
          match cut blankLine rest with
          | none => before ++ marker ++ replaceFirst original rewritten rest
          | some (t0Text, behind) =>
              before ++ marker ++ replaceFirst original rewritten t0Text ++ blankLine ++ behind

/-- The snapshot of an instruction, as its prompts were built. -/
def snapshotOf (context original comment : PyStr) : Snapshot where
  originalInstruction := some original
  prompts := some (promptPair context original comment)

def behindMarker (context original : PyStr) : PyStr :=
  match cut marker (context ++ blankLine ++ marker ++ original) with
  | some (_, rest) => rest
  | none => []

/-- The part of it that is searched: up to the first blank line, the line break behind the
instruction counted. -/
def searched (context original : PyStr) : PyStr :=
  match cut blankLine (behindMarker context original ++ py "\n") with
  | some (line, _) => line
  | none => behindMarker context original

/-- The instruction is found where it stands: no marker, blank line or earlier copy comes first. -/
def FoundAtT0 (context original : PyStr) : Prop :=
  ¬blankLine <:+: behindMarker context original ++ py "\n" ∧
    ∀ before behind, behindMarker context original = before ++ original ++ behind → behind = []

/-- An earlier copy is found, and both instructions go on with the text between the copies. -/
def FoundShifted (context original rewritten : PyStr) : Prop :=
  ∃ before between behind, (cut original (searched context original)).map Prod.fst = some before ∧
    behindMarker context original = before ++ between ++ original ∧
      behindMarker context original = before ++ original ++ behind ∧ between ≠ [] ∧
        rewritten ++ behind = between ++ rewritten

def noStart (sep text : PyStr) : Bool :=
  text.tails.all fun t => t.isEmpty || !(startswith t sep || startswith sep t)

lemma not_startswith_append {sep t y : PyStr} (h : startswith t sep = false) (h' : startswith sep t = false) :
    startswith (t ++ y) sep = false := by
  rw [Bool.eq_false_iff] at h h' ⊢
  intro hs
  rcases List.prefix_or_prefix_of_prefix ((startswith_iff _ _).mp hs) (List.prefix_append t y) with hp | hp
  · exact h ((startswith_iff _ _).mpr hp)
  · exact h' ((startswith_iff _ _).mpr hp)

lemma cut_append_of_noStart {sep text : PyStr} (h : noStart sep text = true) (y : PyStr) :
    cut sep (text ++ y) = (cut sep y).map fun p => (text ++ p.1, p.2) := by
  induction text with
  | nil => simp
  | cons c text ih =>
    rw [noStart, List.tails_cons, List.all_cons, Bool.and_eq_true] at h
    obtain ⟨hc, htext⟩ := h
    simp only [List.isEmpty_cons, Bool.false_or, Bool.not_eq_true', Bool.or_eq_false_iff] at hc
    have hstart : startswith (c :: text ++ y) sep = false := not_startswith_append hc.1 hc.2
    rw [List.cons_append] at hstart ⊢
    rw [cut, hstart, ih htext]
    simp [Function.comp_def]

lemma cut_append_right {sep s a b : PyStr} (h : cut sep s = some (a, b)) (t : PyStr) :
    cut sep (s ++ t) = some (a, b ++ t) := by
  refine cut_eq_some_iff.mpr ⟨by rw [cut_append_eq h]; simp, fun a' b' hs => ?_⟩
  by_contra! hlt
  have hle : (a' ++ sep).length ≤ s.length := by
    rw [cut_append_eq h]
    simp only [List.length_append]
    omega
  have hprefix : a' ++ sep <+: s :=
    List.prefix_of_prefix_length_le ⟨b', hs.symm⟩ (List.prefix_append s t) hle
  obtain ⟨rest, hrest⟩ := hprefix
  have := cut_min h hrest.symm
  omega

def closing : PyStr := blankLine ++ py "请按当时状态完成这条原始指令。"

lemma promptTail_eq (original : PyStr) : promptTail original = blankLine ++ marker ++ original ++ closing := by
  have hopen : py "\n\n【原始指令】\n" = blankLine ++ marker := by
    rw [blankLine, marker, ← py_append]
    rfl
  have hclose : py "\n\n请按当时状态完成这条原始指令。" = closing := by
    rw [closing, blankLine, ← py_append]
    rfl
  rw [promptTail, hopen, hclose]

lemma noStart_ofList {sep : PyStr} {l : List Char} (h : noStart sep (l.map cp) = true) :
    noStart sep (py (String.ofList l)) = true := by
  rwa [py_ofList]

lemma noStart_append {sep a b : PyStr} (ha : noStart sep a = true) (hb : noStart sep b = true) :
    noStart sep (a ++ b) = true := by
  induction a with
  | nil => exact hb
  | cons c a ih =>
    rw [noStart, List.tails_cons, List.all_cons, Bool.and_eq_true] at ha
    obtain ⟨hc, ha⟩ := ha
    simp only [List.isEmpty_cons, Bool.false_or, Bool.not_eq_true', Bool.or_eq_false_iff] at hc
    have hlong : startswith sep (c :: a ++ b) = false := by
      rw [Bool.eq_false_iff]
      intro h
      have hshort := (startswith_iff _ _).mpr ((List.prefix_append (c :: a) b).trans ((startswith_iff _ _).mp h))
      rw [hc.2] at hshort
      exact Bool.noConfusion hshort
    rw [List.cons_append, noStart, List.tails_cons, List.all_cons, Bool.and_eq_true, ← List.cons_append,
      not_startswith_append hc.1 hc.2, hlong]
    exact ⟨rfl, ih ha⟩

set_option maxRecDepth 2000 in
lemma noStart_header :
    noStart marker (py "你正在复现原始指令到达前一刻的执行状态。下面只包含 T0 前上下文。\n\n【T0 前同一运行时 thread 上下文】\n") = true :=
  noStart_ofList (by decide +kernel)

lemma baseline_eq (context comment : PyStr) : ∃ header, noStart marker header = true ∧ ∀ original,
    (promptPair context original comment).baseline =
      header ++ (context ++ blankLine ++ marker ++ original ++ closing) := by
  by_cases h : context = []
  · refine ⟨promptHeader [], noStart_append noStart_header (noStart_ofList (by decide +kernel)),
      fun original => ?_⟩
    simp only [promptPair, promptTail_eq, h, List.nil_append]
  · refine ⟨_, noStart_header, fun original => ?_⟩
    simp only [promptPair, promptTail_eq, promptHeader, if_neg h, List.append_assoc]

lemma behindMarker_spec (context original : PyStr) : ∃ before pre,
    cut marker (context ++ blankLine ++ marker ++ original) = some (before, behindMarker context original) ∧
      behindMarker context original = pre ++ original ∧
        context ++ blankLine ++ marker = before ++ marker ++ pre := by
  obtain ⟨before, rest, hcut, hle⟩ := cut_first marker (context ++ blankLine) original
  have hrest : behindMarker context original = rest := by rw [behindMarker, hcut]
  have heq := cut_append_eq hcut
  have hprefix : before ++ marker <+: context ++ blankLine ++ marker := by
    refine List.prefix_of_prefix_length_le ⟨rest, heq.symm⟩ (List.prefix_append _ original) ?_
    simp only [List.length_append] at hle ⊢
    omega
  obtain ⟨pre, hpre⟩ := hprefix
  refine ⟨before, pre, by rw [hcut, hrest], ?_, hpre.symm⟩
  rw [← hpre, List.append_assoc (before ++ marker)] at heq
  rw [hrest, List.append_cancel_left heq]

lemma searched_spec (context original t : PyStr) :
    (∃ behind, cut blankLine (behindMarker context original ++ (blankLine ++ t)) =
      some (searched context original, behind)) ∧
      searched context original <+: behindMarker context original := by
  have hsplit : behindMarker context original ++ (blankLine ++ t) =
      behindMarker context original ++ py "\n" ++ (py "\n" ++ t) := by
    rw [List.append_assoc]
    rfl
  rw [searched]
  cases hcut : cut blankLine (behindMarker context original ++ py "\n") with
  | some p =>
    obtain ⟨line, b⟩ := p
    refine ⟨⟨b ++ (py "\n" ++ t), by rw [hsplit, cut_append_right hcut]⟩, ?_⟩
    have heq := cut_append_eq hcut
    refine List.prefix_of_prefix_length_le ⟨blankLine ++ b, ?_⟩ (List.prefix_append _ (py "\n")) ?_
    · rw [heq, List.append_assoc]
    · have hlen := congrArg List.length heq
      have hblank : blankLine.length = 2 := rfl
      have hnewline : (py "\n").length = 1 := rfl
      simp only [List.length_append] at hlen
      show line.length ≤ _
      omega
  | none =>
    refine ⟨⟨t, cut_eq_some_iff.mpr ⟨by simp, fun a' b' hs => ?_⟩⟩, List.prefix_rfl⟩
    by_contra! hlt
    refine cut_eq_none_iff.mp hcut ?_
    have hprefix : a' ++ blankLine <+: behindMarker context original ++ py "\n" := by
      refine List.prefix_of_prefix_length_le ⟨b', hs.symm⟩ (hsplit ▸ List.prefix_append _ _) ?_
      have hblank : blankLine.length = 2 := rfl
      have hnewline : (py "\n").length = 1 := rfl
      simp only [List.length_append]
      omega
    exact (List.infix_append a' blankLine []).trans (by simpa using hprefix.isInfix)

lemma sceneFromSnapshot_found {snap : Snapshot} {prompts : Prompts}
    {original rewritten before rest t0Text behind : PyStr}
    (hprompts : snap.prompts = some prompts) (horiginal : snap.originalInstruction = some original)
    (hr : rewritten ≠ []) (ho : original ≠ []) (hfound : contains original prompts.baseline = true)
    (hmarker : cut marker prompts.baseline = some (before, rest))
    (hline : cut blankLine rest = some (t0Text, behind)) :
    sceneFromSnapshot (some snap) rewritten =
      some (before ++ marker ++ replaceFirst original rewritten t0Text ++ blankLine ++ behind) := by
  have hguard : ¬(rewritten = [] ∨ original = [] ∨ contains original prompts.baseline = false) := by
    simp [hr, ho, hfound]
  simp only [sceneFromSnapshot, hprompts, horiginal, Option.map_some, Option.getD_some,
    if_neg hguard, hmarker, hline]

lemma scene_split (context original comment : PyStr) : ∃ front pre skipped,
    (∀ instruction, (promptPair context instruction comment).baseline = front ++ pre ++ instruction ++ closing) ∧
      behindMarker context original = pre ++ original ∧
        behindMarker context original = searched context original ++ skipped ∧
          (original ≠ [] → ∀ rewritten, rewritten ≠ [] →
            sceneFromSnapshot (some (snapshotOf context original comment)) rewritten =
              some (front ++ replaceFirst original rewritten (searched context original) ++
                skipped ++ closing)) := by
  obtain ⟨header, hheader, hbase⟩ := baseline_eq context comment
  obtain ⟨before, pre, hcut, hpre, hfront⟩ := behindMarker_spec context original
  obtain ⟨⟨behind, hblank⟩, skipped, hskipped⟩ :=
    searched_spec context original (py "请按当时状态完成这条原始指令。")
  rw [← closing] at hblank
  have hprompt : ∀ instruction, (promptPair context instruction comment).baseline =
      header ++ before ++ marker ++ pre ++ instruction ++ closing := by
    intro instruction
    rw [hbase, hfront]
    simp only [List.append_assoc]
  refine ⟨header ++ before ++ marker, pre, skipped, hprompt, hpre, hskipped.symm, fun ho rewritten hr => ?_⟩
  have hmarker : cut marker (promptPair context original comment).baseline =
      some (header ++ before, behindMarker context original ++ closing) := by
    rw [hbase, cut_append_of_noStart hheader, cut_append_right hcut]
    rfl
  have hfound : contains original (promptPair context original comment).baseline = true :=
    (contains_iff _ _).mpr ⟨_, _, (hprompt original).symm⟩
  have hbehind : blankLine ++ behind = skipped ++ closing := by
    have heq := cut_append_eq hblank
    rw [← hskipped, List.append_assoc, List.append_assoc] at heq
    exact (List.append_cancel_left heq).symm
  rw [sceneFromSnapshot_found rfl rfl hr ho hfound hmarker hblank]
  simp only [List.append_assoc, hbehind]

lemma searched_eq {context original : PyStr} (h : ¬blankLine <:+: behindMarker context original ++ py "\n") :
    searched context original = behindMarker context original := by
  rw [searched, cut_eq_none_iff.mpr h]

lemma not_blankLine_of_searched_eq {context original : PyStr}
    (h : searched context original = behindMarker context original) :
    ¬blankLine <:+: behindMarker context original ++ py "\n" := by
  intro hin
  cases hcut : cut blankLine (behindMarker context original ++ py "\n") with
  | none => exact cut_eq_none_iff.mp hcut hin
  | some p =>
    obtain ⟨line, b⟩ := p
    have hline : line = behindMarker context original := by rw [← h, searched, hcut]
    have hlen := congrArg List.length (cut_append_eq hcut)
    have hblank : blankLine.length = 2 := rfl
    have hnewline : (py "\n").length = 1 := rfl
    simp only [List.length_append, hline] at hlen
    omega

lemma foundAtT0_iff (context original : PyStr) :
    FoundAtT0 context original ↔ ∃ before, cut original (searched context original) = some (before, []) ∧
      searched context original = behindMarker context original := by
  constructor
  · rintro ⟨hblank, honly⟩
    obtain ⟨before, pre, hcut, hpre, hfront⟩ := behindMarker_spec context original
    have hsearched := searched_eq hblank
    refine ⟨pre, ?_, hsearched⟩
    rw [hsearched]
    refine cut_eq_some_iff.mpr ⟨by simpa using hpre, fun a b hab => ?_⟩
    have hb := honly a b hab
    rw [hpre, hb, List.append_nil] at hab
    exact (congrArg List.length (List.append_cancel_right hab)).le
  · rintro ⟨before, hcut, hsearched⟩
    refine ⟨not_blankLine_of_searched_eq hsearched, fun a b hab => ?_⟩
    rw [hsearched] at hcut
    have hmin := cut_min hcut hab
    have hlen := congrArg List.length (hab.symm.trans (cut_append_eq hcut))
    simp only [List.length_append, List.length_nil] at hlen
    exact List.length_eq_zero_iff.mp (by omega)

lemma replaceFirst_self (old s : PyStr) : replaceFirst old old s = s := by
  rw [replaceFirst]
  cases hcut : cut old s with
  | none => rfl
  | some p => exact (cut_append_eq hcut).symm

lemma replaceFirst_searched_iff {context original pre skipped : PyStr} (rewritten : PyStr)
    (hpre : behindMarker context original = pre ++ original)
    (hskipped : behindMarker context original = searched context original ++ skipped) :
    replaceFirst original rewritten (searched context original) ++ skipped = pre ++ rewritten ↔
      rewritten = original ∨ FoundAtT0 context original ∨ FoundShifted context original rewritten := by
  constructor
  · intro h
    rw [replaceFirst] at h
    cases hcut : cut original (searched context original) with
    | none =>
      rw [hcut] at h
      exact .inl (List.append_cancel_left (h.symm.trans (hskipped.symm.trans hpre)))
    | some p =>
      obtain ⟨before, b⟩ := p
      rw [hcut] at h
      have hlen := congrArg List.length h
      simp only [List.length_append] at hlen
      obtain ⟨between, rfl⟩ : before <+: pre :=
        List.prefix_of_prefix_length_le ⟨rewritten ++ b ++ skipped, by simpa using h⟩
          (List.prefix_append pre rewritten) (by omega)
      rw [cut_append_eq hcut] at hskipped
      simp only [List.length_append] at hlen
      refine .inr ?_
      by_cases hbetween : between = []
      · left
        rw [hbetween, List.length_nil] at hlen
        obtain rfl : b = [] := List.length_eq_zero_iff.mp (by omega)
        obtain rfl : skipped = [] := List.length_eq_zero_iff.mp (by omega)
        refine (foundAtT0_iff context original).mpr ⟨before, hcut, ?_⟩
        rw [hskipped, List.append_nil]
        exact cut_append_eq hcut
      · right
        refine ⟨before, between, b ++ skipped, by rw [hcut]; rfl, hpre, by simpa using hskipped, hbetween, ?_⟩
        simpa using h
  · rintro (rfl | hfound | ⟨before, between, behind, hfirst, hbetween, hbehind, -, hshift⟩)
    · rw [replaceFirst_self, ← hskipped, hpre]
    · obtain ⟨before, hcut, hall⟩ := (foundAtT0_iff context original).mp hfound
      have hnil : skipped = [] := by simpa [hall] using hskipped
      have heq := cut_append_eq hcut
      rw [hall, hpre, List.append_nil] at heq
      rw [replaceFirst, hcut, hnil, List.append_cancel_right heq]
      simp
    · obtain ⟨⟨a, b⟩, hcut, rfl⟩ := Option.map_eq_some_iff.mp hfirst
      have hb : b ++ skipped = behind := by
        rw [cut_append_eq hcut, List.append_assoc] at hskipped
        exact List.append_cancel_left (hskipped.symm.trans hbehind)
      have hpre' : pre = a ++ between := List.append_cancel_right (hpre.symm.trans hbetween)
      rw [replaceFirst, hcut, hpre']
      simp only [List.append_assoc, hb, hshift]

/-- The replay scene is the prompt built for the rewritten instruction exactly when the search finds
the instruction where it stands, or replacing an earlier copy comes to the same text. -/
theorem scene_replaces_instruction_iff (context original rewritten comment : PyStr) (ho : original ≠ [])
    (hr : rewritten ≠ []) :
    sceneFromSnapshot (some (snapshotOf context original comment)) rewritten =
        some (promptPair context rewritten comment).baseline ↔
      rewritten = original ∨ FoundAtT0 context original ∨ FoundShifted context original rewritten := by
  obtain ⟨front, pre, skipped, hbase, hpre, hskipped, hscene⟩ := scene_split context original comment
  rw [hscene ho rewritten hr, hbase, Option.some.injEq, List.append_left_inj, List.append_assoc,
    List.append_assoc, List.append_right_inj]
  exact replaceFirst_searched_iff rewritten hpre hskipped

theorem scene_replaces_instruction_iff_plain :
    sceneFromSnapshot (some (snapshotOf (py "[a] 你好") (py "修登录") (py "先复现"))) (py "先复现再修登录") =
        some (promptPair (py "[a] 你好") (py "先复现再修登录") (py "先复现")).baseline ∧
      (py "先复现再修登录" = py "修登录" ∨ FoundAtT0 (py "[a] 你好") (py "修登录") ∨
        FoundShifted (py "[a] 你好") (py "修登录") (py "先复现再修登录")) := by
  have hscene : sceneFromSnapshot (some (snapshotOf (py "[a] 你好") (py "修登录") (py "先复现"))) (py "先复现再修登录") =
      some (promptPair (py "[a] 你好") (py "先复现再修登录") (py "先复现")).baseline := by decide +kernel
  exact ⟨hscene, (scene_replaces_instruction_iff _ _ _ _ (by decide +kernel) (by decide +kernel)).mp hscene⟩

/-- An instruction of two paragraphs is not replaced: the leg runs with the original one. -/
theorem blank_line_keeps_instruction :
    sceneFromSnapshot (some (snapshotOf (py "[a] 你好") (py "修登录\n\n不要动数据库") (py "先复现")))
        (py "先复现再修登录") = some (promptPair (py "[a] 你好") (py "修登录\n\n不要动数据库") (py "先复现")).baseline ∧
      (promptPair (py "[a] 你好") (py "修登录\n\n不要动数据库") (py "先复现")).baseline ≠
        (promptPair (py "[a] 你好") (py "先复现再修登录") (py "先复现")).baseline := by
  constructor
  · obtain ⟨front, pre, skipped, hbase, hpre, hskipped, hscene⟩ :=
      scene_split (py "[a] 你好") (py "修登录\n\n不要动数据库") (py "先复现")
    -- the blank line cuts the instruction, so that it is not found
    have hsame : replaceFirst (py "修登录\n\n不要动数据库") (py "先复现再修登录")
        (searched (py "[a] 你好") (py "修登录\n\n不要动数据库")) = searched (py "[a] 你好") (py "修登录\n\n不要动数据库") := by
      decide +kernel
    rw [hscene (by decide +kernel) _ (by decide +kernel), hsame, List.append_assoc front, ← hskipped, hpre, hbase,
      List.append_assoc front pre]
  · simp [promptPair, promptTail]

end AgentTrajectory.ReplayReconstruct
