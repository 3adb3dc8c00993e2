import AgentTrajectory.IncrementalSegment
import AgentTrajectory.PyLines

/-! The decomposition document of a run of `run_incremental`. The sections of the tasks that
stay hard-frozen are taken from the state as they are, those of the active area are rendered
anew with numbers that go on from the count of the former. -/
namespace AgentTrajectory.IncrementalSegment
open PyText PyDict PyJson TaskStitch LlmSegment

/-- What the documents take from outside: the group, the name of the model, the clock and
`str` of a value that is no string. The first three are single lines. -/
structure DocEnv where
  env : Env
  groupId : PyStr
  model : PyStr
  clock : ℤ → PyStr
  str : Json → PyStr
  groupId_oneLine : oneLine groupId = true
  model_oneLine : oneLine model = true
  clock_oneLine : ∀ t, oneLine (clock t) = true

/-- What the model calls of a run yield; `bodies` are the lines below the headings, made of
the texts of the decompositions. -/
structure RunAnswer where
  tasks : List LlmTask
  bodies : List (List PyStr)
  deliveries : List (Option PyStr)
  taskSubreqs : List (List Json × Bool)

def RunAnswer.toAnswer (a : RunAnswer) (sections : List PyStr) : Answer :=
  ⟨a.tasks, sections, a.deliveries, a.taskSubreqs⟩

variable (d : DocEnv)

def windowDesc (events : List Event) : PyStr :=
  match events.head?, events.getLast? with
  | some first, some last =>
      d.clock first.ts ++ py "→" ++ d.clock last.ts ++ py "（" ++ natDigits events.length ++ py "条原始）"
  | _, _ => py "(空窗口)"

def headingMark : PyStr := py "## 任务 "

def titleText : Json → PyStr
  | .str s => s
  | v => d.str v

structure TaskText where
  title : PyStr
  terminal : Bool
  body : List PyStr

def TaskText.rest (t : TaskText) : PyStr :=
  py "　" ++ t.title ++ (if t.terminal then [] else py "　⏳**未终结(incomplete)**")

def sectionLines (ti : ℕ) (t : TaskText) : List PyStr :=
  (headingMark ++ natDigits ti ++ t.rest) :: t.body

/-- What `render_decompose` writes for each cluster. -/
def taskTexts (cs : List (List Event × Meta)) (a : RunAnswer) : List TaskText :=
  ((cs.zip (computeTerminal d.env (cs.map Prod.fst))).zipIdx).map fun c =>
    ⟨titleText d c.1.1.2.title, c.1.2, a.bodies.getD c.2 []⟩

def renderHead (window : PyStr) (tasks subtasks : ℕ) : List PyStr :=
  [py "# 任务 → 子需求　两级拆分（model=" ++ d.model ++ py "）", [],
    py "- 群：`" ++ d.groupId ++ py "`　窗口：" ++ window,
    py "- " ++ natDigits tasks ++ py " 个任务 → 共 **" ++ natDigits subtasks ++
      py "** 个子需求（子需求=「小目标→走偏→被纠→做对」的改写单位）",
    [], py "---", []]

def renderDecompose (window : PyStr) (subtasks startIdx : ℕ) (texts : List TaskText) : PyStr :=
  join (py "\n") (renderHead d window texts.length subtasks ++
    (texts.zipIdx startIdx).flatMap fun t => sectionLines t.2 t.1)

def closeSection (lines : List PyStr) : PyStr := rstrip (join (py "\n") lines) ++ py "\n"

/-- The loop of `split_task_sections`; `cur` are the lines of the open section. -/
def splitLoop : List PyStr → List PyStr → List PyStr
  | cur, [] => if cur = [] then [] else [closeSection cur]
  | cur, line :: lines =>
      if startswith line headingMark then
        if cur = [] then splitLoop [line] lines else closeSection cur :: splitLoop [line] lines
      else if cur = [] then splitLoop [] lines
      else splitLoop (cur ++ [line]) lines

def splitTaskSections (md : PyStr) : List PyStr := splitLoop [] (splitlines md)

def combinedDecomposeMd (window : PyStr) (sections : List PyStr) : PyStr :=
  let body := rstrip (join (py "\n") ((sections.filter fun s => !(strip s).isEmpty).map rstrip))
  join (py "\n") [py "# 任务 → 子需求　增量两级拆分", [],
    py "- 群：`" ++ d.groupId ++ py "`　窗口：" ++ window,
    py "- 任务数：" ++ natDigits sections.length ++ py "（冻结任务原样复用，活动尾巴重新下钻）",
    [], py "---", [], body, []]

/-- What a run writes, with the sections its document is made of. -/
structure Output where
  state : State
  hardSections : List PyStr
  activeSections : List PyStr
  document : PyStr

/-- The tasks whose sections a run takes over. -/
def keptTasks (state : Option State) (batch : List Event) (thawHours : ℤ) : List TaskRecord :=
  match state with
  | none => []
  | some s => hardTasks s batch thawHours

def runClusters (state : Option State) (batch : List Event) (thawHours : ℤ) (answer : Option RunAnswer) :
    Option (List (List Event × Meta) × Answer) :=
  match state with
  | none => segmentEvents d.env batch [] (answer.map (·.toAnswer []))
  | some s => segmentEvents d.env (activeEvents s batch thawHours) s.titleAnchors (answer.map (·.toAnswer []))

def activeDocument (window : PyStr) (startIdx : ℕ) (texts : List TaskText) (a : Answer) : PyStr :=
  if texts = [] then []
  else renderDecompose d window ((a.taskSubreqs.map fun t => t.1.length).sum) startIdx texts

/-- `run_incremental` with the document it writes; `none` where it writes nothing, because
there is no new message or the model call raises. -/
def runWithDocument (state : Option State) (batch : List Event) (thawHours : ℤ) (answer : RunAnswer) :
    Option Output :=
  match state with
  | none =>
      (runClusters d none batch thawHours (some answer)).map fun r =>
        let md := activeDocument d (windowDesc d (sortByTs batch)) 1 (taskTexts d r.1 answer) r.2
        let sections := splitTaskSections md
        ⟨buildState d.env batch r.1 { r.2 with sections := sections } thawHours, [], sections, md⟩
  | some s =>
      if batch = [] then none
      else (runClusters d (some s) batch thawHours (some answer)).map fun r =>
        let active := activeEvents s batch thawHours
        let hard := (hardTasks s batch thawHours).map TaskRecord.renderMd
        let md := activeDocument d (windowDesc d (sortByTs active)) (hard.length + 1) (taskTexts d r.1 answer) r.2
        let sections := splitTaskSections md
        ⟨nextState d.env s batch r.1 { r.2 with sections := sections } thawHours, hard, sections,
          combinedDecomposeMd d (windowDesc d (if active = [] then batch else active)) (hard ++ sections)⟩

end AgentTrajectory.IncrementalSegment
