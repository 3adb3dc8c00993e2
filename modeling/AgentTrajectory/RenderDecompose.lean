import AgentTrajectory.DecomposeTask
import AgentTrajectory.IncrementalDocument

/-! `render_decompose` of `llm_segment.py`: every task with two messages that are no noise is
decomposed, and what comes of it is written into a section of the document, kept as the
delivery of the task and stored with the ids of its messages. The goal and the delivery of an
answer pass through `decompose_one_task` untouched on the small path; the merge of the chunks
takes over the goal only. -/
namespace AgentTrajectory.RenderDecompose
open PyText PyDict PyJson PyValue TaskStitch LlmSegment LlmDecompose RouteDay DecomposeTask IncrementalSegment

/-- The fields of an answer beside its sub-requirements and edges; `null` where it lacks one. -/
structure Verdict where
  taskGoal : Json
  delivery : Json
  deriving DecidableEq

abbrev TaskAnswer := Result × Verdict

variable (d : Display) (setOrder : ℕ → ℕ → Bool)

/-- The loop of `_one`. -/
def oneLoopWith (rows : List Event) (retried : Bool) (last : Option TaskAnswer) :
    List (Except PyError TaskAnswer) → Except PyError TaskAnswer
  | [] =>
      match last with
      | some r => (resolveOverlaps d.env setOrder r.1 true).map fun out => (out.1, r.2)
      | none => .error .valueError
  | attempt :: rest =>
      match attempt.bind fun a => (repair d.env rows a.1).map fun r => (r, a.2) with
      | .error _ => oneLoopWith rows retried last rest
      | .ok r =>
          match resolveOverlaps d.env setOrder r.1 retried with
          | .error e => .error e
          | .ok (r', true) => oneLoopWith rows true (some (r', r.2)) rest
          | .ok (r', false) => .ok (r', r.2)

def oneWith (cluster : List DayEvent) (attempts : List (Except PyError TaskAnswer)) :
    Except PyError (TaskAnswer × ℕ) :=
  let t := buildTranscript d cluster
  (oneLoopWith d setOrder (t.events.map (·.toEvent)) false none attempts).map fun r => (r, t.rows.length)

/-- The loop over the chunks; `goal` is `merged["task_goal"]`. -/
def mergeFromWith (answers : ℕ → List (Except PyError TaskAnswer)) (c offset : ℕ) (merged : Result) (goal : Json) :
    List (List DayEvent) → Except PyError ((Result × Json) × ℕ)
  | [] => .ok ((merged, goal), offset)
  | chunk :: chunks => do
      let res ← oneWith d setOrder chunk (answers c)
      let merged ← mergeChunk d (c + 1) offset merged res.1.1
      mergeFromWith answers (c + 1) (offset + res.2) merged (if goal.truthy then goal else res.1.2.taskGoal) chunks

/-- The merged answer has no `delivery`. -/
def gatherWith (bigThreshold chunkTarget : ℕ) (cluster : List DayEvent)
    (answers : ℕ → List (Except PyError TaskAnswer)) : Except PyError (TaskAnswer × ℕ) :=
  let eff := effectiveEvents d cluster
  if eff.length ≤ bigThreshold then oneWith d setOrder cluster (answers 0)
  else (mergeFromWith d setOrder answers 0 0 ⟨[], []⟩ (.str []) (splitByGaps eff chunkTarget)).map fun r =>
    ((r.1.1, ⟨r.1.2, .null⟩), r.2)

def decomposeWith (bigThreshold chunkTarget : ℕ) (cluster : List DayEvent)
    (answers : ℕ → List (Except PyError TaskAnswer)) (terminal : Bool) : Except PyError (TaskAnswer × ℕ) := do
  let res ← gatherWith d setOrder bigThreshold chunkTarget cluster answers
  return ((← enforceTerminalTail d.env terminal res.1.1, res.1.2), res.2)

/-- What the calls on a task give: the answers on its lists, the text of the exception if the
decomposition fails, and the texts of `dominant` in the rows. -/
structure TaskCalls where
  answers : ℕ → List (Except PyError TaskAnswer)
  error : PyStr
  dominants : ℕ → PyStr

/-- `(v or "").strip()`. -/
def stripped (v : Json) : Except PyError PyStr :=
  if v.truthy then
    match v with
    | .str s => .ok (strip s)
    | _ => .error .attributeError
  else .ok []

def numbersText (ns : List ℕ) : PyStr := py "[" ++ join (py ", ") (ns.map natDigits) ++ py "]"

/-- `audit_membership`: the numbers that are held twice, and those that are missing. -/
def auditMembership (subs : List Subreq) (n : ℕ) : List ℕ × List ℕ :=
  let numbers := subs.flatMap (Subreq.numbers d.env)
  ((numbers.dedup.filter fun v => decide (1 < numbers.count v)).insertionSort (· ≤ ·),
    (List.range' 1 n).filter fun v => decide (v ∉ numbers))

/-- `xs or '无'`. -/
def numbersOrNone (ns : List ℕ) : PyStr := if ns = [] then py "无" else numbersText ns

def memberText : Member → PyStr
  | .num n => natDigits n
  | .text s => s

/-- A row of the table; a key that is missing is written as `null` is. -/
def subreqRow (dominant : PyStr) (s : Subreq) : PyStr :=
  py "| " ++ textOf d (s.id.getD (.str [])) ++ py " | " ++
    textOf d (s.title.getD (.str [])) ++ py " | " ++ dominant ++
    py " | " ++ textOf d s.type ++ py " | " ++ textOf d s.status ++ py " | " ++
    join (py ",") (s.memberIdx.map memberText) ++ py " |"

def edgeText (e : Edge) : PyStr :=
  textOf d e.src ++ e.type.getD (py "→") ++ textOf d e.dst

def auditLines (subs : List Subreq) (n : ℕ) : List PyStr :=
  let audit := auditMembership d subs n
  if audit.1 = [] ∧ audit.2 = [] then []
  else [py "- ⚠️ 子需求归属审计：重叠编号 " ++ numbersOrNone audit.1 ++ py "；遗漏编号 " ++ numbersOrNone audit.2]

def edgeLines (edges : List Edge) : List PyStr :=
  if edges = [] then [] else [py "- 子需求关系：" ++ join (py "；") (edges.map (edgeText d))]

def resultLines (dominants : ℕ → PyStr) (res : Result) (n : ℕ) : List PyStr :=
  [py "- **" ++ natDigits res.subreqs.length ++ py " 个子需求**：", [],
      py "| id | 子需求 | 主导 | type | status | 消息# |", py "|---|---|---|---|---|---|"] ++
    res.subreqs.mapIdx (fun i s => subreqRow d (dominants i) s) ++ auditLines d res.subreqs n ++
    edgeLines d res.edges ++ [[]]

variable (doc : DocEnv)

/-- `meta_tail`; an empty cluster has no first message. -/
def metaTail (cluster : List DayEvent) (m : Meta) (nreal : ℕ) : Except PyError PyStr :=
  match cluster.head?, cluster.getLast? with
  | some first, some last =>
      .ok (py "　| 跨度：" ++ doc.clock first.ts ++ py "→" ++ doc.clock last.ts ++ py " | " ++ natDigits nreal ++
        py " 条有效 | 原子段 " ++ numbersText m.segs)
  | _, _ => .error .indexError

/-- What is kept of a task. -/
structure RenderedTask where
  text : TaskText
  subtasks : ℕ
  delivery : Option PyStr
  subreqs : List StoredSubreq
  decomposeOk : Bool

/-- The messages that are no noise. -/
def nreal (cluster : List DayEvent) : ℕ := cluster.countP fun e => !isNoise e.text

def goalLine (goal tail : PyStr) : PyStr := py "- 目标：" ++ goal ++ tail

def singleTask (terminal : Bool) (cluster : List DayEvent) (m : Meta) (tail : PyStr) : RenderedTask :=
  let st := if terminal then passed else unfinished
  { text := ⟨textOf d m.title, terminal, [goalLine (textOf d m.goal) tail,
      py "- **1 个子需求**（任务本身，单条消息无内部闭环）· status=" ++ textOf d st, []]⟩
    subtasks := 1
    delivery := none
    subreqs := [⟨.str (py "S1"), m.title, st, .str [], (effectiveEvents d cluster).filterMap msgIdOf⟩]
    decomposeOk := true }

def failedTask (terminal : Bool) (m : Meta) (tail error : PyStr) : RenderedTask where
  text := ⟨textOf d m.title, terminal, [goalLine (textOf d m.goal) tail,
    py "- ⚠️ 子需求拆分失败（重试3次仍坏）：" ++ error, []]⟩
  subtasks := 0
  delivery := none
  subreqs := []
  decomposeOk := false

def decomposedTask (terminal : Bool) (cluster : List DayEvent) (m : Meta) (tail : PyStr) (dominants : ℕ → PyStr)
    (res : TaskAnswer) (n : ℕ) : Except PyError RenderedTask := do
  let taskGoal ← stripped res.2.taskGoal
  let delivery ← stripped res.2.delivery
  let goal := if taskGoal = [] then textOf d m.goal else taskGoal
  return {
    text := ⟨textOf d m.title, terminal, goalLine goal tail :: resultLines d dominants res.1 n⟩
    subtasks := res.1.subreqs.length
    delivery := if delivery = [] then none else some delivery
    subreqs := subreqMemberMsgIds d res.1.subreqs (effectiveEvents d cluster)
    decomposeOk := true }

/-- One round of the loop, with the defaults of `decompose_one_task`. -/
def renderTask (terminal : Bool) (cluster : List DayEvent) (m : Meta) (calls : TaskCalls) :
    Except PyError RenderedTask := do
  let tail ← metaTail doc cluster m (nreal cluster)
  if nreal cluster < 2 then return singleTask d terminal cluster m tail
  else match decomposeWith d setOrder 150 100 cluster calls.answers terminal with
    | .error _ => return failedTask d terminal m tail calls.error
    | .ok (res, n) => decomposedTask d terminal cluster m tail calls.dominants res n

/-- A task that is rendered: its messages, its meta data and the calls on it. -/
structure TaskInput where
  cluster : List DayEvent
  data : Meta
  calls : TaskCalls

structure Rendered where
  md : PyStr
  totalSub : ℕ
  deliveries : List (Option PyStr)
  taskSubreqs : List (List StoredSubreq × Bool)

/-- `compute_terminal` of the clusters. -/
def terminals (tasks : List TaskInput) : List Bool :=
  computeTerminal d.env (tasks.map fun t => t.cluster.map (·.toEvent))

/-- The loop over the clusters. -/
def renderTasks (tasks : List TaskInput) : Except PyError (List RenderedTask) :=
  (tasks.zip (terminals d tasks)).mapM fun t => renderTask d setOrder doc t.2 t.1.cluster t.1.data t.1.calls

/-- `render_decompose`. -/
def render (window : PyStr) (startIdx : ℕ) (tasks : List TaskInput) : Except PyError Rendered := do
  let parts ← renderTasks d setOrder doc tasks
  let total := (parts.map RenderedTask.subtasks).sum
  return {
    md := renderDecompose doc window total startIdx (parts.map RenderedTask.text)
    totalSub := total
    deliveries := parts.map RenderedTask.delivery
    taskSubreqs := parts.map fun p => (p.subreqs, p.decomposeOk) }

end AgentTrajectory.RenderDecompose
