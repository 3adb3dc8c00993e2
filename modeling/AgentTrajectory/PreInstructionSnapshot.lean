import AgentTrajectory.RawContextReplay
import AgentTrajectory.PrincipleDistill

/-! `pre_instruction_snapshot.py`: for every rewritten instruction the events before it on its lane
make the prompts of a replay, without and with the principles distilled from its corrections. -/
namespace AgentTrajectory.PreInstructionSnapshot
open PyText PyDict PyJson PyValue PyRegex RuntimeLane RawContextReplay PrincipleDistill

variable {τ : Type}

structure EventRecord (τ : Type) where
  msgId : PyStr
  ts : τ
  iso : Option PyStr
  role : PyStr
  name : PyStr
  parentId : PyStr
  text : PyStr
  deriving DecidableEq

/-- `_format_event`. -/
def recordOf (env : ReplayEnv τ) (e : Event τ) : EventRecord τ where
  msgId := e.msgId
  ts := e.ts
  iso := env.iso e.ts
  role := e.role
  name := e.name
  parentId := e.parentId
  text := cleanText env e.text

/-- `_render_context`; here an event without a text has its line as well. -/
def renderPreContext (env : ReplayEnv τ) (es : List (Event τ)) : PyStr :=
  join (py "\n") ((es.zipIdx 1).map fun p =>
    py "M" ++ py (toString p.2) ++ py " [" ++ p.1.role ++ py "/" ++
      (if p.1.name = [] then p.1.role else p.1.name) ++ py "] " ++ cleanText env p.1.text)

/-- `_CONCRETE_RESULT_RE`. -/
def concreteResult (env : ReplayEnv τ) : Regex :=
  .oneOf [.one env.env.isDecimal,
    .all [.run isNumeral 1 none, .texts ["个", "条", "项", "次", "轮", "类", "层", "组", "篇", "份", "任务", "子需求"]],
    .texts ["->", "→", "=>"]]

/-- `_FAILURE_WORD_RE`. -/
def failureWord : Regex := .texts ["编造", "幻觉", "捏造", "凭空", "错", "错误", "误判", "戳穿"]

structure Evidence (τ : Type) where
  correction : Dict PyStr Json
  anchorEvent : EventRecord τ

def correctionAnchorEvent (byId : Dict PyStr (Event τ)) (correction : Dict PyStr Json) :
    Except PyError (Option (Event τ)) :=
  if (getNone correction (py "anchor")).truthy then CorrectionCensus.lookup byId (getNone correction (py "anchor"))
  else .ok none

section Snapshots
variable [LinearOrder τ] (env : ReplayEnv τ)

/-- One correction of `_post_t0_evidence`. -/
def postT0Evidence (t0 : Event τ) (byId : Dict PyStr (Event τ)) (correction : Dict PyStr Json) :
    Except PyError (Option (Evidence τ)) := do
  let anchor ← correctionAnchorEvent byId correction
  match anchor with
  | none => .ok none
  | some a =>
      let text := strOf env (orEmpty (getNone correction (py "what")) (.str []))
      if a.ts < t0.ts then .ok none
      else if found env.env.isWord (concreteResult env) text || found env.env.isWord failureWord text then
        .ok (some ⟨correction, recordOf env a⟩)
      else .ok none

def dedupKeepOrder {α : Type} (text : α → PyStr) (seen : List PyStr) : List α → List α
  | [] => []
  | x :: xs =>
      let key := dropSpaces (text x)
      if key ≠ [] ∧ key ∉ seen then x :: dedupKeepOrder text (key :: seen) xs else dedupKeepOrder text seen xs

def cleanGeneral (audit : List Distilled) (evidence : List (Evidence τ)) (allowPostT0SafeHints : Bool) :
    Except PyError (List PyStr) := do
  let post ← evidence.mapM fun ev => (textOf (getNone ev.correction (py "what"))).map dropSpaces
  let kept := audit.filter fun a => allowPostT0SafeHints || !post.elem (dropSpaces a.sourceWhat)
  .ok (dedupKeepOrder id [] (kept.map fun a => strip a.general))

def whatOf (correction : Dict PyStr Json) :
    PyStr := strip (strOf env (orEmpty (getNone correction (py "what")) (.str [])))

structure Principles where
  general : List PyStr
  domain : List (PyStr × Option PyStr)
  audit : List Distilled

/-- `_replay_principles`; `distill` is `distill_one` behind its cache. -/
def replayPrinciples (distill : PyStr → Except PyError Distilled) (corrections : List (Dict PyStr Json)) :
    Except PyError Principles := do
  let audit ← ((corrections.map (whatOf env)).filter (· ≠ [])).mapM distill
  let general := (audit.map Distilled.general).filter (· ≠ [])
  let domain := audit.filterMap fun d => d.domain.map fun text => (text, d.domainLabel)
  .ok ⟨dedupKeepOrder id [] general, dedupKeepOrder Prod.fst [] domain, audit⟩

structure Prompts where
  baseline : PyStr
  withComment : PyStr
  deriving DecidableEq

def promptHeader (preContext : PyStr) : PyStr :=
  py "你正在复现原始指令到达前一刻的执行状态。下面只包含 T0 前上下文。\n\n【T0 前同一运行时 thread 上下文】\n" ++
    (if preContext = [] then py "(空)" else preContext)

def promptTail (original : PyStr) : PyStr :=
  py "\n\n【原始指令】\n" ++ original ++ py "\n\n请按当时状态完成这条原始指令。"

def promptPair (preContext original comment : PyStr) : Prompts where
  baseline := promptHeader preContext ++ promptTail original
  withComment := promptHeader preContext ++ py "\n\n【通用行为准则（进 system，不是本题答案）】\n" ++ comment ++ promptTail original

structure Pack (τ : Type) where
  lane : Json
  t0 : EventRecord τ
  contextLimit : ℤ
  contextEvents : List (EventRecord τ)
  originalInstruction : Json
  sourceComment : Json
  principles : Principles
  commentForReplay : PyStr
  postT0FailureEvidence : List (Evidence τ)
  corrections : List Json
  prompts : Prompts

inductive SnapshotRow (τ : Type)
  | missingInstructionEvent (fixMid : Json) (source : Dict PyStr Json)
  | ok (pack : Pack τ)

/-- The lane that the item names, or else the one of T0. -/
def laneOfItem (laneOf : Dict PyStr PyStr) (item : Dict PyStr Json) (t0 : Event τ) : Json :=
  orEmpty (getNone item (py "lane")) (((get? laneOf t0.msgId).map Json.str).getD .null)

/-- The events before T0 on the lane; all of them where there is no lane. -/
def eligibleEvents (laneOf : Dict PyStr PyStr) (lane : Json) (t0 : Event τ)
    (events : List (Event τ)) : List (Event τ) :=
  events.filter fun e => decide (e.ts < t0.ts) &&
    (decide (lane = .null) || decide ((get? laneOf e.msgId).map Json.str = some lane))

def packOf (distill : PyStr → Except PyError Distilled) (events : List (Event τ)) (byId : Dict PyStr (Event τ))
    (laneOf : Dict PyStr PyStr) (limit : ℤ) (item : Dict PyStr Json) (t0 : Event τ) : Except PyError (Pack τ) := do
  let lane := laneOfItem laneOf item t0
  let pre := sliceFrom (-limit) (eligibleEvents laneOf lane t0 events)
  let original :=
    if cleanText env t0.text ≠ [] then Json.str (cleanText env t0.text)
    else (get? item (py "instruction_to_fix_text")).getD (.str [])
  let corrections ← listOf (orEmpty (getNone item (py "corrections")) (.arr []))
  let dicts ← corrections.mapM asDict
  let principles ← replayPrinciples env distill dicts
  let evidence ← dicts.mapM (postT0Evidence env t0 byId)
  let comment ← cleanGeneral principles.audit evidence.reduceOption true
  .ok
    { lane
      t0 := recordOf env t0
      contextLimit := limit
      contextEvents := pre.map (recordOf env)
      originalInstruction := original
      sourceComment := (get? item (py "rewritten")).getD (.str [])
      principles
      commentForReplay := join (py "；") comment
      postT0FailureEvidence := evidence.reduceOption
      corrections
      prompts := promptPair (renderPreContext env pre) (strOf env original) (join (py "；") comment) }

/-- One item of `build_snapshots`. -/
def snapshotRow (distill : PyStr → Except PyError Distilled) (events : List (Event τ))
    (byId : Dict PyStr (Event τ))
    (laneOf : Dict PyStr PyStr) (limit : ℤ) (item : Dict PyStr Json) : Except PyError (SnapshotRow τ) := do
  let event ← CorrectionCensus.lookup byId (getNone item (py "instruction_to_fix_msg"))
  match event with
  | none => .ok (.missingInstructionEvent (getNone item (py "instruction_to_fix_msg")) item)
  | some t0 => do
      let pack ← packOf env distill events byId laneOf limit item t0
      .ok (.ok pack)

/-- `build_snapshots`, given what the model answers to a failure. The corrections of all items are
distilled first. -/
def buildSnapshots (chat : PyStr → Except PyError PyStr) (real : Dict PyStr PyStr) (log : EventLog τ) (limit : ℤ)
    (rewritten : List (Dict PyStr Json)) : Except PyError (List (SnapshotRow τ)) := do
  let distill (what : PyStr) : Except PyError Distilled := do
    let raw ← chat what
    distillOne env.env what raw
  let corrections ← rewritten.mapM fun item => listOf (orEmpty (getNone item (py "corrections")) (.arr []))
  let dicts ← corrections.flatten.mapM asDict
  let _ ← (((dicts.map (whatOf env)).filter (· ≠ [])).dedup.insertionSort (· ≤ ·)).mapM distill
  rewritten.mapM (snapshotRow env distill log.events log.byId (shortLanes real log) limit)

end Snapshots

end AgentTrajectory.PreInstructionSnapshot
