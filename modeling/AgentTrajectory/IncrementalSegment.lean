import AgentTrajectory.LlmSegment

/-! `incremental_segment.py`: one run of `run_incremental` from the stored state and a
fetched batch to the next state. The answers of the model, the rendered sections and the
decompositions of a run are its inputs; a run whose model call raises, or whose answer
`assemble_clusters` cannot read, writes nothing. -/
namespace AgentTrajectory.IncrementalSegment
open PyText PyDict PyJson TaskStitch LlmSegment

/-- `confirmation_status`: 未终结, 未确认, 已完成. -/
inductive Confirmation
  | unfinished
  | unconfirmed
  | completed
  deriving DecidableEq

/-- A record of `_task_record`; records of older states may lack `decompose_ok`. -/
structure TaskRecord where
  title : Json
  goal : Json
  reason : Json
  memberMsgIds : List PyStr
  lastTs : ℤ
  terminal : Bool
  delivery : Option PyStr
  confirmationStatus : Confirmation
  renderMd : PyStr
  subreqs : List Json
  decomposeOk : Option Bool
  events : List Event
  deriving DecidableEq

structure TitleAnchor where
  msgIds : List PyStr
  title : Json

structure State where
  watermarkTs : ℤ
  thawHours : ℤ
  frozenTasks : List TaskRecord
  activeTailEvents : List Event
  activeTailSubreqs : List Json
  titleAnchors : List TitleAnchor

/-- What the model calls of a run yield: the grouping, the sections of the rendered
document, the deliveries and the decompositions with their success flags. -/
structure Answer where
  tasks : List LlmTask
  sections : List PyStr
  deliveries : List (Option PyStr)
  taskSubreqs : List (List Json × Bool)

def eventMsgIds (events : List Event) : List PyStr :=
  (((events.map Event.msgId).filter fun m => !m.isEmpty).dedup).insertionSort (· ≤ ·)

def lastTs : List Event → ℤ
  | [] => 0
  | e :: es => es.foldl (fun m d => max m d.ts) e.ts

def meaningfulTail (env : Env) (events : List Event) : Option Event :=
  (events.insertionSort fun a b => b.ts ≤ a.ts).find? fun e =>
    !isNoise e.text && !(stripFeishu env e.text).isEmpty

def confirmationStatus (env : Env) (events : List Event) (terminal : Bool)
    (delivery : Option PyStr) : Confirmation :=
  if terminal = false then .unfinished
  else match meaningfulTail env events with
    | none => .completed
    | some tail =>
        if tail.role = .user then
          if saysClosure env tail.text then .completed else .unconfirmed
        else if delivery = some (py "仅占位") ∨ delivery = some (py "无交付") then .unconfirmed
        else .completed

def taskRecord (env : Env) (cluster : List Event) (m : Meta) (renderMd : PyStr) (terminal : Bool)
    (delivery : Option PyStr) (subreqs : List Json) (decomposeOk : Bool) : TaskRecord where
  title := m.title
  goal := m.goal
  reason := m.reason
  memberMsgIds := eventMsgIds cluster
  lastTs := lastTs cluster
  terminal := terminal
  delivery := delivery
  confirmationStatus := confirmationStatus env cluster terminal delivery
  renderMd := renderMd
  subreqs := subreqs
  decomposeOk := some decomposeOk
  events := cluster

def decomposeFailed (t : TaskRecord) : Bool :=
  match t.decomposeOk with
  | some ok => !ok
  | none => t.subreqs.isEmpty && decide (2 ≤ t.events.countP fun e => !isNoise e.text)

structure AnchorMatch where
  index : ℕ
  title : Json
  shared : ℕ
  size : ℕ

def betterAnchor (cset : List PyStr) (used : List ℕ) (best : Option AnchorMatch)
    (a : TitleAnchor × ℕ) : Option AnchorMatch :=
  let aset := a.1.msgIds.dedup
  let m : AnchorMatch := ⟨a.2, a.1.title, (aset.filter (· ∈ cset)).length, aset.length⟩
  if a.2 ∈ used ∨ a.1.title.truthy = false ∨ aset = [] then best
  else match best with
    | none => if 0 < m.shared then some m else none
    | some b => if b.shared * m.size < m.shared * b.size then some m else best

/-- `_carry_forward_titles` with `thresh=0.6`. -/
def carryForwardTitles (anchors : List TitleAnchor) :
    List ℕ → List (List Event × Meta) → List (List Event × Meta)
  | _, [] => []
  | used, (cluster, m) :: rest =>
      let cset := eventMsgIds cluster
      match (if cset = [] then none else anchors.zipIdx.foldl (betterAnchor cset used) none) with
      | some b =>
          if 3 * b.size ≤ 5 * b.shared then
            (cluster, { m with title := b.title }) :: carryForwardTitles anchors (b.index :: used) rest
          else (cluster, m) :: carryForwardTitles anchors used rest
      | none => (cluster, m) :: carryForwardTitles anchors used rest

def titleOrEmpty (t : Json) : Json := if t.truthy then t else .str []

/-- `_reopened_frozen_indexes`: an id stands for the last task that holds it. -/
def reopenedFrozenIndexes (frozen : List TaskRecord) (newEvents : List Event) : List ℕ :=
  let msgToIdx := ofPairs (frozen.zipIdx.flatMap fun t => t.1.memberMsgIds.map fun m => (m, t.2))
  newEvents.filterMap fun e => get? msgToIdx e.parentId

/-- The test of `_hard_frozen_indexes` on one task. -/
def isHardFrozen (watermarkTs thawHours : ℤ) (reopened : List ℕ) (t : TaskRecord × ℕ) : Bool :=
  decide (t.2 ∉ reopened) && !decomposeFailed t.1 && t.1.terminal &&
    decide (t.1.lastTs < watermarkTs - thawHours * 3600 * 1000)

def hardTasks (s : State) (batch : List Event) (thawHours : ℤ) : List TaskRecord :=
  (s.frozenTasks.zipIdx.filter
    (isHardFrozen s.watermarkTs thawHours (reopenedFrozenIndexes s.frozenTasks batch))).map Prod.fst

def thawedTasks (s : State) (batch : List Event) (thawHours : ℤ) : List TaskRecord :=
  (s.frozenTasks.zipIdx.filter fun t =>
    !isHardFrozen s.watermarkTs thawHours (reopenedFrozenIndexes s.frozenTasks batch) t).map Prod.fst

/-- The key of `by_msg`; an event without id gets a key of its own. -/
inductive EventKey
  | id (msgId : PyStr)
  | position (ts : ℤ) (n : ℕ)
  deriving DecidableEq

def eventKey (byMsg : Dict EventKey Event) (e : Event) : EventKey :=
  if e.msgId.isEmpty then .position e.ts byMsg.length else .id e.msgId

def dedupByMsg (events : List Event) : List Event :=
  sortByTs ((events.foldl (fun d e => set d (eventKey d e) e) []).map Prod.snd)

/-- The part of `segment_events` that decides the clusters. Without atoms no model is called. -/
def segmentEvents (env : Env) (events : List Event) (prior : List TitleAnchor)
    (answer : Option Answer) : Option (List (List Event × Meta) × Answer) :=
  let atoms := atomicSegments env (sortByTs events)
  if atoms = [] then some ([], ⟨[], [], [], []⟩)
  else answer.map fun a =>
    (carryForwardTitles prior [] (assembleClusters env atoms a.tasks), a)

structure Tail where
  events : List Event
  title : Json
  subreqs : List Json

def Tail.empty : Tail := ⟨[], .str [], []⟩

def collect (env : Env) (a : Answer) (i : ℕ) (tail : Tail) :
    List ((List Event × Meta) × Bool) → List TaskRecord × Tail
  | [] => ([], tail)
  | ((cluster, m), terminal) :: rest =>
      let subs := a.taskSubreqs.getD i ([], true)
      if terminal then
        let r := collect env a (i + 1) tail rest
        (taskRecord env cluster m (a.sections.getD i []) terminal (a.deliveries.getD i none) subs.1
          subs.2 :: r.1, r.2)
      else collect env a (i + 1) ⟨cluster, m.title, subs.1⟩ rest

def collectClusters (env : Env) (clusters : List (List Event × Meta)) (a : Answer) :
    List TaskRecord × Tail :=
  collect env a 0 Tail.empty (clusters.zip (computeTerminal env (clusters.map Prod.fst)))

/-- `_build_state` of a first run. -/
def buildState (env : Env) (events : List Event) (clusters : List (List Event × Meta)) (a : Answer)
    (thawHours : ℤ) : State :=
  let r := collectClusters env clusters a
  { watermarkTs := lastTs events
    thawHours := thawHours
    frozenTasks := r.1
    activeTailEvents := r.2.events
    activeTailSubreqs := r.2.subreqs
    titleAnchors := clusters.map fun c => ⟨eventMsgIds c.1, titleOrEmpty c.2.title⟩ }

def nextState (env : Env) (s : State) (batch : List Event) (clusters : List (List Event × Meta))
    (a : Answer) (thawHours : ℤ) : State :=
  let r := collectClusters env clusters a
  let frozen := hardTasks s batch thawHours ++ r.1
  { watermarkTs := max s.watermarkTs (lastTs batch)
    thawHours := thawHours
    frozenTasks := frozen
    activeTailEvents := r.2.events
    activeTailSubreqs := r.2.subreqs
    titleAnchors := (frozen.map fun t => ⟨t.memberMsgIds, titleOrEmpty t.title⟩) ++
      if r.2.events = [] then [] else [⟨eventMsgIds r.2.events, r.2.title⟩] }

def activeEvents (s : State) (batch : List Event) (thawHours : ℤ) : List Event :=
  dedupByMsg ((thawedTasks s batch thawHours).flatMap TaskRecord.events ++ s.activeTailEvents ++ batch)

/-- `run_incremental` on a fetched batch; `none` when the model call raises. -/
def runIncremental (env : Env) (state : Option State) (batch : List Event) (thawHours : ℤ)
    (answer : Option Answer) : Option State :=
  match state with
  | none =>
      (segmentEvents env batch [] answer).map fun r => buildState env batch r.1 r.2 thawHours
  | some s =>
      if batch = [] then some s
      else (segmentEvents env (activeEvents s batch thawHours) s.titleAnchors answer).map fun r =>
        nextState env s batch r.1 r.2 thawHours

/-- `int(state.get("watermark_ts") or 0)`: where the next fetch starts, in seconds. -/
def State.fetchStart (s : State) : ℤ := s.watermarkTs.tdiv 1000

end AgentTrajectory.IncrementalSegment
