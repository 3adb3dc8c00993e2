import AgentTrajectory.PyValue
import AgentTrajectory.ThreadHistory

/-! `export_context.py`: the threads of a session rebuilt from its API calls. Calls are
grouped by thread id, a group is rendered from one of its calls, and the threads are told
apart and wired by the prompts they dispatch. -/
namespace AgentTrajectory.ExportContext
open PyText PyDict PyJson PyValue MessageTree

inductive Kind
  | main
  | subagent
  | aux
  deriving DecidableEq

inductive Origin
  | human
  | agentDispatch
  | frameworkAux
  | system
  | model
  deriving DecidableEq

inductive Body
  | text (role : Json) (text : PyStr)
  | thinking (thinking : Json)
  | toolCall (name : Json) (input : PyStr) (callId : Json)
  | toolResult (callId : Json) (output : PyStr) (isError : Bool)
  deriving DecidableEq

structure Turn where
  id : PyStr
  origin : Option Origin
  body : Body
  deriving DecidableEq

def newline (level : ℕ) : PyStr := cp '\n' :: List.replicate (2 * level) (cp ' ')

mutual
/-- `json.dumps(v, ensure_ascii=False, indent=2)` at a level of nesting. -/
def dumpsIndent (level : ℕ) : Json → PyStr
  | .arr (x :: xs) => py "[" ++ newline (level + 1) ++ dumpsIndent (level + 1) x ++
      indentItems (level + 1) xs ++ newline level ++ py "]"
  | .obj ((k, x) :: kvs) => py "\x7b" ++ newline (level + 1) ++ dumpsStr k ++ py ": " ++
      dumpsIndent (level + 1) x ++ indentPairs (level + 1) kvs ++ newline level ++ py "\x7d"
  | .arr [] => py "[]"
  | .obj [] => py "\x7b\x7d"
  | .null => py "null"
  | .bool b => (Json.bool b).dumps
  | .int n => dumpsInt n
  | .float lit => lit
  | .str s => dumpsStr s
def indentItems (level : ℕ) : List Json → PyStr
  | [] => []
  | x :: xs => py "," ++ newline level ++ dumpsIndent level x ++ indentItems level xs
def indentPairs (level : ℕ) : List (PyStr × Json) → PyStr
  | [] => []
  | (k, x) :: kvs => py "," ++ newline level ++ dumpsStr k ++ py ": " ++ dumpsIndent level x ++
      indentPairs level kvs
end

/-- `<system-reminder>.*?</system-reminder>\s*` at the start of a text: the match and what
follows it. -/
def untilClose : PyStr → Option (PyStr × PyStr)
  | [] => none
  | c :: s =>
      if startswith (c :: s) (py "</system-reminder>") then
        let rest := (c :: s).drop 18
        some ((c :: s).take 18 ++ rest.takeWhile isSpace, rest.dropWhile isSpace)
      else (untilClose s).map fun r => (c :: r.1, r.2)

def matchReminder (s : PyStr) : Option (PyStr × PyStr) :=
  if startswith s (py "<system-reminder>") then
    (untilClose (s.drop 17)).map fun r => (s.take 17 ++ r.1, r.2)
  else none

/-- The segments in front of, in and after the reminders; `cur` is the open text, reversed,
and `true` marks a reminder. -/
def remindersFrom (cur : PyStr) : ℕ → PyStr → List (Bool × PyStr)
  | 0, _ => []
  | _ + 1, [] => if cur.isEmpty then [] else [(false, cur.reverse)]
  | n + 1, c :: s =>
      match matchReminder (c :: s) with
      | none => remindersFrom (c :: cur) n s
      | some (m, rest) =>
          (if cur.isEmpty then [] else [(false, cur.reverse)]) ++ (true, m) :: remindersFrom [] n rest

def splitSystemReminders (text : PyStr) : List (Bool × PyStr) :=
  let segs := remindersFrom [] (text.length + 1) text
  if segs.isEmpty then [(false, text)] else segs

def words (s : PyStr) : List PyStr := (s.splitOnP isSpace).filter fun w => !w.isEmpty

def strOr (e : PyError) : Json → Except PyError PyStr
  | .str s => .ok s
  | _ => .error e

/-- `s[:n]`. -/
def slice (n : ℕ) : Json → Except PyError Json
  | .str s => .ok (.str (s.take n))
  | .arr xs => .ok (.arr (xs.take n))
  | _ => .error .typeError

/-- `for b in (x or [])`. -/
def itemsOf (x : Json) : Except PyError (List Json) := listOf (orEmpty x (.arr []))

def getOr (d : Dict PyStr Json) (k : PyStr) (v : Json) : Json := (get? d k).getD v

def isType (b : Dict PyStr Json) (t : String) : Bool := getNone b (py "type") == .str (py t)

section Render
variable (str : Json → PyStr)

def textOfBlock : Json → Except PyError PyStr
  | .obj b => strOr .typeError (getOr b (py "text") (.str []))
  | .str s => .ok s
  | v => .ok (str v)

def systemText : Json → Except PyError PyStr
  | .arr bs => (bs.mapM (textOfBlock str)).map (join (py "\n"))
  | system => strOr .attributeError (orEmpty system (.str []))

def cleanSystem (system : Json) : Except PyError PyStr := do
  let txt ← systemText str system
  .ok (strip (join (py "\n") ((txt.splitOn (cp '\n')).filter fun l => !startswith l billingPrefix)))

def resultItem : Json → Except PyError PyStr
  | .obj x => strOr .typeError (getOr x (py "text") (.str (Json.obj x).dumps))
  | .str s => .ok s
  | v => .ok (str v)

def toolResultText : Json → Except PyError PyStr
  | .arr xs => (xs.mapM (resultItem str)).map (join (py "\n"))
  | .str s => .ok s
  | v => .ok v.dumps

/-- `_clean_content` on one block: a blank thinking block is dropped, another one loses its
signature. -/
def cleanBlock : Json → Except PyError (List Json)
  | .obj b =>
      if isType b "thinking" then do
        let thinking ← strOr .attributeError (orEmpty (getNone b (py "thinking")) (.str []))
        .ok (if isBlank thinking then [] else [.obj (b.filter fun kv => kv.1 != py "signature")])
      else .ok [.obj b]
  | b => .ok [b]

/-- The blocks of a content after `_clean_content`; a text on its own is a text block. -/
def blocksOf : Json → Except PyError (List Json)
  | .str s => .ok [.obj [(py "type", .str (py "text")), (py "text", .str s)]]
  | .arr bs => (bs.mapM cleanBlock).map List.flatten
  | content => itemsOf content

/-- `_emit_text`: the flag marks a reminder of the harness. -/
def emitText (role : Json) (text : PyStr) : List (Body × Bool) :=
  if role = .str (py "user") then
    ((splitSystemReminders text).filter fun seg => !isBlank seg.2).map fun seg =>
      (.text role seg.2, seg.1)
  else if isBlank text then [] else [(.text role text, false)]

def blockBodies (role : Json) : Json → Except PyError (List (Body × Bool))
  | .obj b =>
      if isType b "text" then do
        let text ← strOr (if role = .str (py "user") then .typeError else .attributeError)
          (orEmpty (getNone b (py "text")) (.str []))
        .ok (emitText role text)
      else if isType b "thinking" then .ok [(.thinking (getOr b (py "thinking") (.str [])), false)]
      else if isType b "tool_use" then
        .ok [(.toolCall (getOr b (py "name") (.str (py "unknown")))
          (dumpsIndent 0 (getOr b (py "input") (.obj []))) (getOr b (py "id") (.str [])), false)]
      else if isType b "tool_result" then do
        let output ← toolResultText str (getNone b (py "content"))
        .ok [(.toolResult (getOr b (py "tool_use_id") (.str [])) output
          (getNone b (py "is_error")).truthy, false)]
      else if isType b "image" then .ok [(.text role (py "🖼️ [图片]"), false)]
      else .ok []
  | _ => .ok []

def messageBodies (m : Json) : Except PyError (List (Body × Bool)) := do
  let m ← asDict m
  let blocks ← blocksOf (getNone m (py "content"))
  (blocks.mapM (blockBodies str (getNone m (py "role")))).map List.flatten

def userOrigin : Kind → Origin
  | .main => .human
  | .subagent => .agentDispatch
  | .aux => .frameworkAux

def turnOrigin (kind : Kind) : Body → Option Origin
  | .text role _ => if role = .str (py "user") then some (userOrigin kind) else some .model
  | .thinking _ => some .model
  | .toolCall .. => some .model
  | .toolResult .. => none

def mkTurn (kind : Kind) (b : (Body × Bool) × ℕ) : Turn where
  id := py "t" ++ natDigits b.2
  origin := if b.1.2 then some .system else turnOrigin kind b.1.1
  body := b.1.1

/-- `_anthropic_turns`: a turn is numbered by its place. -/
def anthropicTurns (messages : List Json) (kind : Kind) : Except PyError (List Turn) := do
  let bodies ← messages.mapM (messageBodies str)
  .ok (bodies.flatten.zipIdx.map (mkTurn kind))

def responseTurns (resp : Json) (kind : Kind) (idx : ℕ) : Except PyError (List Turn) :=
  match resp with
  | .obj r =>
      let content := getNone r (py "content")
      if content.truthy then do
        let turns ← anthropicTurns str
          [.obj [(py "role", .str (py "assistant")), (py "content", content)]] kind
        .ok (turns.map fun t => { t with id := py "r" ++ natDigits idx ++ py "_" ++ t.id })
      else .ok []
  | _ => .ok []

end Render

def firstUser (messages : List Json) : Option (Dict PyStr Json) :=
  messages.findSome? fun m =>
    match m with
    | .obj d => if getNone d (py "role") = .str (py "user") then some d else none
    | _ => none

def textBlocks (c : Json) : Except PyError (List (Dict PyStr Json)) := do
  let bs ← itemsOf c
  .ok (bs.filterMap fun b =>
    match b with
    | .obj d => if isType d "text" then some d else none
    | _ => none)

def firstUserText (messages : List Json) : Except PyError Json :=
  match (firstUser messages).map fun m => getNone m (py "content") with
  | none => .ok (.str [])
  | some (.str s) => .ok (.str s)
  | some c => do
      let bs ← textBlocks c
      .ok ((bs.head?.map fun b => getOr b (py "text") (.str [])).getD (.str []))

def firstUserAlltext (messages : List Json) : Except PyError PyStr :=
  match (firstUser messages).map fun m => getNone m (py "content") with
  | none => .ok []
  | some (.str s) => .ok s
  | some c => do
      let bs ← textBlocks c
      let texts ← bs.mapM fun b => strOr .typeError (getOr b (py "text") (.str []))
      .ok (join (py "\n") texts)

def firstUserBody (messages : List Json) : Except PyError PyStr := do
  let text ← firstUserAlltext messages
  .ok (((splitSystemReminders text).find? fun seg => !seg.1 && !isBlank seg.2).map Prod.snd |>.getD [])

/-- A captured call of the session; a missing list of messages is empty. -/
structure Captured where
  sessionId : Json
  model : Json
  call : ApiCall
  response : Json

def mountEach (t : Tree) : List Captured → Except PyError (Tree × List (PyStr × Bool))
  | [] => .ok (t, [])
  | c :: cs =>
      match mount t c.call with
      | (_, .error e) => .error e
      | (t', .ok id) => do
          let r ← mountEach t' cs
          .ok (r.1, id :: r.2)

def groupKey (t : Tree) (c : Captured) (id : PyStr × Bool) : Except PyError PyStr :=
  if id.2 then do
    let u ← uniqueDescendantThread t c.call.system c.call.messages
    .ok ((u.filter fun b => !b.isEmpty).getD id.1)
  else .ok id.1

def hasMessages (c : Captured) : Bool := !c.call.messages.isEmpty

/-- `groups`: the calls of every thread id, in order. -/
def groupCalls (calls : List Captured) : Except PyError (Dict PyStr (List Captured)) := do
  let metas := calls.filter hasMessages
  let (t, ids) ← mountEach Tree.empty metas
  let keys ← (metas.zip ids).mapM fun c => groupKey t c.1 c.2
  .ok ((metas.zip keys).foldl (fun d c => extendAt d c.2 [c.1]) [])

/-- The call with the most messages, the first of them. -/
def representative (recs : List Captured) : Option Captured :=
  recs.argmax fun c => c.call.messages.length

structure Thread where
  threadId : PyStr
  kind : Kind
  label : PyStr
  parent : Option (PyStr × Json × PyStr)
  systemHead : PyStr
  firstUser : Json
  toolSummary : Dict Json ℕ
  msgCount : ℕ
  turns : List Turn

/-- A thread before its kind is known. -/
structure Draft where
  threadId : PyStr
  rep : Captured
  sysClean : PyStr
  firstUser : Json
  joinKey : PyStr
  toolSummary : Dict Json ℕ
  turns : List Turn

section Build
variable (fl : Floats) (str : Json → PyStr)

/-- `tool_summary[n] = tool_summary.get(n, 0) + 1`. -/
def countTool (d : Dict Json ℕ) (t : Turn) : Except PyError (Dict Json ℕ) :=
  match t.body with
  | .toolCall name _ _ => do
      let k ← hashKey fl name
      .ok (set d k ((get? d k).getD 0 + 1))
  | _ => .ok d

def draftOf (tid : PyStr) (rep : Captured) : Except PyError Draft := do
  let messages := rep.call.messages
  let sysClean ← cleanSystem str rep.call.system
  let fu ← firstUserText messages
  let turns ← anthropicTurns str messages .main
  let summary ← turns.foldlM (countTool fl) []
  let fu ← slice 400 fu
  let joinKey ← firstUserBody messages
  .ok ⟨tid, rep, sysClean, fu, joinKey, summary, turns⟩

def groupDraft (g : PyStr × List Captured) : Except PyError (List Draft) :=
  match representative g.2 with
  | none => .ok []
  | some rep => (draftOf fl str g.1 rep).map fun d => [d]

structure Point where
  threadId : PyStr
  callId : Json
  turnId : PyStr
  norm : PyStr
  used : Bool

def promptOf (input : PyStr) : Except PyError Json :=
  match loads (if input.isEmpty then py "\x7b\x7d" else input) with
  | none => .ok (.str [])
  | some v => do
      let d ← asDict (orEmpty v (.obj []))
      .ok (getOr d (py "prompt") (.str []))

def isDispatch (name : Json) : Bool := name == .str (py "Agent") || name == .str (py "Task")

def pointOf (tid : PyStr) (t : Turn) : Except PyError (List Point) :=
  match t.body with
  | .toolCall name input callId =>
      if isDispatch name then do
        let prompt ← promptOf input
        if prompt.truthy then do
          let p ← strOr .attributeError prompt
          .ok [⟨tid, callId, t.id, dropSpaces p, false⟩]
        else .ok []
      else .ok []
  | _ => .ok []

def dispatchPoints (threads : List Draft) : Except PyError (List Point) :=
  (threads.mapM fun (th : Draft) => (th.turns.mapM (pointOf th.threadId)).map List.flatten).map List.flatten

/-- The unclaimed point of a thread: an equal prompt before one that contains or is contained. -/
def claim (need : PyStr) (pts : List Point) : Option ℕ :=
  (pts.findIdx? fun p => !p.used && p.norm == need).or
    (pts.findIdx? fun p => !p.used && (contains need p.norm || contains p.norm need))

def parentOf (p : Point) : PyStr × Json × PyStr := (p.threadId, p.callId, p.turnId)

/-- The first pass of `_classify_and_wire`: the parent of every thread that has one. -/
def wire (pts : List Point) : List Draft → List (Option (PyStr × Json × PyStr))
  | [] => []
  | th :: rest =>
      let need := dropSpaces th.joinKey
      match if need.isEmpty then none else claim need pts with
      | none => none :: wire pts rest
      | some i =>
          (pts[i]?.map parentOf) :: wire (pts.modify i fun p => { p with used := true }) rest

def isTool : Body → Bool
  | .toolCall .. => true
  | .toolResult .. => true
  | _ => false

def hasTools (th : Draft) : Bool := th.turns.any fun t => isTool t.body

def kindOf (rest : List Draft) (th : Draft) (parent : Option (PyStr × Json × PyStr)) : Kind :=
  if parent.isSome then .subagent
  else if rest.any hasTools then (if hasTools th then .main else .aux)
  else if (rest.argmax fun t => t.rep.call.messages.length).map Draft.threadId = some th.threadId then .main
  else .aux

def classifyAndWire (threads : List Draft) :
    Except PyError (List (Draft × Kind × Option (PyStr × Json × PyStr))) := do
  let pts ← dispatchPoints threads
  let wired := threads.zip (wire pts threads)
  let rest := (wired.filter fun w => w.2.isNone).map Prod.fst
  .ok (wired.map fun w => (w.1, kindOf rest w.1 w.2, w.2))

/-- `_fix_user_origins` on one turn. -/
def fixOrigin (kind : Kind) (t : Turn) : Turn :=
  match t.body with
  | .text role _ =>
      if role = .str (py "user") ∧ t.origin ≠ some .system then { t with origin := some (userOrigin kind) }
      else t
  | _ => t

def auxDisplayLabel (sysClean : PyStr) : PyStr :=
  let low := lowerAscii sysClean
  if (contains (py "generate a concise") low && contains (py "title") low) ||
      contains (py "sentence-case title") low then py "框架辅助调用 · 标题生成"
  else if contains (py "<session>") low || contains (py "summary of the conversation") low ||
      contains (py "compact") low then py "框架辅助调用 · 上下文压缩"
  else
    let snippet := (join (py " ") (words sysClean)).take 24
    if snippet.isEmpty then py "框架辅助调用" else py "框架辅助调用 · " ++ snippet

def labelOf (d : Draft) : Kind → PyStr
  | .main => py "主 agent"
  | .subagent =>
      let disp := (join (py " ") (words d.joinKey)).take 30
      if disp.isEmpty then py "子 agent" else py "子 agent · " ++ disp
  | .aux => auxDisplayLabel d.sysClean

def systemTurns (sysClean : PyStr) : List Turn :=
  if isBlank sysClean then []
  else [⟨py "sys", some .system, .text (.str (py "system")) sysClean⟩]

def threadOf (w : (Draft × Kind × Option (PyStr × Json × PyStr)) × ℕ) : Except PyError Thread := do
  let d := w.1.1
  let kind := w.1.2.1
  let resp ← responseTurns str d.rep.response kind w.2
  .ok { threadId := d.threadId
        kind := kind
        label := labelOf d kind
        parent := w.1.2.2
        systemHead := d.sysClean.take 400
        firstUser := d.firstUser
        toolSummary := d.toolSummary
        msgCount := d.rep.call.messages.length
        turns := systemTurns d.sysClean ++ d.turns.map (fixOrigin kind) ++ resp }

structure Payload where
  sessionId : Json
  model : Json
  systemPrompt : PyStr
  threads : List Thread

def systemPrompt (wired : List (Draft × Kind × Option (PyStr × Json × PyStr))) (threads : List Thread) :
    PyStr :=
  match wired.find? fun w => decide (w.2.1 = .main) with
  | some w => w.1.sysClean
  | none => ((threads.map Thread.systemHead).argmax List.length).getD []

def buildThreadsPayload (calls : List Captured) : Except PyError Payload := do
  let groups ← groupCalls calls
  let drafts ← (groups.mapM (groupDraft fl str)).map List.flatten
  let wired ← classifyAndWire drafts
  let threads ← wired.zipIdx.mapM (threadOf str)
  let sorted := threads.insertionSort fun a b => b.kind = .main → a.kind = .main
  .ok { sessionId := (calls.head?.map Captured.sessionId).getD .null
        model := (calls.head?.map Captured.model).getD .null
        systemPrompt := systemPrompt wired sorted
        threads := sorted }

end Build
end AgentTrajectory.ExportContext
