import AgentTrajectory.AntigravityContext
import AgentTrajectory.PyRegex
import AgentTrajectory.PyValue

/-! `antigravity_transcript_adapter.py`: the event stream of a conversation as one normalised
record. A planner response opens a queue of tool names, which the results that follow take
from the front. -/
namespace AgentTrajectory.AntigravityAdapter
open PyText PyDict PyJson PyValue

/-- What an event is taken for, by its `type`. -/
inductive Kind
  | userInput
  | conversationHistory
  | systemMessage
  | plannerResponse
  | toolResult
  | errorMessage
  | other
  deriving DecidableEq

def toolResultTypes : List PyStr :=
  [py "RUN_COMMAND", py "VIEW_FILE", py "LIST_DIRECTORY", py "GREP_SEARCH", py "SEARCH_WEB",
    py "CODE_ACTION", py "GENERIC", py "READ_URL_CONTENT"]

def kindOf : Json → Kind
  | .str s =>
      if s = py "USER_INPUT" then .userInput
      else if s = py "CONVERSATION_HISTORY" then .conversationHistory
      else if s = py "SYSTEM_MESSAGE" then .systemMessage
      else if s = py "PLANNER_RESPONSE" then .plannerResponse
      else if s ∈ toolResultTypes then .toolResult
      else if s = py "ERROR_MESSAGE" then .errorMessage
      else .other
  | _ => .other

structure ToolCall where
  name : Json
  args : Dict PyStr Json
  deriving DecidableEq

/-- A message without its segment number; a key that may be missing is an option, and
`tool_calls` is missing where there are none. -/
inductive Body
  | system (subtype content : Json)
  | user (content : PyStr) (metadata : Option PyStr)
  | assistant (reasoning content : Option Json) (toolCalls : List ToolCall)
  | tool (name content : Json)
  deriving DecidableEq

/-- `m.get("subtype") == tag`. -/
def Body.hasSubtype (tag : String) : Body → Bool
  | .system subtype _ => subtype == .str (py tag)
  | _ => false

def sysHeader : PyStr := py "【系统指令】"
def userMarker : PyStr := py "【用户消息】"

structure UserRequest where
  system : Option PyStr
  text : PyStr
  metadata : Option PyStr
  deriving DecidableEq

def between (tag : String) (s : PyStr) : Option PyStr :=
  (cut (py "<" ++ py tag ++ py ">") s).bind fun p =>
    (cut (py "</" ++ py tag ++ py ">") p.2).map Prod.fst

def splitUserRequest (content : Json) : Except PyError UserRequest :=
  match orEmpty content (.str []) with
  | .str s =>
      let metadata := (between "ADDITIONAL_METADATA" s).map strip
      let body := strip ((between "USER_REQUEST" s).getD s)
      .ok <|
        if contains sysHeader body then
          match cut userMarker body with
          | some (before, after) => ⟨some (strip before), strip after, metadata⟩
          | none => ⟨some (strip body), [], metadata⟩
        else ⟨none, body, metadata⟩
  | _ => .error .typeError

def cleanArg : Json → Json
  | .str s => (loads s).getD (.str s)
  | v => v

/-- One round of the loop of `_norm_tool_calls`. -/
def normToolCall : Json → Except PyError (Option ToolCall)
  | .obj tc =>
      (asDict (orEmpty (getNone tc (py "args")) (.obj []))).map fun args =>
        some ⟨getNone tc (py "name"), args.map fun kv => (kv.1, cleanArg kv.2)⟩
  | _ => .ok none

def normToolCalls (toolCalls : Json) : Except PyError (List ToolCall) := do
  let calls ← listOf (orEmpty toolCalls (.arr []))
  return (← calls.mapM normToolCall).reduceOption

/-- The variables of the event loop. -/
structure State where
  messages : List Body
  pendingToolNames : List Json
  capturedSystem : Bool
  deriving DecidableEq

def State.start : State := ⟨[], [], false⟩

def State.append (m : Body) (st : State) : State := { st with messages := st.messages ++ [m] }

def State.noteSystem (system : Option PyStr) (st : State) : State :=
  match system with
  | some s =>
      if s ≠ [] ∧ !st.capturedSystem then
        { st.append (.system (.str (py "injected_system_prompt")) (.str s)) with
          capturedSystem := true }
      else st
  | none => st

/-- `e.get(k, "")`. -/
def textOf (e : Dict PyStr Json) (k : String) : Json := (get? e (py k)).getD (.str [])

def ifTruthy (v : Json) : Option Json := if v.truthy then some v else none

def adaptEvent (st : State) (e : Dict PyStr Json) : Except PyError State :=
  let etype := getNone e (py "type")
  match kindOf etype with
  | .userInput =>
      (splitUserRequest (textOf e "content")).map fun r =>
        (st.noteSystem r.system).append (.user r.text (r.metadata.filter (· ≠ [])))
  | .conversationHistory =>
      (splitUserRequest (textOf e "content")).map fun r =>
        (st.noteSystem r.system).append
          (.system (.str (py "conversation_history")) (textOf e "content"))
  | .systemMessage => .ok (st.append (.system (.str (py "system_message")) (textOf e "content")))
  | .plannerResponse =>
      (normToolCalls (getNone e (py "tool_calls"))).map fun tcs =>
        { st.append (.assistant (ifTruthy (getNone e (py "thinking")))
          (ifTruthy (getNone e (py "content"))) tcs)
          with pendingToolNames := tcs.map ToolCall.name }
  | .toolResult =>
      .ok { st.append (.tool (st.pendingToolNames.head?.getD .null) (textOf e "content"))
        with pendingToolNames := st.pendingToolNames.tail }
  | .errorMessage => .ok (st.append (.system (.str (py "error")) (textOf e "error")))
  | .other => .ok (st.append (.system (orEmpty etype (.str (py "unknown"))) (textOf e "content")))

structure Message where
  body : Body
  seg : ℕ
  deriving DecidableEq

/-- What `_build_per_turn_context` reads of a message. -/
def Body.marked : Body → AntigravityContext.Message
  | .system (.str subtype) _ => ⟨py "system", some subtype⟩
  | .system _ _ => ⟨py "system", none⟩
  | .user _ _ => ⟨py "user", none⟩
  | .assistant _ _ _ => ⟨py "assistant", none⟩
  | .tool _ _ => ⟨py "tool", none⟩

def perTurn (ms : List Body) : List ℕ × List AntigravityContext.TurnContext :=
  AntigravityContext.buildPerTurnContext (ms.map Body.marked)

/-- Every message with the number that `_build_per_turn_context` writes to it. -/
def withSegments (ms : List Body) : List Message := (ms.zip (perTurn ms).1).map fun p => ⟨p.1, p.2⟩

/-- `Counter`, over the keys that a dictionary makes of the values. -/
def countKeys (ks : List Json) : Dict Json ℕ := (firstOccurrences ks).map fun k => (k, ks.count k)

structure Record where
  source : PyStr
  convId : PyStr
  model : Json
  createdAt : Json
  endedAt : Json
  nEvents : ℕ
  nBadLines : ℕ
  typeCounts : Dict Json ℕ
  nModelTurns : ℕ
  nCompressions : ℕ
  messages : List Message
  perTurnContext : List AntigravityContext.TurnContext
  tools : Json
  fidelity : Dict PyStr Bool
  deriving DecidableEq

def fidelityOf (capturedSystem : Bool) (toolsSchema model : Json) : Dict PyStr Bool :=
  [(py "user_prompt", true), (py "assistant_text", true), (py "reasoning_text", true),
    (py "tool_call_name_args", true), (py "tool_result", true), (py "timing", true),
    (py "system_prompt", capturedSystem), (py "tools_schema", toolsSchema.truthy),
    (py "model_id", model.truthy), (py "usage_tokens", false), (py "sampling_params", false),
    (py "raw_reasoning_tokens", false), (py "token_id_logprob", false),
    (py "per_turn_context_reconstructed", true), (py "per_call_boundary", false)]

section Adapt
variable (fl : Floats) (toolsSchema model : Json)

def typedEvent (e : Json) : Except PyError (Dict PyStr Json × Json) := do
  let d ← asDict e
  return (d, ← hashKey fl (getNone d (py "type")))

/-- `adapt_transcript` after the file is read. -/
def adaptEvents (convId : PyStr) (bad : ℕ) (events : List Json) : Except PyError (Option Record) :=
  if events = [] then .ok none
  else do
    let typed ← events.mapM (typedEvent fl)
    let typeCounts := countKeys (typed.map Prod.snd)
    let st ← (typed.map Prod.fst).foldlM adaptEvent State.start
    let times := (typed.map fun e => getNone e.1 (py "created_at")).filter Json.truthy
    return some {
      source := py "antigravity-transcript"
      convId := convId
      model := model
      createdAt := times.head?.getD .null
      endedAt := times.getLast?.getD .null
      nEvents := events.length
      nBadLines := bad
      typeCounts := typeCounts
      nModelTurns := (get? typeCounts (.str (py "PLANNER_RESPONSE"))).getD 0
      nCompressions := st.messages.countP (·.hasSubtype "conversation_history")
      messages := withSegments st.messages
      perTurnContext := (perTurn st.messages).2
      tools := toolsSchema
      fidelity := fidelityOf st.capturedSystem toolsSchema model }

def eventLines (lines : List PyStr) : List PyStr := (lines.map strip).filter (· ≠ [])

def adaptTranscript (path : PyStr) (lines : List PyStr) : Except PyError (Option Record) :=
  let parsed := (eventLines lines).map loads
  let convId := firstField (cp '/') (((cut (py "/brain/") path).map Prod.snd).getD path)
  adaptEvents fl toolsSchema model convId (parsed.count none) parsed.reduceOption

end Adapt

lemma length_segs (ms : List Body) : (perTurn ms).1.length = ms.length := by
  rw [perTurn, AntigravityContext.buildPerTurnContext, AntigravityContext.markSegs_eq]
  simp

lemma seg_withSegments (ms : List Body) (j : ℕ) :
    (withSegments ms)[j]?.map Message.seg = (perTurn ms).1[j]? := by
  have hsegs : (withSegments ms).map Message.seg = (perTurn ms).1 := by
    rw [withSegments, List.map_map]
    exact List.map_snd_zip (length_segs ms).le
  rw [← hsegs, List.getElem?_map]

lemma isHistory_of_assistant {b : Body} (h : b.marked.role = py "assistant") :
    AntigravityContext.isHistory b.marked = false := by
  cases b with
  | assistant _ _ _ => rfl
  | system subtype _ => cases subtype <;> simp [Body.marked] at h
  | _ => simp [Body.marked] at h

theorem transcript_contexts_replay {fl : Floats} {toolsSchema model : Json} {path : PyStr}
    {lines : List PyStr} {record : Record}
    (h : adaptTranscript fl toolsSchema model path lines = .ok (some record)) :
    ∃ bodies, record.messages = withSegments bodies ∧ ∀ t ∈ record.perTurnContext,
      t.contextIndices = AntigravityContext.replay (bodies.map Body.marked) t.assistantIndex ∧
        ∃ seg, record.messages[t.assistantIndex]?.map Message.seg = some seg ∧
          ∀ j ∈ t.contextIndices, record.messages[j]?.map Message.seg = some seg := by
  rw [adaptTranscript, adaptEvents] at h
  split_ifs at h
  · cases h
  · obtain ⟨typed, -, h⟩ := bind_eq_ok.mp h
    obtain ⟨st, -, h⟩ := bind_eq_ok.mp h
    obtain rfl := Option.some.inj (Except.ok.inj h)
    refine ⟨st.messages, rfl, fun t ht => ?_⟩
    rw [perTurn, AntigravityContext.turns_eq] at ht
    obtain ⟨p, hp, rfl⟩ := List.mem_map.mp ht
    obtain ⟨hmem, hturn⟩ := List.mem_filter.mp hp
    have hget := List.mem_zipIdx_iff_getElem?.mp hmem
    obtain ⟨b, -, hb⟩ := List.mem_map.mp (List.mem_of_getElem? hget)
    have hplain : AntigravityContext.isHistory p.1 = false := by
      rw [← hb]
      exact isHistory_of_assistant (by rw [hb]; exact of_decide_eq_true hturn)
    refine ⟨rfl, ?_⟩
    simp only [seg_withSegments]
    exact AntigravityContext.replay_seg hget hplain

end AgentTrajectory.AntigravityAdapter
