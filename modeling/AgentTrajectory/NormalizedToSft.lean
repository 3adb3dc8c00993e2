import AgentTrajectory.AntigravityAdapter

/-! `normalized_to_sft.py`: a normalised record as a training sample. The task is put into
one user message, and every tool call gets an id, which the results that follow carry. -/
namespace AgentTrajectory.NormalizedToSft
open PyText PyDict PyJson PyValue PyRegex AntigravityAdapter

/-- `instruction_source`. -/
inductive InstructionSource
  | realUser
  | historyObj
  | historyTitle
  | injected
  | probeOnly
  deriving DecidableEq

def summariesTag : PyStr := py "<conversation_summaries>"

/-- `re.split` with a pattern that looks at no word boundary. -/
def splitAt (r : Regex) (s : PyStr) : List PyStr := split (fun _ => false) r s

def topObjectiveOf (s : PyStr) : Option PyStr × Option PyStr :=
  match cut summariesTag s with
  | none => (none, none)
  | some (_, rest) =>
      let body := ((cut (py "</conversation_summaries>") rest).map Prod.fst).getD rest
      let header : Regex := .all [.lit (py "\n##"), .run isSpace 1 none, .lit (py "Conversation ")]
      match (splitAt header (cp '\n' :: body)).find? (strip · ≠ []) with
      | none => (none, none)
      | some first =>
          let title := (cut (py ":") first).map fun p => strip (firstField (cp '\n') p.2)
          let nextSection : Regex := .all [.lit (py "\n##"), .one isSpace]
          let obj := (cut (py "### USER Objective:") first).map fun p =>
            strip ((splitAt nextSection (strip p.2)).head?.getD [])
          (title, obj.filter (· ≠ []))

def extractTopObjective (content : Json) : Except PyError (Option PyStr × Option PyStr) :=
  if !content.truthy then .ok (none, none)
  else match content with
    | .str s => .ok (topObjectiveOf s)
    | .arr xs => if Json.str summariesTag ∈ xs then .error .attributeError else .ok (none, none)
    | .obj d => if summariesTag ∈ keys d then .error .attributeError else .ok (none, none)
    | _ => .error .typeError

def realUserText : Body → Option PyStr
  | .user content _ => some (strip content) |>.filter fun c => c ≠ [] ∧ c ≠ py "__probe__"
  | _ => none

def summaryContent : Body → Option Json
  | .system subtype content => if subtype = .str (py "conversation_history") then some content else none
  | _ => none

def promptContent : Body → Option Json
  | .system subtype content => if subtype = .str (py "injected_system_prompt") then some content else none
  | _ => none

def fallbackInstruction (ms : List Body) : PyStr × InstructionSource :=
  if (ms.findSome? promptContent).isSome then (py "(继续按系统指令自主推进当前任务)", .injected)
  else (py "(probe 探针驱动的自主续跑，transcript 未捕获显式任务指令)", .probeOnly)

def surfaceInstruction (ms : List Body) : Except PyError (PyStr × InstructionSource) :=
  match ms.findSome? realUserText with
  | some c => .ok (c, .realUser)
  | none =>
      match ms.findSome? summaryContent with
      | none => .ok (fallbackInstruction ms)
      | some content =>
          (extractTopObjective content).map fun q =>
            match q with
            | (title, some obj) =>
                if title ≠ some (py "__probe__") then (obj, .historyObj) else fallbackInstruction ms
            | (some title, none) =>
                if title ≠ [] ∧ title ≠ py "__probe__" then (title, .historyTitle) else fallbackInstruction ms
            | (none, none) => fallbackInstruction ms

/-- A call of an assistant message; its `type` is always `function`. -/
structure SftCall where
  id : PyStr
  name : Json
  arguments : PyStr
  deriving DecidableEq

/-- A message of the sample; a key that may be missing is an option, and `tool_calls` is
missing where there are none. -/
inductive SftMessage
  | system (content : Json)
  | user (content : PyStr)
  | assistant (reasoning : Option Json) (content : Json) (toolCalls : List SftCall)
  | tool (content : Json) (toolCallId : Option PyStr) (name : Option Json)
  deriving DecidableEq

def callId (n : ℕ) : PyStr := py "call_" ++ natDigits n

/-- The variables of the loop over the messages; `n_tool_calls` always equals `call_seq`. -/
structure State where
  out : List SftMessage
  callSeq : ℕ
  pendingIds : List PyStr
  nToolCalls : ℕ
  deriving DecidableEq

/-- The calls of a message, numbered from `n` on. -/
def numbered (n : ℕ) (tcs : List ToolCall) : List SftCall :=
  (tcs.zipIdx n).map fun p => ⟨callId p.2, p.1.name, (Json.obj p.1.args).dumps⟩

def convert (st : State) : Body → State
  | .system _ _ => st
  | .user _ _ => st
  | .assistant reasoning content tcs =>
      let calls := numbered st.callSeq tcs
      let am := SftMessage.assistant (reasoning.filter Json.truthy)
        (orEmpty (content.getD (.str [])) (.str [])) calls
      { out := st.out ++ [am]
        callSeq := st.callSeq + tcs.length
        pendingIds := if tcs = [] then st.pendingIds else calls.map SftCall.id
        nToolCalls := st.nToolCalls + tcs.length }
  | .tool name content =>
      { st with
        out := st.out ++ [.tool (orEmpty content (.str [])) st.pendingIds.head? (ifTruthy name)]
        pendingIds := st.pendingIds.tail }

structure Meta where
  source : PyStr
  convId : PyStr
  model : Json
  createdAt : Json
  instructionSource : InstructionSource
  nModelTurns : ℕ
  nToolCalls : ℕ
  nCompressions : ℕ
  fidelity : Dict PyStr Bool
  deriving DecidableEq

structure Sample where
  messages : List SftMessage
  tools : Json
  provenance : Meta
  deriving DecidableEq

def header (ms : List Body) (instruction : PyStr) : List SftMessage :=
  (ms.findSome? promptContent).toList.map .system ++ [.user instruction]

def toSft (rec : Record) : Except PyError Sample :=
  let ms := rec.messages.map Message.body
  (surfaceInstruction ms).map fun q =>
    let st := ms.foldl convert ⟨header ms q.1, 0, [], 0⟩
    { messages := st.out
      tools := rec.tools
      provenance := {
        source := rec.source
        convId := rec.convId
        model := rec.model
        createdAt := rec.createdAt
        instructionSource := q.2
        nModelTurns := rec.nModelTurns
        nToolCalls := st.nToolCalls
        nCompressions := rec.nCompressions
        fidelity := rec.fidelity } }

end AgentTrajectory.NormalizedToSft
