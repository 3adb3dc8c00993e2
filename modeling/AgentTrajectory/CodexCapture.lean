import AgentTrajectory.AnthropicCapture

/-! `codex_capture_proxy.py`: what is rebuilt from a Responses stream and the record of a
captured call. -/
namespace AgentTrajectory.CodexCapture
open PyText PyDict PyJson PyValue AnthropicCapture

structure Rebuild where
  finalResponse : Json
  textParts : List Json
  reasoningParts : List Json
  outputItems : List Json
  eventsSeen : ℕ

def Rebuild.empty : Rebuild := ⟨.null, [], [], [], 0⟩

def dataOf (line : PyStr) : Option PyStr :=
  let line := strip line
  if startswith line (py "data:") then
    let data := strip (line.drop 5)
    if data.isEmpty || data == py "[DONE]" then none else some data
  else none

def isTextDelta (t : Json) : Bool := t == .str (py "response.output_text.delta")

def isReasoningDelta (t : Json) : Bool :=
  t == .str (py "response.reasoning_summary_text.delta") || t == .str (py "response.reasoning_text.delta")

def isItemDone (t : Json) : Bool := t == .str (py "response.output_item.done")

def isTerminal (t : Json) : Bool :=
  t == .str (py "response.completed") || t == .str (py "response.incomplete") ||
    t == .str (py "response.failed")

def typeOf (ev : Dict PyStr Json) : Json := (get? ev (py "type")).getD (.str [])

def deltaOf (ev : Dict PyStr Json) : Json := (get? ev (py "delta")).getD (.str [])

def Rebuild.addItem (st : Rebuild) : Json → Rebuild
  | .obj item => { st with outputItems := st.outputItems ++ [.obj item] }
  | _ => st

def onEvent (st : Rebuild) (ev : Dict PyStr Json) : Rebuild :=
  let st := { st with eventsSeen := st.eventsSeen + 1 }
  let t := typeOf ev
  if isTextDelta t then { st with textParts := st.textParts ++ [deltaOf ev] }
  else if isReasoningDelta t then { st with reasoningParts := st.reasoningParts ++ [deltaOf ev] }
  else if isItemDone t then st.addItem (getNone ev (py "item"))
  else if isTerminal t then { st with finalResponse := (get? ev (py "response")).getD st.finalResponse }
  else st

def onLine (st : Rebuild) (line : PyStr) : Except PyError Rebuild :=
  match (dataOf line).bind loads with
  | none => .ok st
  | some (.obj ev) => .ok (onEvent st ev)
  | some _ => .error .attributeError

def asStr : Json → Except PyError PyStr
  | .str s => .ok s
  | _ => .error .typeError

/-- `"".join(parts) or None`. -/
def joined (parts : List Json) : Except PyError Json := do
  let texts ← parts.mapM asStr
  .ok (orEmpty (.str texts.flatten) .null)

def fillOutput (final : Json) (items : List Json) : Json :=
  match final with
  | .obj d =>
      if !(getNone d (py "output")).truthy && !items.isEmpty then .obj (set d (py "output") (.arr items))
      else .obj d
  | v => v

def Rebuild.result (st : Rebuild) : Except PyError (Option (Dict PyStr Json)) :=
  if st.finalResponse = .null ∧ st.eventsSeen = 0 then .ok none
  else do
    let text ← joined st.textParts
    let reasoning ← joined st.reasoningParts
    .ok (some [(py "final_response", fillOutput st.finalResponse st.outputItems), (py "text", text),
      (py "reasoning", reasoning), (py "output_items", orEmpty (.arr st.outputItems) .null),
      (py "events_seen", .int st.eventsSeen)])

def reconstructResponsesSse (text : PyStr) : Except PyError (Option (Dict PyStr Json)) := do
  let st ← (splitlines text).foldlM onLine Rebuild.empty
  st.result

/-- The arguments of `capture_api_call`, with the time of the call; `payload` is what the
request's body was parsed to. -/
structure Exchange where
  now : Clock
  path : PyStr
  status : ℤ
  hadAuth : Bool
  payload : Json
  contentEncoding : Option PyStr
  body : Bytes

section Capture
variable (gunzip : Bytes → Except PyError Bytes)

/-- The text of the response; a body that is no gzip file is read as it is. -/
def Exchange.text (x : Exchange) : Except PyError PyStr :=
  if x.contentEncoding = some (py "gzip") then
    match gunzip x.body with
    | .ok body => .ok (decodeUtf8 body)
    | .error .badGzipFile => .ok (decodeUtf8 x.body)
    | .error e => .error e
  else .ok (decodeUtf8 x.body)

def isSse (text : PyStr) : Bool := contains (py "data:") text && contains (py "response.") text

/-- The values of `response` and `response_raw`. -/
def responseFields (text : PyStr) : Except PyError (Json × Option PyStr) := do
  let rebuilt ← if isSse text then reconstructResponsesSse text else .ok none
  match rebuilt with
  | some d => .ok (.obj d, some text)
  | none => .ok (orText text (loads text))

def recordOf (x : Exchange) (response : Json × Option PyStr) : Dict PyStr Json :=
  [(py "ts", .float x.now.lit), (py "path", .str x.path), (py "status", .int x.status),
    (py "had_auth", .bool x.hadAuth), (py "request", x.payload), (py "response", response.1)] ++
      (response.2.map fun text => (py "response_raw", Json.str text)).toList

def captureRecord (x : Exchange) : Except PyError (Dict PyStr Json) := do
  let text ← x.text gunzip
  let response ← responseFields text
  .ok (recordOf x response)

/-- `capture_api_call`; what it prints afterwards is left out. -/
def captureApiCall (track : List Bytes) (x : Exchange) : Except PyError (List Bytes) := do
  let record ← captureRecord gunzip x
  appendJsonl track (.obj record)

end Capture
end AgentTrajectory.CodexCapture
