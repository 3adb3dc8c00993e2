import AgentTrajectory.PyValue
import AgentTrajectory.PyJsonUnicode
import AgentTrajectory.ThreadHistory

/-! `anthropic_capture_proxy.py`: the message rebuilt from an event stream and the record
that a captured call appends to the `api-calls` track. -/
namespace AgentTrajectory.AnthropicCapture
open PyText PyDict PyJson PyValue MessageTree

structure Stream where
  msg : Option (Dict PyStr Json)
  blocks : List Json
  partialJson : Dict Json PyStr

def Stream.empty : Stream := ⟨none, [], []⟩

def dataOf (line : PyStr) : Option PyStr :=
  if startswith line (py "data:") then
    let data := strip (line.drop 5)
    if data.isEmpty then none else some data
  else none

def messageStart (st : Stream) (ev : Dict PyStr Json) : Except PyError Stream := do
  let msg ← getItem ev (py "message") >>= asDict
  let blocks ← listOf (orEmpty (getNone msg (py "content")) (.arr []))
  .ok { st with msg := some msg, blocks := blocks }

/-- The list grown until it has index `i`. A float is compared with the length but never
indexes a list, so it raises in any case. -/
def padTo (blocks : List Json) (i : ℤ) : List Json :=
  blocks ++ List.replicate ((i + 1).toNat - blocks.length) .null

def contentBlockStart (st : Stream) (ev : Dict PyStr Json) : Except PyError Stream := do
  let i ← getItem ev (py "index") >>= asIndex
  let blocks := padTo st.blocks i
  let block ← getItem ev (py "content_block")
  let n ← position blocks.length i
  .ok { st with blocks := blocks.set n block, partialJson := set st.partialJson (.int i) [] }

def itemAt (blocks : List Json) (i : Json) : Except PyError (ℕ × Json) := do
  let n ← asIndex i >>= position blocks.length
  .ok (n, blocks.getD n .null)

/-- `blocks[i][field] = blocks[i].get(field, "") + d[field]`. -/
def appendField (fl : Floats) (st : Stream) (i : Json) (d : Dict PyStr Json) (field : PyStr) :
    Except PyError Stream := do
  let (n, item) ← itemAt st.blocks i
  let block ← asDict item
  let piece ← getItem d field
  let text ← add fl ((get? block field).getD (.str [])) piece
  .ok { st with blocks := st.blocks.set n (.obj (set block field text)) }

def appendPartial (fl : Floats) (st : Stream) (i : Json) (d : Dict PyStr Json) :
    Except PyError Stream := do
  let key ← hashKey fl i
  let piece ← getItem d (py "partial_json")
  match piece with
  | .str s =>
      let text := (get? st.partialJson key).getD [] ++ s
      .ok { st with partialJson := set st.partialJson key text }
  | _ => .error .typeError

def contentBlockDelta (fl : Floats) (st : Stream) (ev : Dict PyStr Json) :
    Except PyError Stream := do
  let i ← getItem ev (py "index")
  let d ← getItem ev (py "delta") >>= asDict
  let dt := getNone d (py "type")
  if dt = .str (py "text_delta") then appendField fl st i d (py "text")
  else if dt = .str (py "thinking_delta") then appendField fl st i d (py "thinking")
  else if dt = .str (py "input_json_delta") then appendPartial fl st i d
  else if dt = .str (py "signature_delta") then appendField fl st i d (py "signature")
  else .ok st

def withInput (block : Dict PyStr Json) (text : PyStr) : Dict PyStr Json :=
  match loads text with
  | some v => set block (py "input") v
  | none => set block (py "input_raw") (.str text)

def storeInput (st : Stream) (i : Json) (text : PyStr) : Except PyError Stream := do
  let (n, item) ← itemAt st.blocks i
  match item with
  | .obj block => .ok { st with blocks := st.blocks.set n (.obj (withInput block text)) }
  | _ => .error .typeError

def contentBlockStop (fl : Floats) (st : Stream) (ev : Dict PyStr Json) :
    Except PyError Stream := do
  let i ← getItem ev (py "index")
  let key ← hashKey fl i
  let text := (get? st.partialJson key).getD []
  if text.isEmpty then .ok st else storeInput st i text

/-- `msg.setdefault("usage", {}).update(usage)`. -/
def mergeUsage (msg : Dict PyStr Json) (usage : Json) : Except PyError (Dict PyStr Json) := do
  let cur ← asDict ((get? msg (py "usage")).getD (.obj []))
  let new ← updateWith cur usage
  .ok (set msg (py "usage") (.obj new))

def messageDelta (st : Stream) (ev : Dict PyStr Json) : Except PyError Stream :=
  match st.msg with
  | none => .ok st
  | some msg => do
      let msg' ← updateWith msg (orEmpty (getNone ev (py "delta")) (.obj []))
      let usage := getNone ev (py "usage")
      let msg'' ← if usage.truthy then mergeUsage msg' usage else .ok msg'
      .ok { st with msg := some msg'' }

def onEvent (fl : Floats) (st : Stream) (ev : Dict PyStr Json) : Except PyError Stream :=
  let t := getNone ev (py "type")
  if t = .str (py "message_start") then messageStart st ev
  else if t = .str (py "content_block_start") then contentBlockStart st ev
  else if t = .str (py "content_block_delta") then contentBlockDelta fl st ev
  else if t = .str (py "content_block_stop") then contentBlockStop fl st ev
  else if t = .str (py "message_delta") then messageDelta st ev
  else .ok st

def onLine (fl : Floats) (st : Stream) (line : PyStr) : Except PyError Stream :=
  match dataOf line with
  | none => .ok st
  | some data =>
      match loads data with
      | none => .error .jsonDecodeError
      | some (.obj ev) => onEvent fl st ev
      | some _ => .error .attributeError

def Stream.message (st : Stream) : Option (Dict PyStr Json) :=
  st.msg.map fun m => set m (py "content") (.arr st.blocks)

def reconstructSseMessage (fl : Floats) (text : PyStr) :
    Except PyError (Option (Dict PyStr Json)) :=
  ((splitlines text).foldlM (onLine fl) Stream.empty).map Stream.message

def systemToolsSha (payload : Dict PyStr Json) : Except PyError PyStr :=
  sha (Json.dumpsSorted (.obj [(py "system", stripBillingBlocks (getNone payload (py "system"))),
    (py "tools", getNone payload (py "tools"))]))

/-- What arrives from the upstream; a missing header is `none`. -/
structure Response where
  status : ℤ
  contentEncoding : Option PyStr
  contentType : Option PyStr
  body : Bytes

/-- A number of seconds as `json.dumps` writes it. -/
structure Clock where
  lit : PyStr
  valid : floatLit lit = true

/-- The call handed to `capture_api_call`. -/
structure Call where
  now : Clock
  sessionId : Json
  payload : Dict PyStr Json
  sha : PyStr

section Capture
variable (gunzip : Bytes → Except PyError Bytes) (fl : Floats)

def Response.unpacked (r : Response) : Except PyError Bytes :=
  if r.contentEncoding = some (py "gzip") then gunzip r.body else .ok r.body

def Response.isStream (r : Response) : Bool :=
  decide (r.status = 200) &&
    decide (firstField (cp ';') (r.contentType.getD []) = py "text/event-stream")

/-- The response rebuilt from a stream or parsed; `none` where there is nothing to rebuild
or the text is no JSON. -/
def responseValue (r : Response) (text : PyStr) : Except PyError (Option Json) :=
  if r.isStream then (reconstructSseMessage fl text).map (Option.map .obj)
  else .ok (loads text)

/-- The values of `response` and `response_raw`: the text is kept where there is no value. -/
def orText (text : PyStr) : Option Json → Json × Option PyStr
  | some v => (v, none)
  | none => (.null, some text)

def threadFields (payload : Dict PyStr Json) : Dict PyStr Json :=
  let id := match orEmpty (getNone payload (py "messages")) (.arr []) with
    | .arr messages => (mountCall Tree.empty (getNone payload (py "system")) messages).2
    | _ => .error .typeError
  match id with
  | .ok (tid, false) => [(py "thread_id", .str tid)]
  | .ok (tid, true) => [(py "thread_id", .str tid), (py "thread_id_provisional", .bool true)]
  | .error _ => []

def recordOf (c : Call) (status : ℤ) (response : Json × Option PyStr) : Json :=
  .obj ([(py "ts", .float c.now.lit), (py "session_id", c.sessionId), (py "sha", .str c.sha),
    (py "status", .int status), (py "request", .obj c.payload), (py "response", response.1)] ++
      threadFields c.payload ++
      (response.2.map fun text => (py "response_raw", Json.str text)).toList)

/-- `append_jsonl`: the lines of the track after the record's. -/
def appendJsonl (track : List Bytes) (record : Json) : Except PyError (List Bytes) :=
  match encodeUtf8 (record.dumps ++ py "\n") with
  | none => .error .unicodeEncodeError
  | some line => .ok (track ++ [line])

def callRecord (c : Call) (r : Response) : Except PyError Json := do
  let body ← r.unpacked gunzip
  let text := decodeUtf8 body
  let value ← responseValue fl r text
  .ok (recordOf c r.status (orText text value))

/-- `capture_api_call`; what it prints afterwards is left out. -/
def captureApiCall (track : List Bytes) (c : Call) (r : Response) :
    Except PyError (List Bytes) := do
  let record ← callRecord gunzip fl c r
  appendJsonl track record

/-- The track after `proxy` has handled the call: an exception is printed and dropped. -/
def proxyCapture (track : List Bytes) (c : Call) (r : Response) : List Bytes :=
  match captureApiCall gunzip fl track c r with
  | .ok track' => track'
  | .error _ => track

end Capture
end AgentTrajectory.AnthropicCapture
