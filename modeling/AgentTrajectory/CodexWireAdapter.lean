import AgentTrajectory.PyValue

/-! `codex_wire_adapter.py`: a captured call as one normalised record, whose messages from
`completion_start_index` on are what the model produced. -/
namespace AgentTrajectory.CodexWireAdapter
open PyText PyDict PyJson PyValue

def partText : Json → Option PyStr
  | .obj p =>
      match getNone p (py "text") with
      | .str s => some s
      | _ =>
          let t := getNone p (py "type")
          match getNone p (py "content") with
          | .str s => if t = .str (py "input_text") ∨ t = .str (py "output_text") then some s else none
          | _ => none
  | .str s => some s
  | _ => none

def extractText : Json → PyStr
  | .str s => s
  | .arr ps => join (py "\n") (ps.filterMap partText)
  | _ => []

def cleanArgs : Json → Json
  | .str s => (loads s).getD (.str s)
  | v => v

def isReasoning (item : Dict PyStr Json) : Bool := getNone item (py "type") == .str (py "reasoning")

/-- The message of an item that is no reasoning. -/
def itemMessage (item : Dict PyStr Json) : Json :=
  let t := getNone item (py "type")
  let text := Json.str (extractText (getNone item (py "content")))
  if t = .str (py "message") then
    .obj [(py "role", orEmpty (getNone item (py "role")) (.str (py "assistant"))), (py "content", text)]
  else if t = .str (py "function_call") then
    .obj [(py "role", .str (py "assistant")), (py "tool_calls", .arr [.obj
      [(py "name", getNone item (py "name")), (py "args", cleanArgs (getNone item (py "arguments"))),
        (py "call_id", orEmpty (getNone item (py "call_id")) (getNone item (py "id")))]])]
  else if t = .str (py "function_call_output") then
    .obj [(py "role", .str (py "tool")), (py "call_id", getNone item (py "call_id")),
      (py "content", .str (extractText (getNone item (py "output"))))]
  else .obj [(py "role", .str (py "system")), (py "subtype", orEmpty t (.str (py "unknown"))),
    (py "content", text)]

/-- `_item_to_messages`, with the counter of stripped reasoning passed along. -/
def itemToMessages (stripped : ℕ) : Json → List Json × ℕ
  | .obj item => if isReasoning item then ([], stripped + 1) else ([itemMessage item], stripped)
  | _ => ([], stripped)

def extendWith (st : List Json × ℕ) (item : Json) : List Json × ℕ :=
  let out := itemToMessages st.2 item
  (st.1 ++ out.1, out.2)

def systemMessage : Json → List Json
  | .str s => if s.isEmpty then [] else [.obj [(py "role", .str (py "system")),
      (py "subtype", .str (py "base_instructions")), (py "content", .str s)]]
  | _ => []

def basename (path : PyStr) : PyStr := path.rtakeWhile (· != cp '/')

def sourceName : Option PyStr → Json
  | some path => if path.isEmpty then .null else .str (basename path)
  | none => .null

def finalResponse (record : Dict PyStr Json) : Dict PyStr Json :=
  match orEmpty (getNone record (py "response")) (.obj []) with
  | .obj resp =>
      match getNone resp (py "final_response") with
      | .obj fr => fr
      | _ => []
  | _ => []

def fidelity (req : Dict PyStr Json) (model usage temperature topP : Json) : Json :=
  .obj [(py "user_prompt", .bool true), (py "assistant_text", .bool true),
    (py "tool_call_name_args", .bool true), (py "tool_result", .bool true),
    (py "system_prompt", .bool (getNone req (py "instructions")).truthy),
    (py "tools_schema", .bool (getNone req (py "tools")).truthy), (py "model_id", .bool model.truthy),
    (py "usage_tokens", .bool (usage != .null)),
    (py "sampling_params", .bool (temperature != .null || topP != .null)),
    (py "reasoning_text", .bool false), (py "raw_reasoning_tokens", .bool false),
    (py "token_id_logprob", .bool false), (py "per_call_boundary", .bool true)]

def adaptCall (record : Dict PyStr Json) (sourceFile : Option PyStr) :
    Except PyError (Dict PyStr Json) := do
  let req ← asDict (orEmpty (getNone record (py "request")) (.obj []))
  let fr := finalResponse record
  let input ← listOf (orEmpty (getNone req (py "input")) (.arr []))
  let context := input.foldl extendWith (systemMessage (getNone req (py "instructions")), 0)
  let output ← listOf (orEmpty (getNone fr (py "output")) (.arr []))
  let messages := output.foldl extendWith context
  let usage := getNone fr (py "usage")
  let model := orEmpty (getNone fr (py "model")) (getNone req (py "model"))
  let temperature := getNone fr (py "temperature")
  let topP := getNone fr (py "top_p")
  let reasoning ← asDict (orEmpty (getNone req (py "reasoning")) (.obj []))
  .ok [(py "source", .str (py "codex-wire")), (py "source_file", sourceName sourceFile),
    (py "ts", getNone record (py "ts")), (py "path", getNone record (py "path")),
    (py "status", getNone record (py "status")), (py "model", model),
    (py "messages", .arr messages.1), (py "completion_start_index", .int context.1.length),
    (py "tools", getNone req (py "tools")), (py "usage", usage),
    (py "sampling", .obj [(py "temperature", temperature), (py "top_p", topP),
      (py "reasoning_effort", getNone reasoning (py "effort"))]),
    (py "n_reasoning_stripped", .int messages.2),
    (py "fidelity", fidelity req model usage temperature topP)]

/-- `messages[completion_start_index:]`. -/
def completion (out : Dict PyStr Json) : List Json :=
  match getNone out (py "messages"), getNone out (py "completion_start_index") with
  | .arr messages, .int n => messages.drop n.toNat
  | _, _ => []

end AgentTrajectory.CodexWireAdapter
