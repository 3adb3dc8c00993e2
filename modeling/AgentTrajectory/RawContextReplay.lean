import AgentTrajectory.RuntimeLane
import AgentTrajectory.CorrectionCensus

/-! `raw_context_replay.py`: for every snapshot row the events before its instruction T0 are
chosen as the context of a replay, from the reply tree of T0 or from its lane. -/
namespace AgentTrajectory.RawContextReplay
open PyText PyDict PyJson PyValue PathWalk RuntimeLane

variable {τ : Type}

/-- What the builder takes from outside: the character classes, `str` of a value, the date of
a time, and the error hint of a row with its source. -/
structure ReplayEnv (τ : Type) where
  env : TaskStitch.Env
  str : Json → PyStr
  iso : τ → Option PyStr
  errHint : Dict PyStr Json → Except PyError (PyStr × PyStr)

structure Rewriter where
  placebo : Json → PyStr
  treatment : Json → PyStr → PyStr

structure Options where
  contextLimit : ℤ
  generate : Option Rewriter
  embedFullContext : Bool
  previewChars : ℤ
  previewEvents : ℤ

/-- `xs[:k]`. -/
def sliceTo {α : Type} (k : ℤ) (xs : List α) : List α :=
  if 0 ≤ k then xs.take k.toNat else xs.take (xs.length - k.natAbs)

/-- `xs[k:]`. -/
def sliceFrom {α : Type} (k : ℤ) (xs : List α) : List α :=
  if 0 ≤ k then xs.drop k.toNat else xs.drop (xs.length - k.natAbs)

lemma mem_of_mem_sliceFrom {α : Type} {k : ℤ} {xs : List α} {x : α} (h : x ∈ sliceFrom k xs) : x ∈ xs := by
  unfold sliceFrom at h
  split_ifs at h <;> exact List.mem_of_mem_drop h

section Texts
variable (env : ReplayEnv τ)

/-- `str(v)`. -/
def strOf : Json → PyStr
  | .str s => s
  | v => env.str v

/-- `v or ""` where a text is needed. -/
def textOf (v : Json) : Except PyError PyStr :=
  match orEmpty v (.str []) with
  | .str s => .ok s
  | _ => .error .typeError

def cleanText (text : PyStr) : PyStr := strip (TaskStitch.stripFeishu env.env text)

def norm (text : PyStr) : PyStr :=
  ((cleanText env text).filter fun c =>
    !isSpace c && !(py "`*_#>[]()\x7b\x7d:：,，.。!！?？").elem c).take 800

end Texts

structure Formatted (τ : Type) where
  msgId : PyStr
  ts : τ
  iso : Option PyStr
  role : PyStr
  name : PyStr
  parentId : PyStr
  text : PyStr
  lane : Option PyStr
  deriving DecidableEq

def formatEvent (env : ReplayEnv τ) (laneOf : Dict PyStr PyStr) (e : Event τ) : Formatted τ where
  msgId := e.msgId
  ts := e.ts
  iso := env.iso e.ts
  role := e.role
  name := e.name
  parentId := e.parentId
  text := cleanText env e.text
  lane := get? laneOf e.msgId

structure Preview (τ : Type) where
  record : Formatted τ
  textPreview : PyStr
  textChars : ℕ
  deriving DecidableEq

def previewEvent (env : ReplayEnv τ) (laneOf : Dict PyStr PyStr) (chars : ℤ) (e : Event τ) : Preview τ :=
  let rec' := formatEvent env laneOf e
  let text := cleanText env rec'.text
  ⟨{ rec' with text := [] }, sliceTo chars text, text.length⟩

def previewEvents (env : ReplayEnv τ) (laneOf : Dict PyStr PyStr) (chars count : ℤ) (es : List (Event τ)) :
    List (Preview τ) :=
  if count ≤ 0 then [] else (sliceFrom (-count) es).map (previewEvent env laneOf chars)

/-- `_render_context`; the number of a line counts the events without a text as well. -/
def renderContext (env : ReplayEnv τ) (es : List (Event τ)) : PyStr :=
  join (py "\n") ((es.zipIdx 1).filterMap fun p =>
    let text := cleanText env p.1.text
    if text = [] then none
    else some (py "M" ++ py (toString p.2) ++ py " [" ++ p.1.role ++ py "/" ++
      (if p.1.name = [] then p.1.role else p.1.name) ++ py "] " ++ text))

/-- The parent that a message names, in the log or not. -/
def parentOf (byId : Dict PyStr (Event τ)) (m : PyStr) : Option PyStr :=
  ((get? byId m).map Event.parentId).filter (· ≠ [])

structure Chain where
  root : Option PyStr
  complete : Bool
  ids : List PyStr
  deriving DecidableEq

/-- `_root_of`. A chain that runs in a circle or leaves the log is not complete. -/
def rootOf (byId : Dict PyStr (Event τ)) (m : PyStr) : Chain :=
  if m = [] ∨ (get? byId m).isNone then ⟨none, false, []⟩
  else
    let path := walk (parentOf byId) (byId.length + 1) [] m
    let top := walkEnd (parentOf byId) (byId.length + 1) m
    ⟨some top, path.2 && (get? byId top).isSome, (m :: path.1).reverse⟩

def eventsWithRoot (events : List (Event τ)) (root : Option PyStr) (byId : Dict PyStr (Event τ)) :
    List (Event τ) :=
  match root with
  | none => []
  | some r => events.filter fun e => (rootOf byId e.msgId).root = some r

/-- `raw_context_quality`. -/
inductive Quality
  | exactThread
  | sameSession
  | recoveredParent
  | missing
  deriving DecidableEq

def recordedIds (env : ReplayEnv τ) (ks : List String) (d : Dict PyStr Json) : List PyStr :=
  ks.filterMap fun k => if (getNone d (py k)).truthy then some (strOf env (getNone d (py k))) else none

def correctionMsgIds (env : ReplayEnv τ) (row : Dict PyStr Json) : Except PyError (List PyStr) := do
  let corrections ← listOf (orEmpty (getNone row (py "corrections")) (.arr []))
  let dicts ← corrections.mapM asDict
  let src ← asDict (orEmpty (getNone row (py "source_vfinal_row")) (.obj []))
  .ok ((dicts.flatMap (recordedIds env ["anchor", "corrector", "anchor_msg_id", "corrector_msg_id"]) ++
    recordedIds env ["anchor_msg_id", "bot_error_msg_id", "corrector_msg_id"] src).dedup)

structure Audit where
  t0MsgId : PyStr
  t0Lane : Option PyStr
  chain : Chain
  contextLimit : ℤ
  leakedAfterT0 : List PyStr
  leakedCorrections : List PyStr
  deriving DecidableEq

section Choose
variable [LinearOrder τ]

def preEvents (t0 : Event τ) (events : List (Event τ)) : List (Event τ) := events.filter fun e => e.ts < t0.ts

def threadEvents (t0 : Event τ) (events : List (Event τ)) (byId : Dict PyStr (Event τ)) : List (Event τ) :=
  if t0.parentId = [] then []
  else (eventsWithRoot (preEvents t0 events) (rootOf byId t0.msgId).root byId).filter fun e => e.msgId ≠ t0.msgId

def laneEvents (t0 : Event τ) (events : List (Event τ)) (laneOf : Dict PyStr PyStr) : List (Event τ) :=
  (preEvents t0 events).filter fun e =>
    ((get? laneOf t0.msgId).getD []).isEmpty || get? laneOf e.msgId == get? laneOf t0.msgId

/-- The context before it is cut to the limit. -/
def candidates (t0 : Event τ) (events : List (Event τ)) (byId : Dict PyStr (Event τ)) (laneOf : Dict PyStr PyStr) :
    Quality × List (Event τ) :=
  if threadEvents t0 events byId = [] then (.sameSession, laneEvents t0 events laneOf)
  else if (rootOf byId t0.msgId).complete then (.exactThread, threadEvents t0 events byId)
  else (.recoveredParent, threadEvents t0 events byId)

def chooseContext (env : ReplayEnv τ) (row : Dict PyStr Json) (t0 : Event τ) (events : List (Event τ))
    (byId : Dict PyStr (Event τ)) (laneOf : Dict PyStr PyStr) (limit : ℤ) :
    Except PyError (Quality × List (Event τ) × Audit) := do
  let (quality, all) := candidates t0 events byId laneOf
  let chosen := sliceFrom (-limit) all
  let ids ← correctionMsgIds env row
  let leakedCorrections := (ids.filter fun m => m ∈ chosen.map Event.msgId).insertionSort (· ≤ ·)
  let leakedAfterT0 := (chosen.filter fun e => t0.ts ≤ e.ts).map Event.msgId
  .ok (if leakedCorrections = [] ∧ leakedAfterT0 = [] then quality else .missing, chosen,
    ⟨t0.msgId, get? laneOf t0.msgId, rootOf byId t0.msgId, limit, leakedAfterT0, leakedCorrections⟩)

end Choose

def t0Id (row : Dict PyStr Json) : Except PyError Json := do
  let t0 ← asDict (orEmpty (getNone row (py "t0")) (.obj []))
  .ok (orEmpty (getNone t0 (py "msg_id")) (orEmpty (getNone row (py "t0_msg_id")) (getNone row (py "_t0_msg_id"))))

/-- `row.get("original_instruction") or row.get("instruction") or ""`. -/
def instruction (row : Dict PyStr Json) : Except PyError PyStr :=
  textOf (orEmpty (getNone row (py "original_instruction")) (getNone row (py "instruction")))

def textCandidates (env : ReplayEnv τ) (log : EventLog τ) (key : PyStr) : List (Event τ) :=
  if key = [] then []
  else log.events.filter fun e => decide (e.role = py "user") &&
    (contains key (norm env e.text) || contains (norm env e.text) key)

/-- The event that the row names by its id. -/
def namedT0 (log : EventLog τ) (row : Dict PyStr Json) : Except PyError (Option (Event τ)) := do
  let m ← t0Id row
  if m.truthy then CorrectionCensus.lookup log.byId m else .ok none

def snapshotT0Event (env : ReplayEnv τ) (log : EventLog τ) (row : Dict PyStr Json) :
    Except PyError (Option (Event τ) × List (Event τ)) := do
  let named ← namedT0 log row
  match named with
  | some e => .ok (some e, [])
  | none =>
      let original ← instruction row
      match textCandidates env log (norm env original) with
      | [e] => .ok (some e, [e])
      | es => .ok (none, es.take 10)

structure SnapshotRef where
  status : Json
  groupId : Json
  t0MsgId : Json
  instructionPreview : PyStr
  instructionChars : ℕ

def snapshotRef (env : ReplayEnv τ) (row : Dict PyStr Json) (chars : ℤ) : Except PyError SnapshotRef := do
  let m ← t0Id row
  let original ← instruction row
  .ok ⟨getNone row (py "status"), getNone row (py "group_id"), m, sliceTo chars (cleanText env original),
    (cleanText env original).length⟩

def buildUserScene (contextText userPrompt : PyStr) : PyStr :=
  py "你正在复现原始指令到达前一刻的执行状态。下面只包含 T0 前上下文。" ++ py "\n\n【T0 前原始上下文】\n" ++
    (if contextText = [] then py "(空)" else contextText) ++ py "\n\n【当前用户输入】\n" ++ userPrompt

structure Legs where
  errHint : PyStr
  errSrc : PyStr
  baselineUser : Json
  placeboUser : Option PyStr
  treatmentUser : Option PyStr
  baselineScene : Option PyStr
  placeboScene : Option PyStr
  treatmentScene : Option PyStr

def legPrompts (env : ReplayEnv τ) (opts : Options) (row : Dict PyStr Json) (contextText : PyStr) :
    Except PyError Legs := do
  let original := orEmpty (getNone row (py "original_instruction")) (.str [])
  let (hint, src) ← env.errHint row
  let placebo := opts.generate.map fun r => r.placebo original
  let treatment := opts.generate.map fun r => if hint = [] then r.placebo original else r.treatment original hint
  let scene (prompt : Option PyStr) : Option PyStr :=
    if opts.embedFullContext then (prompt.filter (· ≠ [])).map (buildUserScene contextText) else none
  .ok ⟨hint, src, original, placebo, treatment,
    if opts.embedFullContext then some (buildUserScene contextText (strOf env original)) else none,
    scene placebo, scene treatment⟩

structure Context (τ : Type) where
  eventIds : List PyStr
  eventsPreview : List (Preview τ)
  events : Option (List (Formatted τ))
  rendered : Option PyStr

inductive Status
  | ok
  | needsReview
  deriving DecidableEq

structure ReplayRow (τ : Type) where
  status : Status
  quality : Quality
  groupId : Json
  t0 : Formatted τ
  lane : Option PyStr
  laneProvenance : Option Provenance
  context : Context τ
  audit : Audit
  originalInstruction : Json
  corrections : Json
  sourceVfinalRow : Json
  legs : Legs

inductive ManifestRow (τ : Type)
  | missingT0 (original : Json) (t0Candidates : List (Preview τ)) (ref : SnapshotRef)
  | replay (row : ReplayRow τ)

section Manifest
variable [LinearOrder τ] (env : ReplayEnv τ) (opts : Options) (real : Dict PyStr PyStr) (log : EventLog τ)

/-- The lanes under their short names. -/
def shortLanes : Dict PyStr PyStr := (assignLanes real log).map fun kv => (kv.1, laneShort kv.2.1)

def replayRow (row : Dict PyStr Json) (t0 : Event τ) : Except PyError (ReplayRow τ) := do
  let lanes := shortLanes real log
  let (quality, chosen, audit) ← chooseContext env row t0 log.events log.byId lanes opts.contextLimit
  let rendered := renderContext env chosen
  let legs ← legPrompts env opts row (if opts.embedFullContext then rendered else [])
  .ok
    { status := if quality = .missing then .needsReview else .ok
      quality
      groupId := orEmpty (getNone row (py "group_id")) (.str group)
      t0 := formatEvent env lanes t0
      lane := get? lanes t0.msgId
      laneProvenance := (get? (assignLanes real log) t0.msgId).map Prod.snd
      context :=
        { eventIds := chosen.map Event.msgId
          eventsPreview := previewEvents env lanes opts.previewChars opts.previewEvents chosen
          events := if opts.embedFullContext then some (chosen.map (formatEvent env lanes)) else none
          rendered := if opts.embedFullContext then some rendered else none }
      audit
      originalInstruction := orEmpty (getNone row (py "original_instruction")) (.str (cleanText env t0.text))
      corrections := orEmpty (getNone row (py "corrections")) (.arr [])
      sourceVfinalRow := getNone row (py "source_vfinal_row")
      legs }

/-- One row of the manifest. -/
def manifestRow (row : Dict PyStr Json) : Except PyError (ManifestRow τ) := do
  let (found, candidates) ← snapshotT0Event env log row
  match found, getNone row (py "status") == .str (py "ok") with
  | some t0, true =>
      let r ← replayRow env opts real log row t0
      .ok (.replay r)
  | _, _ =>
      let ref ← snapshotRef env row opts.previewChars
      .ok (.missingT0 (orEmpty (getNone row (py "original_instruction")) (.str []))
        (candidates.map (previewEvent env (shortLanes real log) opts.previewChars)) ref)

/-- `build_manifest`; the position of a row is its `idx`. -/
def buildManifest (snapshots : List (Dict PyStr Json)) : Except PyError (List (ManifestRow τ)) :=
  snapshots.mapM (manifestRow env opts real log)

end Manifest

end AgentTrajectory.RawContextReplay
