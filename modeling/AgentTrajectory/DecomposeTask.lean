import AgentTrajectory.LlmDecompose
import AgentTrajectory.RouteDay

/-! The way of a message number through `llm_decompose.py` and back: the numbered transcript
that the model reads, the chunks of a large task with the merge of their answers, and the
message ids that `subreq_member_msg_ids` of `llm_segment.py` stores for the members. -/
namespace AgentTrajectory.DecomposeTask
open PyText PyDict PyJson TaskStitch LlmDecompose RouteDay

/-- What the scripts take from outside for a transcript: the character classes, the
anonymiser, the clock, the tags of `_CLS_TAG` if they are turned on, and `str` of a value
that is no string. -/
structure Display where
  env : Env
  anonymize : PyStr → PyStr
  clock : ℤ → PyStr
  roleTag : Option (PyStr → PyStr)
  str : Json → PyStr

variable (d : Display)

/-- The message is shown: it is no noise and has a text. -/
def shown (e : DayEvent) : Bool := !isNoise e.text && !(strip (stripFeishu d.env e.text)).isEmpty

/-- `_effective`. -/
def effectiveEvents (cluster : List DayEvent) : List DayEvent := cluster.filter (shown d)

/-- `rep`. -/
def replyMark (msgid2idx : Dict PyStr ℕ) (pid : PyStr) : PyStr :=
  if pid = [] then []
  else match get? msgid2idx pid with
    | some n => py "↩回复#" ++ natDigits n
    | none => py "↩回复前文(父消息是噪声/不在本任务内)"

/-- The line of a message under number `i`. -/
def transcriptLine (i : ℕ) (msgid2idx : Dict PyStr ℕ) (e : DayEvent) : PyStr :=
  let role := if e.role = .user then py "用户" else py "bot"
  let tag := if e.role = .user then (d.roleTag.map fun f => f e.text).getD [] else []
  py "#" ++ natDigits i ++ py " [" ++ d.clock e.ts ++ py "] " ++ role ++ py "(" ++ d.anonymize e.name ++ py ")" ++
    tag ++ replyMark msgid2idx e.parentId ++ py ": " ++ (d.anonymize (strip (stripFeishu d.env e.text))).take 300

/-- The variables of `build_transcript`. -/
structure Transcript where
  rows : List PyStr
  events : List DayEvent
  msgid2idx : Dict PyStr ℕ
  deriving DecidableEq

/-- One round of the loop of `build_transcript`. -/
def addLine (t : Transcript) (e : DayEvent) : Transcript :=
  if shown d e then
    let i := t.events.length + 1
    let msgid2idx := if e.msgId = [] then t.msgid2idx else set t.msgid2idx e.msgId i
    ⟨t.rows ++ [transcriptLine d i msgid2idx e], t.events ++ [e], msgid2idx⟩
  else t

def buildTranscript (cluster : List DayEvent) : Transcript := cluster.foldl (addLine d) ⟨[], [], []⟩

/-- The time between message `i` and the one before it. -/
def gapAt (eff : List DayEvent) (i : ℕ) : ℤ :=
  (eff[i]?.map (·.ts)).getD 0 - (eff[i - 1]?.map (·.ts)).getD 0

/-- The first place with the largest gap; `best` has the gap `bestGap`. -/
def widestGap (eff : List DayEvent) (best : ℕ) (bestGap : ℤ) : List ℕ → ℕ
  | [] => best
  | i :: is => if bestGap < gapAt eff i then widestGap eff i (gapAt eff i) is else widestGap eff best bestGap is

def ceilDiv (n k : ℕ) : ℕ := (n + k - 1) / k

/-- The cut that is looked for around place `ideal`; `best_gap` starts at minus one second. -/
def cutNear (eff : List DayEvent) (size ideal : ℕ) : ℕ :=
  let lo := max 1 (ideal - size / 3)
  let hi := min (eff.length - 1) (ideal + size / 3)
  widestGap eff ideal (-1000) (List.range' lo (hi + 1 - lo))

def cutInto (eff : List DayEvent) (prev : ℕ) : List ℕ → List (List DayEvent)
  | [] => [eff.drop prev]
  | c :: cs => if prev < c then (eff.take c).drop prev :: cutInto eff c cs else cutInto eff prev cs

/-- `_split_by_gaps`, for a positive target. -/
def splitByGaps (eff : List DayEvent) (target : ℕ) : List (List DayEvent) :=
  if eff.length ≤ target then [eff]
  else
    let nchunks := ceilDiv eff.length target
    let size := ceilDiv eff.length nchunks
    let cuts := (List.range' 1 (nchunks - 1)).map fun k => cutNear eff size (k * size)
    (cutInto eff 0 (cuts.dedup.insertionSort (· ≤ ·))).filter fun c => !c.isEmpty

section Task
variable (setOrder : ℕ → ℕ → Bool)

/-- `_one` over what the calls of the model give, with the number of lines it was shown. -/
def one (cluster : List DayEvent) (attempts : List (Except PyError Result)) : Except PyError (Result × ℕ) :=
  let t := buildTranscript d cluster
  (oneLoop d.env setOrder (t.events.map (·.toEvent)) false none attempts).map fun r => (r, t.rows.length)

/-- A value in an f-string. -/
def textOf : Json → PyStr
  | .str s => s
  | v => d.str v

/-- `new_id` in chunk `ci`. -/
def chunkId (ci : ℕ) (s : Subreq) : Json :=
  .str (py "S" ++ natDigits ci ++ py "." ++ textOf d (s.id.getD (.str (py "S?"))))

def shiftSubreq (ci offset : ℕ) (s : Subreq) : Subreq :=
  { s with
    id := some (chunkId d ci s)
    memberIdx := s.memberIdx.map fun x => .num ((asSegInt d.env x).getD 0 + offset) }

/-- `idmap.get(x, x)`. -/
def renamed (idmap : Dict Json Json) (x : Json) : Except PyError Json :=
  if hashable x then .ok ((get? idmap x).getD x) else .error .typeError

def renameEnds (idmap : Dict Json Json) (e : Edge) : Except PyError Edge := do
  return { e with src := ← renamed idmap e.src, dst := ← renamed idmap e.dst }

/-- The answer on chunk `ci` joins what is merged. -/
def mergeChunk (ci offset : ℕ) (merged res : Result) : Except PyError Result :=
  if (res.subreqs.map Subreq.idOf).all hashable then do
    let idmap := ofPairs (res.subreqs.map fun s => (s.idOf, chunkId d ci s))
    let edges ← res.edges.mapM (renameEnds idmap)
    return ⟨merged.subreqs ++ res.subreqs.map (shiftSubreq d ci offset), merged.edges ++ edges⟩
  else .error .typeError

/-- The loop over the chunks; `answers c` is what the calls on the list number `c` give. -/
def mergeFrom (answers : ℕ → List (Except PyError Result)) (c offset : ℕ) (merged : Result) :
    List (List DayEvent) → Except PyError (Result × ℕ)
  | [] => .ok (merged, offset)
  | chunk :: chunks => do
      let res ← one d setOrder chunk (answers c)
      let merged ← mergeChunk d (c + 1) offset merged res.1
      mergeFrom answers (c + 1) (offset + res.2) merged chunks

def gather (bigThreshold chunkTarget : ℕ) (cluster : List DayEvent)
    (answers : ℕ → List (Except PyError Result)) : Except PyError (Result × ℕ) :=
  let eff := effectiveEvents d cluster
  if eff.length ≤ bigThreshold then one d setOrder cluster (answers 0)
  else mergeFrom d setOrder answers 0 0 ⟨[], []⟩ (splitByGaps eff chunkTarget)

def decomposeOneTask (bigThreshold chunkTarget : ℕ) (cluster : List DayEvent)
    (answers : ℕ → List (Except PyError Result)) (terminal : Bool) : Except PyError (Result × ℕ) := do
  let res ← gather d setOrder bigThreshold chunkTarget cluster answers
  return (← enforceTerminalTail d.env terminal res.1, res.2)

end Task

def msgIdOf (e : DayEvent) : Option PyStr := if e.msgId = [] then none else some e.msgId

def memberMsgId (eff : List DayEvent) (x : Member) : Option PyStr :=
  match asSegInt d.env x with
  | none => none
  | some i => if 0 < i then (eff[i - 1]?).bind msgIdOf else none

structure StoredSubreq where
  id : Json
  title : Json
  status : Json
  type : Json
  memberMsgIds : List PyStr
  deriving DecidableEq

def storeSubreq (eff : List DayEvent) (s : Subreq) : StoredSubreq :=
  ⟨s.id.getD (.str []), s.title.getD (.str []), s.status, s.type, s.memberIdx.filterMap (memberMsgId d eff)⟩

def subreqMemberMsgIds (subs : List Subreq) (eff : List DayEvent) : List StoredSubreq :=
  subs.map (storeSubreq d eff)

end AgentTrajectory.DecomposeTask
