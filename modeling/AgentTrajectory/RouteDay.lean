import AgentTrajectory.PyRegex
import AgentTrajectory.PyValue
import AgentTrajectory.TaskStitch

/-! `route_day.py`: every message of a day is given a session. A user request follows the
message it replies to, a model is asked about the others, and what is no request inherits.
The replies of the model are a list that is used up; the prompts it was sent are kept. -/
namespace AgentTrajectory.RouteDay
open PyText PyDict PyJson PyValue PyRegex TaskStitch

/-- An event of `load_events` with the name of its sender. -/
structure DayEvent extends Event where
  name : PyStr
  deriving DecidableEq

/-- What the router takes from outside: the character classes, `int` of a float and `str`
of a value. -/
structure RouteEnv where
  env : Env
  truncate : PyStr → Except PyError ℤ
  str : Json → PyStr

variable (env : RouteEnv)

def commandWords : List String :=
  ["parallel", "stop", "cancel", "queue", "retry", "compact", "clear"]

def ctrlRe : Regex :=
  .all [.spaces, .one (py "!/！／").elem, .spaces,
    .oneOf (commandWords.map .litAnyCase ++
      [.seq (.one (anyCase 'q')) (.run env.env.isDecimal 1 none), .one (anyCase 'p'), .one (anyCase 's')]),
    .boundary]

def isControlCommand (e : DayEvent) : Bool :=
  isMatch env.env.isWord (ctrlRe env) (stripFeishu env.env e.text)

/-- `int` of digits that a pattern has matched. -/
def queueNumber (digits : PyStr) : Except PyError ℕ := (intOfStr env.env.decimal digits).map Int.toNat

/-- `_ctrl_target_q`, with `_CTRL_TARGET_RE`. -/
def ctrlTargetQ (e : DayEvent) : Except PyError (Option ℕ) :=
  match searchGroup env.env.isWord (.all [.boundary, .one (anyCase 'q'), .spaces]) (.run env.env.isDecimal 1 none)
      .boundary (stripFeishu env.env e.text) with
  | none => .ok none
  | some digits => (queueNumber env digits).map some

/-- The queue position that a receipt gives, by `_ENQUEUE_RE`. -/
def enqueuedQ (e : DayEvent) : Except PyError (Option ℕ) :=
  match searchGroup env.env.isWord (.all [.lit (py "已入队"), .spaces, .lit (py "q"), .spaces])
      (.run env.env.isDecimal 1 none) .empty (stripFeishu env.env e.text) with
  | none => .ok none
  | some digits => (queueNumber env digits).map some

def isUserRequest (e : DayEvent) : Bool := e.role == .user && !isControlCommand env e

def titleOf (text : PyStr) : PyStr :=
  let t := strip ((stripFeishu env.env text).map fun c => if c = cp '\n' then cp ' ' else c)
  let mention : Regex := .seq (.one (· == cp '@')) (.run (fun c => !isSpace c) 1 none)
  (strip (sub env.env.isWord mention (fun _ => []) t)).take 40

structure Session where
  id : ℕ
  title : PyStr
  firstIdx : ℕ
  deriving DecidableEq

/-- A record of `decisions`, one constructor for each mode. -/
inductive Decision
  | control (idx : ℕ) (session targetQ : Option ℕ) (mapped hasReply : Bool) (text : PyStr)
  | replyDet (idx session : ℕ) (text : PyStr)
  | opener (idx session : ℕ) (hasReply : Bool) (text : PyStr)
  | llm (idx session : ℕ) (hasReply : Bool) (reason text : PyStr)
  deriving DecidableEq

/-- The variables of the loop, with the replies still to come and the prompts sent. -/
structure State where
  assign : Dict ℕ ℕ
  sessions : List Session
  decisions : List Decision
  lastSid : Option ℕ
  queueTarget : Dict ℕ ℕ
  replies : List PyStr
  asked : List (ℕ × PyStr)
  deriving DecidableEq

def State.start (replies : List PyStr) : State := ⟨[], [], [], none, [], replies, []⟩

def idmap (evs : List DayEvent) : Dict PyStr ℕ :=
  ofPairs ((evs.zipIdx.filter fun p => p.1.msgId != []).map fun p => (p.1.msgId, p.2))

def roleName : Role → PyStr
  | .user => py "user"
  | .bot => py "bot"

def contextLine (e : DayEvent) : PyStr :=
  py "  - " ++ e.name.take 6 ++ py "(" ++ roleName e.role ++ py "): " ++ (stripFeishu env.env e.text).take 90

/-- The prompt `um`. -/
def promptFor (evs : List DayEvent) (sessions : List Session) (i : ℕ) (e : DayEvent) : PyStr :=
  let prev := ((evs.take i).drop (i - 6)).map (contextLine env)
  let thr := join (py "\n") (sessions.map fun s => py "  " ++ natDigits s.id ++ py ". " ++ s.title)
  py "【已开 session 清单】\n" ++ thr ++ py "\n\n【最近几条消息（时间升序）】\n" ++ join (py "\n") prev ++
    py "\n\n【当前这条用户请求（" ++ e.name.take 6 ++ py "）】\n" ++ (stripFeishu env.env e.text).take 400 ++
    py "\n\n判定并输出 JSON。"

def readReply (raw : PyStr) : Json × PyStr :=
  let braces : Regex := .all [.one (· == cp '{'), .run (fun _ => true) 0 none, .one (· == cp '}')]
  match (searchText env.env.isWord braces raw).bind loads with
  | some (.obj d) =>
      ((get? d (py "session")).getD (.str (py "new")),
        (env.str ((get? d (py "reason")).getD (.str []))).take 30)
  | _ => (.str (py "new"), raw.take 40)

def saysNew : Json → Bool
  | .str s => [py "new", py "新"].elem (lowerAscii (strip s))
  | _ => false

/-- The open session that a reply names; `none` where a new one is opened. -/
def chosenSession (sessions : List Session) (out : Json) : Except PyError (Option Session) :=
  if saysNew out then .ok none
  else match intOf env.env.decimal env.truncate out with
    | .ok n => .ok (sessions.find? fun s => (s.id : ℤ) == n)
    | .error .valueError => .ok none
    | .error .typeError => .ok none
    | .error err => .error err

/-- `open_new`, and the new session is the last one. -/
def openNew (i : ℕ) (e : DayEvent) (st : State) : State :=
  let sid := st.sessions.length + 1
  { st with
    sessions := st.sessions ++ [⟨sid, titleOf env e.text, i⟩]
    assign := set st.assign i sid
    lastSid := some sid }

def continueWith (i sid : ℕ) (st : State) : State :=
  { st with assign := set st.assign i sid, lastSid := some sid }

def State.decide (d : Decision) (st : State) : State := { st with decisions := st.decisions ++ [d] }

def hasReply (e : DayEvent) : Bool := e.parentId != []

def bindQueue (e : DayEvent) (st : State) : Except PyError State :=
  match enqueuedQ env e, st.lastSid with
  | .error err, some _ => .error err
  | .ok (some q), some sid => .ok { st with queueTarget := set st.queueTarget q sid }
  | _, none => .ok st
  | .ok none, _ => .ok st

def inheritFor (i : ℕ) (e : DayEvent) (st : State) : Except PyError (Option ℕ × State) :=
  if e.role = .user ∧ isControlCommand env e = true then do
    let tq ← ctrlTargetQ env e
    let tgt := tq.bind (get? st.queueTarget)
    let sess := tgt.or st.lastSid
    .ok (sess, st.decide (.control i sess tq tgt.isSome (hasReply e) (e.text.take 60)))
  else .ok (st.lastSid, st)

def inheritStep (i : ℕ) (e : DayEvent) (st : State) : Except PyError State := do
  let st₁ ← bindQueue env e st
  let (sess, st₂) ← inheritFor env i e st₁
  match sess with
  | some sid => .ok (if e.msgId = [] then st₂ else { st₂ with assign := set st₂.assign i sid })
  | none => .ok st₂

def parentSession (evs : List DayEvent) (respectReply : Bool) (e : DayEvent) (st : State) : Option ℕ :=
  if respectReply && hasReply e then (get? (idmap evs) e.parentId).bind (get? st.assign) else none

/-- The branch that asks the model; a reply that does not come is an exception of the client. -/
def askStep (evs : List DayEvent) (i : ℕ) (e : DayEvent) (st : State) : Except PyError State :=
  match st.replies with
  | [] => .error .indexError
  | raw :: replies => do
      let st₁ := { st with replies := replies, asked := st.asked ++ [(i, promptFor env evs st.sessions i e)] }
      let (out, reason) := readReply env raw
      let chosen ← chosenSession env st.sessions out
      match chosen with
      | some s => .ok ((continueWith i s.id st₁).decide (.llm i s.id (hasReply e) reason (e.text.take 60)))
      | none =>
          let sid := st.sessions.length + 1
          .ok ((openNew env i e st₁).decide (.llm i sid (hasReply e) reason (e.text.take 60)))

def routeStep (evs : List DayEvent) (respectReply : Bool) (i : ℕ) (e : DayEvent) (st : State) :
    Except PyError State :=
  if isUserRequest env e then
    match parentSession evs respectReply e st with
    | some det => .ok ((continueWith i det st).decide (.replyDet i det (e.text.take 60)))
    | none =>
        if st.sessions = [] then
          .ok ((openNew env i e st).decide (.opener i 1 (hasReply e) (e.text.take 60)))
        else askStep env evs i e st
  else inheritStep env i e st

def routeFrom (evs : List DayEvent) (respectReply : Bool) : ℕ → List DayEvent → State → Except PyError State
  | _, [], st => .ok st
  | i, e :: rest, st => do
      let st' ← routeStep env evs respectReply i e st
      routeFrom evs respectReply (i + 1) rest st'

/-- `route_day`, with the last state of its loop. -/
def routeDay (evs : List DayEvent) (respectReply : Bool) (replies : List PyStr) : Except PyError State :=
  routeFrom env evs respectReply 0 evs (.start replies)

end AgentTrajectory.RouteDay
