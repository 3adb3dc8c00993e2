import AgentTrajectory.RuntimeLane
import AgentTrajectory.SessionCorrections

/-! `recheck_user_corrections_pool.py`: a model is asked for the instruction t0, the bot
error B and the correction C around a seed; its answer is repaired and then checked. The answer
and the seed record are JSON objects whose fields may be anything. -/
namespace AgentTrajectory.RecheckPool
open PyText PyDict PyJson PyValue PyRegex PathWalk RouteDay CorrectionCensus SessionCorrections RuntimeLane

abbrev Answer := Dict PyStr Json

variable {τ : Type} (env : RouteEnv)

def selfCorrection : Regex :=
  .oneOf [.texts ["你说得对", "你问到点", "你戳", "你骂得", "你提醒", "我上一条", "我刚才", "我之前",
    "我修的方向偏", "理解偏", "说错", "搞错", "错了", "确实", "收回", "纠正", "误标", "漏了",
    "认账", "掀翻", "方向正好反", "不成立", "逻辑上不成立"], .all [.lit (py "不是"), clause 18, .lit (py "而是")]]

/-- `没[^，。；\n]{0,18}过`. -/
def neverDone : Regex := .all [.lit (py "没"), clause 18, .lit (py "过")]

def strongCorrection : Regex :=
  .oneOf [.texts denials, .all [.lit (py "应该"), clause 24, .lit (py "不是")],
    .all [.lit (py "不是"), clause 24, .lit (py "吗")], .lit (py "它不是"),
    .all [.lit (py "本来"), clause 24, .lit (py "吧")], .lit (py "应该有"), .texts counterFacts,
    .texts ["很奇怪", "奇怪啊", "搞错"], neverDone]

def directCounter : Regex :=
  .oneOf [.texts denials, .texts ["实际上不", "实际不是", "实际并非", "实际没有", "实测", "反证", "推翻",
    "很奇怪", "奇怪啊", "搞错"], neverDone]

def questionChallenge : Regex :=
  .oneOf [.texts ["吗", "么", "？", "?", "为什么", "怎么会", "确定"],
    .all [.lit (py "不是"), clause 24, .lit (py "吗")], .lit (py "应该有")]

def queueNotice : Regex :=
  .seq .spaces (.oneOf [.texts ["🕒", "🧹", "⏳"],
    .all [.lit (py "🗜️"), .opt (.lit (py " ")), .lit (py "已")], .texts ["已入队", "已压缩"]])

inductive Role
  | user
  | bot
  | sys
  deriving DecidableEq

def Role.text : Role → PyStr
  | .user => py "user"
  | .bot => py "bot"
  | .sys => py "sys"

def isCard (text : PyStr) : Bool :=
  startswith (lstrip text) (py "\x7b\"") &&
    (contains (py "请升级至最新版本") text || contains (py "\"image_key\"") (text.take 160))

/-- `_role_of` of `build_gold_review_sheet.py`; the row that it asks about has a role and
twice the name. -/
def roleOf (e : Event τ) : Role :=
  if isPlaceholder env e.text then .sys
  else if isMatch env.env.isWord queueNotice e.text then .sys
  else if isCard e.text then .sys
  else if isBotRow ⟨e.msgId, e.role, some e.name, e.name, e.text, 0, e.parentId⟩ then .bot
  else .user

def isHumanEvent (e : Event τ) : Bool := roleOf env e == .user

def quoteNorm (text : PyStr) : PyStr :=
  dropSpaces ((TaskStitch.stripFeishu env.env text).filter fun c => !(py "*_`~").elem c)

def quotedIn (quote text : PyStr) : Bool := contains (quoteNorm env quote) (quoteNorm env text)

def positions (log : EventLog τ) : Dict PyStr ℕ := places (·.msgId) log.events

/-- `idx[e["msg_id"]]`. -/
def index (log : EventLog τ) (e : Event τ) : ℕ := (get? (positions log) e.msgId).getD 0

/-- The parents from here on that `_parent_chain_ids` appends. -/
def parentsFrom (byId : Dict PyStr (Event τ)) : ℕ → List PyStr → PyStr → List PyStr
  | 0, _, _ => []
  | n + 1, seen, cur =>
      match parentIn byId cur with
      | none => []
      | some p => if p ∈ seen then [] else p :: parentsFrom byId n (p :: seen) p

def parentChainIds (byId : Dict PyStr (Event τ)) (m : PyStr) : List PyStr := parentsFrom byId 16 [] m

/-- `_same_reply_line`, for messages of the log. -/
def sameReplyLine (log : EventLog τ) (a b : Event τ) : Bool :=
  rootOf log.byId a.msgId == rootOf log.byId b.msgId

def looksLikeCorrectionTrigger (e : Event τ) : Bool :=
  search env strongCorrection e.text || search env questionChallenge e.text

def looksLikeOriginalInstruction (e : Event τ) : Bool :=
  isHumanEvent env e && !looksLikeCorrectionTrigger env e && !search env summaryConfirm e.text &&
    !(strip (TaskStitch.stripFeishu env.env e.text)).isEmpty

structure Focus where
  corrector : PyStr
  repair : PyStr
  deriving DecidableEq

def triggerBefore (log : EventLog τ) (seedBid : Json) (ai : Option ℕ) (ci : ℕ) : Option (Event τ) :=
  let start := match ai with
    | some ai => if ai < ci then ai + 1 else ci - 12
    | none => ci - 12
  let humans := ((log.events.take ci).drop start).filter (isHumanEvent env)
  let strong := humans.filter fun e => search env strongCorrection e.text
  let replies := humans.filter fun e => seedBid.truthy && decide (Json.str e.parentId = seedBid)
  (strong.getLast?.or (replies.getLast?.or humans.getLast?)).filter fun p =>
    !(search env summaryConfirm p.text && !search env strongCorrection p.text)

/-- `_resolve_seed_focus`, for a seed that is in the log. -/
def resolveSeedFocus (log : EventLog τ) (seed : Event τ) (seedBid : Json) : Except PyError Focus :=
  if roleOf env seed ≠ .bot ∨ search env selfCorrection seed.text = false then .ok ⟨seed.msgId, []⟩
  else do
    let ai ← lookup (positions log) seedBid
    match triggerBefore env log seedBid ai (index log seed) with
    | some p => .ok ⟨p.msgId, seed.msgId⟩
    | none => .ok ⟨seed.msgId, []⟩

/-- `str(r.get("verdict", "")).upper() == "ACCEPT"`. -/
def accepts (r : Answer) : Bool :=
  match getNone r (py "verdict") with
  | .str s => lowerAscii s == py "accept"
  | _ => false

/-- `r.get(k) or ""`. -/
def idAt (r : Answer) (k : String) : Json := orEmpty (getNone r (py k)) (.str [])

/-- `_strip_feishu(r.get("bot_error_quote") or "").strip()`. -/
def quoteOf (r : Answer) : Except PyError PyStr :=
  match orEmpty (getNone r (py "bot_error_quote")) (.str []) with
  | .str s => .ok (strip (TaskStitch.stripFeishu env.env s))
  | _ => .error .typeError

/-- `(r.get("kind") or "").strip()`. -/
def kindOf (r : Answer) : Except PyError PyStr :=
  match orEmpty (getNone r (py "kind")) (.str []) with
  | .str s => .ok (strip s)
  | _ => .error .attributeError

def onLine (log : EventLog τ) (b c : Event τ) (kind : PyStr) : Bool :=
  c.parentId.isEmpty || kind != py "user_trigger" || search env directCounter c.text ||
    (parentChainIds log.byId c.msgId).elem b.msgId || sameReplyLine log c b

/-- The checks of `_validate_pick` on three messages of the log. -/
def checkPick (log : EventLog τ) (r : Answer) (t0 b c : Event τ) : Except PyError (Bool × PyStr) :=
  if roleOf env t0 ≠ .user then .ok (false, py "t0_is_" ++ (roleOf env t0).text)
  else if roleOf env b ≠ .bot then .ok (false, py "B_is_" ++ (roleOf env b).text)
  else if roleOf env c ≠ .user then .ok (false, py "C_is_" ++ (roleOf env c).text)
  else if ¬(index log t0 < index log b ∧ index log b < index log c) then .ok (false, py "bad_order")
  else do
    let quote ← quoteOf env r
    if (dropSpaces quote).length < 4 then .ok (false, py "quote_too_short")
    else if !quotedIn env quote b.text then .ok (false, py "quote_not_in_B")
    else do
      let kind ← kindOf r
      if onLine env log b c kind then .ok (true, []) else .ok (false, py "C_not_same_line_with_B")

def validatePick (log : EventLog τ) (r : Answer) : Except PyError (Bool × PyStr) :=
  if !accepts r then .ok (false, py "model_reject")
  else do
    let t0 ← lookup log.byId (idAt r "t0_msg_id")
    let b ← lookup log.byId (idAt r "bot_error_msg_id")
    let c ← lookup log.byId (idAt r "corrector_msg_id")
    match t0, b, c with
    | some t0, some b, some c => checkPick env log r t0 b c
    | _, _, _ =>
        let missing := [(t0, "t0"), (b, "B"), (c, "C")].filterMap fun p =>
          if p.1.isNone then some (py p.2) else none
        .ok (false, py "missing_" ++ join (py ",") missing)

def suspicious (t0 : Event τ) : Bool :=
  roleOf env t0 != .user || (looksLikeCorrectionTrigger env t0 && !t0.parentId.isEmpty)

def earlierInstruction (log : EventLog τ) (pos : ℕ) : Option (Event τ) :=
  (log.events.take pos).reverse.find? (looksLikeOriginalInstruction env)

def repairT0Pick (log : EventLog τ) (r : Answer) : Except PyError Answer :=
  if !accepts r then .ok r
  else do
    let t0 ← lookup log.byId (idAt r "t0_msg_id")
    match t0 with
    | none => .ok r
    | some t0 =>
        let b ← lookup log.byId (idAt r "bot_error_msg_id")
        match b with
        | none => .ok r
        | some b =>
            match if suspicious env t0 then earlierInstruction env log (index log b) else none with
            | none => .ok r
            | some e => .ok (update r [(py "t0_msg_id", .str e.msgId), (py "t0_repaired_from", .str t0.msgId)])

/-- The first bot message up the reply chain of C that lies between t0 and C and has the quote. -/
def parentWithQuote (log : EventLog τ) (t0 c : Event τ) (quote : PyStr) (chain : List PyStr) : Option (Event τ) :=
  (chain.filterMap (get? log.byId)).find? fun p => roleOf env p == .bot &&
    decide (index log t0 < index log p ∧ index log p < index log c) && quotedIn env quote p.text

/-- `_repair_parent_bot_error_pick`, for the messages that the answer names. -/
def repairParent (log : EventLog τ) (r : Answer) (t0 b c : Event τ) : Except PyError Answer := do
  let quote ← quoteOf env r
  let chain := parentChainIds log.byId c.msgId
  if quote = [] ∨ b.msgId ∈ chain then .ok r
  else match parentWithQuote env log t0 c quote chain with
    | none => .ok r
    | some p =>
        .ok (update r [(py "bot_error_msg_id", .str p.msgId), (py "bot_error_repaired_from", .str b.msgId)])

def repairParentBotErrorPick (log : EventLog τ) (r : Answer) : Except PyError Answer :=
  if !accepts r then .ok r
  else do
    let c ← lookup log.byId (idAt r "corrector_msg_id")
    match c with
    | none => .ok r
    | some c =>
        let b ← lookup log.byId (idAt r "bot_error_msg_id")
        match b with
        | none => .ok r
        | some b =>
            let t0 ← lookup log.byId (idAt r "t0_msg_id")
            match t0 with
            | none => .ok r
            | some t0 => repairParent env log r t0 b c

def lockCorrectorPick (r : Answer) (focus : PyStr) : Answer :=
  if !accepts r || focus.isEmpty || idAt r "corrector_msg_id" == .str focus then r
  else update r [(py "corrector_msg_id", .str focus), (py "corrector_repaired_from", idAt r "corrector_msg_id")]

def withAnchor (r : Answer) (a : Event τ) (quote : PyStr) : Answer :=
  let r' := if getNone r (py "bot_error_msg_id") = .str a.msgId then r
    else PyDict.set r (py "bot_error_repaired_from") (idAt r "bot_error_msg_id")
  update r' [(py "bot_error_msg_id", .str a.msgId), (py "bot_error_quote", .str quote)]

def repairKnownBotErrorPick (log : EventLog τ) (seedRaw r : Answer) : Except PyError Answer :=
  if !accepts r then .ok r
  else do
    let quote ← quoteOf env seedRaw
    let a ← lookup log.byId (idAt seedRaw "anchor_msg_id")
    match a with
    | none => .ok r
    | some a =>
        let c ← lookup log.byId (idAt r "corrector_msg_id")
        match c with
        | none => .ok r
        | some c =>
            if roleOf env a = .bot ∧ index log a < index log c ∧ quote ≠ [] ∧ quotedIn env quote a.text = true then
              .ok (withAnchor r a quote)
            else .ok r

def repairPick (log : EventLog τ) (seedRaw r : Answer) : Except PyError Answer := do
  let r ← repairParentBotErrorPick env log r
  let r ← repairKnownBotErrorPick env log seedRaw r
  repairT0Pick env log r

/-- What `_recheck_one` knows of a row before the model is asked: the seed message, its record
and the focus. -/
structure Seed (τ : Type) where
  event : Event τ
  raw : Answer
  focus : Focus
  deriving DecidableEq

/-- The seed of a row; `none` where its message is not in the log. -/
def seedOf (log : EventLog τ) (rawByC : Dict PyStr Answer) (row : Answer) : Except PyError (Option (Seed τ)) := do
  let found ← lookup rawByC (idAt row "corrector_msg_id")
  let raw := (found.filter fun d => !d.isEmpty).getD row
  let event ← lookup log.byId (idAt row "corrector_msg_id")
  match event with
  | none => .ok none
  | some event =>
      let focus ← resolveSeedFocus env log event (idAt raw "anchor_msg_id")
      .ok (some ⟨event, raw, focus⟩)

/-- `_recheck_one`; the model gives an answer or fails with a message. -/
def recheckOne (log : EventLog τ) (rawByC : Dict PyStr Answer) (row : Answer) (answer : Except PyStr Answer) :
    Except PyError Answer := do
  let seed ← seedOf env log rawByC row
  match seed, answer with
  | none, _ =>
      .ok (update row [(py "verdict", .str (py "REJECT")), (py "kind", .str (py "missing_seed")),
        (py "what", .str (py "seed corrector 不在事件流"))])
  | some _, .error message =>
      .ok (update row [(py "verdict", .str (py "ERROR")), (py "kind", .str (py "llm_error")),
        (py "what", .str (message.take 180))])
  | some seed, .ok answer =>
      let parsed ← repairPick env log seed.raw (lockCorrectorPick answer seed.focus.corrector)
      let (ok, reason) ← validatePick env log parsed
      .ok (update (ofPairs [(py "seed_corrector_msg_id", .str seed.event.msgId),
          (py "focus_corrector_msg_id", .str seed.focus.corrector), (py "repair_msg_id", .str seed.focus.repair),
          (py "sources", orEmpty (getNone row (py "sources")) (.arr [])),
          (py "seed_whats", orEmpty (getNone row (py "whats")) (.arr []))])
        (parsed ++ [(py "valid", .bool ok), (py "invalid_reason", .str reason)]))

end AgentTrajectory.RecheckPool
