import AgentTrajectory.RouteDay

/-! `correction_census.py`: the checks that an event of the model must pass to count as a
correction. An event is the JSON object that the model wrote; its fields may be anything. -/
namespace AgentTrajectory.CorrectionCensus
open PyText PyDict PyJson PyValue PyRegex RouteDay

/-- A message of the session as the checks see it. -/
structure Row where
  msgId : PyStr
  role : PyStr
  who : Option PyStr
  name : PyStr
  text : PyStr
  ts : ℤ
  parentId : PyStr
  deriving DecidableEq

abbrev Correction := Dict PyStr Json

variable (env : RouteEnv)

def search (r : Regex) (s : PyStr) : Bool := found env.env.isWord r s

/-- `[^，。；\n]{0,hi}`. -/
def clause (hi : ℕ) : Regex := .run (fun c => !(py "，。；\n").elem c) 0 (some hi)

/-- `.{0,hi}`. -/
def anything (hi : ℕ) : Regex := .run (· != cp '\n') 0 (some hi)

/-- `PLACEHOLDER.match`. -/
def isPlaceholder (text : PyStr) : Bool :=
  isMatch env.env.isWord (.seq .spaces (.texts ["👀", "🗑️", "🗜️", "🔖", "✅ 已", "⚠️ 本群会话", "已收到", "已撤回",
    "正在压缩", "请升级至最新版本"])) text

def demandChange : Regex :=
  let runOrDo : Regex := .one (py "跑做").elem
  let doOrMind : Regex := .one (py "做管").elem
  .oneOf [.texts ["我改主意", "改主意了", "现在聚焦", "重新聚焦", "换个方向", "改成"],
    .seq (.lit (py "先不")) doOrMind, .seq (.lit (py "暂时不")) doOrMind, .seq (.lit (py "那就不")) runOrDo,
    .all [.lit (py "不"), runOrDo, clause 30, .lit (py "了")], .seq (.lit (py "只看")) (clause 40),
    .all [.lit (py "拆成"), clause 20, .lit (py "独立任务")], .lit (py "独立任务"),
    .all [.lit (py "对于以下"), clause 30, .texts ["情况", "case"], clause 30, .lit (py "怎么考虑")]]

def denials : List String := ["不对", "不是这个", "不是这样", "错了", "搞反", "理解偏", "你说错", "你搞错"]

def counterFacts : List String := ["实际上不", "实际不是", "实际并非", "实际没有", "实际显示", "实测", "反证", "推翻"]

def strongCorrection : Regex :=
  .oneOf [.texts denials, .all [.lit (py "应该"), clause 24, .lit (py "不是")],
    .all [.lit (py "不是"), clause 24, .lit (py "吗")], .lit (py "它不是"), .texts counterFacts]

def demandChangeOverride : Regex := .texts (denials ++ counterFacts)

def troubleshootingRequest : Regex :=
  .all [.opt (.texts ["先", "再", "麻烦", "帮忙", "请"]), anything 12,
    .texts ["查", "跑", "试", "执行", "贴", "发", "看", "确认", "验证"], anything 24,
    .texts ["输出", "日志", "结果", "状态", "端口", "报错", "连接", "命令", "截图", "返回", "贴回来", "卡在哪"]]

def troubleshootingFeedback : Regex :=
  .oneOf (["拒绝连接", "connection refused", "timed out", "timeout", "端口", "没起来", "起不来", "还是不行", "报错",
    "error", "traceback", "日志", "输出", "结果", "状态", "curl", "ss ", "ps ", "grep", "npm ", "python ",
    "bash"].map .litAnyCase)

def isBotRow (r : Row) : Bool :=
  [py "bot", py "assistant"].elem (lowerAscii r.role) ||
    [py "bot", py "lian-", py "zym", py "codex", py "antigravity", py "claude("].any fun k =>
      contains k (r.who.getD [] ++ r.name)

/-- `by_id.get(v)`; the last row of an id stands for it. -/
def lookup {α : Type} (d : Dict PyStr α) : Json → Except PyError (Option α)
  | .str s => .ok (get? d s)
  | .arr _ => .error .typeError
  | .obj _ => .error .typeError
  | _ => .ok none

def byId (rows : List Row) : Dict PyStr Row := ofPairs (rows.map fun r => (r.msgId, r))

def positions (rows : List Row) : Dict PyStr ℕ := places (·.msgId) rows

def anchorId (e : Correction) : Json := getNone e (py "anchor_msg_id")
def correctorId (e : Correction) : Json := getNone e (py "corrector_msg_id")

/-- `_norm(e.get("bot_error_quote") or "")`. -/
def normQuote (e : Correction) : Except PyError PyStr :=
  match orEmpty (getNone e (py "bot_error_quote")) (.str []) with
  | .str s => .ok (dropSpaces s)
  | _ => .error .typeError

/-- `_is_demand_change_without_correction`. -/
def isDemandChange (text : PyStr) : Bool :=
  search env demandChange text && !search env demandChangeOverride text

/-- `_is_troubleshooting_feedback_without_correction`, for the corrector `c`. -/
def isTroubleshooting (rows : List Row) (e : Correction) (c : Row) : Except PyError Bool := do
  if search env strongCorrection c.text || !search env troubleshootingFeedback c.text then .ok false
  else
    let ai ← lookup (positions rows) (anchorId e)
    let ci ← lookup (positions rows) (correctorId e)
    match ai, ci with
    | some ai, some ci =>
        if ci ≤ ai then .ok false
        else
          let prior := ((rows.take ci).drop (max ai (ci - 4))).filter isBotRow
          .ok (search env troubleshootingRequest (join (py "\n") (prior.map (·.text))))
    | _, _ => .ok false

def author (r : Row) : PyStr := r.role ++ py "/" ++ r.who.getD (py "None")

/-- What `validate_events` finds wrong with the corrector. -/
def correctorFault (rows : List Row) (e : Correction) (a c : Row) : Except PyError (Option PyStr) :=
  if orEmpty (getNone e (py "corrector_role")) (.str (py "user")) ≠ .str (py "user") then
    .ok (some (py "corrector_role非user(" ++ env.str (getNone e (py "corrector_role")) ++ py ")"))
  else if isPlaceholder env c.text then .ok (some (py "corrector是占位/系统回执"))
  else if isBotRow c then .ok (some (py "corrector作者非真人(" ++ author c ++ py ")"))
  else if isDemandChange env c.text then .ok (some (py "corrector是需求变更/方向重定向"))
  else do
    let feedback ← isTroubleshooting env rows e c
    if feedback then .ok (some (py "corrector是排障信息回填"))
    else if c.ts ≤ a.ts then .ok (some (py "corrector不晚于anchor(bot答在后=非纠错)"))
    else .ok none

/-- What `validate_events` finds wrong with an event; `none` keeps it. -/
def fault (rows : List Row) (e : Correction) : Except PyError (Option PyStr) := do
  let a ← lookup (byId rows) (anchorId e)
  let c ← lookup (byId rows) (correctorId e)
  match a with
  | none => .ok (some (py "anchor不在消息集"))
  | some a =>
      if !isBotRow a then .ok (some (py "anchor作者非bot(" ++ author a ++ py ")"))
      else if isPlaceholder env a.text then .ok (some (py "anchor是占位/系统回执"))
      else do
        let q ← normQuote e
        if q.length < 4 then .ok (some (py "bot_error_quote空/过短"))
        else if !contains q (dropSpaces a.text) then .ok (some (py "bot_error_quote不在anchor原文(脑补)"))
        else match c with
          | none => .ok (some (py "corrector_msg_id缺失/不在消息集"))
          | some c => correctorFault env rows e a c

/-- `validate_events`: the events kept, and those dropped with the reason. -/
def validateEvents (rows : List Row) : List Correction → Except PyError (List Correction × List Correction)
  | [] => .ok ([], [])
  | e :: es => do
      let reason ← fault env rows e
      let (kept, dropped) ← validateEvents rows es
      match reason with
      | none => .ok (e :: kept, dropped)
      | some r => .ok (kept, set e (py "_drop") (.str r) :: dropped)

end AgentTrajectory.CorrectionCensus
