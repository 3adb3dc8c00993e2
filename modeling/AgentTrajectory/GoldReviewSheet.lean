import AgentTrajectory.RecheckPool

/-! `build_gold_review_sheet.py`: the sheet on which people judge candidate corrections. A card
shows the conversation around the guessed messages, one numbered line a message. -/
namespace AgentTrajectory.GoldReviewSheet
open PyText PyDict PyJson PyRegex RouteDay RuntimeLane RecheckPool

/-- An event as the sheet reads it; the name may be missing. -/
structure SheetEvent where
  msgId : PyStr
  parentId : PyStr
  role : PyStr
  name : Option PyStr
  text : PyStr
  deriving DecidableEq

/-- A candidate: the guessed correction, bot error and instruction (an empty id where there is
none), the quoted error, what was wrong, and where the candidate comes from. -/
structure Card where
  cid : PyStr
  anchorMsgId : PyStr
  t0MsgId : PyStr
  botErrorQuote : PyStr
  whats : List PyStr
  srcs : List PyStr

/-- How much of the conversation a card shows. -/
structure Window where
  padBefore : ℕ
  padAfter : ℕ
  cap : ℕ

def defaultWindow : Window := ⟨3, 4, 56⟩

variable (env : RouteEnv)

def isSpaceOrTab (c : CodePoint) : Bool := c == cp ' ' || c == cp '\t'

/-- `[ \t]{2,}` to one space. -/
def squeezeBlanks (s : PyStr) :
    PyStr := sub env.env.isWord (.run isSpaceOrTab 2 none) (fun _ => py " ") s

def removeAll (t : String) (s : PyStr) : PyStr := sub env.env.isWord (.lit (py t)) (fun _ => []) s

def neutral (c : CodePoint) : CodePoint :=
  if c = cp '#' then cp '＃' else if c = cp '|' then cp '｜' else if c.val =
    96 then Fin.ofNat _ 39 else c

/-- `｜(?:[\s\-｜]*｜)+`: the class holds the bar, so one repetition takes all of them. -/
def tableRest : Regex :=
  .all [.lit (py "｜"), .run (fun c => isSpace c || c == cp '-' || c == cp '｜') 0 none,
    .lit (py "｜")]

/-- `_flat` before it is cut. -/
def flatText (text : PyStr) : PyStr :=
  let s := (TaskStitch.stripFeishu env.env text).filter (· != cp '\r')
  let s := sub env.env.isWord (.all [.spaces, .lit (py "\n"), .spaces]) (fun _ => py " ⏎ ") s
  let s := removeAll env "~~" (removeAll env "**" (squeezeBlanks env s))
  let s := sub env.env.isWord tableRest (fun _ => py " 〔表格略〕 ") (s.map neutral)
  strip (squeezeBlanks env s)

/-- A text of at most `n` characters, or its beginning and how much is missing. -/
def shorten (n : ℕ) (s : PyStr) : PyStr :=
  if s.length ≤ n then s else s.take n ++ py "…〔+" ++ natDigits (s.length - n) ++ py "字〕"

def flat (text : PyStr) (n : ℕ) : PyStr := shorten n (flatText env text)

/-- `_role_of`. -/
def sheetRole (e : SheetEvent) :
    Role := roleOf env (⟨e.msgId, e.parentId, e.role, e.name.getD [], e.text, ()⟩ : Event Unit)

def roleTag : Role → PyStr
  | .user => py "真人"
  | .bot => py "bot"
  | .sys => py "sys忽略"

def lineLabel (n : ℕ) : PyStr := py "L" ++ natDigits n

variable (evs : List SheetEvent)

/-- `idx`. -/
def placeOf : Dict PyStr (Fin evs.length) :=
  ofPairs ((List.finRange evs.length).map fun i => ((evs.get i).msgId, i))

/-- `_parent_chain_indices`. -/
def parentChain : ℕ → List PyStr → PyStr → List (Fin evs.length)
  | 0, _, _ => []
  | depth + 1, seen, cur =>
      match get? (placeOf evs) cur with
      | none => []
      | some j =>
          let pid := (evs.get j).parentId
          if pid = [] ∨ pid ∈ seen then []
          else match get? (placeOf evs) pid with
            | none => []
            | some p => p :: parentChain depth (pid :: seen) pid

def sortPlaces {n : ℕ} (ps : List (Fin n)) : List (Fin n) := ps.dedup.insertionSort (· ≤ ·)

def guessedPlaces (card : Card) : List (Fin evs.length) :=
  sortPlaces ([card.t0MsgId, card.anchorMsgId, card.cid].filterMap fun a =>
    if a = [] then none else get? (placeOf evs) a)

def windowPlaces (w : Window) (card : Card) : List (Fin evs.length) :=
  match (guessedPlaces evs card).head?, (guessedPlaces evs card).getLast? with
  | some first, some last =>
      let base := (List.finRange evs.length).filter fun i =>
        first.val - w.padBefore ≤ i.val ∧ i.val ≤ last.val + w.padAfter
      sortPlaces (base ++ base.flatMap fun j => parentChain evs 12 [] (evs.get j).msgId)
  | _, _ => []

def isTruncated (w : Window) (card : Card) : Bool := w.cap < (windowPlaces evs w card).length

/-- The places whose messages the card shows, in order: line `k` shows the `k`-th. -/
def shownPlaces (w : Window) (card : Card) : List (Fin evs.length) :=
  let ordered := windowPlaces evs w card
  if isTruncated evs w card then
    let keep := ordered.take (w.cap / 2)
    sortPlaces (keep ++ ordered.rtake (max 1 (w.cap - keep.length)))
  else ordered

def marks (card : Card) (mid : PyStr) : List PyStr :=
  (if mid ≠ [] ∧ mid = card.t0MsgId then [py "«猜t0?»"] else []) ++
    (if mid ≠ [] ∧ mid = card.anchorMsgId then [py "«猜B?»"] else []) ++
      if mid ≠ [] ∧ mid = card.cid then [py "«猜C?»"] else []

def labelOf (places : List (Fin evs.length)) : Dict PyStr PyStr :=
  ofPairs (places.zipIdx.map fun p => ((evs.get p.1).msgId, lineLabel (p.2 + 1)))

def shownText (card : Card) (e : SheetEvent) : PyStr :=
  flat env e.text (if marks card e.msgId ≠ [] ∨ sheetRole env e = .user then 140 else 60)

def lineRest (card : Card) (labels : Dict PyStr PyStr) (e : SheetEvent) : PyStr :=
  (if marks card e.msgId = [] then [] else py " " ++ join (py " ") (marks card e.msgId)) ++
    (if e.parentId = [] then [] else py "　↩" ++ (get? labels e.parentId).getD (py "(更早)")) ++
      py "　" ++ shownText env card e

def messageLine (card : Card) (labels : Dict PyStr PyStr) (n : ℕ) (e : SheetEvent) : PyStr :=
  py "- " ++ (if sheetRole env e = .user then py "**" ++ lineLabel n ++ py "**" else lineLabel n) ++
    py " 〔" ++
    roleTag (sheetRole env e) ++ py "·" ++ e.name.getD (py "None") ++ py "〕" ++
      lineRest env card labels e

def gapLine (prev : Option ℕ) (j : ℕ) : List PyStr :=
  match prev with
  | some i => if i + 1 < j then [py "- 　⋯（省略中间 " ++ natDigits (j - i - 1) ++ py " 条非回复链消息）⋯"] else
    []
  | none => []

def transcriptFrom (card : Card) (labels : Dict PyStr PyStr) :
    Option ℕ → ℕ → List (Fin evs.length) → List PyStr
  | _, _, [] => []
  | prev, n, j :: js =>
      gapLine prev j.val ++ messageLine env card labels n (evs.get j) ::
        transcriptFrom card labels (some j.val) (n + 1) js

def transcript (w : Window) (card : Card) : List PyStr :=
  let places := shownPlaces evs w card
  transcriptFrom env evs card (labelOf evs places) none 1 places ++
    if isTruncated evs w card then
      [py "- 　⋯（窗口超 " ++ natDigits w.cap ++ py " 条已截断，越界的猜测见卡尾反查）⋯"] else []

def offTranscript (w : Window) (card : Card) : List PyStr :=
  let shown := (shownPlaces evs w card).map fun j => (evs.get j).msgId
  ([(py "t0", card.t0MsgId), (py "B", card.anchorMsgId), (py "C", card.cid)].filter fun p =>
    p.2 ≠ [] ∧ p.2 ∉ shown).map fun p => p.1 ++ py "猜 " ++ p.2

def cardHeading (k : ℕ) (card : Card) :
    PyStr := py "## #" ++ natDigits k ++ py "　来源:" ++ join (py "+") card.srcs

def guessLine (card : Card) : PyStr :=
  py "- 机器猜(可能错)：" ++
    (if card.botErrorQuote = [] then [] else py "B?错句「" ++
      flat env card.botErrorQuote 90 ++ py "」；") ++
      py "what=" ++ flat env (join (py "; ") card.whats) 160

def cardTail : List PyStr :=
  [py "**你填**：判定=☐合格 ☐不合格(判据#__)　｜　真t0=L__　真B=L__　真C=L__", py "\n---\n"]

def cardBody (w : Window) (card : Card) : List PyStr :=
  [guessLine env card, []] ++
    (if transcript env evs w card = [] then [py "- ❓三条猜测都没落进事件流，需 msg_id 反查"] else
      transcript env evs w card) ++
      [[]] ++
        (if offTranscript evs w card = [] then []
          else [py "越界猜测反查：" ++ join (py "　") (offTranscript evs w card), []]) ++ cardTail

def preamble : List PyStr :=
  [py "# 金标人工核对台 · 试点批（对话流指认版）", [],
    py "**怎么标**：每卡是一段编号对话流。只有〔真人〕行可能是纠正 C，〔bot〕〔sys忽略〕都不能当 C。",
    py "`«猜t0?/猜B?/猜C?»` 是管线的猜测，**大概率锚错、别被带跑**——你按对话自己指认 L 行号。",
    py "`↩L?` 是这条引用回复了哪一行（判据3 按回复链找纠正就看它）。", [],
    py "每卡填卡尾：判定 + 真t0/真B/真C 各是第几行(L?)；真 C 只能选〔真人〕行，无合格真 C → 不合格。", [],
    py "判据速记：①B是bot一句具体错话 ②B非回执/系统提示 ③纠正须真人触发(直接点破/贴反证/质疑触发返工且返工改的错与质疑同线) " ++
      py "④确推翻B非新问题/追问 ⑤需求变更不算 ⑥单侧回溯补齐 ⑦同t0多纠合并。", []]

def render (w : Window) (cards : List Card) : PyStr :=
  join (py "\n") (preamble ++ cards.zipIdx.flatMap fun c =>
    cardHeading (c.2 + 1) c.1 :: cardBody env evs w c.1)

end AgentTrajectory.GoldReviewSheet
