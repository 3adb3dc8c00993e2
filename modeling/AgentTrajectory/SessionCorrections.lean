import AgentTrajectory.CorrectionCensus

/-! `session_corrections.py`: corrections are looked for session by session. The guard puts
the anchor and the corrector of an event where they belong and drops what fails the checks;
`run` keeps the route and what it has detected in two files and goes on from them. -/
namespace AgentTrajectory.SessionCorrections
open PyText PyDict PyJson PyValue PyRegex TaskStitch RouteDay CorrectionCensus

variable (env : RouteEnv)

/-- `_rows_of`. -/
def rowOf (e : DayEvent) : Row where
  msgId := e.msgId
  role := roleName e.role
  who := if e.name = [] then none else some e.name
  name := e.name
  text := e.text
  ts := e.ts
  parentId := e.parentId

def rowsOf (evs : List DayEvent) : List Row := evs.map rowOf

/-- The bot rows that contain the quote. -/
def quoteMatches (rows : List Row) (q : PyStr) : List Row :=
  (rows.filter isBotRow).filter fun r => contains q (dropSpaces r.text)

/-- `max(rows, key=ts)`: the first of the latest rows. -/
def latest : List Row → Option Row
  | [] => none
  | r :: rs =>
      match latest rs with
      | some s => some (if r.ts < s.ts then s else r)
      | none => some r

def latestMatch (hits : List Row) (c : Option Row) : Option Row :=
  let earlier := hits.filter fun r => c.any fun c => decide (r.ts < c.ts)
  if earlier = [] then latest hits else latest earlier

/-- The row that `_resolve_anchor` makes the anchor; `none` leaves the event alone. -/
def anchorPick (rows : List Row) (e : Correction) : Except PyError (Option Row) := do
  let q ← normQuote e
  let hits := quoteMatches rows q
  if q.length < 4 || hits.isEmpty then .ok none
  else do
    let c ← lookup (byId rows) (correctorId e)
    .ok (latestMatch hits c)

def moved (src : Json) (dest : PyStr) : Json := .obj [(py "from", src), (py "to", .str dest)]

/-- `_resolve_anchor` on one event. -/
def resolveAnchor (rows : List Row) (e : Correction) : Except PyError Correction := do
  let pick ← anchorPick rows e
  match pick with
  | none => .ok e
  | some p =>
      if anchorId e = .str p.msgId then .ok e
      else .ok (set (set e (py "_reanchored") (moved (anchorId e) p.msgId)) (py "anchor_msg_id") (.str p.msgId))

def selfCorrection : Regex :=
  .oneOf [.texts ["你说得对", "你问到点", "你戳", "你骂得", "你提醒", "我上一条", "我刚才", "我之前",
    "我修的方向偏", "理解偏", "说错", "搞错", "错了", "确实", "收回", "纠正", "误标", "漏了",
    "坦白", "承认", "打脸", "不成立", "逻辑上不成立"], .all [.lit (py "不是"), clause 18, .lit (py "而是")]]

def summaryConfirm : Regex :=
  .texts ["我梳理一下", "我理解", "可以理解为", "我认这个理由", "你先做一版", "开始做吧"]

def isHumanRow (r : Row) : Bool := !isPlaceholder env r.text && !isBotRow r

/-- The human message between the anchor and the bot's own admission: the last reply to the
anchor, or the last of all. -/
def triggerOf (rows : List Row) (aid : Json) (ai ci : ℕ) : Option Row :=
  let humans := ((rows.take ci).drop (ai + 1)).filter (isHumanRow env)
  ((humans.filter fun r => decide (Json.str r.parentId = aid)).getLast?.or humans.getLast?).filter fun p =>
    !(search env summaryConfirm p.text && !search env strongCorrection p.text)

/-- The row that `_resolve_corrector` makes the corrector; `none` leaves the event alone. -/
def correctorPick (rows : List Row) (e : Correction) : Except PyError (Option Row) := do
  let c ← lookup (byId rows) (correctorId e)
  match c with
  | none => .ok none
  | some c =>
      if isHumanRow env c || !search env selfCorrection c.text then .ok none
      else do
        let ai ← lookup (positions rows) (anchorId e)
        let ci ← lookup (positions rows) (correctorId e)
        match ai, ci with
        | some ai, some ci => .ok (if ci ≤ ai then none else triggerOf env rows (anchorId e) ai ci)
        | _, _ => .ok none

def correctorName (e : Correction) (p : Row) : Json :=
  if p.name ≠ [] then .str p.name
  else match p.who with
    | some (c :: w) => .str (c :: w)
    | _ => (get? e (py "corrector")).getD (.str [])

/-- `_resolve_corrector` on one event. -/
def resolveCorrector (rows : List Row) (e : Correction) : Except PyError Correction := do
  let pick ← correctorPick env rows e
  match pick with
  | none => .ok e
  | some p =>
      .ok (update e [(py "_corrector_reanchored", moved (correctorId e) p.msgId),
        (py "_self_correction_msg_id", correctorId e), (py "corrector_msg_id", .str p.msgId),
        (py "corrector", correctorName e p), (py "corrector_role", .str (py "user"))])

/-- `_guard`: the events kept, and those dropped with the reason. -/
def guard (rows : List Row) (events : List Correction) :
    Except PyError (List Correction × List Correction) := do
  let events ← events.mapM (resolveAnchor rows)
  let events ← events.mapM (resolveCorrector env rows)
  validateEvents env rows events

/-- The key under which `_session` files a row. `run` writes integers, so a float is not
compared with one here. -/
def sessionKey : Json → Except PyError Json
  | .arr _ => .error .typeError
  | .obj _ => .error .typeError
  | .bool b => .ok (.int (if b then 1 else 0))
  | v => .ok v

/-- A row that stands for a session without corrections. -/
def isSentinel (r : Correction) : Bool := (getNone r (py "_empty")).truthy

def groupCached : List Correction → Dict Json (List Correction) → List Correction →
    Except PyError (Dict Json (List Correction) × List Correction)
  | [], d, dropped => .ok (d, dropped)
  | r :: rs, d, dropped =>
      if isSentinel r then groupCached rs d dropped
      else if getNone r (py "_session") = .null then
        groupCached rs d (dropped ++ [set r (py "_drop") (.str (py "cached row missing _session"))])
      else do
        let key ← sessionKey (getNone r (py "_session"))
        groupCached rs (extendAt d key [r]) dropped

def sessionOf (bySess : Dict ℕ (List DayEvent)) : Json → Option (List DayEvent)
  | .int n => if 0 ≤ n then get? bySess n.toNat else none
  | _ => none

/-- The second loop of `_reguard_cached_rows`. -/
def reguardGroups (bySess : Dict ℕ (List DayEvent)) :
    Dict Json (List Correction) → Except PyError (List Correction × List Correction)
  | [] => .ok ([], [])
  | (key, rows) :: d => do
      let (kept, dropped) ←
        match sessionOf bySess key with
        | some (e :: evs) => guard env (rowsOf (e :: evs)) rows
        | _ => .ok ([], rows.map fun r => set r (py "_drop") (.str (py "cached session missing")))
      let (kept', dropped') ← reguardGroups bySess d
      .ok (kept ++ kept', dropped ++ dropped')

/-- `_reguard_cached_rows`: the rows kept, and those dropped with the reason. -/
def reguardCachedRows (bySess : Dict ℕ (List DayEvent)) (rows : List Correction) :
    Except PyError (List Correction × List Correction) := do
  let (groups, dropped) ← groupCached rows [] []
  let (kept, dropped') ← reguardGroups env bySess groups
  .ok (kept, dropped ++ dropped')

def renderSession (evs : List DayEvent) : PyStr :=
  join (py "\n") (evs.map fun e =>
    py "[" ++ e.msgId ++ py "] " ++ roleName e.role ++ py "/" ++
      (if e.name = [] then roleName e.role else e.name).take 10 ++ py ": " ++ stripFeishu env.env e.text)

/-- `s.strip(c)`. -/
def stripChar (c : CodePoint) (s : PyStr) : PyStr := (s.dropWhile (· == c)).rdropWhile (· == c)

def lineObject (line : PyStr) : Option Json :=
  let line := stripChar 0x60 (strip line)
  let braces : Regex := .all [.one (· == cp '{'), .run (· != cp '\n') 0 none, .one (· == cp '}')]
  if startswith line [cp '{'] then loads line else (searchText env.env.isWord braces line).bind loads

def parseJsonl (raw : PyStr) : List Json := (splitlines raw).filterMap (lineObject env)

/-- The events of a reply of `_detect_convo` that name a message and say what was wrong. -/
def keepNamed (validIds : List PyStr) : List Json → Except PyError (List Correction)
  | [] => .ok []
  | v :: vs => do
      let e ← asDict v
      let named ← lookup (validIds.map fun i => (i, ())) (anchorId e)
      let rest ← keepNamed validIds vs
      .ok (if named.isSome && (getNone e (py "what")).truthy then e :: rest else rest)

/-- `_detect_convo`, given what the model answered. -/
def detectConvo (validIds : List PyStr) (answer : Except PyError PyStr) : Except PyError (List Correction) := do
  let raw ← answer
  keepNamed validIds (parseJsonl env raw)

def overlapMsgs : ℕ := 8

def textChars (e : DayEvent) : ℕ := (stripFeishu env.env e.text).length

/-- The loop of `_windows`. -/
def windowsFrom (maxChars : ℕ) (wins : List (List DayEvent)) (cur : List DayEvent) (curChars : ℕ) :
    List DayEvent → List (List DayEvent)
  | [] => if cur = [] then wins else wins ++ [cur]
  | e :: rest =>
      let c := textChars env e
      if cur ≠ [] ∧ maxChars < curChars + c then
        let tail := cur.drop (cur.length - overlapMsgs)
        windowsFrom maxChars (wins ++ [cur]) (tail ++ [e]) ((tail.map (textChars env)).sum + c) rest
      else windowsFrom maxChars wins (cur ++ [e]) (curChars + c) rest

def windows (maxChars : ℕ) (evs : List DayEvent) : List (List DayEvent) := windowsFrom env maxChars [] [] 0 evs

/-- The first event of each anchor; `seen` holds the anchors so far. -/
def firstPerAnchor (seen : List Json) : List Correction → List Correction × List Json
  | [] => ([], seen)
  | e :: es =>
      if (anchorId e).truthy && !seen.elem (anchorId e) then
        let (rest, seen') := firstPerAnchor (anchorId e :: seen) es
        (e :: rest, seen')
      else firstPerAnchor seen es

abbrev Answers := List (Except PyError PyStr)

def nextAnswer : Answers → Except PyError PyStr × Answers
  | [] => (.error .indexError, [])
  | a :: rest => (a, rest)

def detectWindows (rows : List Row) (validIds : List PyStr) (seen : List Json) (out : List Correction) :
    List (List DayEvent) → Answers → Except PyError (List Correction) × Answers
  | [], answers => (.ok out, answers)
  | _ :: ws, answers =>
      let (answer, rest) := nextAnswer answers
      match detectConvo env validIds answer >>= fun es => es.mapM (resolveAnchor rows) with
      | .error err => (.error err, rest)
      | .ok es =>
          let (fresh, seen') := firstPerAnchor seen es
          detectWindows rows validIds seen' (out ++ fresh) ws rest

def detectSession (maxChars : ℕ) (evs : List DayEvent) (answers : Answers) :
    Except PyError (List Correction) × Answers :=
  let convo := renderSession env evs
  let validIds := evs.map (·.msgId)
  let rows := rowsOf evs
  let guarded (found : Except PyError (List Correction)) : Except PyError (List Correction) :=
    found >>= fun es => (guard env rows es).map Prod.fst
  if convo.length < 40 then (.ok [], answers)
  else if convo.length ≤ maxChars then
    let (answer, rest) := nextAnswer answers
    (guarded (detectConvo env validIds answer), rest)
  else
    let (found, rest) := detectWindows env rows validIds [] [] (windows env maxChars evs) answers
    (guarded found, rest)

structure Store where
  route : Option RouteDay.State
  cache : List Correction

/-- What an execution finds: the events it loads, and the model's answers on the route and on
the sessions. -/
structure Input where
  evs : List DayEvent
  replies : List PyStr
  answers : Answers

def coveredTo (assign : Dict ℕ ℕ) : ℕ := (keys assign).foldr (fun k m => max (k + 1) m) 0

def buildRoute (cached : Option RouteDay.State) (evs : List DayEvent) (replies : List PyStr) :
    Except PyError RouteDay.State :=
  match cached with
  | some route => if evs.length ≤ coveredTo route.assign then .ok route else routeDay env evs true replies
  | none => routeDay env evs true replies

def addToSession (assign : Dict ℕ ℕ) (d : Dict ℕ (List DayEvent)) (p : DayEvent × ℕ) : Dict ℕ (List DayEvent) :=
  match get? assign p.2 with
  | some sid => extendAt d sid [p.1]
  | none => d

/-- `by_sess`. -/
def groupBySession (assign : Dict ℕ ℕ) (evs : List DayEvent) : Dict ℕ (List DayEvent) :=
  evs.zipIdx.foldl (addToSession assign) []

def sessionsInOrder (bySess : Dict ℕ (List DayEvent)) : List (ℕ × List DayEvent) :=
  ((keys bySess).insertionSort (· ≤ ·)).map fun sid => (sid, (get? bySess sid).getD [])

def doneSessions (cache : List Correction) : Except PyError (List Json) :=
  cache.mapM fun r => getItem r (py "_session") >>= sessionKey

def sentinel (sid : ℕ) : Correction := [(py "_session", .int sid), (py "_empty", .bool true)]

def tagged (sid : ℕ) (e : Correction) : Correction := set e (py "_session") (.int sid)

def writable (r : Correction) : Bool := (encodeUtf8 (Json.obj r).dumps).isSome

/-- What an execution did: the files it leaves, the calls of `detect_session` with their
messages, and its rows or the exception that ended it. -/
structure Outcome where
  store : Store
  calls : List (ℕ × List DayEvent)
  result : Except PyError (List Correction)

def Outcome.called (sid : ℕ) (evs : List DayEvent) (o : Outcome) :
    Outcome := { o with calls := (sid, evs) :: o.calls }

/-- The detection loop; `rows` are the rows so far. -/
def detectLoop (maxChars : ℕ) (done : List Json) :
    List (ℕ × List DayEvent) → Answers → Store → List Correction → Outcome
  | [], _, store, rows => ⟨store, [], .ok rows⟩
  | (sid, evs) :: rest, answers, store, rows =>
      if done.elem (.int sid) then detectLoop maxChars done rest answers store rows
      else
        let (found, answers) := detectSession env maxChars evs answers
        Outcome.called sid evs <|
          match found with
          | .error _ => detectLoop maxChars done rest answers store rows
          | .ok [] => detectLoop maxChars done rest answers ⟨store.route, store.cache ++ [sentinel sid]⟩ rows
          | .ok (e :: es) =>
              let new := (e :: es).map (tagged sid)
              let written := new.takeWhile writable
              if written = new then
                detectLoop maxChars done rest answers ⟨store.route, store.cache ++ new⟩ (rows ++ new)
              else ⟨⟨store.route, store.cache ++ written⟩, [], .error .unicodeEncodeError⟩

/-- `run`, up to the end of the detection. -/
def run (maxChars : ℕ) (store : Store) (x : Input) : Outcome :=
  match buildRoute env store.route x.evs x.replies with
  | .error err => ⟨store, [], .error err⟩
  | .ok route =>
      let bySess := groupBySession route.assign x.evs
      let resumed := do
        let done ← doneSessions store.cache
        let rows ← reguardCachedRows env bySess store.cache
        .ok (done, rows.1)
      match resumed with
      | .error err => ⟨⟨some route, store.cache⟩, [], .error err⟩
      | .ok (done, rows) =>
          detectLoop env maxChars done (sessionsInOrder bySess) x.answers ⟨some route, store.cache⟩ rows

end AgentTrajectory.SessionCorrections
