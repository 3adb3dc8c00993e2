import AgentTrajectory.PyText
import AgentTrajectory.PyDict
import AgentTrajectory.UnionFind

/-! `task_stitch.py`: the text predicates, `atomic_segments` and `compute_terminal`.
Timestamps are whole milliseconds, as the exporter delivers them. The character classes
of `re` and the similarity model are parameters. -/
namespace AgentTrajectory.TaskStitch
open PyText PyDict

inductive Role
  | user
  | bot
  deriving DecidableEq

/-- An event of `fetch_history`, with the fields the segmentation reads. -/
structure Event where
  ts : ℤ
  role : Role
  msgId : PyStr
  parentId : PyStr
  text : PyStr
  deriving DecidableEq

structure Segment where
  topic : PyStr
  rows : List Event

/-- What lies outside the scripts: `\w` and `\d` of the `re` module, and whether the
similarity of a reply to a segment reaches the floor (`none` where the model gives none). -/
structure Env where
  isWord : CodePoint → Bool
  decimal : CodePoint → Option ℕ
  sim : Option (Event → Segment → Option Bool)

def Env.isDecimal (env : Env) (c : CodePoint) : Bool := (env.decimal c).isSome

/-- ASCII character classes and no similarity model. -/
def asciiEnv : Env where
  isWord c := (48 ≤ c.val && c.val ≤ 57) || c == cp '_' ||
    (65 ≤ c.val && c.val ≤ 90) || (97 ≤ c.val && c.val ≤ 122)
  decimal c := if 48 ≤ c.val ∧ c.val ≤ 57 then some (c.val - 48) else none
  sim := none

def ask : Event := ⟨1000000, .user, py "m1", [], py "deploy the service"⟩
def reply : Event := ⟨1005000, .bot, py "m2", py "m1", py "deployed"⟩
def nextAsk : Event := ⟨9000000, .user, py "m3", [], py "write the report"⟩

def noiseStarts : List PyStr :=
  [py "👀", py "🗑️", py "https://", py "⚠️ 本群会话上下文", py "🧹 上下文已触发压缩",
    py "\x7b\"title\"", py "\x7b\"config\"", py "\x7b\"elements\"", py "📊", py "✅ 已",
    py "🕒 已入队", py "⚡ 已把"]

def isNoise (text : PyStr) : Bool :=
  let t := strip text
  t.isEmpty || noiseStarts.any (startswith t) || contains (py "this message was recalled") (lowerAscii t)

/-- `_topic_of`: the label in front of a text. -/
def topicOf (text : PyStr) : PyStr :=
  match lstrip text with
  | [] => []
  | c :: r =>
      let body := r.takeWhile (· != cp '〕')
      if c = cp '〔' ∧ 1 ≤ body.length ∧ body.length ≤ 12 ∧ body.length < r.length then
        if body = py "闲聊" then [] else body
      else []

/-- `re.sub(p, "", s)` for a pattern given by the rest it leaves after a match. -/
def subAll (m : PyStr → Option PyStr) : ℕ → PyStr → PyStr
  | 0, s => s
  | _ + 1, [] => []
  | n + 1, c :: s =>
      match m (c :: s) with
      | some r => subAll m n r
      | none => c :: subAll m n s

/-- `.*?</at>`. -/
def afterAtClose : PyStr → Option PyStr
  | [] => none
  | c :: s =>
      if startswith (c :: s) (py "</at>") then some (s.drop 4)
      else if c = cp '\n' then none
      else afterAtClose s

/-- `<at\b[^>]*>.*?</at>`. -/
def matchAtTag (isWord : CodePoint → Bool) (s : PyStr) : Option PyStr :=
  if startswith s (py "<at") && !((s.drop 3).head?.any isWord) then
    match (s.drop 3).dropWhile (· != cp '>') with
    | [] => none
    | _ :: body => afterAtClose body
  else none

/-- `^\s*〔[^〕]*〕\s*`. -/
def dropLabel (s : PyStr) : PyStr :=
  match lstrip s with
  | [] => s
  | c :: r =>
      if c = cp '〔' then
        match r.dropWhile (· != cp '〕') with
        | [] => s
        | _ :: r' => lstrip r'
      else s

def isMentionChar (c : CodePoint) : Bool := !isSpace c && !(py "，。:：").elem c

/-- `@[^\s，。:：]+\s*`. -/
def matchMention : PyStr → Option PyStr
  | [] => none
  | c :: r =>
      if c = cp '@' ∧ (r.head?.any isMentionChar) = true then
        some (lstrip (r.dropWhile isMentionChar))
      else none

def stripFeishu (env : Env) (text : PyStr) : PyStr :=
  let t := dropLabel (subAll (matchAtTag env.isWord) text.length text)
  strip (subAll matchMention t.length t)

def closure : List PyStr :=
  [py "搞定", py "完成了", py "做完了", py "可以了", py "没问题了", py "解决了", py "结了", py "收工",
    py "辛苦了", py "谢谢", py "多谢", py "完美", py "就这样", py "ok了", py "好了就", py "done",
    py "通过了"]

def saysClosure (env : Env) (text : PyStr) : Bool :=
  closure.any fun k => contains k (dropSpaces (stripFeishu env text))

def tsLe (a b : Event) : Prop := a.ts ≤ b.ts
instance : DecidableRel tsLe := fun a b => inferInstanceAs (Decidable (a.ts ≤ b.ts))

/-- `sorted(evs, key=lambda e: e["ts"])`: stable. -/
def sortByTs (evs : List Event) : List Event := evs.insertionSort tsLe

def effectiveTopics (last : PyStr) : List Event → List (Event × PyStr)
  | [] => []
  | e :: evs =>
      let tp := if e.role = .bot then topicOf e.text else []
      let last' := if tp.isEmpty then last else tp
      (e, if last'.isEmpty then py "?" else last') :: effectiveTopics last' evs

def mainCut (gap : ℤ) (prev : ℤ) (cur : Segment) : List (Event × PyStr) → List Segment
  | [] => [cur]
  | (e, tp) :: rest =>
      let next := match rest with
        | [] => tp
        | (_, tp') :: _ => tp'
      if gap ≤ e.ts - prev ∨ (tp ≠ cur.topic ∧ tp ≠ py "?" ∧ next = tp) then
        cur :: mainCut gap e.ts ⟨tp, [e]⟩ rest
      else mainCut gap e.ts ⟨cur.topic, cur.rows ++ [e]⟩ rest

def firstCut (gap : ℤ) : List (Event × PyStr) → List Segment
  | [] => []
  | (e, tp) :: rest => mainCut gap e.ts ⟨tp, [e]⟩ rest

def segmentRealTopic (s : Segment) : PyStr := if s.topic = py "?" then [] else s.topic

def suspiciousReplyGap : ℤ := 24 * 3600 * 1000

def shouldStrongStitchByReply (env : Env) (cur parent : Segment) (child parentEv : Event) : Bool :=
  let a := segmentRealTopic cur
  let b := segmentRealTopic parent
  if a.isEmpty || b.isEmpty || a == b then true
  else match env.sim.bind fun sim => sim child parent with
    | some ok => ok
    | none => decide (|child.ts - parentEv.ts| < suspiciousReplyGap)

section Stitch
variable (env : Env) (segs : List Segment)

/-- `seg_of`: the segment of a message id, the last one that holds it. -/
def segOf : Dict PyStr (Fin segs.length) :=
  ofPairs ((List.finRange segs.length).flatMap fun i => (segs.get i).rows.map fun e => (e.msgId, i))

def eventByMsg (evs : List Event) : Dict PyStr Event :=
  ofPairs ((evs.filter fun e => !e.msgId.isEmpty).map fun e => (e.msgId, e))

def stitchReply (byMsg : Dict PyStr Event) (uf : Forest (Fin segs.length)) (e : Event) :
    Forest (Fin segs.length) :=
  match (if e.parentId.isEmpty then none else get? (segOf segs) e.parentId),
      get? (segOf segs) e.msgId with
  | some parentSi, some childSi =>
      let p := uf.find parentSi
      let c := p.2.find childSi
      let strong := match get? byMsg e.parentId with
        | none => true
        | some parentEv =>
            shouldStrongStitchByReply env (segs.get childSi) (segs.get parentSi) e parentEv
      if p.1 ≠ c.1 ∧ strong = true then
        let p' := c.2.find parentSi
        let c' := p'.2.find childSi
        c'.2.link c'.1 p'.1 (p'.2.find_isRoot childSi)
          (Forest.isRoot_find (c.2.find_isRoot parentSi) childSi)
      else c.2
  | _, _ => uf

/-- `merged[find(si)].extend(s["rows"])` over all segments. -/
def mergeSegments (uf : Forest (Fin segs.length)) : List (List Event) :=
  let r := (List.finRange segs.length).foldl
    (fun (acc : Forest (Fin segs.length) × Dict (Fin segs.length) (List Event)) si =>
      let f := acc.1.find si
      (f.2, extendAt acc.2 f.1 (segs.get si).rows)) (uf, [])
  r.2.map Prod.snd

end Stitch

def headTs (c : List Event) : ℤ := (c.head?.map Event.ts).getD 0

/-- `clusters.sort(key=lambda c: c[0]["ts"])` on a list of rows with what goes with them. -/
def sortByHead {α : Type} (key : α → List Event) (cs : List α) : List α :=
  cs.insertionSort fun a b => headTs (key a) ≤ headTs (key b)

def defaultGap : ℤ := 2400 * 1000

def atomicSegments (env : Env) (evs : List Event) : List (List Event) :=
  let segs := firstCut defaultGap (effectiveTopics [] evs)
  let uf := evs.foldl (stitchReply env segs (eventByMsg evs)) (Forest.singletons _)
  let rows := (mergeSegments segs uf).map sortByTs
  sortByHead id (rows.filter fun rs => !rs.all fun e => isNoise e.text)

lemma effectiveTopics_fst (last : PyStr) (evs : List Event) :
    (effectiveTopics last evs).map Prod.fst = evs := by
  induction evs generalizing last with
  | nil => rfl
  | cons e evs ih => simp [effectiveTopics, ih]

lemma mainCut_rows (gap prev : ℤ) (cur : Segment) (l : List (Event × PyStr)) :
    (mainCut gap prev cur l).flatMap Segment.rows = cur.rows ++ l.map Prod.fst := by
  induction l generalizing prev cur with
  | nil => simp [mainCut]
  | cons x l ih =>
    obtain ⟨e, tp⟩ := x
    rw [mainCut.eq_def]
    simp only
    split_ifs
    · simp [ih]
    · simp [ih]

lemma firstCut_rows (gap : ℤ) (l : List (Event × PyStr)) :
    (firstCut gap l).flatMap Segment.rows = l.map Prod.fst := by
  cases l with
  | nil => rfl
  | cons x l => simp [firstCut, mainCut_rows]

lemma flatMap_finRange_rows (segs : List Segment) :
    (List.finRange segs.length).flatMap (fun si => (segs.get si).rows) = segs.flatMap Segment.rows := by
  have hmap := congrArg (List.map Segment.rows) (List.map_get_finRange segs)
  rw [List.map_map] at hmap
  rw [List.flatMap_def, List.flatMap_def, ← hmap]
  rfl

lemma mergeSegments_perm (segs : List Segment) (uf : Forest (Fin segs.length)) :
    (mergeSegments segs uf).flatten.Perm (segs.flatMap Segment.rows) := by
  have hfold : ∀ (l : List (Fin segs.length))
      (acc : Forest (Fin segs.length) × Dict (Fin segs.length) (List Event)),
      ((l.foldl (fun acc si => ((acc.1.find si).2,
          extendAt acc.2 (acc.1.find si).1 (segs.get si).rows)) acc).2.map Prod.snd).flatten.Perm
        ((acc.2.map Prod.snd).flatten ++ l.flatMap fun si => (segs.get si).rows) := by
    intro l
    induction l with
    | nil => intro acc; simp
    | cons si l ih =>
      intro acc
      rw [List.foldl_cons, List.flatMap_cons, ← List.append_assoc]
      exact (ih _).trans (List.Perm.append_right _ (flatten_extendAt _ _ _))
  have := hfold (List.finRange segs.length) (uf, [])
  rw [flatMap_finRange_rows] at this
  simpa [mergeSegments] using this

lemma sortByTs_perm (evs : List Event) : (sortByTs evs).Perm evs := List.perm_insertionSort _ _

lemma sortByHead_perm {α : Type} (key : α → List Event) (cs : List α) :
    (sortByHead key cs).Perm cs := List.perm_insertionSort _ _

lemma pairwise_sortByTs (evs : List Event) : (sortByTs evs).Pairwise tsLe :=
  have : Std.Total tsLe := ⟨fun a b => le_total a.ts b.ts⟩
  have : IsTrans Event tsLe := ⟨fun _ _ _ h h' => le_trans h h'⟩
  List.pairwise_insertionSort tsLe evs

lemma pairwise_sortByHead {α : Type} (key : α → List Event) (cs : List α) :
    (sortByHead key cs).Pairwise fun a b => headTs (key a) ≤ headTs (key b) :=
  have : Std.Total fun a b : α => headTs (key a) ≤ headTs (key b) :=
    ⟨fun a b => le_total (headTs (key a)) (headTs (key b))⟩
  have : IsTrans α fun a b => headTs (key a) ≤ headTs (key b) := ⟨fun _ _ _ h h' => le_trans h h'⟩
  List.pairwise_insertionSort _ cs

def latestTs (c : List Event) : ℤ := (c.map Event.ts).foldl max (headTs c)

/-- `max(range(n), key=...)`: the first index with the largest key. -/
def argmaxFrom (best : ℕ) (bestKey : ℤ) (i : ℕ) : List ℤ → ℕ
  | [] => best
  | k :: ks => if bestKey < k then argmaxFrom i k (i + 1) ks else argmaxFrom best bestKey (i + 1) ks

def resolvedTail (env : Env) (c : List Event) : Bool :=
  match (c.insertionSort fun a b => b.ts ≤ a.ts).find? fun e => !isNoise e.text with
  | some e => e.role = .user && saysClosure env e.text
  | none => false

def computeTerminal (env : Env) : List (List Event) → List Bool
  | [] => []
  | c :: cs =>
      let last := argmaxFrom 0 (latestTs c) 1 (cs.map latestTs)
      (c :: cs).mapIdx fun i d => if i = last then resolvedTail env d else true

end AgentTrajectory.TaskStitch
