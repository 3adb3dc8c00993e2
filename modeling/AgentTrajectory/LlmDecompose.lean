import AgentTrajectory.LlmSegment

/-! `llm_decompose.py`: the repair passes over the decomposition of one task and the loop
of `decompose_one_task` for a task below the size threshold. An answer of the model is
given as parsed; fields that no pass reads are left out. -/
namespace AgentTrajectory.LlmDecompose
open PyText PyDict PyJson TaskStitch LlmSegment

/-- An entry of `member_idx`: a number, or anything else by its text `str(x)`. -/
inductive Member
  | num (n : ℕ)
  | text (s : PyStr)
  deriving DecidableEq

/-- A sub-requirement; `none` where the answer lacks the key. -/
structure Subreq where
  id : Option Json
  title : Option Json
  type : Json
  status : Json
  memberIdx : List Member
  deriving DecidableEq

/-- An edge; `type` is the text `str(e["type"])`, and `none` where the key is missing. -/
structure Edge where
  src : Json
  dst : Json
  type : Option PyStr
  deriving DecidableEq

structure Result where
  subreqs : List Subreq
  edges : List Edge
  deriving DecidableEq

def passed : Json := .str (py "一遍过")
def reworked : Json := .str (py "有返工")
def corrected : Json := .str (py "被纠偏")
def unfinished : Json := .str (py "未终结")

/-- `s.get("id")`. -/
def Subreq.idOf (s : Subreq) : Json := s.id.getD .null

def Edge.isRework (e : Edge) : Bool := contains (py "返工") (e.type.getD [])

/-- `x in ids` on a set. -/
def inSet (x : Json) (ids : List Json) : Except PyError Bool :=
  if hashable x then .ok (decide (x ∈ ids)) else .error .typeError

/-- The set `rework_ids`. -/
def reworkIds (edges : List Edge) : Except PyError (List Json) :=
  let ends := (edges.filter Edge.isRework).flatMap fun e => [e.src, e.dst]
  if ends.all hashable then .ok ends else .error .typeError

section Passes
variable (env : Env)

def asSegInt : Member → Option ℕ
  | .num n => some n
  | .text s => (digitRuns env.decimal none s).head?

/-- The parsed members in the order of the list, repetitions included. -/
def Subreq.numbers (s : Subreq) : List ℕ := s.memberIdx.filterMap (asSegInt env)

def segMembers (s : Subreq) : List ℕ := (s.numbers env).dedup.insertionSort (· ≤ ·)

/-- `_is_user`: number zero indexes from the end. -/
def isUserAt (rows : List Event) (idx : ℕ) : Except PyError Bool :=
  match (if idx = 0 then rows.getLast? else rows[idx - 1]?) with
  | some e => .ok (decide (e.role = .user))
  | none => .error .indexError

def splitAtUser (rows : List Event) : List ℕ → Except PyError (Option (List ℕ × List ℕ))
  | [] => .ok none
  | idx :: rest =>
      match isUserAt rows idx with
      | .error e => .error e
      | .ok true => .ok (some ([], idx :: rest))
      | .ok false =>
          match splitAtUser rows rest with
          | .error e => .error e
          | .ok none => .ok none
          | .ok (some (p, r)) => .ok (some (idx :: p, r))

def isRollback (s : Subreq) : Bool :=
  decide (s.status = corrected) && (decide (s.type = .str (py "收尾")) || decide (s.type = .str (py "旁支")))

/-- How a rollback is cut: its id, title and the members before and from the reminder. The
part before the reminder is not empty and holds no user message. -/
def rollbackCut (rows : List Event) (s : Subreq) :
    Except PyError (Option (PyStr × PyStr × List ℕ × List ℕ)) :=
  let members := (s.numbers env).insertionSort (· ≤ ·)
  if isRollback s = false ∨ members.length < 2 then .ok none
  else match splitAtUser rows members with
    | .error e => .error e
    | .ok none => .ok none
    | .ok (some ([], _)) => .ok none
    | .ok (some (i :: is, rest)) =>
        match s.id.getD (.str (py "S?")), s.title.getD (.str []) with
        | .str old, .str title => .ok (some (old, title, i :: is, rest))
        | _, _ => .error .typeError

def strayPart (old title : PyStr) (pre : List ℕ) : Subreq where
  id := some (.str (old ++ py "a"))
  title := some (.str (py "走偏：" ++ title.take 12))
  type := .str (py "旁支")
  status := reworked
  memberIdx := pre.map .num

def backPart (s : Subreq) (old : PyStr) (rest : List ℕ) : Subreq :=
  { s with id := some (.str (old ++ py "b")), memberIdx := rest.map .num }

def renameEdge (old : PyStr) (e : Edge) : Edge :=
  { e with
    src := if e.src = .str old then .str (old ++ py "b") else e.src
    dst := if e.dst = .str old then .str (old ++ py "b") else e.dst }

def reworkEdge (old : PyStr) : Edge :=
  ⟨.str (old ++ py "a"), .str (old ++ py "b"), some (py "↺返工")⟩

def purifyFrom (rows : List Event) : List Subreq → List Edge → Except PyError (List Subreq × List Edge)
  | [], edges => .ok ([], edges)
  | s :: ss, edges =>
      match rollbackCut env rows s with
      | .error e => .error e
      | .ok none => (purifyFrom rows ss edges).map fun r => (s :: r.1, r.2)
      | .ok (some (old, title, pre, rest)) =>
          (purifyFrom rows ss (edges.map (renameEdge old) ++ [reworkEdge old])).map fun r =>
            (strayPart old title pre :: backPart s old rest :: r.1, r.2)

def enforceRollbackPurity (rows : List Event) (r : Result) : Except PyError Result :=
  (purifyFrom env rows r.subreqs r.edges).map fun p => ⟨p.1, p.2⟩

def isReworkStatus (status : Json) : Bool := decide (status = reworked) || decide (status = corrected)

def saneSubreq (ids : List Json) (s : Subreq) : Except PyError Subreq :=
  if (s.numbers env).length < 2 ∧ isReworkStatus s.status = true then
    match inSet s.idOf ids with
    | .error e => .error e
    | .ok true => .ok s
    | .ok false => .ok { s with status := passed }
  else .ok s

def saneSubreqs (ids : List Json) : List Subreq → Except PyError (List Subreq)
  | [] => .ok []
  | s :: ss =>
      match saneSubreq env ids s with
      | .error e => .error e
      | .ok s' => (saneSubreqs ids ss).map (s' :: ·)

def enforceStatusSanity (r : Result) : Except PyError Result :=
  match reworkIds r.edges with
  | .error e => .error e
  | .ok ids => (saneSubreqs env ids r.subreqs).map fun ss => { r with subreqs := ss }

def dedupMembers (seen : List ℕ) : List Member → List Member
  | [] => []
  | x :: xs =>
      match asSegInt env x with
      | none => x :: dedupMembers seen xs
      | some v => if v ∈ seen then dedupMembers seen xs else x :: dedupMembers (v :: seen) xs

def dedupSubreq (s : Subreq) : Subreq := { s with memberIdx := dedupMembers env [] s.memberIdx }

def stripMembers (drop : List ℕ) (s : Subreq) : Subreq :=
  { s with memberIdx := s.memberIdx.filter fun x => !(asSegInt env x).any fun v => decide (v ∈ drop) }

def holdsNumber (subs : List Subreq) (v i : ℕ) : Bool :=
  subs[i]?.any fun s => decide (v ∈ s.numbers env)

/-- The indexes of the sub-requirements that hold a number. -/
def holders (subs : List Subreq) (v : ℕ) : List ℕ :=
  (List.range subs.length).filter (holdsNumber env subs v)

/-- The numbers in the order in which `_msg_to_subs` meets them. -/
def messageNumbers (subs : List Subreq) : List ℕ := firstOccurrences (subs.flatMap (segMembers env))

def msgToSubs (subs : List Subreq) : List (ℕ × List ℕ) :=
  (messageNumbers env subs).map fun v => (v, holders env subs v)

def pairsOf : List ℕ → List (ℕ × ℕ)
  | [] => []
  | i :: is => is.map (fun j => (i, j)) ++ pairsOf is

/-- `pair_shared` in the order in which the pairs are met. -/
def pairShared (subs : List Subreq) : List ((ℕ × ℕ) × List ℕ) :=
  (firstOccurrences ((msgToSubs env subs).flatMap fun m => pairsOf m.2)).map fun p =>
    (p, (messageNumbers env subs).filter fun v => holdsNumber env subs v p.1 && holdsNumber env subs v p.2)

def pivotMax : ℕ := 2

def firstMember (subs : List Subreq) (i : ℕ) : ℕ :=
  ((subs[i]?.bind fun s => (segMembers env s).head?)).getD (10 ^ 9)

/-- `sorted(pair, key=...)`; `setOrder` says which of two indexes a `frozenset` yields first. -/
def orderPair (setOrder : ℕ → ℕ → Bool) (subs : List Subreq) (p : ℕ × ℕ) : ℕ × ℕ :=
  let q := if setOrder p.1 p.2 then p else (p.2, p.1)
  if firstMember env subs q.1 ≤ firstMember env subs q.2 then q else (q.2, q.1)

def idAt (subs : List Subreq) (i : ℕ) : Json := (subs[i]?.map Subreq.idOf).getD .null

def ensurePivotEdge (edges : List Edge) (a b : Json) : List Edge :=
  if a.truthy = false ∨ b.truthy = false ∨ a = b then edges
  else if edges.any fun e => decide (e.src = a) && decide (e.dst = b) then edges
  else edges ++ [⟨a, b, some (py "⤼枢纽(搁置转接)")⟩]

def pivotStep (setOrder : ℕ → ℕ → Bool) (r : Result) (p : (ℕ × ℕ) × List ℕ) : Result :=
  if pivotMax < p.2.length then r
  else
    let o := orderPair env setOrder r.subreqs p.1
    ⟨r.subreqs.modify o.1 (stripMembers env p.2),
      ensurePivotEdge r.edges (idAt r.subreqs o.1) (idAt r.subreqs o.2)⟩

/-- `_seg_span`; `none` is the infinite span of an empty segment. -/
def segSpan (subs : List Subreq) (i : ℕ) : Option ℕ :=
  match subs[i]?.map (segMembers env) with
  | some (m :: ms) => some ((m :: ms).getLastD 0 - m)
  | _ => none

def spanLt : Option ℕ → Option ℕ → Bool
  | some a, some b => decide (a < b)
  | some _, none => true
  | none, _ => false

/-- `min(subs, key=span)`: the first of the narrowest. -/
def narrowest (subs : List Subreq) (best : ℕ) : List ℕ → ℕ
  | [] => best
  | i :: is =>
      if spanLt (segSpan env subs i) (segSpan env subs best) then narrowest subs i is
      else narrowest subs best is

def forceStep (subs : List Subreq) (m : ℕ × List ℕ) : List Subreq :=
  match m.2 with
  | i :: j :: is =>
      let winner := narrowest env subs i (j :: is)
      (i :: j :: is).foldl (fun ss k => if k = winner then ss else ss.modify k (stripMembers env [m.1])) subs
  | _ => subs

def edgeKept (dropped : List Json) (e : Edge) : Except PyError Bool :=
  match inSet e.src dropped with
  | .error err => .error err
  | .ok true => .ok false
  | .ok false => (inSet e.dst dropped).map (!·)

def keptEdges (dropped : List Json) : List Edge → Except PyError (List Edge)
  | [] => .ok []
  | e :: es =>
      match edgeKept dropped e with
      | .error err => .error err
      | .ok b => (keptEdges dropped es).map fun r => if b then e :: r else r

def pruneEmptySubreqs (r : Result) : Except PyError Result :=
  let dropped := (r.subreqs.filter fun s => (s.numbers env).isEmpty).map Subreq.idOf
  if dropped = [] then .ok r
  else if dropped.all hashable then
    (keptEdges dropped r.edges).map fun es => ⟨r.subreqs.filter fun s => !(s.numbers env).isEmpty, es⟩
  else .error .typeError

def hasLargeOverlap (subs : List Subreq) : Bool :=
  (pairShared env subs).any fun p => decide (pivotMax < p.2.length)

/-- `resolve_overlaps` with `SOFT_MEMBERSHIP` off: the result and whether a large overlap remains.
-/
def resolveOverlaps (setOrder : ℕ → ℕ → Bool) (r : Result) (force : Bool) : Except PyError (Result × Bool) :=
  let subs := r.subreqs.map (dedupSubreq env)
  let shared := pairShared env subs
  if shared = [] then .ok (⟨subs, r.edges⟩, false)
  else
    let r₁ := shared.foldl (pivotStep env setOrder) ⟨subs, r.edges⟩
    let large := hasLargeOverlap env subs
    if large && !force then .ok (r₁, true)
    else
      let subs₂ := if large then (msgToSubs env r₁.subreqs).foldl (forceStep env) r₁.subreqs else r₁.subreqs
      (pruneEmptySubreqs env ⟨subs₂, r₁.edges⟩).map fun r₂ => (r₂, false)

/-- `_maxidx`; zero stands for minus one, and a number is shifted by one. -/
def maxIdx (s : Subreq) : ℕ := (s.numbers env).foldl (fun m v => max m (v + 1)) 0

def tailIndex (best bestKey i : ℕ) : List ℕ → ℕ
  | [] => best
  | k :: ks => if bestKey < k then tailIndex i k (i + 1) ks else tailIndex best bestKey (i + 1) ks

def evidenceStatus (ids : List Json) (s : Subreq) : Except PyError Json :=
  (inSet s.idOf ids).map fun b => if b then reworked else passed

def settleStatus (ids : List Json) (terminal isTail : Bool) (s : Subreq) : Except PyError Subreq :=
  if isTail && !terminal then .ok { s with status := unfinished }
  else if s.status = unfinished then (evidenceStatus ids s).map fun st => { s with status := st }
  else .ok s

def settleFrom (ids : List Json) (terminal : Bool) (tail i : ℕ) :
    List Subreq → Except PyError (List Subreq)
  | [] => .ok []
  | s :: ss =>
      match settleStatus ids terminal (decide (i = tail)) s with
      | .error e => .error e
      | .ok s' => (settleFrom ids terminal tail (i + 1) ss).map (s' :: ·)

def enforceTerminalTail (terminal : Bool) (r : Result) : Except PyError Result :=
  match r.subreqs with
  | [] => .ok r
  | s :: ss =>
      match reworkIds r.edges with
      | .error e => .error e
      | .ok ids =>
          let tail := tailIndex 0 (maxIdx env s) 1 (ss.map (maxIdx env))
          (settleFrom ids terminal tail 0 (s :: ss)).map fun subs => { r with subreqs := subs }

def repair (rows : List Event) (r : Result) : Except PyError Result :=
  match enforceRollbackPurity env rows r with
  | .error e => .error e
  | .ok r' => enforceStatusSanity env r'

/-- The loop of `_one` over what the calls of the model give: an answer, or an exception. -/
def oneLoop (setOrder : ℕ → ℕ → Bool) (rows : List Event) (retried : Bool) (last : Option Result) :
    List (Except PyError Result) → Except PyError Result
  | [] =>
      match last with
      | some r => (resolveOverlaps env setOrder r true).map Prod.fst
      | none => .error .valueError
  | attempt :: rest =>
      match attempt.bind (repair env rows) with
      | .error _ => oneLoop setOrder rows retried last rest
      | .ok r =>
          match resolveOverlaps env setOrder r retried with
          | .error e => .error e
          | .ok (r', true) => oneLoop setOrder rows true (some r') rest
          | .ok (r', false) => .ok r'

/-- `_effective`: the numbered messages of a cluster. -/
def effective (cluster : List Event) : List Event :=
  cluster.filter fun e => !isNoise e.text && !(stripFeishu env e.text).isEmpty

/-- `decompose_one_task` on a cluster of at most `big_threshold` effective messages. -/
def decomposeSmall (setOrder : ℕ → ℕ → Bool) (cluster : List Event)
    (attempts : List (Except PyError Result)) (terminal : Bool) : Except PyError Result :=
  match oneLoop env setOrder (effective env cluster) false none attempts with
  | .error e => .error e
  | .ok r => enforceTerminalTail env terminal r

end Passes
end AgentTrajectory.LlmDecompose
