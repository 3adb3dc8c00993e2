import AgentTrajectory.GoldReviewSheet
import AgentTrajectory.NearestSettling

/-! `export_gold_adjudications.py`: the labels of a review sheet, read back from its text. A line is
looked up by name and text; where several events fit, the one nearest to the lines that are settled
is taken. -/
namespace AgentTrajectory.GoldAdjudications
open PyText PyDict PyJson RouteDay GoldReviewSheet NearestSettling

variable (env : RouteEnv)

/-- `s` without the text it begins with. -/
def after (p s : PyStr) : Option PyStr := if startswith s p then some (s.drop p.length) else none

/-- `[^c]+c`: the text in front of the character, and what follows it. -/
def beforeSep (c : CodePoint) (s : PyStr) : Option (PyStr × PyStr) :=
  let field := s.takeWhile (· != c)
  if field = [] then none else (after [c] (s.drop field.length)).map fun rest => (field, rest)

/-- `_REVIEW_LINE_RE`: label, role tag and name. The classes in front of each literal do not hold
its first character, so that there is one way to match. -/
def reviewFields (line : PyStr) : Option (PyStr × PyStr × PyStr) := do
  let s ← after (py "- ") line
  let s ← after (py "L") (s.dropWhile (· == cp '*'))
  let digits := s.takeWhile env.env.isDecimal
  if digits = [] then none
  else do
    let s ← after (py " 〔") ((s.drop digits.length).dropWhile (· == cp '*'))
    let tag ← beforeSep (cp '·') s
    let name ← beforeSep (cp '〕') tag.2
    some (py "L" ++ digits, tag.1, name.1)

/-- `s.split(c)[-1]`. -/
def lastField (c : CodePoint) (s : PyStr) : PyStr := s.rtakeWhile (· != c)

/-- `…〔\+\d+字〕$` removed. -/
def dropMark (s : PyStr) : PyStr :=
  let cutMark : Option PyStr := do
    let r ← after (py "〕字") s.reverse
    let digits := r.takeWhile env.env.isDecimal
    if digits = [] then none else after (py "+〔…") (r.drop digits.length)
  (cutMark.map List.reverse).getD s

/-- `_line_text_prefix`. -/
def lineText (line : PyStr) : PyStr := strip (dropMark env (strip (lastField (cp '　') line)))

structure ReviewLine where
  label : PyStr
  roleTag : PyStr
  name : PyStr
  text : PyStr
  deriving DecidableEq

/-- The line as `_resolve_review_line` reads it. -/
def readLine (line : PyStr) : Option ReviewLine :=
  (reviewFields env line).bind fun f =>
    let text := lineText env line
    if text = [] ∨ startswith text (py "⋯") = true then none else some ⟨f.1, f.2.1, f.2.2, text⟩

def eventMatchKey (e : SheetEvent) : PyStr := flat env e.text 10000

def fits (line : ReviewLine) (e : SheetEvent) : Bool :=
  (line.name == [] || line.name == e.name.getD []) &&
    (startswith (eventMatchKey env e) line.text || contains line.text (eventMatchKey env e))

structure Resolved where
  line : ReviewLine
  msgId : PyStr
  byContext : Bool
  deriving DecidableEq

structure Unresolved where
  line : ReviewLine
  found : List PyStr
  deriving DecidableEq

variable (evs : List SheetEvent)

/-- `scored`, sorted. -/
def scored (lo hi : ℕ) (found : List PyStr) : List (ℕ × ℕ × PyStr) :=
  (found.filterMap fun m => (get? (placeOf evs) m).map fun pos =>
    (distance lo hi pos.val, pos.val, m)).insertionSort
    fun a b => toLex (a.1, toLex (a.2.1, a.2.2)) ≤ toLex (b.1, toLex (b.2.1, b.2.2))

/-- The id that is taken for a line, if one is strictly nearest. -/
def chosen (lo hi : ℕ) (found : List PyStr) : Option PyStr :=
  match scored evs lo hi found with
  | [] => none
  | [s] => some s.2.2
  | s :: t :: _ => if s.1 = t.1 then none else some s.2.2

def resolvedPlaces (labels : Dict PyStr Resolved) : List ℕ :=
  labels.filterMap fun l => (get? (placeOf evs) l.2.msgId).map Fin.val

/-- The loop of `_resolve_ambiguous_lines_within_card`; each round but the last settles a line. -/
def resolveAmbiguous : ℕ → Dict PyStr Resolved → List Unresolved → Dict PyStr Resolved × List Unresolved
  | 0, labels, unresolved => (labels, unresolved)
  | n + 1, labels, unresolved =>
      match span (resolvedPlaces evs labels) with
      | none => (labels, unresolved)
      | some (lo, hi) =>
          let remaining := unresolved.filter fun u => chosen evs lo hi u.found = none
          if remaining.length = unresolved.length then (labels, unresolved)
          else
            resolveAmbiguous n
              (unresolved.foldl (fun labels u =>
                match chosen evs lo hi u.found with
                | some m => set labels u.line.label ⟨u.line, m, true⟩
                | none => labels) labels) remaining

def fitting (line : ReviewLine) : List PyStr := (evs.filter (fits env line)).map SheetEvent.msgId

def addLine (acc : Dict PyStr Resolved × List Unresolved) (line : ReviewLine) :
    Dict PyStr Resolved × List Unresolved :=
  match fitting env evs line with
  | [m] => (set acc.1 line.label ⟨line, m, false⟩, acc.2)
  | found => (acc.1, acc.2 ++ [⟨line, found⟩])

def resolveCard (lines : List ReviewLine) : Dict PyStr Resolved × List Unresolved :=
  let read := lines.foldl (addLine env evs) ([], [])
  resolveAmbiguous evs (read.2.length + 1) read.1 read.2

/-- `_CARD_RE` on one line: the number of the card. -/
def cardNumber (line : PyStr) : Option ℕ :=
  (after (py "## #") line).bind fun s =>
    let digits := s.takeWhile env.env.isDecimal
    if digits = [] ∨ (s.drop digits.length).head?.any env.env.isWord = true then none
    else some (digits.foldl (fun n c => n * 10 + (env.env.decimal c).getD 0) 0)

def sections : List PyStr → List PyStr × List (ℕ × List PyStr)
  | [] => ([], [])
  | line :: lines =>
      match cardNumber env line with
      | some n => ([], (n, (sections lines).1) :: (sections lines).2)
      | none => (line :: (sections lines).1, (sections lines).2)

def bodyText (lines : List PyStr) : PyStr := lines.flatMap fun line => cp '\n' :: line

def parseReviewSheet (text : PyStr) : Dict ℕ (Dict PyStr Resolved × List Unresolved) :=
  ofPairs ((sections env (text.splitOn (cp '\n'))).2.map fun c =>
    (c.1, resolveCard env evs ((splitlines (bodyText c.2)).filterMap (readLine env))))

end AgentTrajectory.GoldAdjudications
