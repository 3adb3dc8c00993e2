import AgentTrajectory.SubtaskSteps
import AgentTrajectory.DecomposeTask

/-! `assemble_subtask`: a sub-requirement, its messages and the steps of its bot put into one
training sample, and how its reading of `member_idx` compares with `subreq_member_msg_ids`. -/
namespace AgentTrajectory.SubtaskAssembly
open PyText PyDict PyJson PyValue TaskStitch RouteDay LlmDecompose DecomposeTask
    SubtaskSteps RelatedLists

/-- A sub-requirement as the model wrote it. -/
structure SubreqRow where
  id : Option Json
  title : Option Json
  status : Option Json
  type : Option Json
  dominant : Option Json
  memberIdx : List Json

inductive Outcome where
  | success
  | corrected
  | failure
  | incomplete
  deriving DecidableEq

inductive HardType where
  | rollbackCorrected
  | toolErrorRecovery
  | multiRetry
  | none
  deriving DecidableEq

/-- `quality_tier`; no step has a reasoning, so that the first tier is never inferred. -/
inductive Tier where
  | behaviorClone
  | recallOnly
  deriving DecidableEq

structure HardExample where
  isHard : Bool
  type : HardType
  errorStepIdx : Option ℕ
  deriving DecidableEq

structure Judge where
  verdict : Json
  reason : Json

/-- The sample; `orchestration` and `implicit_feedback` are always null. -/
structure Subtask where
  subtaskId : PyStr
  sourceTaskId : PyStr
  groupId : PyStr
  span : ℤ × ℤ
  msgIds : List PyStr
  topicLabel : Json
  participants : List PyStr
  multiAgent : Bool
  qualityTier : Tier
  outcome : Outcome
  outcomeReason : PyStr
  userTurns : ℕ
  retryRounds : ℕ
  hardExample : HardExample
  steps : List SchemaStep
  deriving DecidableEq

def mapOutcome (status verdict : Json) (terminal : Bool) : Outcome :=
  if terminal = false then .incomplete
  else if verdict = .str (py "failure") then .failure
  else if status = corrected then .corrected
  else .success

def deriveHardExample (status : Json) (steps : List SchemaStep) : HardExample :=
  let errIdx := (steps.find? fun s => s.observation.any fun o => o.error.truthy).map SchemaStep.idx
  if status = corrected then ⟨true, .rollbackCorrected, errIdx⟩
  else if errIdx.isSome then ⟨true, .toolErrorRecovery, errIdx⟩
  else if status = reworked then ⟨true, .multiRetry, errIdx⟩
  else ⟨false, .none, none⟩

def chatSteps (evs : List DayEvent) : List SchemaStep :=
  evs.zipIdx.map fun e =>
    if e.1.role = .user then ⟨e.2, .plainMessage, .str (py "user"), none, none, 0⟩
    else ⟨e.2, .plainMessage, .str (if e.1.name = [] then py "bot" else e.1.name),
      some ⟨some e.1.text, none⟩, none, 1⟩

def inferTier (steps : List SchemaStep) : Tier :=
  if steps.any fun s => s.type == .toolInteraction || s.action.isSome then
    .behaviorClone else .recallOnly

def sortedTexts (ts : List PyStr) : List PyStr := ts.dedup.insertionSort (· ≤ ·)

/-- `sorted` of the names of the bots: a missing name cannot be compared with another one. -/
def botsOf (evs : List DayEvent) : Except PyError (List (Option PyStr)) :=
  let names := (evs.filter fun e => e.role ≠ .user).map (·.name)
  if ∀ n ∈ names, n ≠ [] then .ok ((sortedTexts names).map some)
  else if ∀ n ∈ names, n = [] then .ok [none]
  else .error .typeError

def boolText (b : Bool) : PyStr := if b then py "True" else py "False"

section Assemble
variable (d : Display) (truncate : PyStr → Except PyError ℤ)

def textOfValue : Json → PyStr
  | .str s => s
  | v => d.str v

def eventAt (eff : List DayEvent) (i : ℤ) :
    Option DayEvent := if 1 ≤ i then eff[(i - 1).toNat]? else none

def outcomeReason (status : Json) (judge : Option Judge) (terminal : Bool) : PyStr :=
  py "P1·确定性: status=" ++ textOfValue d status ++ py ", terminal=" ++ boolText terminal ++
    if terminal = false then py " → incomplete(任务未终结,沉默不作认可)"
    else match judge with
      | some j => if j.verdict = .str (py "failure") then py "; failure_judge=failure(" ++
        textOfValue d j.reason ++ py ")" else []
      | none => []

def subtaskOf (row : SubreqRow) (sourceTaskId groupId : PyStr)
    (judge : Option Judge) (terminal : Bool)
    (evs : List DayEvent) (bots : List (Option PyStr)) (steps : List SchemaStep) : Subtask :=
  let status := row.status.getD (.str [])
  let tss := evs.map (·.ts)
  let userTurns := evs.countP fun e => e.role = .user
  { subtaskId := sourceTaskId ++ py "#" ++ textOfValue d (row.id.getD (.str (py "S?")))
    sourceTaskId := sourceTaskId
    groupId := groupId
    span := (tss.min?.getD 0, tss.max?.getD 0)
    msgIds := evs.map (·.msgId)
    topicLabel := row.title.getD .null
    participants := sortedTexts (evs.map fun e => if e.name = [] then py "?" else e.name)
    multiAgent := 1 < bots.length
    qualityTier := inferTier steps
    outcome := mapOutcome status ((judge.map Judge.verdict).getD .null) terminal
    outcomeReason := outcomeReason d status judge terminal
    userTurns := userTurns
    retryRounds := userTurns - 1
    hardExample := deriveHardExample status steps
    steps := steps }

/-- The steps of the sample: the bot's recorded ones if it is the only bot, else the messages. -/
def stepsOf (row : SubreqRow) (evs : List DayEvent) (bots : List (Option PyStr))
    (botTrajSteps : List TrajStep) :
    Except PyError (List SchemaStep) :=
  let first := match bots with
    | [] => Json.str (py "bot")
    | b :: _ => (b.map Json.str).getD .null
  if botTrajSteps ≠ [] ∧ bots.length ≤ 1 then
    aggregateSteps d.str (orEmpty (row.dominant.getD (.str [])) first) botTrajSteps
  else .ok (chatSteps evs)

/-- `assemble_subtask`; `truncate` is `int` of a float. -/
def assembleSubtask (row : SubreqRow) (eff : List DayEvent) (sourceTaskId groupId : PyStr)
    (botTrajSteps : List TrajStep)
    (judge : Option Judge) (terminal : Bool) : Except PyError Subtask := do
  let members ← row.memberIdx.mapM (intOf d.env.decimal truncate)
  let evs := (members.insertionSort (· ≤ ·)).filterMap (eventAt eff)
  let bots ← botsOf evs
  let steps ← stepsOf d row evs bots botTrajSteps
  return subtaskOf d row sourceTaskId groupId judge terminal evs bots steps

/-- An entry as `_as_seg_int` sees it. -/
def memberOf : Json → Member
  | .int n => if 0 ≤ n then .num n.toNat else .text (dumpsInt n)
  | v => .text (textOfValue d v)

/-- The sub-requirement as `subreq_member_msg_ids` reads it. -/
def SubreqRow.stored (row : SubreqRow) : Subreq :=
  ⟨row.id, row.title, row.type.getD (.str []), row.status.getD (.str []),
    row.memberIdx.map (memberOf d)⟩

/-- The ids that `subreq_member_msg_ids` computes for the sub-requirement. -/
def memberMsgIds (row : SubreqRow) (eff : List DayEvent) : List PyStr :=
  (subreqMemberMsgIds d [row.stored d] eff).flatMap StoredSubreq.memberMsgIds

end Assemble

def digitsValueOf (decimal : CodePoint → Option ℕ) (s : PyStr) : ℕ :=
  s.foldl (fun acc c => 10 * acc + (decimal c).getD 0) 0

section Agreement
variable (d : Display) (truncate : PyStr → Except PyError ℤ)

/-- The message that `int` of an entry names. -/
def namedByInt (eff : List DayEvent) (x : Json) : Option DayEvent :=
  (intOf d.env.decimal truncate x).toOption.bind (eventAt eff)

def namedByDigits (eff : List DayEvent) (x : Json) :
    Option PyStr := memberMsgId d eff (memberOf d x)

/-- The entry is written as a plain number: a whole number, or a text of digits that `int` takes. -/
inductive Plain : Json → ℕ → Prop
  | whole (n : ℕ) : Plain (.int n) n
  | digits (c : CodePoint) (s : PyStr)
      (digit : ∀ x ∈ c :: s, (d.env.decimal x).isSome = true ∧ isSpace x = false ∧
        x ≠ cp '-' ∧ x ≠ cp '+')
      (short : (c :: s).length ≤ maxStrDigits) : Plain (.str (c :: s))
        (digitsValueOf d.env.decimal (c :: s))

/-- Both readings of the entries come to the same. `int` takes every entry. A message that a plain
number names has an id. An entry that is no plain number adds nothing to the one reading that the
other lacks. The bots among the messages have all a name or all none. -/
structure ReadAlike (memberIdx : List Json) (eff : List DayEvent) : Prop where
  numbers : ∀ x ∈ memberIdx, (intOf d.env.decimal truncate x).isOk = true
  ids : ∀ x ∈ memberIdx, ∀ n, Plain d x n → ∀ e, eventAt eff n = some e → e.msgId ≠ []
  strayInt : ∀ x ∈ memberIdx, (¬ ∃ n, Plain d x n) → ∀ e, namedByInt d truncate eff x = some e →
    ∃ y ∈ memberIdx, namedByDigits d eff y = some e.msgId
  strayDigits : ∀ x ∈ memberIdx, (¬ ∃ n, Plain d x n) → ∀ m, namedByDigits d eff x = some m →
    ∃ y ∈ memberIdx, ∃ e, namedByInt d truncate eff y = some e ∧ e.msgId = m
  bots : (∀ x ∈ memberIdx, ∀ e, namedByInt d truncate eff x = some e →
    e.role ≠ .user → e.name ≠ []) ∨
    ∀ x ∈ memberIdx, ∀ e, namedByInt d truncate eff x = some e → e.role ≠ .user → e.name = []

end Agreement

variable {d : Display} {truncate : PyStr → Except PyError ℤ} {row : SubreqRow} {eff : List DayEvent}

lemma digitsWithUnderscores_digits {decimal : CodePoint → Option ℕ} {s : PyStr}
    (h : ∀ c ∈ s, (decimal c).isSome = true) (acc : ℕ) :
    digitsWithUnderscores decimal true acc s =
      some (s.foldl (fun acc c => 10 * acc + (decimal c).getD 0) acc) := by
  induction s generalizing acc with
  | nil => rfl
  | cons c s ih =>
    obtain ⟨k, hk⟩ := Option.isSome_iff_exists.mp (h c (by simp))
    rw [digitsWithUnderscores, hk, List.foldl_cons, hk]
    exact ih (fun x hx => h x (by simp [hx])) _

lemma digitRuns_digits {decimal : CodePoint → Option ℕ} {s : PyStr}
    (h : ∀ c ∈ s, (decimal c).isSome = true) (acc : ℕ) :
    LlmSegment.digitRuns decimal (some acc) s =
      [s.foldl (fun acc c => 10 * acc + (decimal c).getD 0) acc] := by
  induction s generalizing acc with
  | nil => rfl
  | cons c s ih =>
    obtain ⟨k, hk⟩ := Option.isSome_iff_exists.mp (h c (by simp))
    rw [LlmSegment.digitRuns, hk, List.foldl_cons, hk]
    simp only [Option.getD_some, Nat.mul_comm 10]
    simpa [Nat.mul_comm 10] using ih (fun x hx => h x (by simp [hx])) (acc * 10 + k)

lemma intOfStr_digits {decimal : CodePoint → Option ℕ} {c : CodePoint} {s : PyStr}
    (h : ∀ x ∈ c :: s, (decimal x).isSome = true ∧ isSpace x = false ∧ x ≠ cp '-' ∧ x ≠ cp '+')
    (hshort : (c :: s).length ≤ maxStrDigits) :
    intOfStr decimal (c :: s) = .ok (digitsValueOf decimal (c :: s)) := by
  have hstrip : strip (c :: s) = c :: s := by
    have hfront : lstrip (c :: s) = c :: s :=
      List.dropWhile_cons_of_neg (by simp [(h c (by simp)).2.1])
    rw [strip, hfront, rstrip, List.rdropWhile_eq_self_iff]
    intro hne hspace
    simp [(h _ (List.getLast_mem hne)).2.1] at hspace
  obtain ⟨k, hk⟩ := Option.isSome_iff_exists.mp (h c (by simp)).1
  have hvalue : digitsWithUnderscores decimal false 0 (c :: s) =
      some (digitsValueOf decimal (c :: s)) := by
    rw [digitsWithUnderscores, hk, digitsValueOf, List.foldl_cons, hk]
    exact digitsWithUnderscores_digits (fun x hx => (h x (by simp [hx])).1) _
  have hlength : ¬ maxStrDigits < ((c :: s).filter fun x => (decimal x).isSome).length := by
    have := List.length_filter_le (fun x => (decimal x).isSome) (c :: s)
    omega
  have hminus : c ≠ cp '-' := (h c (by simp)).2.2.1
  have hplus : c ≠ cp '+' := (h c (by simp)).2.2.2
  simp [intOfStr, hstrip, hminus, hplus, hvalue, hlength]

lemma Plain.reads {x : Json} {n : ℕ} (h : Plain d x n) :
    intOf d.env.decimal truncate x = .ok n ∧ asSegInt d.env (memberOf d x) = some n := by
  cases h with
  | whole n => exact ⟨rfl, by simp [memberOf, asSegInt]⟩
  | digits c s hdigit hshort =>
    refine ⟨intOfStr_digits hdigit hshort, ?_⟩
    obtain ⟨k, hk⟩ := Option.isSome_iff_exists.mp (hdigit c (by simp)).1
    have hrest := digitRuns_digits (fun x hx => (hdigit x (by simp [hx])).1) (0 * 10 + k) (s := s)
    simp only [memberOf, textOfValue, asSegInt, LlmSegment.digitRuns, hk,
      Option.getD_none, hrest, List.head?_cons,
      digitsValueOf, List.foldl_cons, Option.getD_some, Nat.mul_comm 10]

lemma Plain.namedByInt {x : Json} {n : ℕ} (h : Plain d x n) :
    namedByInt d truncate eff x = eventAt eff n := by
  rw [SubtaskAssembly.namedByInt, h.reads.1]
  rfl

lemma Plain.namedByDigits {x : Json} {n : ℕ} (h : Plain d x n) :
    namedByDigits d eff x = (eventAt eff n).bind msgIdOf := by
  have hpos : (1 : ℤ) ≤ n ↔ 0 < n := by omega
  have hidx : ((n : ℤ) - 1).toNat = n - 1 := by omega
  have hread := (@Plain.reads d (fun _ => .ok 0) x n h).2
  rw [SubtaskAssembly.namedByDigits, memberMsgId, hread, eventAt, hidx]
  simp only [hpos]
  split_ifs <;> rfl

lemma mem_memberMsgIds {m : PyStr} :
    m ∈ memberMsgIds d row eff ↔ ∃ y ∈ row.memberIdx, namedByDigits d eff y = some m := by
  simp [memberMsgIds, subreqMemberMsgIds, storeSubreq, SubreqRow.stored, namedByDigits]

lemma namedByInt_eq_some {x : Json} {e : DayEvent} :
    namedByInt d truncate eff x = some e ↔ ∃ n, intOf d.env.decimal truncate x = .ok n ∧
    eventAt eff n = some e := by
  rw [namedByInt]
  cases intOf d.env.decimal truncate x with
  | error err => simp [Except.toOption]
  | ok n => simp [Except.toOption]

lemma msgIdOf_eq_some {e : DayEvent} {m : PyStr} : msgIdOf e = some m ↔ e.msgId = m ∧ m ≠ [] := by
  rw [msgIdOf]
  split_ifs with h
  · simp only [false_iff, not_and, not_not]
    exact fun hm => hm.symm.trans h
  · rw [Option.some.injEq]
    exact ⟨fun hm => ⟨hm, hm ▸ h⟩, fun hm => hm.1⟩

lemma namedByDigits_ne_nil {x : Json} {m : PyStr} (h : namedByDigits d eff x = some m) :
    m ≠ [] := by
  rw [namedByDigits, memberMsgId] at h
  split at h
  · cases h
  · split_ifs at h
    obtain ⟨e, -, he⟩ := Option.bind_eq_some_iff.mp h
    exact (msgIdOf_eq_some.mp he).2

lemma mem_events {members : List ℤ} (h : row.memberIdx.mapM (intOf d.env.decimal truncate) =
    .ok members) {e : DayEvent} :
    e ∈ (members.insertionSort (· ≤ ·)).filterMap (eventAt eff) ↔ ∃ x ∈ row.memberIdx,
    namedByInt d truncate eff x = some e := by
  have hrel := mapM_eq_ok.mp h
  simp only [List.mem_filterMap, List.mem_insertionSort, namedByInt_eq_some]
  constructor
  · rintro ⟨n, hn, he⟩
    obtain ⟨x, hx, hint⟩ := forall₂_mem_right hrel hn
    exact ⟨x, hx, n, hint, he⟩
  · rintro ⟨x, hx, n, hint, he⟩
    obtain ⟨n', hn', hint'⟩ := forall₂_mem_left hrel hx
    obtain rfl := Except.ok.inj (hint'.symm.trans hint)
    exact ⟨n', hn', he⟩

lemma exists_botsOf {evs : List DayEvent} :
    (∃ bots, botsOf evs = .ok bots) ↔ (∀ e ∈ evs, e.role ≠ .user → e.name ≠ []) ∨ ∀ e ∈ evs,
    e.role ≠ .user → e.name = [] := by
  have hnames : ∀ P : PyStr → Prop, (∀ n ∈ (evs.filter fun e => e.role ≠ .user).map (·.name), P n) ↔
      ∀ e ∈ evs, e.role ≠ .user → P e.name := by
    intro P
    simp only [List.forall_mem_map, List.mem_filter, decide_eq_true_eq, and_imp]
  rw [botsOf, ← hnames (· ≠ []), ← hnames (· = [])]
  split_ifs with hall hnone
  · exact iff_of_true ⟨_, rfl⟩ (.inl hall)
  · exact iff_of_true ⟨_, rfl⟩ (.inr hnone)
  · exact iff_of_false (by simp) (not_or.mpr ⟨hall, hnone⟩)

lemma assembleSubtask_eq_ok {sourceTaskId groupId : PyStr} {judge : Option Judge}
    {terminal : Bool} {t : Subtask} :
    assembleSubtask d truncate row eff sourceTaskId groupId [] judge terminal = .ok t ↔
      ∃ members, row.memberIdx.mapM (intOf d.env.decimal truncate) = .ok members ∧
        ∃ bots, botsOf ((members.insertionSort (· ≤ ·)).filterMap (eventAt eff)) = .ok bots ∧
          t = subtaskOf d row sourceTaskId groupId judge terminal
            ((members.insertionSort (· ≤ ·)).filterMap (eventAt eff)) bots
            (chatSteps ((members.insertionSort (· ≤ ·)).filterMap (eventAt eff))) := by
  rw [assembleSubtask, bind_eq_ok]
  refine exists_congr fun members => and_congr_right fun _ => ?_
  dsimp only
  rw [bind_eq_ok]
  refine exists_congr fun bots => and_congr_right fun _ => ?_
  have hsteps : ∀ evs, stepsOf d row evs bots [] = .ok (chatSteps evs) :=
    fun evs => by simp [stepsOf]
  rw [hsteps]
  exact ⟨fun h => (Except.ok.inj h).symm, fun h => by rw [h]; rfl⟩

theorem readAlike_of_plain {memberIdx : List Json} (hplain : ∀ x ∈ memberIdx, ∃ n, Plain d x n)
    (hids : ∀ x ∈ memberIdx, ∀ n, Plain d x n → ∀ e, eventAt eff n = some e → e.msgId ≠ [])
    (hbots : ∀ x ∈ memberIdx, ∀ n, Plain d x n → ∀ e, eventAt eff n = some e →
      e.role ≠ .user → e.name ≠ []) :
    ReadAlike d truncate memberIdx eff where
  numbers x hx := by
    obtain ⟨n, hn⟩ := hplain x hx
    rw [hn.reads.1]
    rfl
  ids := hids
  strayInt x hx hstray := absurd (hplain x hx) hstray
  strayDigits x hx hstray := absurd (hplain x hx) hstray
  bots := .inl fun x hx e he => by
    obtain ⟨n, hn⟩ := hplain x hx
    exact hbots x hx n hn e (hn.namedByInt.symm.trans he)

/-- One message, named by `#1`. -/
def hashRow : SubreqRow := ⟨some (.str (py "S1")), none, none, none, none, [.str (py "#1")]⟩

def plainDisplay : Display := ⟨asciiEnv, id, fun _ => [], none, fun _ => []⟩

def oneMessage : List DayEvent := [⟨⟨1, .user, py "m1", [], py "fix it"⟩, py "u"⟩]

end AgentTrajectory.SubtaskAssembly
