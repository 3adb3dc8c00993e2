import AgentTrajectory.Grouping
import AgentTrajectory.OtlpCollector

/-! `trajectory_aggregate.py`: the spans in the collector's files become one trajectory for each
trace. The files may have been written by any number of requests in any order. -/
namespace AgentTrajectory.TrajectoryAggregate
open PyText PyDict PyJson PyValue Json Grouping OtlpCollector

def isNewline (c : CodePoint) : Bool := c == cp '\n' || c == cp '\r'

def loadRows (text : PyStr) : Except PyError (List Json) :=
  (((text.splitOnP isNewline).map strip).filter (· ≠ [])).mapM loadsLine

/-- What `build_trajectory` reads of a span. -/
structure SpanRow where
  traceId : PyStr
  name : PyStr
  startNs : ℤ
  endNs : ℤ
  attributes : Dict PyStr Json
  deriving DecidableEq

def asText : Json → Except PyError PyStr
  | .str s => .ok s
  | _ => .error .typeError

def asInt : Json → Except PyError ℤ
  | .int n => .ok n
  | _ => .error .typeError

def SpanRow.ofJson (v : Json) : Except PyError SpanRow := do
  let d ← asDict v
  let traceId ← getItem d (py "trace_id") >>= asText
  let name ← getItem d (py "name") >>= asText
  let startNs ← getItem d (py "start_ns") >>= asInt
  let endNs ← getItem d (py "end_ns") >>= asInt
  let attributes ← getItem d (py "attributes") >>= asDict
  return ⟨traceId, name, startNs, endNs, attributes⟩

def daysOf (files : Dict File PyStr) (dir : Subdir) (date : Option PyStr) : List PyStr :=
  let days := ((keys files).filter fun f => f.1 = dir).map Prod.snd
  match date with
  | some day => days.filter (· = day)
  | none => sortBy (fun day => day ++ py ".jsonl") days

def loadSpans (files : Dict File PyStr) (date : Option PyStr) : Except PyError (List Json) := do
  let rows ← (daysOf files .spans date).mapM fun day =>
    loadRows ((get? files (Subdir.spans, day)).getD [])
  return rows.flatten

def maybeJson : Json → Json
  | .str s => if s.head? ∈ [none, some (cp '['), some (cp '{')] then
    (loads s).getD (.str s) else .str s
  | v => v

inductive TrajStep
  | model (span : PyStr) (startNs : ℤ) (model inputMessages outputMessages : Json)
    (tokens : Dict PyStr Json)
  | tool (startNs : ℤ) (toolName toolInputs toolOutputs error : Json)
  deriving DecidableEq

def TrajStep.startNs : TrajStep → ℤ
  | .model _ startNs _ _ _ _ => startNs
  | .tool startNs _ _ _ _ => startNs

structure Trajectory where
  traceId : PyStr
  startNs : ℤ
  endNs : ℤ
  agent : Json
  channel : Json
  provider : Json
  model : Json
  systemPrompt : Json
  toolDefinitions : Json
  steps : List TrajStep
  tokens : Dict PyStr ℤ
  spanNames : List PyStr
  deriving DecidableEq

def tokenKinds :
    List PyStr := [py "input", py "output", py "total", py "cache_read", py "cache_write"]

def tokenValue (a : Dict PyStr Json) (tk : PyStr) : Json :=
  orEmpty (getNone a (py "openclaw.tokens." ++ tk))
    (getNone a (py "gen_ai.usage." ++ (tk ++ py "_tokens")))

def stepTokens (a : Dict PyStr Json) : Dict PyStr Json :=
  (tokenKinds.map fun tk => (tk, tokenValue a tk)).filter fun p => p.2 ≠ .null

def isModelSpan (s : SpanRow) : Bool :=
  s.name ∈ [py "openclaw.model.call", py "openclaw.model.usage"] ||
    getNone s.attributes (py "gen_ai.operation.name") ∈ [.str (py "chat"),
      .str (py "text_completion")]

def modelStep (s : SpanRow) : TrajStep :=
  let a := s.attributes
  .model s.name s.startNs (orEmpty (getNone a (py "gen_ai.request.model"))
    (getNone a (py "openclaw.model")))
    (maybeJson (getNone a (py "openclaw.content.input_messages")))
      (maybeJson (getNone a (py "openclaw.content.output_messages")))
    (stepTokens a)

def toolStep (s : SpanRow) : TrajStep :=
  let a := s.attributes
  .tool s.startNs (orEmpty (getNone a (py "gen_ai.tool.name")) (getNone a (py "openclaw.toolName")))
    (maybeJson (getNone a (py "openclaw.content.tool_inputs")))
      (maybeJson (getNone a (py "openclaw.content.tool_outputs")))
    (getNone a (py "openclaw.errorCategory"))

/-- Some field of the step is not `None`. -/
def TrajStep.filled : TrajStep → Bool
  | .model _ _ m input output tokens => m ≠ .null || input ≠ .null || output ≠ .null || tokens ≠ []
  | .tool .. => true

section Build
variable (decimal : CodePoint → Option ℕ) (truncate : PyStr → Except PyError ℤ)

/-- `tokens[tk] = tokens.get(tk, 0) + int(v)`. -/
def addToken (ledger : Dict PyStr ℤ) (p : PyStr × Json) : Except PyError (Dict PyStr ℤ) :=
  (intOf decimal truncate p.2).map fun n => set ledger p.1 ((get? ledger p.1).getD 0 + n)

def addStep (t : Trajectory) (s : SpanRow) : Except PyError Trajectory :=
  if isModelSpan s then do
    let tokens ← (stepTokens s.attributes).foldlM (addToken decimal truncate) t.tokens
    let step := modelStep s
    return { t with tokens, steps := if step.filled then t.steps ++ [step] else t.steps }
  else if s.name = py "openclaw.tool.execution" then .ok { t with steps := t.steps ++ [toolStep s] }
  else .ok t

def onSpan (t : Trajectory) (s : SpanRow) : Except PyError Trajectory :=
  let a := s.attributes
  let prompt := getNone a (py "openclaw.content.system_prompt")
  let definitions := getNone a (py "openclaw.content.tool_definitions")
  addStep decimal truncate { t with
    agent := orEmpty t.agent (getNone a (py "openclaw.agent"))
    channel := orEmpty t.channel (getNone a (py "openclaw.channel"))
    provider := orEmpty t.provider (getNone a (py "openclaw.provider"))
    model := orEmpty t.model (getNone a (py "openclaw.model"))
    systemPrompt := orEmpty prompt t.systemPrompt
    toolDefinitions := if definitions.truthy then maybeJson definitions else t.toolDefinitions } s

def opening (traceId : PyStr) (spans : List SpanRow) (first : SpanRow) : Trajectory where
  traceId := traceId
  startNs := first.startNs
  endNs := (spans.map SpanRow.endNs).foldl max first.endNs
  agent := .null
  channel := .null
  provider := .null
  model := .null
  systemPrompt := .null
  toolDefinitions := .null
  steps := []
  tokens := []
  spanNames := (spans.map SpanRow.name).dedup.insertionSort (· ≤ ·)

def buildTrajectory (traceId : PyStr) (spans : List SpanRow) : Except PyError Trajectory :=
  match sortBy SpanRow.startNs spans with
  | [] => .error .indexError
  | first :: rest => do
      let t ← (first :: rest).foldlM (onSpan decimal truncate)
        (opening traceId (first :: rest) first)
      return { t with steps := sortBy TrajStep.startNs t.steps }

/-- `aggregate_openclaw` up to the file it writes. -/
def aggregateOpenclaw (contentOnly : Bool) (rows : List SpanRow) :
    Except PyError (List Trajectory) := do
  let trajectories ← (groupBy SpanRow.traceId rows).mapM fun g =>
    buildTrajectory decimal truncate g.1 g.2
  return sortBy Trajectory.startNs
    (trajectories.filter fun t => !contentOnly || t.systemPrompt.truthy || t.steps ≠ [])

/-- `aggregate_openclaw` on the files of all days. -/
def trajectoriesIn (contentOnly : Bool) (files : Dict File PyStr) :
    Except PyError (List Trajectory) :=
  loadSpans files none >>= (·.mapM SpanRow.ofJson) >>=
    aggregateOpenclaw decimal truncate contentOnly

/-- The step that a span becomes. -/
def stepOf (s : SpanRow) : Option TrajStep :=
  if isModelSpan s then if (modelStep s).filled then some (modelStep s) else none
  else if s.name = py "openclaw.tool.execution" then some (toolStep s)
  else none

def countOf (tokens : Dict PyStr Json) (tk : PyStr) : Except PyError ℤ :=
  match get? tokens tk with
  | some v => intOf decimal truncate v
  | none => .ok 0

def TrajStep.tokenCount (tk : PyStr) : TrajStep → Except PyError ℤ
  | .model _ _ _ _ _ tokens => countOf decimal truncate tokens tk
  | .tool .. => .ok 0

/-- The ledger has the sum over the steps. -/
def Balanced (steps : List TrajStep) (ledger : Dict PyStr ℤ) : Prop :=
  ∀ tk, ∃ ns, steps.mapM (TrajStep.tokenCount decimal truncate tk) = .ok ns ∧
    (get? ledger tk).getD 0 = ns.sum

variable {decimal truncate}

lemma foldlM_addToken {ps : Dict PyStr Json} (hps : (keys ps).Nodup) {ledger ledger' : Dict PyStr ℤ}
    (h : ps.foldlM (addToken decimal truncate) ledger = .ok ledger') (tk : PyStr) :
    ∃ n, countOf decimal truncate ps tk = .ok n ∧ (get? ledger' tk).getD 0 =
      (get? ledger tk).getD 0 + n := by
  induction ps generalizing ledger with
  | nil =>
    obtain rfl := Except.ok.inj h
    exact ⟨0, rfl, by simp⟩
  | cons p ps ih =>
    obtain ⟨k, v⟩ := p
    obtain ⟨hk, hnd⟩ := List.nodup_cons.mp hps
    rw [List.foldlM_cons] at h
    obtain ⟨mid, hmid, hrest⟩ := bind_eq_ok.mp h
    obtain ⟨m, hm, rfl⟩ := map_eq_ok.mp hmid
    obtain ⟨n, hn, hsum⟩ := ih hnd hrest
    rw [hsum, get?_set]
    by_cases hkt : k = tk
    · subst hkt
      have hzero : n = 0 := by
        rw [countOf, get?_eq_none.mpr hk] at hn
        exact (Except.ok.inj hn).symm
      refine ⟨m, ?_, by simp [hzero]⟩
      rw [countOf, get?_cons, if_pos rfl]
      exact hm
    · refine ⟨n, ?_, by simp [hkt]⟩
      rw [countOf, get?_cons, if_neg hkt]
      exact hn

lemma keys_stepTokens (a : Dict PyStr Json) : (keys (stepTokens a)).Nodup := by
  have hkinds : tokenKinds.Nodup := by simp [tokenKinds]
  refine List.Nodup.sublist (List.filter_sublist.map Prod.fst) ?_
  rwa [List.map_map, show (Prod.fst ∘ fun tk => (tk, tokenValue a tk)) = id from rfl, List.map_id]

lemma addStep_spec {t t' : Trajectory} {s : SpanRow} (h : addStep decimal truncate t s = .ok t')
    (hb : Balanced decimal truncate t.steps t.tokens) :
    t'.steps = t.steps ++ (stepOf s).toList ∧ Balanced decimal truncate t'.steps t'.tokens := by
  rw [addStep] at h
  rw [stepOf]
  split_ifs at h ⊢ with hmodel hfilled htool
  · obtain ⟨ledger, hledger, ht⟩ := bind_eq_ok.mp h
    simp only [hfilled, if_true] at ht
    obtain rfl := Except.ok.inj ht
    refine ⟨rfl, fun tk => ?_⟩
    obtain ⟨ns, hns, hsum⟩ := hb tk
    obtain ⟨n, hn, hadd⟩ := foldlM_addToken (keys_stepTokens _) hledger tk
    refine ⟨ns ++ [n], ?_, by rw [hadd, hsum]; simp⟩
    exact mapM_eq_ok.mpr (List.rel_append (mapM_eq_ok.mp hns) (.cons hn .nil))
  · obtain ⟨ledger, hledger, ht⟩ := bind_eq_ok.mp h
    have hempty : stepTokens s.attributes = [] := by
      by_contra hne
      exact hfilled (by simp [modelStep, TrajStep.filled, hne])
    rw [hempty] at hledger
    obtain rfl := Except.ok.inj hledger
    simp only [hfilled] at ht
    obtain rfl := Except.ok.inj ht
    exact ⟨by simp, hb⟩
  · obtain rfl := Except.ok.inj h
    refine ⟨rfl, fun tk => ?_⟩
    obtain ⟨ns, hns, hsum⟩ := hb tk
    refine ⟨ns ++ [0], ?_, by rw [hsum]; simp⟩
    exact mapM_eq_ok.mpr (List.rel_append (mapM_eq_ok.mp hns) (.cons rfl .nil))
  · obtain rfl := Except.ok.inj h
    exact ⟨by simp, hb⟩

lemma foldlM_onSpan {spans : List SpanRow} {t t' : Trajectory}
    (h : spans.foldlM (onSpan decimal truncate) t = .ok t')
    (hb : Balanced decimal truncate t.steps t.tokens) :
    t'.steps = t.steps ++ spans.filterMap stepOf ∧
    Balanced decimal truncate t'.steps t'.tokens := by
  induction spans generalizing t with
  | nil =>
    obtain rfl := Except.ok.inj h
    exact ⟨by simp, hb⟩
  | cons s spans ih =>
    rw [List.foldlM_cons] at h
    obtain ⟨mid, hmid, hrest⟩ := bind_eq_ok.mp h
    obtain ⟨hsteps, hbal⟩ := addStep_spec hmid hb
    obtain ⟨hall, hbal'⟩ := ih hrest hbal
    refine ⟨?_, hbal'⟩
    rw [hall, hsteps]
    cases hs : stepOf s with
    | none => simp [hs]
    | some step => simp [hs]

lemma stepOf_startNs {s : SpanRow} {step : TrajStep} (h : stepOf s = some step) :
    step.startNs = s.startNs := by
  rw [stepOf] at h
  split_ifs at h
  · rw [← Option.some.inj h]
    rfl
  · rw [← Option.some.inj h]
    rfl

lemma filterMap_stepOf_sorted {spans : List SpanRow} (h : spans.Pairwise fun a b =>
    a.startNs ≤ b.startNs) :
    (spans.filterMap stepOf).Pairwise fun a b => a.startNs ≤ b.startNs := by
  refine List.pairwise_filterMap.mpr (h.imp fun {a b} hab x hx y hy => ?_)
  rwa [stepOf_startNs hx, stepOf_startNs hy]

/-- The steps of a trajectory are those of its spans in the order of their starts, and its token
counts are the sums over the steps. -/
theorem trajectory_balanced {traceId : PyStr} {spans : List SpanRow} {t : Trajectory}
    (h : buildTrajectory decimal truncate traceId spans = .ok t) :
    t.steps = (sortBy SpanRow.startNs spans).filterMap stepOf ∧
    Balanced decimal truncate t.steps t.tokens := by
  have hsorted := sortBy_sorted SpanRow.startNs spans
  rw [buildTrajectory] at h
  split at h
  · simp at h
  · rename_i first rest heq
    rw [heq] at hsorted ⊢
    obtain ⟨draft, hdraft, ht⟩ := bind_eq_ok.mp h
    obtain ⟨hsteps, hbal⟩ := foldlM_onSpan hdraft fun tk => ⟨[], rfl, rfl⟩
    obtain rfl := Except.ok.inj ht
    have hdone : draft.steps = (first :: rest).filterMap stepOf := by simpa [opening] using hsteps
    have hsort : sortBy TrajStep.startNs draft.steps = draft.steps := by
      rw [hdone]
      exact sortBy_of_sorted (filterMap_stepOf_sorted hsorted)
    simp only [hsort]
    exact ⟨hdone, hbal⟩

def toolRun : SpanRow := ⟨py "t", py "openclaw.tool.execution", 1, 1, []⟩

def modelCall : SpanRow where
  traceId := py "t"
  name := py "openclaw.model.call"
  startNs := 2
  endNs := 3
  attributes :=
    [(py "openclaw.tokens.input", .int 5), (py "gen_ai.usage.output_tokens", .str (py "7"))]

def asciiDigit (c : CodePoint) : Option ℕ :=
  if cp '0' ≤ c ∧ c ≤ cp '9' then some (c.val - 48) else none

theorem trajectory_balanced_calls :
    ∃ t, buildTrajectory asciiDigit (fun _ => .ok 0) (py "t")
    [modelCall, toolRun, modelCall] = .ok t ∧
      t.tokens = [(py "input", 10), (py "output", 14)] ∧
      t.steps = (sortBy SpanRow.startNs [modelCall, toolRun, modelCall]).filterMap stepOf ∧
      Balanced asciiDigit (fun _ => .ok 0) t.steps t.tokens := by
  have h : ((buildTrajectory asciiDigit (fun _ => .ok 0) (py "t") [modelCall,
    toolRun, modelCall]).map
      Trajectory.tokens).toOption = some [(py "input", 10), (py "output", 14)] := by decide +kernel
  cases ht : buildTrajectory asciiDigit (fun _ => .ok 0) (py "t")
    [modelCall, toolRun, modelCall] with
  | error e => simp [ht, Except.map, Except.toOption] at h
  | ok t =>
    exact ⟨t, rfl, by simpa [ht, Except.map, Except.toOption] using h, trajectory_balanced ht⟩

lemma buildTrajectory_perm {spans spans' : List SpanRow} (h : spans.Perm spans')
    (hstarts : (spans.map SpanRow.startNs).Nodup)
    (traceId : PyStr) : buildTrajectory decimal truncate traceId spans =
      buildTrajectory decimal truncate traceId spans' := by
  rw [buildTrajectory, buildTrajectory, sortBy_eq_of_perm h hstarts]

/-- No two spans of a trace start at the same time. -/
def StartsApart (rows : List SpanRow) : Prop :=
  ∀ traceId, ((rows.filter fun r => r.traceId = traceId).map SpanRow.startNs).Nodup

lemma aggregateOpenclaw_perm {rows rows' : List SpanRow} (h : rows.Perm rows')
    (hstarts : StartsApart rows) {contentOnly : Bool} {ts : List Trajectory}
    (hts : aggregateOpenclaw decimal truncate contentOnly rows = .ok ts) :
    ∃ ts', aggregateOpenclaw decimal truncate contentOnly rows' = .ok ts' ∧ ts'.Perm ts := by
  have hgroups (xs : List SpanRow) : (groupBy SpanRow.traceId xs).mapM (fun g =>
    buildTrajectory decimal truncate g.1 g.2) =
      (firstOccurrences (xs.map SpanRow.traceId)).mapM fun k =>
        buildTrajectory decimal truncate k (xs.filter fun r => r.traceId = k) := by
    rw [groupBy_eq, List.mapM_map]
    rfl
  rw [aggregateOpenclaw, hgroups] at hts
  obtain ⟨built, hbuilt, hsort⟩ := bind_eq_ok.mp hts
  have hsame : (fun k => buildTrajectory decimal truncate k (rows.filter fun r => r.traceId = k)) =
      fun k => buildTrajectory decimal truncate k (rows'.filter fun r => r.traceId = k) :=
    funext fun k => buildTrajectory_perm (h.filter _) (hstarts k) k
  rw [hsame] at hbuilt
  obtain ⟨built', hbuilt', hperm⟩ :=
    mapM_perm (firstOccurrences_perm (h.map SpanRow.traceId)) hbuilt
  refine ⟨_, by rw [aggregateOpenclaw, hgroups, hbuilt']; rfl, ?_⟩
  obtain rfl := Except.ok.inj hsort
  exact (sortBy_perm _ _).trans ((hperm.filter _).trans (sortBy_perm _ _).symm)

end Build

lemma loadRows_cons {v : Json} (h : v.wf = true) (text : PyStr) :
    loadRows (dumps v ++ cp '\n' :: text) = (loadRows text).map (v :: ·) := by
  have hfree : ∀ c ∈ dumps v, isNewline c = false := by
    intro c hc
    have hcontrol := dumps_not_control h c hc
    rw [isNewline, Bool.or_eq_false_iff, beq_eq_false_iff_ne, beq_eq_false_iff_ne]
    constructor
    · rintro rfl
      exact absurd hcontrol (by decide)
    · rintro rfl
      exact absurd hcontrol (by decide)
  have hstrip : loads (strip (dumps v)) = some v :=
    (@loads_strip _ _ (loads_dumps_of_wf h) [] (by simp)).2
  have hload : loadsLine (strip (dumps v)) = .ok v := by rw [loadsLine, hstrip]
  rw [loadRows, List.splitOnP_append_cons_of_forall_mem hfree (cp '\n') (by decide),
    List.map_cons, List.filter_cons, if_pos (by simpa using strip_dumps h), List.mapM_cons, hload]
  rfl

lemma loadRows_jsonLines {rows : List Json} (h : ∀ v ∈ rows, v.wf = true) :
    loadRows (jsonLines rows) = .ok rows := by
  induction rows with
  | nil => decide
  | cons v rows ih =>
    have hsplit : jsonLines (v :: rows) = dumps v ++ cp '\n' :: jsonLines rows := by
      simp [jsonLines]
    rw [hsplit, loadRows_cons (h v (by simp)), ih fun w hw => h w (by simp [hw])]
    rfl

def rowOf (s : Span) : SpanRow :=
  ⟨hex s.traceId, s.name.text, s.startTimeUnixNano, s.endTimeUnixNano, attrsToDict s.attributes⟩

lemma ofJson_record (resource : Dict PyStr Json) (s : Span) :
    SpanRow.ofJson (s.record resource) = .ok (rowOf s) := by
  simp [SpanRow.ofJson, Span.record, getItem, get?_cons, asDict, asText, asInt,
    rowOf, bind, Except.bind, pure, Except.pure]

section Requests
variable (codec : Codec) (posts : ℕ → Post)

/-- The records of the spans in the requests that were answered with 200. -/
def acknowledged (s : State) : List Json :=
  (s.answers.filter fun a => a.2 = 200).flatMap fun a => (works codec posts a.1).spanRecords

def delivered (s : State) : List SpanRow :=
  (acknowledged codec posts s).filterMap fun v => (SpanRow.ofJson v).toOption

variable {codec posts}

lemma flatMap_filter_of_nil {α β : Type} {p : α → Bool} {g : α → List β} {xs : List α}
    (h : ∀ x ∈ xs, p x = false → g x = []) : (xs.filter p).flatMap g = xs.flatMap g := by
  induction xs with
  | nil => rfl
  | cons x xs ih =>
    have ih' := ih fun y hy => h y (by simp [hy])
    cases hp : p x with
    | true => rw [List.filter_cons_of_pos hp, List.flatMap_cons, ih', List.flatMap_cons]
    | false =>
      rw [List.filter_cons_of_neg (by simp [hp]), ih', List.flatMap_cons,
        h x (by simp) hp, List.nil_append]

lemma ofJson_acknowledged {v : Json} {s : State} (h : v ∈ acknowledged codec posts s) :
    v.wf = true ∧ ∃ r, SpanRow.ofJson v = .ok r := by
  obtain ⟨a, -, hv⟩ := List.mem_flatMap.mp h
  obtain ⟨attrs, span, rfl⟩ := mem_spanRecords hv
  exact ⟨span.wf_record attrs, _, ofJson_record _ span⟩

lemma mapM_ofJson {vs : List Json} (h : ∀ v ∈ vs, ∃ r, SpanRow.ofJson v = .ok r) :
    vs.mapM SpanRow.ofJson = .ok (vs.filterMap fun v => (SpanRow.ofJson v).toOption) := by
  induction vs with
  | nil => rfl
  | cons v vs ih =>
    obtain ⟨r, hr⟩ := h v (by simp)
    rw [List.mapM_cons, hr, ih fun w hw => h w (by simp [hw]), List.filterMap_cons, hr]
    rfl

lemma acknowledged_perm {s : State} (hinv : Inv codec posts s) {ids : List ℕ} (hnodup : ids.Nodup)
    (hids : ∀ i, i ∈ ids ↔ Appends codec posts i ∧ (i, 200) ∈ s.answers) :
    (ids.flatMap fun i => (works codec posts i).spanRecords).Perm (acknowledged codec posts s) := by
  classical
  set answered := (s.answers.filter fun a => a.2 = 200).map Prod.fst with hanswered
  have hmem (i : ℕ) : i ∈ answered ↔ (i, 200) ∈ s.answers := by
    rw [hanswered, List.mem_map]
    constructor
    · rintro ⟨⟨j, code⟩, ha, rfl⟩
      obtain ⟨ha, hcode⟩ := List.mem_filter.mp ha
      obtain rfl : code = 200 := of_decide_eq_true hcode
      exact ha
    · exact fun ha => ⟨(i, 200), List.mem_filter.mpr ⟨ha, by simp⟩, rfl⟩
  have honce : answered.Nodup :=
    (List.nodup_append.mp hinv.once).1.sublist (List.filter_sublist.map Prod.fst)
  have hperm : ids.Perm (answered.filter fun i => Appends codec posts i) := by
    refine (List.perm_ext_iff_of_nodup hnodup (honce.filter _)).mpr fun i => ?_
    rw [hids, List.mem_filter, hmem, decide_eq_true_eq, and_comm]
  have hack : acknowledged codec posts s = answered.flatMap fun i =>
    (works codec posts i).spanRecords := by
    rw [acknowledged, hanswered, List.flatMap_map]
  have hrest : ∀ i ∈ answered, decide (Appends codec posts i) = false →
      (works codec posts i).spanRecords = [] := by
    intro i _ hi
    cases hw : works codec posts i with
    | append dir records => exact absurd ⟨dir, records, hw⟩ (of_decide_eq_false hi)
    | answer code => rfl
    | broken => rfl
  rw [hack, ← flatMap_filter_of_nil hrest]
  exact hperm.flatMap_right _

lemma mem_daysOf {files : Dict File PyStr} {day : PyStr} :
    day ∈ daysOf files .spans none ↔ (Subdir.spans, day) ∈ keys files := by
  rw [daysOf, (sortBy_perm _ _).mem_iff, List.mem_map]
  constructor
  · rintro ⟨⟨dir, day⟩, hf, rfl⟩
    obtain ⟨hf, hdir⟩ := List.mem_filter.mp hf
    obtain rfl : dir = Subdir.spans := of_decide_eq_true hdir
    exact hf
  · exact fun hf => ⟨_, List.mem_filter.mpr ⟨hf, by simp⟩, rfl⟩

lemma nodup_daysOf {files : Dict File PyStr} (h : (keys files).Nodup) :
    (daysOf files .spans none).Nodup := by
  rw [daysOf, (sortBy_perm _ _).nodup_iff]
  refine List.Nodup.map_on (fun f hf g hg he => Prod.ext ?_ he) (h.filter _)
  rw [of_decide_eq_true (List.mem_filter.mp hf).2, of_decide_eq_true (List.mem_filter.mp hg).2]

lemma loadSpans_settled {s : State} (hinv : Inv codec posts s) (hs : Settled codec posts s) :
    ∃ rows, loadSpans s.disk.files none = .ok rows ∧ rows.Perm (acknowledged codec posts s) := by
  obtain ⟨ids, hnodup, hids, hfiles, hnamed, hdistinct⟩ := hinv.settled hs
  set ofDay := fun day : PyStr => ids.filter fun i =>
    fileOf codec posts i = (Subdir.spans, day) with hofDay
  set rowsOf := fun day : PyStr => (ofDay day).flatMap fun i =>
    (works codec posts i).spanRecords with hrowsOf
  have hday (day : PyStr) : s.disk.content (Subdir.spans, day) = jsonLines (rowsOf day) := by
    rw [hfiles]
    refine congrArg jsonLines (List.flatMap_congr fun i hi => ?_)
    have hdir : (works codec posts i).subdir = .spans :=
      congrArg Prod.fst (of_decide_eq_true (List.mem_filter.mp hi).2 :
        fileOf codec posts i = (Subdir.spans, day))
    rw [Work.spanRecords, if_pos hdir]
  have hdays : ((daysOf s.disk.files .spans none).flatMap ofDay).Perm (ids.filter fun i =>
    (fileOf codec posts i).1 = Subdir.spans) := by
    have hfilter (day : PyStr) :
        ofDay day = (ids.filter fun i => (fileOf codec posts i).1 = Subdir.spans).filter
          fun i => (fileOf codec posts i).2 = day := by
      rw [hofDay, List.filter_filter]
      refine List.filter_congr fun i _ => ?_
      rw [Bool.and_comm, ← Bool.decide_and]
      exact decide_eq_decide.mpr Prod.ext_iff
    rw [List.flatMap_congr fun day _ => hfilter day]
    refine flatMap_filter_perm (nodup_daysOf hdistinct) fun i hi =>
      mem_daysOf.mpr ((hnamed _).mpr ?_)
    obtain ⟨hi, hdir⟩ := List.mem_filter.mp hi
    exact ⟨i, hi, Prod.ext (of_decide_eq_true hdir) rfl⟩
  have hperm : ((daysOf s.disk.files .spans none).flatMap rowsOf).Perm
      (acknowledged codec posts s) := by
    rw [hrowsOf, ← List.flatMap_assoc]
    refine (hdays.flatMap_right _).trans ?_
    rw [flatMap_filter_of_nil]
    · exact acknowledged_perm hinv hnodup hids
    · exact fun i _ hdir => if_neg (of_decide_eq_false hdir)
  have hknown {v : Json} {day : PyStr}
    (hd : day ∈ daysOf s.disk.files .spans none) (hv : v ∈ rowsOf day) :
      v ∈ acknowledged codec posts s := hperm.mem_iff.mp (List.mem_flatMap.mpr ⟨day, hd, hv⟩)
  have hread : (daysOf s.disk.files .spans none).mapM (fun day =>
    loadRows ((get? s.disk.files (Subdir.spans, day)).getD [])) =
      .ok ((daysOf s.disk.files .spans none).map rowsOf) := by
    rw [mapM_eq_ok, List.forall₂_map_right_iff, List.forall₂_same]
    intro day hd
    change loadRows (s.disk.content (Subdir.spans, day)) = _
    rw [hday]
    exact loadRows_jsonLines fun v hv => (ofJson_acknowledged (hknown hd hv)).1
  refine ⟨_, ?_, hperm⟩
  rw [loadSpans, hread, List.flatMap_def]
  rfl

lemma spanRows_settled {s : State} (hinv : Inv codec posts s) (hs : Settled codec posts s) :
    ∃ rows, loadSpans s.disk.files none >>= (·.mapM SpanRow.ofJson) = .ok rows ∧
      rows.Perm (delivered codec posts s) := by
  obtain ⟨rows, hrows, hperm⟩ := loadSpans_settled hinv hs
  refine ⟨_, ?_, hperm.filterMap _⟩
  rw [hrows]
  exact mapM_ofJson fun v hv => (ofJson_acknowledged (hperm.mem_iff.mp hv)).2

/-- When the threads are done and no write has failed, the rows that load are the records of the
requests answered with 200, none lost, none doubled and none changed. -/
theorem acknowledged_spans_load (codec : Codec) (posts : ℕ → Post) (steps : List Step)
    (hs : Settled codec posts (run codec posts steps)) :
    ∃ rows, loadSpans (run codec posts steps).disk.files none = .ok rows ∧
      rows.Perm (acknowledged codec posts (run codec posts steps)) :=
  loadSpans_settled (inv_run steps) hs

/-- The spans may be posted in any batches, on any days and by any interleaving of the threads: if
the same spans were accepted, the same trajectories come out. -/
theorem trajectories_ignore_batching {codec codec' : Codec} {posts posts' : ℕ → Post}
    {steps steps' : List Step} (hs : Settled codec posts (run codec posts steps))
    (hs' : Settled codec' posts' (run codec' posts' steps'))
    (hsame : (delivered codec posts (run codec posts steps)).Perm
      (delivered codec' posts' (run codec' posts' steps')))
    (hstarts : StartsApart (delivered codec posts (run codec posts steps)))
    (decimal : CodePoint → Option ℕ) (truncate : PyStr → Except PyError ℤ)
    (contentOnly : Bool) (ts : List Trajectory)
    (hts : trajectoriesIn decimal truncate contentOnly (run codec posts steps).disk.files =
      .ok ts) :
    ∃ ts', trajectoriesIn decimal truncate contentOnly (run codec' posts' steps').disk.files =
      .ok ts' ∧ ts'.Perm ts := by
  obtain ⟨rows, hrows, hperm⟩ := spanRows_settled (inv_run steps) hs
  obtain ⟨rows', hrows', hperm'⟩ := spanRows_settled (inv_run steps') hs'
  have hapart : StartsApart rows := fun traceId =>
    ((hperm.filter _).map _).nodup_iff.mpr (hstarts traceId)
  rw [trajectoriesIn, hrows] at hts
  rw [trajectoriesIn, hrows']
  exact aggregateOpenclaw_perm (hperm.trans (hsame.trans hperm'.symm)) hapart hts

/-- A tool run of one trace that starts at `n`. -/
def spanAt (n : UInt8) : Span where
  traceId := [7]
  spanId := [n]
  parentSpanId := []
  name := ⟨py "run", by decide⟩
  startTimeUnixNano := n.toNat
  endTimeUnixNano := n.toNat + 1
  statusCode := 0
  statusMessage := ⟨[], rfl⟩
  attributes := []
  events := []

def startsCodec : Codec := ⟨.ok, fun body => .ok [⟨[], [body.map spanAt]⟩], fun _ => .ok []⟩

def postOf (body : Bytes) : Post := ⟨py "/v1/traces", false, body, py "d"⟩

def together (_ : ℕ) : Post := postOf [1, 2]

def apart (i : ℕ) : Post := postOf (if i = 0 then [2] else [1])

def togetherRun : State := run startsCodec together [.enter 0, .write, .write, .finish]

def apartRun : State :=
  run startsCodec apart [.enter 0, .enter 1, .write, .flush 5, .finish, .enter 1, .write, .finish]

lemma settled_of_answers {codec : Codec} {posts : ℕ → Post} {s : State}
    (hidle : s.disk.holder = none)
    (hanswers : ∀ a ∈ s.answers, a.2 = 200) : Settled codec posts s :=
  ⟨hidle, fun i _ h => by simpa using hanswers _ h⟩

lemma delivered_records {codec : Codec} {posts : ℕ → Post} {s : State} (spans : List Span)
    (h : acknowledged codec posts s = spans.map (Span.record [])) :
    delivered codec posts s = spans.map rowOf := by
  rw [delivered, h, List.filterMap_map]
  simp [Function.comp_def, ofJson_record, Except.toOption]

lemma delivered_together :
    delivered startsCodec together togetherRun = [rowOf (spanAt 1), rowOf (spanAt 2)] :=
  delivered_records [spanAt 1, spanAt 2] rfl

lemma delivered_apart :
    delivered startsCodec apart apartRun = [rowOf (spanAt 2), rowOf (spanAt 1)] :=
  delivered_records [spanAt 2, spanAt 1] rfl

lemma settled_together : Settled startsCodec together togetherRun :=
  settled_of_answers rfl (by
    have h : togetherRun.answers = [(0, 200)] := rfl
    simp [h])

lemma settled_apart : Settled startsCodec apart apartRun :=
  settled_of_answers rfl (by
    have h : apartRun.answers = [(0, 200), (1, 200)] := rfl
    simp [h])

lemma together_apart : StartsApart [rowOf (spanAt 1), rowOf (spanAt 2)] := by
  intro traceId
  refine List.Nodup.sublist (List.filter_sublist.map _) ?_
  decide

theorem acknowledged_spans_load_apart : ∃ rows, loadSpans apartRun.disk.files none = .ok rows ∧
      rows.Perm [(spanAt 2).record [], (spanAt 1).record []] :=
  acknowledged_spans_load startsCodec apart _ settled_apart

lemma aggregate_together : ∃ ts, aggregateOpenclaw (fun _ => none)
    (fun _ => .ok 0) false [rowOf (spanAt 1), rowOf (spanAt 2)] = .ok ts :=
  ⟨_, rfl⟩

theorem trajectories_ignore_batching_apart :
    ∃ ts ts', trajectoriesIn (fun _ => none)
    (fun _ => .ok 0) false togetherRun.disk.files = .ok ts ∧
      trajectoriesIn (fun _ => none) (fun _ => .ok 0) false apartRun.disk.files =
        .ok ts' ∧ ts'.Perm ts := by
  have hsame : (delivered startsCodec together togetherRun).Perm
      (delivered startsCodec apart apartRun) := by
    rw [delivered_together, delivered_apart]
    exact List.Perm.swap _ _ _
  have hstarts : StartsApart (delivered startsCodec together togetherRun) := by
    rw [delivered_together]
    exact together_apart
  obtain ⟨rows, hrows, hperm⟩ := spanRows_settled (inv_run _) settled_together
  obtain ⟨ts₀, hts₀⟩ := aggregate_together
  obtain ⟨ts, hts, -⟩ :=
    aggregateOpenclaw_perm (hperm.trans (List.Perm.of_eq delivered_together)).symm together_apart
      hts₀
  have hagg : trajectoriesIn (fun _ => none)
      (fun _ => .ok 0) false togetherRun.disk.files = .ok ts := by
    rw [trajectoriesIn, togetherRun, hrows]
    exact hts
  obtain ⟨ts', hts', hperm'⟩ :=
    trajectories_ignore_batching settled_together settled_apart hsame hstarts _ _ _ ts hagg
  exact ⟨ts, ts', hagg, hts', hperm'⟩

end Requests

end AgentTrajectory.TrajectoryAggregate
