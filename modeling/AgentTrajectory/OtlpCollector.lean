import AgentTrajectory.ChunkedBody
import AgentTrajectory.LockedAppend
import AgentTrajectory.PyJsonLines
import AgentTrajectory.PyJsonUnicode

/-! `otlp_collector.py`: the spans and log records of a request become one line each of the day's
file. Every request has a thread of its own, and one lock keeps their writes apart. -/
namespace AgentTrajectory.OtlpCollector
open PyText PyDict PyJson PyValue Json
open LockedAppend (Block Holder Explains written)

structure ProtoStr where
  text : PyStr
  valid : scalars text = true

inductive AnyValue
  | unset
  | string (s : ProtoStr)
  | bool (b : Bool)
  | int (n : ℤ)
  | double (lit : PyStr) (h : floatLit lit = true)
  | array (values : List AnyValue)
  | kvlist (values : List (ProtoStr × AnyValue))
  | bytes (b : Bytes)

def hex (b : Bytes) : PyStr := b.flatMap fun x => [hexDigit (x.toNat / 16), hexDigit (x.toNat % 16)]

mutual
def anyValueToPy : AnyValue → Json
  | .unset => .null
  | .string s => .str s.text
  | .bool b => .bool b
  | .int n => .int n
  | .double lit _ => .float lit
  | .array values => .arr (itemsToPy values)
  | .kvlist values => .obj (ofPairs (pairsToPy values))
  | .bytes b => .str (hex b)
def itemsToPy : List AnyValue → List Json
  | [] => []
  | v :: values => anyValueToPy v :: itemsToPy values
def pairsToPy : List (ProtoStr × AnyValue) → List (PyStr × Json)
  | [] => []
  | (k, v) :: values => (k.text, anyValueToPy v) :: pairsToPy values
end

abbrev Attributes := List (ProtoStr × AnyValue)

def attrsToDict (attrs : Attributes) : Dict PyStr Json := ofPairs (pairsToPy attrs)

structure SpanEvent where
  name : ProtoStr
  timeUnixNano : ℕ
  attributes : Attributes

structure Span where
  traceId : Bytes
  spanId : Bytes
  parentSpanId : Bytes
  name : ProtoStr
  startTimeUnixNano : ℕ
  endTimeUnixNano : ℕ
  statusCode : ℤ
  statusMessage : ProtoStr
  attributes : Attributes
  events : List SpanEvent

structure ResourceSpans where
  attributes : Attributes
  scopeSpans : List (List Span)

structure LogRecord where
  traceId : Bytes
  spanId : Bytes
  timeUnixNano : ℕ
  severityText : ProtoStr
  severityNumber : ℤ
  body : AnyValue
  attributes : Attributes

structure ResourceLogs where
  attributes : Attributes
  scopeLogs : List (List LogRecord)

/-- `s or None`. -/
def orNone (s : PyStr) : Json := if s = [] then .null else .str s

def SpanEvent.record (e : SpanEvent) : Json :=
  .obj [(py "name", .str e.name.text), (py "time_ns", .int e.timeUnixNano),
    (py "attributes", .obj (attrsToDict e.attributes))]

def Span.record (resource : Dict PyStr Json) (s : Span) : Json :=
  .obj [(py "trace_id", .str (hex s.traceId)), (py "span_id", .str (hex s.spanId)),
    (py "parent_span_id", orNone (hex s.parentSpanId)),
    (py "name", .str s.name.text), (py "start_ns", .int s.startTimeUnixNano),
      (py "end_ns", .int s.endTimeUnixNano),
    (py "status_code", .int s.statusCode), (py "status_message", orNone s.statusMessage.text),
    (py "attributes", .obj (attrsToDict s.attributes)),
      (py "events", .arr (s.events.map SpanEvent.record)),
    (py "resource", .obj resource)]

def spansOf (req : List ResourceSpans) : List (Dict PyStr Json × Span) :=
  req.flatMap fun rs => rs.scopeSpans.flatten.map fun span => (attrsToDict rs.attributes, span)

/-- `parse_traces` behind the protobuf parser. -/
def parseTraces (req : List ResourceSpans) : List Json := (spansOf req).map fun p => p.2.record p.1

def LogRecord.record (resource : Dict PyStr Json) (r : LogRecord) : Json :=
  .obj [(py "trace_id", orNone (hex r.traceId)), (py "span_id", orNone (hex r.spanId)),
    (py "time_ns", .int r.timeUnixNano),
    (py "severity", if r.severityText.text = [] then .int r.severityNumber else
      .str r.severityText.text),
    (py "body", anyValueToPy r.body), (py "attributes", .obj (attrsToDict r.attributes)),
      (py "resource", .obj resource)]

/-- `parse_logs` behind the protobuf parser. -/
def parseLogs (req : List ResourceLogs) : List Json :=
  req.flatMap fun rl => rl.scopeLogs.flatten.map fun rec => rec.record (attrsToDict rl.attributes)

theorem AnyValue.ind {P : AnyValue → Prop} (unset : P .unset) (string : ∀ s, P (.string s))
    (bool : ∀ b, P (.bool b)) (int : ∀ n, P (.int n)) (double : ∀ lit h, P (.double lit h))
    (array : ∀ vs, (∀ v ∈ vs, P v) → P (.array vs))
    (kvlist : ∀ kvs, (∀ kv ∈ kvs, P kv.2) → P (.kvlist kvs))
    (bytes : ∀ b, P (.bytes b)) (v : AnyValue) : P v :=
  @AnyValue.rec P (fun vs => ∀ v ∈ vs, P v) (fun kvs => ∀ kv ∈ kvs, P kv.2) (fun kv => P kv.2)
    unset string bool int double array kvlist bytes (by simp)
    (fun _ _ hx hxs => List.forall_mem_cons.mpr ⟨hx, hxs⟩) (by simp)
    (fun _ _ hx hxs => List.forall_mem_cons.mpr ⟨hx, hxs⟩) (fun _ _ h => h) v

lemma itemsToPy_eq (vs : List AnyValue) : itemsToPy vs = vs.map anyValueToPy := by
  induction vs with
  | nil => rfl
  | cons v vs ih => rw [itemsToPy, ih, List.map_cons]

lemma pairsToPy_eq (kvs : Attributes) :
    pairsToPy kvs = kvs.map fun kv => (kv.1.text, anyValueToPy kv.2) := by
  induction kvs with
  | nil => rfl
  | cons kv kvs ih => rw [pairsToPy, ih, List.map_cons]

lemma wf_obj {d : Dict PyStr Json} (hkeys : (keys d).Nodup) (h : ∀ kv ∈ d, kv.2.wf = true) :
    (Json.obj d).wf = true := by
  rw [wf, decide_eq_true hkeys, Bool.true_and]
  exact (wfPairs_iff d).mpr h

lemma wf_ofPairs {ps : List (PyStr × Json)} (h : ∀ p ∈ ps, p.2.wf = true) :
    (Json.obj (ofPairs ps)).wf = true := by
  have hnodup : (keys (ofPairs ps)).Nodup := keys_nodup_update (by simp [keys]) ps
  exact wf_obj hnodup fun kv hkv => h kv (mem_of_get?_ofPairs (get?_of_mem hnodup hkv))

lemma wf_anyValueToPy (v : AnyValue) : (anyValueToPy v).wf = true := by
  induction v using AnyValue.ind with
  | unset => rfl
  | string s => rfl
  | bool b => rfl
  | int n => rfl
  | double lit h => exact h
  | array vs ih =>
    rw [anyValueToPy, itemsToPy_eq, wf, wfItems_iff]
    intro x hx
    obtain ⟨v, hv, rfl⟩ := List.mem_map.mp hx
    exact ih v hv
  | kvlist kvs ih =>
    rw [anyValueToPy, pairsToPy_eq]
    refine wf_ofPairs fun p hp => ?_
    obtain ⟨kv, hkv, rfl⟩ := List.mem_map.mp hp
    exact ih kv hkv
  | bytes b => rfl

lemma wf_attrsToDict (attrs : Attributes) :
    (Json.obj (attrsToDict attrs)).wf = true := wf_anyValueToPy (.kvlist attrs)

lemma wf_orNone (s : PyStr) : (orNone s).wf = true := by
  rw [orNone]
  split_ifs <;> rfl

lemma SpanEvent.wf_record (e : SpanEvent) : e.record.wf = true := by
  have hkeys : [py "name", py "time_ns", py "attributes"].Nodup := by simp
  refine wf_obj hkeys ?_
  simp only [List.forall_mem_cons, List.not_mem_nil, false_implies, implies_true, and_true]
  exact ⟨rfl, rfl, wf_attrsToDict _⟩

lemma Span.wf_record (attrs : Attributes) (s : Span) :
    (s.record (attrsToDict attrs)).wf = true := by
  have hkeys : [py "trace_id", py "span_id", py "parent_span_id", py "name", py "start_ns",
    py "end_ns", py "status_code",
      py "status_message", py "attributes", py "events", py "resource"].Nodup := by simp
  have hevents : (Json.arr (s.events.map SpanEvent.record)).wf = true := by
    rw [wf, wfItems_iff]
    intro x hx
    obtain ⟨e, -, rfl⟩ := List.mem_map.mp hx
    exact e.wf_record
  refine wf_obj hkeys ?_
  simp only [List.forall_mem_cons, List.not_mem_nil, false_implies, implies_true, and_true]
  exact ⟨rfl, rfl, wf_orNone _, rfl, rfl, rfl, rfl, wf_orNone _, wf_attrsToDict _,
    hevents, wf_attrsToDict attrs⟩

/-- The libraries that unpack a body. -/
structure Codec where
  decompress : Bytes → Except PyError Bytes
  traces : Bytes → Except PyError (List ResourceSpans)
  logs : Bytes → Except PyError (List ResourceLogs)

/-- A request whose body has been read, and the date at which its thread asks for the day's file. -/
structure Post where
  path : PyStr
  gzip : Bool
  body : Bytes
  day : PyStr

inductive Subdir
  | spans
  | logs
  deriving DecidableEq

abbrev File := Subdir × PyStr

/-- What a request asks for: an answer, lines in a file, or nothing because it broke off in front of
the `try`. -/
inductive Work
  | answer (code : ℕ)
  | append (dir : Subdir) (records : List Json)
  | broken

def parsed {α : Type} (dir : Subdir) (parse : α → List Json) : Except PyError α → Work
  | .ok req => .append dir (parse req)
  | .error _ => .answer 400

/-- `do_POST` up to `append_jsonl`. -/
def doPost (codec : Codec) (p : Post) : Work :=
  match if p.gzip then codec.decompress p.body else .ok p.body with
  | .error _ => .broken
  | .ok body =>
      let path := p.path.rdropWhile (· == cp '/')
      if path = py "/v1/traces" then parsed .spans parseTraces (codec.traces body)
      else if path = py "/v1/logs" then parsed .logs parseLogs (codec.logs body)
      else if path = py "/v1/metrics" then .answer 200
      else .answer 404

def Work.records : Work → List Json
  | .append _ records => records
  | _ => []

def Work.subdir : Work → Subdir
  | .append dir _ => dir
  | _ => .spans

def Work.spanRecords (w : Work) : List Json := if w.subdir = .spans then w.records else []

lemma mem_parsed {α : Type} {dir : Subdir} {parse : α → List Json} {x : Except PyError α} {v : Json}
    (h : v ∈ (parsed dir parse x).spanRecords) : dir = .spans ∧ ∃ req, v ∈ parse req := by
  cases x with
  | error e => simp [parsed, Work.spanRecords, Work.records, Work.subdir] at h
  | ok req =>
    cases dir with
    | spans => exact ⟨rfl, req, h⟩
    | logs => simp [parsed, Work.spanRecords, Work.subdir] at h

lemma mem_spanRecords {codec : Codec} {p : Post} {v : Json} (h : v ∈ (doPost codec p).spanRecords) :
    ∃ attrs, ∃ s : Span, v = s.record (attrsToDict attrs) := by
  rw [doPost] at h
  split at h
  · simp [Work.spanRecords, Work.records, Work.subdir] at h
  · simp only at h
    split_ifs at h
    · obtain ⟨-, req, hv⟩ := mem_parsed h
      obtain ⟨q, hq, rfl⟩ := List.mem_map.mp hv
      obtain ⟨rs, -, hq⟩ := List.mem_flatMap.mp hq
      obtain ⟨span, -, rfl⟩ := List.mem_map.mp hq
      exact ⟨rs.attributes, span, rfl⟩
    · exact absurd (mem_parsed h).1 (by decide)
    · simp [Work.spanRecords, Work.records, Work.subdir] at h
    · simp [Work.spanRecords, Work.records, Work.subdir] at h

/-- The lines that `append_jsonl` writes for a request. -/
def Work.lines (w : Work) : List PyStr := w.records.map fun r => dumps r ++ [cp '\n']

/-- The files with the lock, and the answers given. -/
structure State where
  disk : LockedAppend.State ℕ File CodePoint
  answers : List (ℕ × ℕ)

def State.empty : State := ⟨.empty, []⟩

/-- What a thread or the operating system does next. A directory that cannot be made, a file that
cannot be opened and a write that fails are exceptions. -/
inductive Step
  | reply (i : ℕ)
  | enter (i : ℕ)
  | write
  | flush (n : ℕ)
  | finish
  | fail (n : ℕ)

section Threads
variable (codec : Codec) (posts : ℕ → Post)

def works (i : ℕ) : Work := doPost codec (posts i)

def fileOf (i : ℕ) : File := ((works codec posts i).subdir, (posts i).day)

def linesOf (i : ℕ) : List PyStr := (works codec posts i).lines

def State.begun (s : State) : List ℕ := s.answers.map Prod.fst ++ s.disk.owner

def diskStep (e : LockedAppend.Step ℕ) (s : State) : State :=
  { s with disk := LockedAppend.step (fileOf codec posts) (linesOf codec posts) s.disk e }

def State.answer (i code : ℕ) (s : State) : State := { s with answers := s.answers ++ [(i, code)] }

def step (s : State) : Step → State
  | .reply i =>
      if i ∈ s.begun then s
      else
        match works codec posts i with
        | .answer code => s.answer i code
        | .append _ _ => s.answer i 400
        | .broken => s
  | .enter i =>
      match works codec posts i with
      | .append _ _ => if i ∈ s.begun then s else diskStep codec posts (.enter i) s
      | _ => s
  | .write => diskStep codec posts .write s
  | .flush n => diskStep codec posts (.flush n) s
  | .finish =>
      match s.disk.holder with
      | some ⟨i, [], _⟩ => (diskStep codec posts .close s).answer i 200
      | _ => s
  | .fail n =>
      match s.disk.holder with
      | some h => (diskStep codec posts (.abort n) s).answer h.writer 400
      | none => s

def run (steps : List Step) : State := steps.foldl (step codec posts) State.empty

variable {codec posts}

def Appends (codec : Codec) (posts : ℕ → Post) (i : ℕ) :
    Prop := ∃ dir records, works codec posts i = .append dir records

lemma step_cases (s : State) (e : Step) : step codec posts s e = s ∨
    (∃ i code, step codec posts s e = s.answer i code ∧ i ∉ s.begun ∧
      (Appends codec posts i → code = 400)) ∨
    (∃ i, step codec posts s e = diskStep codec posts (.enter i) s ∧ i ∉ s.begun ∧
      Appends codec posts i) ∨
    (∃ d, step codec posts s e = diskStep codec posts d s ∧ (d = .write ∨ ∃ n, d = .flush n)) ∨
    (∃ i buffer, step codec posts s e = (diskStep codec posts .close s).answer i 200 ∧
      s.disk.holder = some ⟨i, [], buffer⟩) ∨
    (∃ h n, step codec posts s e = (diskStep codec posts (.abort n) s).answer h.writer 400 ∧
      s.disk.holder = some h) := by
  cases e with
  | reply i =>
    by_cases hi : i ∈ s.begun
    · exact .inl (if_pos hi)
    · cases hw : works codec posts i with
      | answer code =>
        exact .inr (.inl ⟨i, code, by simp [step, hi, hw], hi,
          fun ⟨_, _, ha⟩ => by simp [hw] at ha⟩)
      | append dir records => exact .inr (.inl ⟨i, 400, by simp [step, hi, hw], hi, fun _ => rfl⟩)
      | broken => exact .inl (by simp [step, hi, hw])
  | enter i =>
    cases hw : works codec posts i with
    | answer code => exact .inl (by simp [step, hw])
    | append dir records =>
      by_cases hi : i ∈ s.begun
      · exact .inl (by simp [step, hw, hi])
      · exact .inr (.inr (.inl ⟨i, by simp [step, hw, hi], hi, dir, records, hw⟩))
    | broken => exact .inl (by simp [step, hw])
  | write => exact .inr (.inr (.inr (.inl ⟨_, rfl, .inl rfl⟩)))
  | flush n => exact .inr (.inr (.inr (.inl ⟨_, rfl, .inr ⟨n, rfl⟩⟩)))
  | finish =>
    cases hh : s.disk.holder with
    | none => exact .inl (by simp [step, hh])
    | some h =>
      obtain ⟨i, todo, buffer⟩ := h
      cases todo with
      | nil => exact .inr (.inr (.inr (.inr (.inl ⟨i, buffer, by simp [step, hh], rfl⟩))))
      | cons line todo => exact .inl (by simp [step, hh])
  | fail n =>
    cases hh : s.disk.holder with
    | none => exact .inl (by simp [step, hh])
    | some h => exact .inr (.inr (.inr (.inr (.inr ⟨h, n, by simp [step, hh], rfl⟩))))

def codeOf (ok : Bool) : ℕ := if ok then 200 else 400

structure Inv (codec : Codec) (posts : ℕ → Post) (s : State) : Prop where
  explained : ∃ closed opened, Explains (fileOf codec posts)
    (linesOf codec posts) closed opened s.disk
  answered : ∀ i ok, (i, ok) ∈ s.disk.results → (i, codeOf ok) ∈ s.answers
  stored : ∀ i, Appends codec posts i → (i, 200) ∈ s.answers → (i, true) ∈ s.disk.results
  asked : ∀ i ∈ s.disk.entered, Appends codec posts i
  once : s.begun.Nodup

lemma inv_empty : Inv codec posts State.empty :=
  ⟨⟨[], [], LockedAppend.explains_empty⟩, by simp [State.empty,
    LockedAppend.State.empty], by simp [State.empty],
    by simp [State.empty, LockedAppend.State.empty, LockedAppend.State.entered,
      LockedAppend.State.owner],
    by simp [State.begun, State.empty, LockedAppend.State.empty, LockedAppend.State.owner]⟩

lemma Inv.leave {s : State} (h : Inv codec posts s) {holder : Holder ℕ CodePoint}
    (e : LockedAppend.Step ℕ) (ok : Bool) (hholder : s.disk.holder = some holder)
    (hresults : (diskStep codec posts e s).disk.results = s.disk.results ++ [(holder.writer, ok)])
    (howner : (diskStep codec posts e s).disk.owner = []) :
    Inv codec posts ((diskStep codec posts e s).answer holder.writer (codeOf ok)) := by
  obtain ⟨closed, opened, hexplains⟩ := h.explained
  have hasked : Appends codec posts holder.writer :=
    h.asked _ (List.mem_append_right _ (by simp [LockedAppend.State.owner, hholder]))
  have honce : s.begun = s.answers.map Prod.fst ++ [holder.writer] := by simp [State.begun,
    LockedAppend.State.owner, hholder]
  refine ⟨hexplains.step e, fun i r hr => ?_, fun i hi ha => ?_, fun i hi => ?_, ?_⟩
  · rw [State.answer, hresults] at hr
    rcases List.mem_append.mp hr with hr | hr
    · exact List.mem_append_left _ (h.answered i r hr)
    · obtain ⟨rfl, rfl⟩ := Prod.mk.inj (List.mem_singleton.mp hr)
      exact List.mem_append_right _ (by simp)
  · rw [State.answer, hresults]
    rcases List.mem_append.mp ha with ha | ha
    · exact List.mem_append_left _ (h.stored i hi ha)
    · obtain ⟨rfl, hcode⟩ := Prod.mk.inj (List.mem_singleton.mp ha)
      have hok : ok = true := by
        cases ok with
        | true => rfl
        | false => simp [codeOf] at hcode
      simp [hok]
  · rw [State.answer, LockedAppend.State.entered, hresults, howner] at hi
    simp only [List.map_append, List.map_cons, List.map_nil, List.append_nil] at hi
    rcases List.mem_append.mp hi with hi | hi
    · exact h.asked i (List.mem_append_left _ hi)
    · rw [List.mem_singleton.mp hi]
      exact hasked
  · have hbegun : ((diskStep codec posts e s).answer holder.writer (codeOf ok)).begun =
        s.begun := by
      rw [honce, State.begun, State.answer, howner]
      simp [diskStep]
    rw [hbegun]
    exact h.once

lemma Inv.step {s : State} (h : Inv codec posts s) (e : Step) :
    Inv codec posts (step codec posts s e) := by
  obtain ⟨closed, opened, hexplains⟩ := h.explained
  rcases @step_cases codec posts s e with
    hs | ⟨i, code, hs, hi, hcode⟩ | ⟨i, hs, hi, ha⟩ | ⟨d, hs, hd⟩ | ⟨i, buffer, hs, hholder⟩ |
      ⟨holder, n, hs, hholder⟩
  · rwa [hs]
  · rw [hs]
    refine ⟨h.explained, fun j ok hr => List.mem_append_left _ (h.answered j ok hr),
      fun j hj hin => ?_, h.asked, ?_⟩
    · rcases List.mem_append.mp hin with hin | hin
      · exact h.stored j hj hin
      · obtain ⟨rfl, rfl⟩ := Prod.mk.inj (List.mem_singleton.mp hin)
        exact absurd (hcode hj) (by decide)
    · have hperm : (s.answer i code).begun.Perm (i :: s.begun) := by
        simp only [State.begun, State.answer, List.map_append, List.map_cons, List.map_nil,
          List.append_assoc, List.singleton_append]
        exact List.perm_middle
      exact hperm.nodup_iff.mpr (List.nodup_cons.mpr ⟨hi, h.once⟩)
  · rw [hs]
    by_cases hg : s.disk.holder.isNone ∧ i ∉ s.disk.entered
    · have hd : diskStep codec posts (.enter i) s = { s with disk := { s.disk with
          files := extendAt s.disk.files (fileOf codec posts i) []
          holder := some ⟨i, linesOf codec posts i, []⟩ } } := by
        rw [diskStep, LockedAppend.step, if_pos hg]
      have hfree : s.disk.owner = [] := by simp [LockedAppend.State.owner,
        Option.isNone_iff_eq_none.mp hg.1]
      refine ⟨hexplains.step (.enter i), ?_, ?_, ?_, ?_⟩
      · rw [hd]
        exact h.answered
      · rw [hd]
        exact h.stored
      · rw [hd]
        intro j hj
        rcases List.mem_append.mp hj with hj | hj
        · exact h.asked j (List.mem_append_left _ hj)
        · obtain rfl : j = i := by simpa [LockedAppend.State.owner] using hj
          exact ha
      · rw [hd]
        have hbegun : s.begun = s.answers.map Prod.fst := by
          rw [State.begun, hfree, List.append_nil]
        have honce := h.once
        rw [hbegun] at honce hi
        exact List.Nodup.append honce (List.nodup_singleton i) (List.disjoint_singleton.mpr hi)
    · have hd : diskStep codec posts (.enter i) s = s := by
        rw [diskStep, LockedAppend.step, if_neg hg]
      rwa [hd]
  · have hkeep : (diskStep codec posts d s).disk.results = s.disk.results ∧
      (diskStep codec posts d s).disk.owner = s.disk.owner :=
      LockedAppend.step_keeps s.disk hd
    have hbegun : (diskStep codec posts d s).begun = s.begun := by rw [State.begun, hkeep.2]; rfl
    have hentered : (diskStep codec posts d s).disk.entered = s.disk.entered := by
      rw [LockedAppend.State.entered, hkeep.1, hkeep.2]
      rfl
    rw [hs]
    refine ⟨hexplains.step d, ?_, ?_, ?_, ?_⟩
    · rw [hkeep.1]
      exact h.answered
    · rw [hkeep.1]
      exact h.stored
    · rw [hentered]
      exact h.asked
    · rw [hbegun]
      exact h.once
  · rw [hs]
    refine h.leave .close true hholder ?_ ?_
    · simp [diskStep, LockedAppend.step, hholder]
    · simp [diskStep, LockedAppend.step, hholder, LockedAppend.State.owner]
  · rw [hs]
    refine h.leave (.abort n) false hholder ?_ ?_
    · simp [diskStep, LockedAppend.step, hholder]
    · simp [diskStep, LockedAppend.step, hholder, LockedAppend.State.owner]

lemma inv_run (steps : List Step) : Inv codec posts (run codec posts steps) := by
  induction steps using List.reverseRecOn with
  | nil => exact inv_empty
  | append_singleton steps e ih =>
    rw [run, List.foldl_append]
    exact ih.step e

lemma flatten_linesOf (i : ℕ) :
    (linesOf codec posts i).flatten = jsonLines (works codec posts i).records :=
  (List.flatMap_def ..).symm

lemma appends_records {i : ℕ} (h : Appends codec posts i) :
    works codec posts i = .append (fileOf codec posts i).1 (works codec posts i).records := by
  obtain ⟨dir, records, hw⟩ := h
  rw [fileOf, hw]
  rfl

/-- At every moment of every run the files hold the texts of the requests one after the other: whole
if the request was answered with 200, a part from the front if it failed or still holds the lock. -/
structure Serial (codec : Codec) (posts : ℕ → Post) (s : State)
    (closed opened : List (Block ℕ CodePoint)) : Prop where
  files : ∀ f, s.disk.content f = written (fileOf codec posts) (closed ++ opened) f
  blocks : ∀ b ∈ closed ++ opened, ∃ records, works codec posts b.writer =
    .append (fileOf codec posts b.writer).1 records ∧
    b.text <+: jsonLines records
  settled : ∀ b ∈ closed, (b.writer, 400) ∈ s.answers ∨
    (b.writer, 200) ∈ s.answers ∧ b.text = jsonLines (works codec posts b.writer).records
  accepted : ∀ i, Appends codec posts i → (i, 200) ∈ s.answers → ∃ b ∈ closed, b.writer = i
  once : ((closed ++ opened).map Block.writer).Nodup
  answered : (s.answers.map Prod.fst).Nodup

/-- Whatever the interleaving of the threads, the requests are appended one at a time: a request
answered with 200 stands in its file once and as a whole, and one answered with 400 leaves at most a
part from its front. -/
theorem posts_serialize (codec : Codec) (posts : ℕ → Post) (steps : List Step) :
    ∃ closed opened, Serial codec posts (run codec posts steps) closed opened := by
  have hinv := @inv_run codec posts steps
  obtain ⟨closed, opened, h⟩ := hinv.explained
  obtain ⟨hentered, htexts⟩ := h.blocks
  refine ⟨closed, opened, h.files, fun b hb => ?_, fun b hb => ?_, fun i hi ha => ?_, ?_, ?_⟩
  · have hasked := hinv.asked b.writer (hentered ▸ List.mem_map_of_mem hb)
    refine ⟨_, appends_records hasked, ?_⟩
    rw [← flatten_linesOf]
    exact htexts b hb
  · obtain ⟨⟨i, ok⟩, hmem, rfl, -, hwhole⟩ := RelatedLists.forall₂_mem_left h.done hb
    have hanswer := hinv.answered _ _ hmem
    cases ok with
    | true => exact .inr ⟨hanswer, (hwhole rfl).trans (flatten_linesOf _)⟩
    | false => exact .inl hanswer
  · obtain ⟨b, hb, hr⟩ := RelatedLists.forall₂_mem_right h.done (hinv.stored i hi ha)
    exact ⟨b, hb, hr.1⟩
  · rw [hentered]
    exact h.once
  · exact (List.nodup_append.mp hinv.once).1

/-- No thread holds the lock and no request that has something to write was answered with 400. -/
structure Settled (codec : Codec) (posts : ℕ → Post) (s : State) : Prop where
  idle : s.disk.holder = none
  clean : ∀ i, Appends codec posts i → (i, 400) ∉ s.answers

/-- When no write has failed, every file has the records of the requests for it, whole and in the
order in which the threads left the lock. -/
lemma Inv.settled {s : State} (h : Inv codec posts s) (hs : Settled codec posts s) :
    ∃ ids : List ℕ, ids.Nodup ∧ (∀ i, i ∈ ids ↔ Appends codec posts i ∧ (i, 200) ∈ s.answers) ∧
      (∀ f, s.disk.content f = jsonLines ((ids.filter fun i => fileOf codec posts i = f).flatMap
        fun i => (works codec posts i).records)) ∧
      (∀ f, f ∈ keys s.disk.files ↔ ∃ i ∈ ids, fileOf codec posts i = f) ∧
        (keys s.disk.files).Nodup := by
  obtain ⟨closed, opened, hexplains⟩ := h.explained
  have hopened : opened = [] := by simpa [hs.idle, LockedAppend.Opens] using hexplains.current
  subst hopened
  have hentered : closed.map Block.writer = s.disk.entered := by simpa using hexplains.blocks.1
  have hwhole : ∀ b ∈ closed, (b.writer, true) ∈ s.disk.results ∧
      b.text = jsonLines (works codec posts b.writer).records := by
    intro b hb
    obtain ⟨⟨i, ok⟩, hmem, rfl, -, htext⟩ := RelatedLists.forall₂_mem_left hexplains.done hb
    cases ok with
    | true => exact ⟨hmem, (htext rfl).trans (flatten_linesOf _)⟩
    | false =>
      have hasked := h.asked b.writer (hentered ▸ List.mem_map_of_mem hb)
      exact absurd (h.answered _ _ hmem) (hs.clean _ hasked)
  refine ⟨closed.map Block.writer, hentered ▸ hexplains.once, fun i =>
    ⟨fun hi => ?_, fun hi => ?_⟩, fun f => ?_,
    fun f => ?_, hexplains.distinct⟩
  · obtain ⟨b, hb, rfl⟩ := List.mem_map.mp hi
    exact ⟨h.asked _ (hentered ▸ hi), h.answered _ _ (hwhole b hb).1⟩
  · rw [hentered]
    exact List.mem_append_left _ (List.mem_map.mpr ⟨_, h.stored i hi.1 hi.2, rfl⟩)
  · rw [hexplains.files, List.append_nil, written, List.filter_map, List.flatMap_map,
      jsonLines, List.flatMap_assoc]
    refine List.flatMap_congr fun b hb => ?_
    exact (hwhole b (List.mem_filter.mp hb).1).2
  · rw [hexplains.named, List.append_nil]
    simp

end Threads

end AgentTrajectory.OtlpCollector
