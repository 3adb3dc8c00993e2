import AgentTrajectory.NormalizedToSft
import AgentTrajectory.PyJsonRoundtrip

/-! How the calls and the results of a transcript are paired. The adapter keeps a queue of
names that every planner response replaces, the converter a queue of ids that only a message
with calls replaces. The two queues agree or the names have run out, so the ids and the names
are right; but a result behind a response without calls is given to an older message. -/
namespace AgentTrajectory.ToolPairing
open PyText PyDict PyJson PyValue AntigravityAdapter NormalizedToSft

section Spec

/-- The calls of an assistant message. -/
def calls : SftMessage → List SftCall
  | .assistant _ _ cs => cs
  | _ => []

/-- The `tool_call_id` of a tool message. -/
def answers : SftMessage → Option PyStr
  | .tool _ id _ => id
  | _ => none

def callIds (m : SftMessage) : List PyStr := (calls m).map SftCall.id
def allCalls (out : List SftMessage) : List SftCall := out.flatMap calls
def allIds (out : List SftMessage) : List PyStr := out.flatMap callIds
def usedIds (out : List SftMessage) : List PyStr := out.filterMap answers

def nearest (cur : List SftCall) : SftMessage → List SftCall
  | .assistant _ _ cs => cs
  | _ => cur

def refersTo (cur : List SftCall) (m : SftMessage) : Bool :=
  (answers m).all fun id => cur.any (·.id == id)

/-- Every tool message with an id answers a call of the nearest assistant message before
it; `cur` are the calls of the last one so far. -/
def refersFrom (cur : List SftCall) : List SftMessage → Bool
  | [] => true
  | m :: ms => refersTo cur m && refersFrom (nearest cur m) ms

/-- The calls and the results of a sample are paired. -/
structure Paired (out : List SftMessage) : Prop where
  distinct : (allIds out).Nodup
  refers : refersFrom [] out = true
  in_order : ∀ m ∈ out, (usedIds out).filter (· ∈ callIds m) <+: callIds m
  used_once : (usedIds out).Nodup
  named : ∀ content id name, SftMessage.tool content (some id) (some name) ∈ out →
    ∀ call ∈ allCalls out, call.id = id → call.name = name

def eventKind : Json → Kind
  | .obj e => kindOf (getNone e (py "type"))
  | _ => .other

def isObj : Json → Bool
  | .obj _ => true
  | _ => false

def objCount : Json → ℕ
  | .arr tcs => tcs.countP isObj
  | _ => 0

def plannedCalls : Json → ℕ
  | .obj e => objCount (getNone e (py "tool_calls"))
  | _ => 0

/-- No result comes behind a response without calls, that is while `quiet`, as long as calls
of an earlier response, `waiting` many, are still without one. -/
def noLateResult : ℕ → Bool → List Json → Bool
  | _, _, [] => true
  | waiting, quiet, e :: es =>
      match eventKind e with
      | .plannerResponse =>
          if plannedCalls e = 0 then noLateResult waiting true es
          else noLateResult (plannedCalls e) false es
      | .toolResult => !(quiet && decide (0 < waiting)) && noLateResult (waiting - 1) quiet es
      | _ => noLateResult waiting quiet es

end Spec

section Events

def idle : Body → Bool
  | .system _ _ => true
  | .user _ _ => true
  | _ => false

inductive Effect (e : Dict PyStr Json) (st st' : AntigravityAdapter.State) : Prop
  | planned (r c : Option Json) (tcs : List ToolCall)
      (kind : kindOf (getNone e (py "type")) = .plannerResponse)
      (norm : normToolCalls (getNone e (py "tool_calls")) = .ok tcs)
      (messages : st'.messages = st.messages ++ [.assistant r c tcs])
      (names : st'.pendingToolNames = tcs.map ToolCall.name)
  | result (content : Json)
      (kind : kindOf (getNone e (py "type")) = .toolResult)
      (messages : st'.messages = st.messages ++
        [.tool (st.pendingToolNames.head?.getD .null) content])
      (names : st'.pendingToolNames = st.pendingToolNames.tail)
  | idle (new : List Body)
      (planner : kindOf (getNone e (py "type")) ≠ .plannerResponse)
      (result : kindOf (getNone e (py "type")) ≠ .toolResult)
      (idle : ∀ b ∈ new, idle b = true)
      (messages : st'.messages = st.messages ++ new)
      (names : st'.pendingToolNames = st.pendingToolNames)

lemma noteSystem_effect (system : Option PyStr) (st : AntigravityAdapter.State) :
    ∃ new, (∀ b ∈ new, idle b = true) ∧ (st.noteSystem system).messages = st.messages ++ new ∧
      (st.noteSystem system).pendingToolNames = st.pendingToolNames := by
  cases system with
  | none => exact ⟨[], by simp, by simp [State.noteSystem], rfl⟩
  | some s =>
    rw [State.noteSystem]
    split
    · exact ⟨[_], by simp [idle], rfl, rfl⟩
    · exact ⟨[], by simp, by simp, rfl⟩

lemma adaptEvent_effect {e : Dict PyStr Json} {st st' : AntigravityAdapter.State}
    (h : adaptEvent st e = .ok st') : Effect e st st' := by
  rw [adaptEvent] at h
  cases hk : kindOf (getNone e (py "type")) with
  | plannerResponse =>
    simp only [hk, map_eq_ok] at h
    obtain ⟨tcs, htcs, rfl⟩ := h
    exact .planned _ _ tcs hk htcs rfl rfl
  | toolResult =>
    simp only [hk, Except.ok.injEq] at h
    subst h
    exact .result _ hk rfl rfl
  | userInput | conversationHistory =>
    simp only [hk, map_eq_ok] at h
    obtain ⟨r, -, rfl⟩ := h
    obtain ⟨new, hidle, hm, hn⟩ := noteSystem_effect r.system st
    refine .idle (new ++ [_]) (by simp [hk]) (by simp [hk]) ?_ (by simp [State.append, hm]; rfl) hn
    intro b hb
    rcases List.mem_append.mp hb with hb | hb
    · exact hidle b hb
    · obtain rfl := List.mem_singleton.mp hb
      rfl
  | systemMessage | errorMessage | other =>
    simp only [hk, Except.ok.injEq] at h
    subst h
    exact .idle [_] (by simp [hk]) (by simp [hk]) (by simp [idle]) rfl rfl

lemma normToolCall_isSome {v : Json} {tc : Option ToolCall} (h : normToolCall v = .ok tc) :
    tc.isSome = isObj v := by
  cases v with
  | obj d =>
    obtain ⟨args, -, rfl⟩ := map_eq_ok.mp h
    rfl
  | _ => simp_all [normToolCall, isObj]

lemma length_reduceOption {α β : Type} {R : α → Option β → Prop} {p : α → Bool}
    (hR : ∀ a b, R a b → b.isSome = p a) {xs : List α} {ys : List (Option β)}
    (h : List.Forall₂ R xs ys) : ys.reduceOption.length = xs.countP p := by
  induction h with
  | nil => rfl
  | @cons a b xs ys hab _ ih =>
    have hb := hR a b hab
    cases b with
    | none => simp_all
    | some b => simp_all

lemma countP_listOf {v : Json} {xs : List Json} (h : listOf (orEmpty v (.arr [])) = .ok xs) :
    xs.countP isObj = objCount v := by
  rw [orEmpty] at h
  split_ifs at h with ht
  · cases v with
    | arr tcs =>
      obtain rfl := Except.ok.inj h
      rfl
    | str s =>
      obtain rfl := Except.ok.inj h
      simp [objCount, isObj]
    | obj d =>
      obtain rfl := Except.ok.inj h
      simp [objCount, isObj]
    | _ => simp [listOf] at h
  · obtain rfl := Except.ok.inj h
    cases v with
    | arr tcs =>
      cases tcs with
      | nil => rfl
      | cons _ _ => simp [Json.truthy] at ht
    | _ => rfl

lemma length_normToolCalls {e : Dict PyStr Json} {tcs : List ToolCall}
    (h : normToolCalls (getNone e (py "tool_calls")) = .ok tcs) :
    tcs.length = plannedCalls (.obj e) := by
  obtain ⟨xs, hxs, h⟩ := bind_eq_ok.mp h
  obtain ⟨ys, hys, h⟩ := bind_eq_ok.mp h
  obtain rfl := Except.ok.inj h
  rw [length_reduceOption (fun a b hab => normToolCall_isSome hab) (mapM_eq_ok.mp hys),
    countP_listOf hxs]
  rfl

end Events

section Queues

lemma callId_injective : Function.Injective callId := by
  intro m n h
  have hd := congrArg digitsValue (List.append_cancel_left h)
  rwa [digitsValue_natDigits, digitsValue_natDigits] at hd

@[simp] lemma allCalls_append (out : List SftMessage) (m : SftMessage) :
    allCalls (out ++ [m]) = allCalls out ++ calls m := by
  simp [allCalls]

@[simp] lemma allIds_append (out : List SftMessage) (m : SftMessage) :
    allIds (out ++ [m]) = allIds out ++ callIds m := by
  simp [allIds]

@[simp] lemma usedIds_append (out : List SftMessage) (m : SftMessage) :
    usedIds (out ++ [m]) = usedIds out ++ (answers m).toList := by
  cases h : answers m <;> simp [usedIds, h]

lemma map_id_allCalls (out : List SftMessage) : (allCalls out).map SftCall.id = allIds out := by
  simp only [allCalls, allIds, List.map_flatMap]
  rfl

lemma map_id_numbered (n : ℕ) (tcs : List ToolCall) :
    (numbered n tcs).map SftCall.id = (List.range' n tcs.length).map callId := by
  rw [numbered, List.map_map, ← List.zipIdx_map_snd n tcs, List.map_map]
  rfl

lemma map_name_numbered (n : ℕ) (tcs : List ToolCall) :
    (numbered n tcs).map SftCall.name = tcs.map ToolCall.name := by
  rw [numbered, List.map_map]
  conv_rhs => rw [← List.zipIdx_map_fst n tcs, List.map_map]
  rfl

lemma callIds_eq_of_mem {out : List SftMessage} (hnd : (allIds out).Nodup) {m m' : SftMessage}
    (hm : m ∈ out) (hm' : m' ∈ out) {id : PyStr} (h : id ∈ callIds m) (h' : id ∈ callIds m') :
    callIds m = callIds m' := by
  by_cases hmm : m = m'
  · rw [hmm]
  · have : Std.Symm (Function.onFun List.Disjoint callIds) := ⟨fun _ _ hd => hd.symm⟩
    have hdis : List.Disjoint (callIds m) (callIds m') :=
      (List.nodup_flatMap.mp hnd).2.forall hm hm' hmm
    exact absurd h' (hdis h)

/-- The two queues and the messages written so far: `waiting` are the calls of the latest
message with calls that have no result yet. -/
structure Matched (names : List Json) (waiting : List SftCall) (st : NormalizedToSft.State) :
    Prop where
  pending : st.pendingIds = waiting.map SftCall.id
  names_or : names = [] ∨ names = waiting.map SftCall.name
  ids : allIds st.out = (List.range st.callSeq).map callId
  ordered : ∀ m ∈ st.out, (usedIds st.out).filter (· ∈ callIds m) <+: callIds m
  latest : ∃ before, allCalls st.out = before ++ waiting ∧
    (usedIds st.out).Sublist (before.map SftCall.id)
  current : waiting ≠ [] → ∃ m ∈ st.out, ∃ done, calls m = done ++ waiting ∧
    (usedIds st.out).filter (· ∈ callIds m) = done.map SftCall.id
  named : ∀ content id name, SftMessage.tool content (some id) (some name) ∈ st.out →
    ∀ call ∈ allCalls st.out, call.id = id → call.name = name

variable {names : List Json} {waiting : List SftCall} {st : NormalizedToSft.State}

lemma Matched.nodup (h : Matched names waiting st) : (allIds st.out).Nodup := by
  rw [h.ids]
  exact List.nodup_range.map callId_injective

lemma Matched.used_sublist (h : Matched names waiting st) :
    (usedIds st.out).Sublist (allIds st.out) := by
  obtain ⟨before, hall, hsub⟩ := h.latest
  rw [← map_id_allCalls, hall, List.map_append]
  exact hsub.trans (List.sublist_append_left _ _)

lemma mem_usedIds {out : List SftMessage} {content : Json} {id : PyStr} {name : Option Json}
    (h : SftMessage.tool content (some id) name ∈ out) : id ∈ usedIds out :=
  List.mem_filterMap.mpr ⟨_, h, rfl⟩

lemma Matched.quiet (h : Matched names waiting st) (r c : Option Json) :
    Matched [] waiting (convert st (.assistant r c [])) := by
  refine ⟨?_, .inl rfl, ?_, ?_, ?_, ?_, ?_⟩
  · simpa [convert] using h.pending
  · simpa [convert, numbered, callIds, calls] using h.ids
  · intro m hm
    rcases List.mem_append.mp hm with hm | hm
    · simpa [convert, answers] using h.ordered m hm
    · obtain rfl := List.mem_singleton.mp hm
      simp [numbered, callIds, calls]
  · simpa [convert, numbered, calls, answers] using h.latest
  · intro hw
    obtain ⟨m, hm, done, hdone, hused⟩ := h.current hw
    exact ⟨m, List.mem_append_left _ hm, done, hdone, by simpa [convert, answers] using hused⟩
  · intro content id name hm call hcall
    refine h.named content id name ?_ call ?_
    · simpa [convert] using hm
    · simpa [convert, numbered, calls] using hcall

lemma Matched.open (h : Matched names waiting st) (r c : Option Json)
    {tcs : List ToolCall} (htcs : tcs ≠ []) :
    Matched (tcs.map ToolCall.name) (numbered st.callSeq tcs)
    (convert st (.assistant r c tcs)) := by
  have hids : allIds (convert st (.assistant r c tcs)).out =
      (List.range (st.callSeq + tcs.length)).map callId := by
    simp only [convert, allIds_append, callIds, calls, map_id_numbered, h.ids, List.range_eq_range',
      ← List.range'_append_1, List.map_append, zero_add]
  have hnew : List.Disjoint (usedIds st.out) ((numbered st.callSeq tcs).map SftCall.id) := by
    have hnd := List.nodup_range.map (l := List.range (st.callSeq + tcs.length)) callId_injective
    rw [← hids, convert, allIds_append] at hnd
    exact List.disjoint_of_subset_left h.used_sublist.subset (List.disjoint_of_nodup_append hnd)
  have hnone : ∀ r c,
      (usedIds st.out).filter (· ∈ callIds (.assistant r c (numbered st.callSeq tcs))) = [] := by
    intro r c
    rw [List.filter_eq_nil_iff]
    intro id hid hmem
    exact hnew hid (of_decide_eq_true hmem)
  refine ⟨by simp [convert, htcs], .inr (map_name_numbered _ _).symm, hids, ?_, ?_, ?_, ?_⟩
  · intro m hm
    rcases List.mem_append.mp hm with hm | hm
    · simpa [convert, answers] using h.ordered m hm
    · obtain rfl := List.mem_singleton.mp hm
      simp only [convert, usedIds_append, answers, Option.toList_none, List.append_nil, hnone]
      exact List.nil_prefix
  · refine ⟨allCalls st.out, by simp [convert, calls], ?_⟩
    rw [map_id_allCalls]
    simpa [convert, answers] using h.used_sublist
  · refine fun _ => ⟨_, List.mem_append_right _ (List.mem_singleton_self _), [], rfl, ?_⟩
    simp only [convert, usedIds_append, answers, Option.toList_none,
      List.append_nil, hnone, List.map_nil]
  · intro content id name hm call hcall hid
    have hm : SftMessage.tool content (some id) (some name) ∈ st.out := by simpa [convert] using hm
    rcases List.mem_append.mp (by simpa [convert] using hcall) with hcall | hcall
    · exact h.named content id name hm call hcall hid
    · exact absurd (List.mem_map.mpr ⟨call, hcall, hid⟩) (hnew (mem_usedIds hm))

lemma Matched.extra (h : Matched names [] st) (content : Json) :
    Matched names.tail [] (convert st (.tool (names.head?.getD .null) content)) := by
  have hpending : st.pendingIds = [] := h.pending
  have hnames : names = [] := by simpa using h.names_or
  subst hnames
  refine ⟨by simp [convert, hpending], .inl rfl, ?_, ?_, ?_, by simp, ?_⟩
  · simpa [convert, callIds, calls] using h.ids
  · intro m hm
    rcases List.mem_append.mp hm with hm | hm
    · simpa [convert, answers, hpending] using h.ordered m hm
    · obtain rfl := List.mem_singleton.mp hm
      simp [callIds, calls]
  · simpa [convert, calls, answers, hpending] using h.latest
  · intro content id name hm call hcall
    refine h.named content id name ?_ call ?_
    · simpa [convert, hpending] using hm
    · simpa [convert, calls] using hcall

lemma Matched.take {w : SftCall} (h : Matched names (w :: waiting) st) (content : Json) :
    Matched names.tail waiting (convert st (.tool (names.head?.getD .null) content)) := by
  have hpending : st.pendingIds = w.id :: waiting.map SftCall.id := h.pending
  obtain ⟨before, hall, hsub⟩ := h.latest
  obtain ⟨m₀, hm₀, done, hdone, hused⟩ := h.current (by simp)
  have hw : w ∈ allCalls st.out := by simp [hall]
  refine ⟨by simp [convert, hpending], ?_, ?_, ?_, ?_, ?_, ?_⟩
  · rcases h.names_or with hn | hn
    · exact .inl (by simp [hn])
    · exact .inr (by simp [hn])
  · simpa [convert, callIds, calls] using h.ids
  · intro m hm
    rcases List.mem_append.mp hm with hm | hm
    · simp only [convert, usedIds_append, answers, hpending, List.head?_cons,
        Option.toList_some, List.filter_append]
      by_cases hmem : w.id ∈ callIds m
      · have hids : w.id ∈ callIds m₀ := by simp [callIds, hdone]
        rw [callIds_eq_of_mem h.nodup hm hm₀ hmem hids, hused]
        simp [callIds, hdone]
      · simpa [hmem] using h.ordered m hm
    · obtain rfl := List.mem_singleton.mp hm
      simp [callIds, calls]
  · refine ⟨before ++ [w], by simp [convert, calls, hall], ?_⟩
    simpa [convert, answers, hpending] using hsub.append_right [w.id]
  · refine fun _ => ⟨m₀, List.mem_append_left _ hm₀, done ++ [w], by simp [hdone], ?_⟩
    simp only [convert, usedIds_append, answers, hpending, List.head?_cons,
      Option.toList_some, List.filter_append, hused]
    simp [callIds, hdone]
  · intro content' id name hm call hcall hid
    have hcall : call ∈ allCalls st.out := by simpa [convert, calls] using hcall
    rcases List.mem_append.mp hm with hm | hm
    · exact h.named content' id name hm call hcall hid
    · simp only [List.mem_singleton, SftMessage.tool.injEq, hpending, List.head?_cons,
        Option.some.injEq] at hm
      obtain ⟨-, rfl, hname⟩ := hm
      have hnd : ((allCalls st.out).map SftCall.id).Nodup := by
        simpa [map_id_allCalls] using h.nodup
      obtain rfl := List.inj_on_of_nodup_map hnd hcall hw hid
      rcases h.names_or with hn | hn
      · simp [hn, ifTruthy, Json.truthy] at hname
      · simp only [hn, List.map_cons, List.head?_cons, Option.getD_some, ifTruthy] at hname
        split_ifs at hname
        exact (Option.some.inj hname).symm

end Queues

section Nearest

lemma refersFrom_append (cur : List SftCall) (out : List SftMessage) (m : SftMessage) :
    refersFrom cur (out ++ [m]) = (refersFrom cur out && refersTo (out.foldl nearest cur) m) := by
  induction out generalizing cur with
  | nil => simp [refersFrom]
  | cons x xs ih => simp [refersFrom, ih, Bool.and_assoc]

lemma refersFrom_of_answers {out : List SftMessage}
    (h : ∀ m ∈ out, answers m = none) (cur : List SftCall) :
    refersFrom cur out = true := by
  induction out generalizing cur with
  | nil => rfl
  | cons m ms ih =>
    rw [refersFrom, refersTo, h m (by simp), ih fun m' hm' => h m' (List.mem_cons_of_mem _ hm')]
    rfl

def Near (quiet : Bool) (waiting : List SftCall) (out : List SftMessage) : Prop :=
  if quiet then out.foldl nearest [] = [] else waiting ⊆ out.foldl nearest []

lemma refersTo_result {quiet : Bool} {waiting : List SftCall} {out : List SftMessage}
    (h : Near quiet waiting out) (content : Json) (name : Option Json) :
    refersTo (out.foldl nearest []) (.tool content (waiting.map SftCall.id).head? name) =
      !(quiet && decide (0 < waiting.length)) := by
  cases waiting with
  | nil => simp [refersTo, answers]
  | cons w ws =>
    cases quiet with
    | true => simp_all [Near, refersTo, answers]
    | false =>
      have hw : w ∈ out.foldl nearest [] := h (by simp)
      simpa [refersTo, answers] using ⟨w, hw, rfl⟩

end Nearest

section Runs

def converted (hdr : List SftMessage) (st : AntigravityAdapter.State) : NormalizedToSft.State :=
  st.messages.foldl convert ⟨hdr, 0, [], 0⟩

lemma foldl_convert_idle {new : List Body} (h : ∀ b ∈ new, idle b = true)
    (st : NormalizedToSft.State) :
    new.foldl convert st = st := by
  induction new with
  | nil => rfl
  | cons b bs ih =>
    have hb : convert st b = st := by
      have := h b (by simp)
      cases b <;> simp_all [idle, convert]
    rw [List.foldl_cons, hb]
    exact ih fun b' hb' => h b' (List.mem_cons_of_mem _ hb')

lemma converted_append {st st' : AntigravityAdapter.State} {new : List Body} (hdr : List SftMessage)
    (h : st'.messages = st.messages ++ new) : converted hdr st' =
      new.foldl convert (converted hdr st) := by
  rw [converted, h, List.foldl_append]
  rfl

variable {hdr : List SftMessage} {e : Dict PyStr Json} {st st' : AntigravityAdapter.State}
  {waiting : List SftCall} {quiet : Bool}

structure Joint (hdr : List SftMessage) (st : AntigravityAdapter.State)
    (waiting : List SftCall) (quiet : Bool) :
    Prop where
  matched : Matched st.pendingToolNames waiting (converted hdr st)
  near : Near quiet waiting (converted hdr st).out

def fine (hdr : List SftMessage) (st : AntigravityAdapter.State)
    (waiting : List SftCall) (quiet : Bool) (events : List Json) : Bool :=
  refersFrom [] (converted hdr st).out && noLateResult waiting.length quiet events

lemma Joint.planned (hj : Joint hdr st waiting quiet) {r c : Option Json} {tcs : List ToolCall}
    (hk : kindOf (getNone e (py "type")) = .plannerResponse)
    (hnorm : normToolCalls (getNone e (py "tool_calls")) = .ok tcs)
    (hmsg : st'.messages = st.messages ++ [.assistant r c tcs])
    (hnames : st'.pendingToolNames = tcs.map ToolCall.name) :
    ∃ waiting' quiet', Joint hdr st' waiting' quiet' ∧
      ∀ rest, fine hdr st' waiting' quiet' rest = fine hdr st waiting quiet (.obj e :: rest) := by
  have hc : converted hdr st' = convert (converted hdr st) (.assistant r c tcs) :=
    converted_append hdr hmsg
  have hlen := length_normToolCalls hnorm
  have href : refersFrom [] (converted hdr st').out = refersFrom [] (converted hdr st).out := by
    simp [hc, convert, refersFrom_append, refersTo, answers]
  by_cases htcs : tcs = []
  · subst htcs
    refine ⟨waiting, true, ⟨?_, ?_⟩, fun rest => ?_⟩
    · rw [hc, hnames]
      exact hj.matched.quiet r c
    · simp [Near, hc, convert, nearest, numbered]
    · rw [fine, fine, href, noLateResult, eventKind, hk]
      simp [← hlen]
  · refine ⟨numbered (converted hdr st).callSeq tcs, false, ⟨?_, ?_⟩, fun rest => ?_⟩
    · rw [hc, hnames]
      exact hj.matched.open r c htcs
    · simp [Near, hc, convert, nearest]
    · rw [fine, fine, href, noLateResult, eventKind, hk]
      simp [← hlen, htcs, numbered]

lemma Joint.result (hj : Joint hdr st waiting quiet) {content : Json}
    (hk : kindOf (getNone e (py "type")) = .toolResult)
    (hmsg : st'.messages = st.messages ++ [.tool (st.pendingToolNames.head?.getD .null) content])
    (hnames : st'.pendingToolNames = st.pendingToolNames.tail) :
    Joint hdr st' waiting.tail quiet ∧
      ∀ rest, fine hdr st' waiting.tail quiet rest =
        fine hdr st waiting quiet (.obj e :: rest) := by
  have hc : converted hdr st' = convert (converted hdr st)
    (.tool (st.pendingToolNames.head?.getD .null) content) :=
    converted_append hdr hmsg
  have hout : (converted hdr st').out = (converted hdr st).out ++ [.tool (orEmpty content (.str []))
      (waiting.map SftCall.id).head? (ifTruthy (st.pendingToolNames.head?.getD .null))] := by
    rw [hc, convert, hj.matched.pending]
  refine ⟨⟨?_, ?_⟩, fun rest => ?_⟩
  · rw [hc, hnames]
    cases waiting with
    | nil => exact hj.matched.extra content
    | cons w ws => exact hj.matched.take content
  · have hn := hj.near
    rw [hout, Near, List.foldl_append]
    cases quiet with
    | true => exact hn
    | false => exact fun w hw => hn (List.mem_of_mem_tail hw)
  · rw [fine, fine, hout, refersFrom_append, refersTo_result hj.near, noLateResult, eventKind, hk]
    simp [Bool.and_assoc]

lemma Joint.idle (hj : Joint hdr st waiting quiet) {new : List Body}
    (hp : kindOf (getNone e (py "type")) ≠ .plannerResponse)
    (hr : kindOf (getNone e (py "type")) ≠ .toolResult)
    (hidle : ∀ b ∈ new, idle b = true) (hmsg : st'.messages = st.messages ++ new)
    (hnames : st'.pendingToolNames = st.pendingToolNames) :
    Joint hdr st' waiting quiet ∧
      ∀ rest, fine hdr st' waiting quiet rest = fine hdr st waiting quiet (.obj e :: rest) := by
  have hc : converted hdr st' = converted hdr st := by
    rw [converted_append hdr hmsg, foldl_convert_idle hidle]
  refine ⟨⟨?_, ?_⟩, fun rest => ?_⟩
  · rw [hc, hnames]
    exact hj.matched
  · rw [hc]
    exact hj.near
  · rw [fine, fine, hc, noLateResult, eventKind]
    split <;> simp_all

lemma Joint.step (hj : Joint hdr st waiting quiet) (h : adaptEvent st e = .ok st') :
    ∃ waiting' quiet', Joint hdr st' waiting' quiet' ∧
      ∀ rest, fine hdr st' waiting' quiet' rest = fine hdr st waiting quiet (.obj e :: rest) := by
  cases adaptEvent_effect h with
  | planned r c tcs hk hnorm hmsg hnames => exact hj.planned hk hnorm hmsg hnames
  | result content hk hmsg hnames => exact ⟨_, _, hj.result hk hmsg hnames⟩
  | idle new hp hr hidle hmsg hnames => exact ⟨_, _, hj.idle hp hr hidle hmsg hnames⟩

lemma Joint.run {es : List (Dict PyStr Json)} (hj : Joint hdr st waiting quiet)
    (h : es.foldlM adaptEvent st = .ok st') :
    ∃ waiting' quiet', Joint hdr st' waiting' quiet' ∧
      refersFrom [] (converted hdr st').out = fine hdr st waiting quiet (es.map .obj) := by
  induction es generalizing st waiting quiet with
  | nil =>
    obtain rfl : st = st' := Except.ok.inj h
    exact ⟨waiting, quiet, hj, by simp [fine, noLateResult]⟩
  | cons e es ih =>
    obtain ⟨st₁, h₁, h⟩ := bind_eq_ok.mp h
    obtain ⟨waiting₁, quiet₁, hj₁, hfine⟩ := hj.step h₁
    obtain ⟨waiting', quiet', hj', href⟩ := ih hj₁ h
    exact ⟨waiting', quiet', hj', href.trans (hfine _)⟩

lemma header_idle {ms : List Body} {instruction : PyStr} {m : SftMessage}
    (hm : m ∈ header ms instruction) :
    calls m = [] ∧ answers m = none := by
  rcases List.mem_append.mp hm with hm | hm
  · obtain ⟨content, -, rfl⟩ := List.mem_map.mp hm
    exact ⟨rfl, rfl⟩
  · obtain rfl := List.mem_singleton.mp hm
    exact ⟨rfl, rfl⟩

lemma joint_header (ms : List Body) (instruction : PyStr) :
    Joint (header ms instruction) .start [] false := by
  have hcalls := fun m (hm : m ∈ header ms instruction) => header_idle hm
  have hall : allCalls (header ms instruction) = [] :=
    List.flatMap_eq_nil_iff.mpr fun m hm => (hcalls m hm).1
  have hused : usedIds (header ms instruction) = [] :=
    List.filterMap_eq_nil_iff.mpr fun m hm => (hcalls m hm).2
  refine ⟨⟨rfl, .inl rfl, ?_, ?_, ⟨[], hall, ?_⟩, by simp, ?_⟩, by simp [Near]⟩
  · exact (map_id_allCalls _).symm.trans (congrArg _ hall)
  · intro m hm
    have hm : callIds m = [] := by simp [callIds, (hcalls m hm).1]
    simp [hm]
  · exact hused ▸ List.Sublist.refl _
  · intro content id name hm
    simpa [answers] using (hcalls _ hm).2

lemma map_body_withSegments (ms : List Body) : (withSegments ms).map Message.body = ms := by
  rw [withSegments, List.map_map]
  exact List.map_fst_zip (length_segs ms).ge

lemma map_fst_typedEvent {fl : Floats} {events : List Json} {typed : List (Dict PyStr Json × Json)}
    (h : List.Forall₂ (fun e p => typedEvent fl e = .ok p) events typed) :
    (typed.map Prod.fst).map Json.obj = events := by
  induction h with
  | nil => rfl
  | @cons e p _ _ he _ ih =>
    obtain ⟨d, hd, he⟩ := bind_eq_ok.mp he
    obtain ⟨k, -, he⟩ := bind_eq_ok.mp he
    obtain rfl := Except.ok.inj he
    cases e with
    | obj d' =>
      obtain rfl := Except.ok.inj hd
      simp [ih]
    | _ => simp [asDict] at hd

lemma adaptEvents_run {fl : Floats} {toolsSchema model : Json} {convId : PyStr}
    {bad : ℕ} {events : List Json}
    {rec : Record} (h : adaptEvents fl toolsSchema model convId bad events = .ok (some rec)) :
    ∃ (es : List (Dict PyStr Json)) (st : AntigravityAdapter.State),
      es.map .obj = events ∧ es.foldlM adaptEvent .start = .ok st ∧
        rec.messages.map Message.body = st.messages := by
  rw [adaptEvents] at h
  split_ifs at h
  · simp at h
  obtain ⟨typed, htyped, h⟩ := bind_eq_ok.mp h
  obtain ⟨st, hst, h⟩ := bind_eq_ok.mp h
  obtain rfl := Option.some.inj (Except.ok.inj h)
  exact ⟨_, st, map_fst_typedEvent (mapM_eq_ok.mp htyped), hst, map_body_withSegments _⟩

/-- The calls and the results of a sample are paired exactly if no result of the transcript
comes late. -/
theorem toSft_paired_iff (fl : Floats) (toolsSchema model : Json) (convId : PyStr)
    (bad : ℕ) (events : List Json) (rec : Record) (sample : Sample)
    (hrec : adaptEvents fl toolsSchema model convId bad events = .ok (some rec))
    (hsample : toSft rec = .ok sample) :
    Paired sample.messages ↔ noLateResult 0 false events = true := by
  obtain ⟨es, st, hes, hst, hms⟩ := adaptEvents_run hrec
  obtain ⟨⟨instruction, source⟩, -, rfl⟩ := map_eq_ok.mp hsample
  obtain ⟨waiting, quiet, hj, href⟩ :=
    (joint_header (rec.messages.map Message.body) instruction).run hst
  have hout : (rec.messages.map Message.body).foldl convert
      ⟨header (rec.messages.map Message.body) instruction,
        0, [], 0⟩ = converted (header (rec.messages.map Message.body) instruction) st := by
    rw [hms, converted]
  have hhdr := refersFrom_of_answers
    (fun m (hm : m ∈ header (rec.messages.map Message.body) instruction) =>
    (header_idle hm).2) []
  have hlate : refersFrom []
      (converted (header (rec.messages.map Message.body) instruction) st).out =
        noLateResult 0 false events := by
    rw [href, hes, fine]
    exact (congrArg (· && _) hhdr).trans (Bool.true_and _)
  constructor
  · intro hp
    rw [← hlate, ← hout]
    exact hp.refers
  · intro hcond
    simp only [hout]
    have hm := hj.matched
    exact ⟨hm.nodup, hlate.trans hcond, hm.ordered, hm.used_sublist.nodup hm.nodup, hm.named⟩

def event (kind : String) (fields : Dict PyStr Json) :
    Json := .obj ((py "type", .str (py kind)) :: fields)

def callOf (name : String) : Json := .obj [(py "name", .str (py name)), (py "args", .obj [])]

def noFloats : Floats := ⟨.float, fun _ _ => .error .typeError⟩

/-- Two calls, one result, a response without calls, and the other result. -/
def lateEvents : List Json :=
  [event "PLANNER_RESPONSE" [(py "tool_calls", .arr [callOf "run_command", callOf "view_file"])],
    event "RUN_COMMAND" [(py "content", .str (py "ok"))],
    event "PLANNER_RESPONSE" [(py "content", .str (py "waiting"))],
    event "VIEW_FILE" [(py "content", .str (py "text"))]]

/-- The second result is given to the first response although another one is nearer. -/
theorem late_result_refers_back :
    ∃ rec sample, adaptEvents noFloats .null .null [] 0 lateEvents = .ok (some rec) ∧
    toSft rec = .ok sample ∧
      ¬ Paired sample.messages := by
  obtain ⟨_, hrec, rec, rfl, hfound⟩ := ok_of_toOption
    (show ∃ found ∈ (adaptEvents noFloats .null .null [] 0 lateEvents).toOption, ∃ rec ∈ found,
      ∃ sample ∈ (toSft rec).toOption, refersFrom [] sample.messages = false by decide +kernel)
  obtain ⟨sample, hsample, href⟩ := ok_of_toOption hfound
  refine ⟨rec, sample, hrec, hsample, fun hp => ?_⟩
  exact absurd hp.refers (by simp [href])

def pairedEvents : List Json :=
  [event "USER_INPUT" [(py "content", .str (py "look"))],
    event "PLANNER_RESPONSE" [(py "tool_calls",
      .arr [callOf "run_command", .null, callOf "view_file"])],
    event "RUN_COMMAND" [], event "VIEW_FILE" [], event "GENERIC" [],
    event "PLANNER_RESPONSE" [],
    event "GENERIC" [],
    event "PLANNER_RESPONSE" [(py "tool_calls", .arr [callOf "grep_search"])]]

theorem toSft_paired_iff_pairedEvents :
    ∃ rec sample, adaptEvents noFloats .null .null [] 0 pairedEvents = .ok (some rec) ∧
    toSft rec = .ok sample ∧
      Paired sample.messages ∧ usedIds sample.messages = [py "call_0", py "call_1"] := by
  obtain ⟨_, hrec, rec, rfl, hfound⟩ := ok_of_toOption
    (show ∃ found ∈ (adaptEvents noFloats .null .null [] 0 pairedEvents).toOption, ∃ rec ∈ found,
      ∃ sample ∈ (toSft rec).toOption, usedIds sample.messages = [py "call_0", py "call_1"] by
        decide +kernel)
  obtain ⟨sample, hsample, hused⟩ := ok_of_toOption hfound
  exact ⟨rec, sample, hrec, hsample,
    (toSft_paired_iff noFloats .null .null [] 0 pairedEvents rec sample hrec hsample).mpr
      (by decide +kernel), hused⟩

end Runs

end AgentTrajectory.ToolPairing
