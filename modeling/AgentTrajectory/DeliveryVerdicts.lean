import AgentTrajectory.RenderDecompose
import AgentTrajectory.MessageNumbering
import AgentTrajectory.CombinedHeadings
import AgentTrajectory.RelatedLists

/-! The delivery of a task on its way from the answers of the model to the confirmation
status. On the small path the verdict of the answer used arrives; the merge of the chunks
drops it, and a task without a verdict counts as completed. -/
namespace AgentTrajectory.RenderDecompose
open PyText PyDict PyJson PyValue TaskStitch LlmSegment LlmDecompose RouteDay DecomposeTask
    IncrementalSegment RelatedLists

def bare (attempts : List (Except PyError TaskAnswer)) : List (Except PyError Result) :=
  attempts.map (Except.map Prod.fst)

section Carried
variable {d : Display} {setOrder : ℕ → ℕ → Bool}

lemma oneLoopWith_fst (rows : List Event) (retried : Bool) (last : Option TaskAnswer)
    (attempts : List (Except PyError TaskAnswer)) :
    (oneLoopWith d setOrder rows retried last attempts).map Prod.fst =
      oneLoop d.env setOrder rows retried (last.map Prod.fst) (bare attempts) := by
  induction attempts generalizing retried last with
  | nil =>
    cases last with
    | none => rfl
    | some r =>
      rw [oneLoopWith, bare, List.map_nil, Option.map_some, oneLoop]
      cases resolveOverlaps d.env setOrder r.1 true with
      | error e => rfl
      | ok out => rfl
  | cons attempt rest ih =>
    rw [oneLoopWith, bare, List.map_cons, oneLoop]
    cases attempt with
    | error e => exact ih retried last
    | ok a =>
      simp only [Except.bind, Except.map]
      cases repair d.env rows a.1 with
      | error e => exact ih retried last
      | ok r =>
        dsimp only
        cases resolveOverlaps d.env setOrder r retried with
        | error e => rfl
        | ok out =>
          obtain ⟨r', large⟩ := out
          cases large with
          | true => exact ih true (some (r', a.2))
          | false => rfl

lemma oneWith_fst (cluster : List DayEvent) (attempts : List (Except PyError TaskAnswer)) :
    (oneWith d setOrder cluster attempts).map (fun r => (r.1.1, r.2)) =
      one d setOrder cluster (bare attempts) := by
  have hloop := @oneLoopWith_fst d setOrder
    ((buildTranscript d cluster).events.map (·.toEvent)) false none attempts
  rw [Option.map_none] at hloop
  rw [oneWith, one, ← hloop]
  cases oneLoopWith d setOrder ((buildTranscript d cluster).events.map (·.toEvent)) false none attempts with
  | error e => rfl
  | ok r => rfl

lemma mergeFromWith_fst (answers : ℕ → List (Except PyError TaskAnswer)) (c offset : ℕ)
    (merged : Result) (goal : Json) (chunks : List (List DayEvent)) :
    (mergeFromWith d setOrder answers c offset merged goal chunks).map (fun r => (r.1.1, r.2)) =
      mergeFrom d setOrder (fun c => bare (answers c)) c offset merged chunks := by
  induction chunks generalizing c offset merged goal with
  | nil => rfl
  | cons chunk chunks ih =>
    rw [mergeFromWith, mergeFrom, ← oneWith_fst]
    cases oneWith d setOrder chunk (answers c) with
    | error e => rfl
    | ok res =>
      simp only [bind, Except.bind, Except.map]
      cases mergeChunk d (c + 1) offset merged res.1.1 with
      | error e => rfl
      | ok merged' => exact ih _ _ _ _

theorem decomposeWith_fst (bigThreshold chunkTarget : ℕ) (cluster : List DayEvent)
    (answers : ℕ → List (Except PyError TaskAnswer)) (terminal : Bool) :
    (decomposeWith d setOrder bigThreshold chunkTarget cluster answers terminal).map (fun r => (r.1.1, r.2)) =
      decomposeOneTask d setOrder bigThreshold chunkTarget cluster (fun c => bare (answers c)) terminal := by
  have hgather : (gatherWith d setOrder bigThreshold chunkTarget cluster answers).map (fun r => (r.1.1, r.2)) =
      gather d setOrder bigThreshold chunkTarget cluster fun c => bare (answers c) := by
    rw [gatherWith, gather]
    split_ifs
    · exact oneWith_fst _ _
    · rw [← mergeFromWith_fst answers 0 0 ⟨[], []⟩ (.str [])]
      cases mergeFromWith d setOrder answers 0 0 ⟨[], []⟩ (.str [])
          (splitByGaps (effectiveEvents d cluster) chunkTarget) with
      | error e => rfl
      | ok r => rfl
  rw [decomposeWith, decomposeOneTask, ← hgather]
  cases gatherWith d setOrder bigThreshold chunkTarget cluster answers with
  | error e => rfl
  | ok res =>
    simp only [bind, Except.bind, Except.map]
    cases enforceTerminalTail d.env terminal res.1.1 with
    | error e => rfl
    | ok r => rfl

lemma oneLoopWith_verdict {rows : List Event} {retried : Bool} {last : Option TaskAnswer}
    {attempts : List (Except PyError TaskAnswer)} {r : TaskAnswer}
    (h : oneLoopWith d setOrder rows retried last attempts = .ok r) :
    (∃ a, Except.ok a ∈ attempts ∧ r.2 = a.2) ∨ ∃ l ∈ last, r.2 = l.2 := by
  induction attempts generalizing retried last with
  | nil =>
    cases last with
    | none => simp [oneLoopWith] at h
    | some l =>
      obtain ⟨out, -, rfl⟩ := map_eq_ok.mp h
      exact .inr ⟨l, rfl, rfl⟩
  | cons attempt rest ih =>
    have hrest : (∃ a, Except.ok a ∈ rest ∧ r.2 = a.2) → ∃ a, Except.ok a ∈ attempt :: rest ∧ r.2 = a.2 := by
      rintro ⟨a, ha, hr⟩
      exact ⟨a, by simp [ha], hr⟩
    rw [oneLoopWith] at h
    cases hattempt : attempt.bind fun a => (repair d.env rows a.1).map fun r => (r, a.2) with
    | error e => exact (ih (by simpa only [hattempt] using h)).imp_left hrest
    | ok r₁ =>
      obtain ⟨a, rfl, hrep⟩ := bind_eq_ok.mp hattempt
      obtain ⟨r₂, -, rfl⟩ := map_eq_ok.mp hrep
      simp only [hattempt] at h
      cases hres : resolveOverlaps d.env setOrder r₂ retried with
      | error e => simp [hres] at h
      | ok out =>
        obtain ⟨r', large⟩ := out
        left
        cases large with
        | true =>
          rcases ih (by simpa only [hres] using h) with hmem | ⟨l, hl, hr⟩
          · exact hrest hmem
          · obtain rfl := Option.some.inj hl
            exact ⟨a, by simp, hr⟩
        | false =>
          obtain rfl : (r', a.2) = r := by simpa only [hres, Except.ok.injEq] using h
          exact ⟨a, by simp, rfl⟩

variable {bigThreshold chunkTarget : ℕ} {cluster : List DayEvent} {answers : ℕ → List (Except PyError TaskAnswer)}
  {terminal : Bool} {res : TaskAnswer} {n : ℕ}

lemma decomposeWith_small (hsmall : (effectiveEvents d cluster).length ≤ bigThreshold)
    (h : decomposeWith d setOrder bigThreshold chunkTarget cluster answers terminal = .ok (res, n)) :
    ∃ a, Except.ok a ∈ answers 0 ∧ res.2 = a.2 := by
  obtain ⟨mid, hmid, h⟩ := bind_eq_ok.mp h
  obtain ⟨r, -, h⟩ := bind_eq_ok.mp h
  obtain ⟨rfl, -⟩ := Prod.mk.inj (Except.ok.inj h)
  rw [gatherWith, if_pos hsmall] at hmid
  obtain ⟨r', hloop, rfl⟩ := map_eq_ok.mp hmid
  rcases oneLoopWith_verdict hloop with hmem | ⟨l, hl, -⟩
  · exact hmem
  · simp at hl

lemma decomposeWith_big (hbig : bigThreshold < (effectiveEvents d cluster).length)
    (h : decomposeWith d setOrder bigThreshold chunkTarget cluster answers terminal = .ok (res, n)) :
    res.2.delivery = .null := by
  obtain ⟨mid, hmid, h⟩ := bind_eq_ok.mp h
  obtain ⟨r, -, h⟩ := bind_eq_ok.mp h
  obtain ⟨rfl, -⟩ := Prod.mk.inj (Except.ok.inj h)
  rw [gatherWith, if_neg (not_le.mpr hbig)] at hmid
  obtain ⟨r', -, rfl⟩ := map_eq_ok.mp hmid
  rfl

end Carried

def IsText (v : Json) : Prop := (stripped v).isOk = true

/-- The task has messages, and the fields of its decomposition are texts. -/
def Writable (d : Display) (setOrder : ℕ → ℕ → Bool) (t : TaskInput) (terminal : Bool) : Prop :=
  t.cluster ≠ [] ∧ (2 ≤ nreal t.cluster →
    ∀ res n, decomposeWith d setOrder 150 100 t.cluster t.calls.answers terminal = .ok (res, n) →
      IsText res.2.taskGoal ∧ IsText res.2.delivery)

section Written
variable {d : Display} {setOrder : ℕ → ℕ → Bool} {doc : DocEnv}

lemma metaTail_isOk {cluster : List DayEvent} {m : Meta} {n : ℕ} :
    (∃ tail, metaTail doc cluster m n = .ok tail) ↔ cluster ≠ [] := by
  rw [metaTail]
  cases cluster with
  | nil => simp
  | cons e es =>
    obtain ⟨last, hlast⟩ := Option.isSome_iff_exists.mp (List.getLast?_isSome.mpr (List.cons_ne_nil e es))
    simp [hlast]

lemma decomposedTask_ok {terminal : Bool} {cluster : List DayEvent} {m : Meta}
    {tail : PyStr} {dominants : ℕ → PyStr} {res : TaskAnswer} {n : ℕ} :
    (∃ part, decomposedTask d terminal cluster m tail dominants res n = .ok part) ↔
      IsText res.2.taskGoal ∧ IsText res.2.delivery := by
  rw [IsText, IsText, isOk_iff, isOk_iff]
  constructor
  · rintro ⟨part, h⟩
    obtain ⟨goal, hgoal, h⟩ := bind_eq_ok.mp h
    obtain ⟨delivery, hdelivery, -⟩ := bind_eq_ok.mp h
    exact ⟨⟨goal, hgoal⟩, delivery, hdelivery⟩
  · rintro ⟨⟨goal, hgoal⟩, delivery, hdelivery⟩
    exact ⟨_, bind_eq_ok.mpr ⟨goal, hgoal, bind_eq_ok.mpr ⟨delivery, hdelivery, rfl⟩⟩⟩

lemma renderTask_ok {terminal : Bool} {t : TaskInput} :
    (∃ part, renderTask d setOrder doc terminal t.cluster t.data t.calls = .ok part) ↔
      Writable d setOrder t terminal := by
  rw [renderTask, Writable, ← @metaTail_isOk doc t.cluster t.data (nreal t.cluster)]
  cases metaTail doc t.cluster t.data (nreal t.cluster) with
  | error e => simp [bind, Except.bind]
  | ok tail =>
    simp only [bind, Except.bind, Except.ok.injEq, exists_eq', true_and]
    by_cases hreal : nreal t.cluster < 2
    · simp [hreal, pure, Except.pure, not_le.mpr hreal]
    · rw [if_neg hreal]
      cases hres : decomposeWith d setOrder 150 100 t.cluster t.calls.answers terminal with
      | error e => simp [pure, Except.pure]
      | ok out =>
        obtain ⟨res, n⟩ := out
        simp [decomposedTask_ok, not_lt.mp hreal]

lemma render_ok {window : PyStr} {startIdx : ℕ} {tasks : List TaskInput} :
    (∃ out, render d setOrder doc window startIdx tasks = .ok out) ↔
      ∀ p ∈ tasks.zip (terminals d tasks), Writable d setOrder p.1 p.2 := by
  have hparts : (∃ out, render d setOrder doc window startIdx tasks = .ok out) ↔
      ∃ parts, renderTasks d setOrder doc tasks = .ok parts := by
    constructor
    · rintro ⟨out, hout⟩
      obtain ⟨parts, hparts, -⟩ := bind_eq_ok.mp hout
      exact ⟨parts, hparts⟩
    · rintro ⟨parts, hparts⟩
      exact ⟨_, bind_eq_ok.mpr ⟨parts, hparts, rfl⟩⟩
  rw [hparts]
  exact exists_mapM_eq_ok.trans (forall₂_congr fun p _ => isOk_iff.trans renderTask_ok)

lemma stripped_str (s : PyStr) : stripped (.str s) = .ok (strip s) := by
  rw [stripped]
  cases s with
  | nil => rfl
  | cons c s => rfl

lemma renderTask_delivery {terminal : Bool} {t : TaskInput} {part : RenderedTask} {res : TaskAnswer} {n : ℕ}
    (hreal : 2 ≤ nreal t.cluster)
    (hres : decomposeWith d setOrder 150 100 t.cluster t.calls.answers terminal = .ok (res, n))
    (h : renderTask d setOrder doc terminal t.cluster t.data t.calls = .ok part) :
    ∃ s, stripped res.2.delivery = .ok s ∧ part.delivery = if s = [] then none else some s := by
  obtain ⟨tail, -, h⟩ := bind_eq_ok.mp h
  rw [if_neg (not_lt.mpr hreal), hres] at h
  obtain ⟨goal, -, h⟩ := bind_eq_ok.mp h
  obtain ⟨delivery, hdelivery, h⟩ := bind_eq_ok.mp h
  obtain rfl := Except.ok.inj h
  exact ⟨delivery, hdelivery, rfl⟩

lemma render_deliveries {window : PyStr} {startIdx i : ℕ} {tasks : List TaskInput} {out : Rendered} {t : TaskInput}
    {terminal : Bool} (h : render d setOrder doc window startIdx tasks = .ok out) (ht : tasks[i]? = some t)
    (hterminal : (terminals d tasks)[i]? = some terminal) :
    ∃ part, renderTask d setOrder doc terminal t.cluster t.data t.calls = .ok part ∧
      out.deliveries[i]? = some part.delivery := by
  obtain ⟨parts, hparts, h⟩ := bind_eq_ok.mp h
  obtain rfl := Except.ok.inj h
  have hzip : (tasks.zip (terminals d tasks))[i]? = some (t, terminal) := by
    rw [List.getElem?_zip_eq_some]
    exact ⟨ht, hterminal⟩
  obtain ⟨part, hpart, hrender⟩ := forall₂_getElem? (mapM_eq_ok.mp hparts) hzip
  exact ⟨part, hrender, by rw [List.getElem?_map, hpart]; rfl⟩

/-- Some call judged the task delivered. -/
def JudgedDelivered (calls : TaskCalls) : Prop :=
  ∃ c a s, Except.ok a ∈ calls.answers c ∧ a.2.delivery = .str s ∧ strip s = py "已交付"

/-- The last message with a text is not a user's. -/
def EndsWithBot (env : Env) (cluster : List DayEvent) : Prop :=
  ∃ tail ∈ meaningfulTail env (cluster.map (·.toEvent)), tail.role ≠ .user

/-- The verdict says that nothing was delivered. -/
def SaysUndelivered (v : Json) : Prop := ∃ s, v = .str s ∧ (strip s = py "仅占位" ∨ strip s = py "无交付")

lemma confirmationStatus_bot {env : Env} {cluster : List DayEvent} {delivery : Option PyStr}
    (h : EndsWithBot env cluster) :
    confirmationStatus env (cluster.map (·.toEvent)) true delivery = .completed ↔
      ¬(delivery = some (py "仅占位") ∨ delivery = some (py "无交付")) := by
  obtain ⟨tail, htail, hrole⟩ := h
  rw [confirmationStatus, if_neg (by simp), Option.mem_def.mp htail]
  simp only [hrole, if_false]
  split_ifs with hdelivery
  · simp [hdelivery]
  · simp [hdelivery]

/-- A delivery is recorded, and a terminal task that ends with the bot is completed only if
some call judged it delivered, exactly if the document is written, the task is small enough
not to be cut into chunks, and the verdict used says that nothing was delivered where the task
is terminal, ends with the bot and no call judged it delivered. -/
theorem delivery_recorded_iff (d : Display) (setOrder : ℕ → ℕ → Bool) (doc : DocEnv)
    (window : PyStr) (startIdx : ℕ)
    (tasks : List TaskInput) (i : ℕ) (t : TaskInput) (terminal : Bool) (res : TaskAnswer) (n : ℕ)
    (ht : tasks[i]? = some t) (hterminal : (terminals d tasks)[i]? = some terminal) (hreal : 2 ≤ nreal t.cluster)
    (hres : decomposeWith d setOrder 150 100 t.cluster t.calls.answers terminal = .ok (res, n))
    (hverdict : ∀ c a, Except.ok a ∈ t.calls.answers c → ∃ s, a.2.delivery = .str s ∧ strip s ≠ []) :
    (∃ out v, render d setOrder doc window startIdx tasks = .ok out ∧ out.deliveries[i]? = some (some v) ∧
      (terminal = true → EndsWithBot d.env t.cluster →
        confirmationStatus d.env (t.cluster.map (·.toEvent)) terminal (some v) = .completed →
          JudgedDelivered t.calls)) ↔
      (∀ p ∈ tasks.zip (terminals d tasks), Writable d setOrder p.1 p.2) ∧
        (effectiveEvents d t.cluster).length ≤ 150 ∧
        (terminal = true → EndsWithBot d.env t.cluster → ¬ JudgedDelivered t.calls →
          SaysUndelivered res.2.delivery) := by
  rw [← @render_ok d setOrder doc window startIdx]
  constructor
  · rintro ⟨out, v, hout, hv, hstatus⟩
    refine ⟨⟨out, hout⟩, ?_⟩
    obtain ⟨part, hpart, hdelivery⟩ := render_deliveries hout ht hterminal
    obtain ⟨s, hs, hkept⟩ := renderTask_delivery hreal hres hpart
    rw [hdelivery, hkept, Option.some.injEq] at hv
    split_ifs at hv with hblank
    obtain rfl := Option.some.inj hv
    have hsmall : (effectiveEvents d t.cluster).length ≤ 150 := by
      by_contra hbig
      rw [decomposeWith_big (not_le.mp hbig) hres] at hs
      exact hblank (Except.ok.inj hs).symm
    refine ⟨hsmall, fun hterm hbot hjudged => ?_⟩
    subst hterm
    obtain ⟨a, ha, hres₂⟩ := decomposeWith_small hsmall hres
    obtain ⟨text, htext, -⟩ := hverdict 0 a ha
    have hcompleted := mt (hstatus rfl hbot) hjudged
    rw [confirmationStatus_bot hbot, not_not] at hcompleted
    rw [hres₂, htext, stripped_str, Except.ok.injEq] at hs
    rw [hres₂, htext]
    exact ⟨text, rfl, by simpa [hs] using hcompleted⟩
  · rintro ⟨⟨out, hout⟩, hsmall, hundelivered⟩
    obtain ⟨part, hpart, hdelivery⟩ := render_deliveries hout ht hterminal
    obtain ⟨s, hs, hkept⟩ := renderTask_delivery hreal hres hpart
    obtain ⟨a, ha, hres₂⟩ := decomposeWith_small hsmall hres
    obtain ⟨text, htext, hblank⟩ := hverdict 0 a ha
    rw [hres₂, htext, stripped_str, Except.ok.injEq] at hs
    subst hs
    rw [if_neg hblank] at hkept
    refine ⟨out, strip text, hout, by rw [hdelivery, hkept], fun hterm hbot hcompleted => ?_⟩
    subst hterm
    rw [confirmationStatus_bot hbot] at hcompleted
    by_contra hjudged
    obtain ⟨text', htext', hsays⟩ := hundelivered rfl hbot hjudged
    rw [hres₂, htext, Json.str.injEq] at htext'
    subst htext'
    exact hcompleted (by simpa using hsays)

end Written

def callsWith (verdict : String) : TaskCalls :=
  ⟨fun _ => [.ok (⟨[], []⟩, ⟨.str [], .str (py verdict)⟩)], [], fun _ => []⟩

lemma callsWith_verdict {verdict : String} {c : ℕ} {a : TaskAnswer}
    (ha : Except.ok a ∈ (callsWith verdict).answers c) : a.2.delivery = .str (py verdict) := by
  rw [callsWith, List.mem_singleton, Except.ok.injEq] at ha
  rw [ha]

def untitled : Meta := ⟨.str [], .str [], .str [], []⟩

def shortTask : TaskInput := ⟨[⟨ask, []⟩, ⟨reply, []⟩], untitled, callsWith "已交付"⟩

def laterTask : TaskInput := ⟨[⟨nextAsk, []⟩], untitled, callsWith "无交付"⟩

theorem delivery_recorded_iff_shortTask :
    (∃ out, render plainDisplay (fun _ _ => true) plainDoc [] 1 [shortTask, laterTask] = .ok out ∧
      out.deliveries[0]? = some (some (py "已交付"))) ∧
    ∃ res n, decomposeWith plainDisplay (fun _ _ => true) 150 100 shortTask.cluster shortTask.calls.answers true =
        .ok (res, n) ∧
      (∀ p ∈ [shortTask, laterTask].zip (terminals plainDisplay [shortTask, laterTask]),
        Writable plainDisplay (fun _ _ => true) p.1 p.2) ∧
      (effectiveEvents plainDisplay shortTask.cluster).length ≤ 150 ∧
      (true = true → EndsWithBot plainDisplay.env shortTask.cluster → ¬ JudgedDelivered shortTask.calls →
        SaysUndelivered res.2.delivery) := by
  obtain ⟨⟨res, n⟩, hres, -⟩ := ok_of_toOption (show ∃ r ∈ (decomposeWith plainDisplay (fun _ _ => true) 150 100
    shortTask.cluster shortTask.calls.answers true).toOption, r.2 = 2 by decide +kernel)
  obtain ⟨out, hout, hfirst⟩ := ok_of_toOption (show ∃ out ∈ (render plainDisplay (fun _ _ => true) plainDoc [] 1
    [shortTask, laterTask]).toOption, out.deliveries[0]? = some (some (py "已交付")) by decide +kernel)
  have hjudged : JudgedDelivered shortTask.calls :=
    ⟨0, _, py "已交付", List.mem_singleton_self _, rfl, by decide +kernel⟩
  refine ⟨⟨out, hout, hfirst⟩, res, n, hres, (delivery_recorded_iff plainDisplay (fun _ _ => true) plainDoc [] 1
    [shortTask, laterTask] 0 shortTask true res n rfl (by decide +kernel) (by decide +kernel) hres
    fun c a ha => ?_).mp ⟨out, _, hout, hfirst, fun _ _ _ => hjudged⟩⟩
  exact ⟨py "已交付", callsWith_verdict ha, by decide +kernel⟩

/-- A task of 151 messages, the last one from the bot. -/
def longTask : TaskInput where
  cluster := List.replicate 150 ⟨⟨1000, .user, [], [], py "deploy"⟩, []⟩ ++
    [⟨⟨2000, .bot, [], [], py "later"⟩, []⟩]
  data := untitled
  calls := callsWith "仅占位"

lemma longTask_endsWithBot : EndsWithBot plainDisplay.env longTask.cluster := by
  have hany : (meaningfulTail plainDisplay.env (longTask.cluster.map (·.toEvent))).any
      (fun e => decide (e.role ≠ .user)) = true := by decide +kernel
  obtain ⟨tail, htail, hrole⟩ := (Option.any_eq_true _ _).mp hany
  exact ⟨tail, htail, of_decide_eq_true hrole⟩

/-- Every call says that nothing was delivered; nothing of it is recorded, and the task counts
as completed. -/
theorem verdict_of_long_task_is_lost :
    (∃ out, render plainDisplay (fun _ _ => true) plainDoc [] 1 [longTask, laterTask] = .ok out ∧
      terminals plainDisplay [longTask, laterTask] = [true, false] ∧ 2 ≤ nreal longTask.cluster ∧
      out.taskSubreqs.map Prod.snd = [true, true] ∧ out.deliveries = [none, none] ∧
      confirmationStatus plainDisplay.env (longTask.cluster.map (·.toEvent)) true none = .completed) ∧
    EndsWithBot plainDisplay.env longTask.cluster ∧ ¬ JudgedDelivered longTask.calls := by
  refine ⟨ok_of_toOption (by decide +kernel), longTask_endsWithBot, ?_⟩
  rintro ⟨c, a, s, ha, hs, hjudged⟩
  have htext : Json.str (py "仅占位") = .str s := (callsWith_verdict ha).symm.trans hs
  obtain rfl := Json.str.inj htext
  exact absurd hjudged (by decide +kernel)

end AgentTrajectory.RenderDecompose
