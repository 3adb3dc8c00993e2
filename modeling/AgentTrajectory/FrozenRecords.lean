import AgentTrajectory.IncrementalRuns

/-! Hard-frozen records never change again. The watermark only grows, so a record that
passes the test once passes it in every later run until a reply to one of its messages
reopens it; the kept records stand in front of the new ones in their old order. -/
namespace AgentTrajectory.IncrementalSegment
open PyText PyDict PyJson TaskStitch LlmSegment

/-- The inputs of one run beside the stored state and `thaw_hours`. -/
structure RunInput where
  env : Env
  batch : List Event
  answer : Option Answer

def execRun (thawHours : ℤ) (state : Option State) (r : RunInput) : Option State :=
  (runIncremental r.env state r.batch thawHours r.answer).or state

def execRuns (thawHours : ℤ) (state : Option State) (rs : List RunInput) : Option State :=
  rs.foldl (execRun thawHours) state

def frozenOf (state : Option State) : List TaskRecord := (state.map State.frozenTasks).getD []

/-- The records a run treats as hard-frozen. -/
def hardIn (thawHours : ℤ) (state : Option State) (r : RunInput) : List TaskRecord :=
  match state with
  | none => []
  | some s => if r.batch = [] then [] else hardTasks s r.batch thawHours

def repliedBy (batch : List Event) (t : TaskRecord) : Bool :=
  batch.any fun e => decide (e.parentId ∈ t.memberMsgIds)

def repliedIn (rs : List RunInput) (t : TaskRecord) : Bool := rs.any fun r => repliedBy r.batch t

/-- The hard-freeze test apart from replies. -/
def Settled (watermarkTs thawHours : ℤ) (t : TaskRecord) : Prop :=
  decomposeFailed t = false ∧ t.terminal = true ∧ t.lastTs < watermarkTs - thawHours * 3600 * 1000

lemma repliedBy_of_reopened {frozen : List TaskRecord} {batch : List Event} {t : TaskRecord} {i : ℕ}
    (ht : (t, i) ∈ frozen.zipIdx) (hi : i ∈ reopenedFrozenIndexes frozen batch) :
    repliedBy batch t = true := by
  obtain ⟨e, he, hget⟩ := List.mem_filterMap.mp hi
  obtain ⟨⟨u, j⟩, hu, hpair⟩ := List.mem_flatMap.mp (mem_of_get?_ofPairs hget)
  obtain ⟨m, hm, hmj⟩ := List.mem_map.mp hpair
  obtain ⟨rfl, rfl⟩ := Prod.mk.inj hmj
  have htu : t = u := by
    have h1 := List.mem_zipIdx_iff_getElem?.mp ht
    have h2 := List.mem_zipIdx_iff_getElem?.mp hu
    simpa [h1] using h2
  subst htu
  exact List.any_eq_true.mpr ⟨e, he, by simpa using hm⟩

lemma filter_sublist_hardTasks (s : State) (batch : List Event) (thawHours : ℤ)
    {kept : List TaskRecord} (hk : kept.Sublist s.frozenTasks)
    (hs : ∀ t ∈ kept, Settled s.watermarkTs thawHours t) :
    (kept.filter fun t => !repliedBy batch t).Sublist (hardTasks s batch thawHours) := by
  classical
  let p : TaskRecord → Bool := fun t =>
    !repliedBy batch t && decide (Settled s.watermarkTs thawHours t)
  let hard := isHardFrozen s.watermarkTs thawHours (reopenedFrozenIndexes s.frozenTasks batch)
  have h1 : (kept.filter fun t => !repliedBy batch t) = kept.filter p :=
    List.filter_congr fun t ht => by simp [p, hs t ht]
  have h2 : s.frozenTasks.filter p = (s.frozenTasks.zipIdx.filter fun x => p x.1).map Prod.fst := by
    have hz : s.frozenTasks.zipIdx.map Prod.fst = s.frozenTasks := by simp
    conv_lhs => rw [← hz]
    rw [List.filter_map]
    rfl
  have h3 : (s.frozenTasks.zipIdx.filter fun x => p x.1) =
      (s.frozenTasks.zipIdx.filter hard).filter fun x => p x.1 := by
    rw [List.filter_filter]
    refine List.filter_congr fun x hx => ?_
    by_cases hp : p x.1 = true
    · have hp' := hp
      simp only [p, Bool.and_eq_true, Bool.not_eq_true', decide_eq_true_eq] at hp'
      obtain ⟨hno, hf, ht, hl⟩ := hp'
      have hopen : x.2 ∉ reopenedFrozenIndexes s.frozenTasks batch := fun hi => by
        rw [repliedBy_of_reopened hx hi] at hno
        exact absurd hno (by simp)
      simp [hp, hard, isHardFrozen, hopen, hf, ht, hl]
    · simp [hp]
  rw [h1]
  refine (hk.filter p).trans ?_
  rw [h2, h3, hardTasks]
  exact (List.filter_sublist).map Prod.fst

lemma settled_mono {w w' thawHours : ℤ} (h : w ≤ w') {t : TaskRecord} (ht : Settled w thawHours t) :
    Settled w' thawHours t :=
  ⟨ht.1, ht.2.1, by have := ht.2.2; omega⟩

lemma settled_of_mem_hardTasks {s : State} {batch : List Event} {thawHours : ℤ} {t : TaskRecord}
    (h : t ∈ hardTasks s batch thawHours) : Settled s.watermarkTs thawHours t := mem_hardTasks h

lemma hardTasks_sublist (s : State) (batch : List Event) (thawHours : ℤ) :
    (hardTasks s batch thawHours).Sublist s.frozenTasks := by
  have hz : s.frozenTasks.zipIdx.map Prod.fst = s.frozenTasks := by simp
  conv_rhs => rw [← hz]
  exact (List.filter_sublist).map Prod.fst

structure Kept (thawHours : ℤ) (state : Option State) (kept : List TaskRecord) : Prop where
  sublist : kept.Sublist (frozenOf state)
  settled : ∀ s ∈ state, ∀ t ∈ kept, Settled s.watermarkTs thawHours t

/-- What a run on a stored state does: nothing, or it keeps the hard-frozen records in
front and moves the watermark forward. -/
lemma execRun_cases (thawHours : ℤ) (s : State) (r : RunInput) :
    execRun thawHours (some s) r = some s ∨
      ∃ s', execRun thawHours (some s) r = some s' ∧ s.watermarkTs ≤ s'.watermarkTs ∧
        (hardTasks s r.batch thawHours).Sublist s'.frozenTasks := by
  simp only [execRun, runIncremental]
  split_ifs with hb
  · exact .inl rfl
  · cases segmentEvents r.env (activeEvents s r.batch thawHours) s.titleAnchors r.answer with
    | none => exact .inl rfl
    | some out => exact .inr ⟨_, rfl, le_max_left _ _, List.sublist_append_left _ _⟩

lemma kept_execRun {thawHours : ℤ} {state : Option State} {kept : List TaskRecord}
    (h : Kept thawHours state kept) (r : RunInput) :
    Kept thawHours (execRun thawHours state r) (kept.filter fun t => !repliedBy r.batch t) := by
  cases state with
  | none =>
    obtain rfl : kept = [] := List.sublist_nil.mp h.sublist
    exact ⟨by simp, by simp⟩
  | some s =>
    rcases execRun_cases thawHours s r with he | ⟨s', he, hw, hsub⟩
    · rw [he]
      exact ⟨List.filter_sublist.trans h.sublist, fun u hu t ht =>
        h.settled u hu t (List.mem_of_mem_filter ht)⟩
    · rw [he]
      refine ⟨(filter_sublist_hardTasks s r.batch thawHours h.sublist (h.settled s rfl)).trans hsub,
        fun u hu t ht => ?_⟩
      obtain rfl := Option.some.inj hu
      exact settled_mono hw (h.settled s rfl t (List.mem_of_mem_filter ht))

lemma kept_execRuns {thawHours : ℤ} {state : Option State} {kept : List TaskRecord}
    (h : Kept thawHours state kept) (rs : List RunInput) :
    Kept thawHours (execRuns thawHours state rs) (kept.filter fun t => !repliedIn rs t) := by
  induction rs generalizing state kept with
  | nil => simpa [repliedIn, execRuns] using h
  | cons r rs ih =>
    have hstep := ih (kept_execRun h r)
    rw [List.filter_filter] at hstep
    simpa [execRuns, repliedIn, Bool.not_or, Bool.and_comm] using hstep

lemma kept_hardIn (thawHours : ℤ) (state : Option State) (r : RunInput) :
    Kept thawHours (execRun thawHours state r) (hardIn thawHours state r) := by
  cases state with
  | none => exact ⟨by simp [hardIn], by simp [hardIn]⟩
  | some s =>
    simp only [hardIn]
    split_ifs with hb
    · exact ⟨by simp, by simp⟩
    · rcases execRun_cases thawHours s r with he | ⟨s', he, hw, hsub⟩
      · rw [he]
        refine ⟨hardTasks_sublist s r.batch thawHours, fun u hu t ht => ?_⟩
        obtain rfl := Option.some.inj hu
        exact settled_of_mem_hardTasks ht
      · rw [he]
        refine ⟨hsub, fun u hu t ht => ?_⟩
        obtain rfl := Option.some.inj hu
        exact settled_mono hw (settled_of_mem_hardTasks ht)

/-- Whatever happens before and after a run, the records it treats as hard-frozen are
decomposed and terminal, and those that no later batch replies to stand, identical and in
the same order, among the frozen tasks after all later runs. -/
theorem hard_frozen_records_persist (thawHours : ℤ) (state : Option State) (earlier : List RunInput)
    (run : RunInput) (later : List RunInput) :
    (∀ t ∈ hardIn thawHours (execRuns thawHours state earlier) run,
        decomposeFailed t = false ∧ t.terminal = true) ∧
      ((hardIn thawHours (execRuns thawHours state earlier) run).filter
        fun t => !repliedIn later t).Sublist
          (frozenOf (execRuns thawHours state (earlier ++ run :: later))) := by
  have hkept := kept_hardIn thawHours (execRuns thawHours state earlier) run
  refine ⟨fun t ht => ?_, ?_⟩
  · revert ht
    cases execRuns thawHours state earlier with
    | none => simp [hardIn]
    | some s =>
      simp only [hardIn]
      split_ifs
      · simp
      · intro ht
        exact ⟨(mem_hardTasks ht).1, (mem_hardTasks ht).2.1⟩
  · have hruns : execRuns thawHours state (earlier ++ run :: later) =
        execRuns thawHours (execRun thawHours (execRuns thawHours state earlier) run) later := by
      simp [execRuns]
    rw [hruns]
    exact (kept_execRuns hkept later).sublist

example : (hardIn 1 (execRuns 1 none [⟨asciiEnv, [ask, reply, nextAsk], some (oneTask "d" [py "1"])⟩])
    ⟨asciiEnv, [nextAsk], none⟩).map TaskRecord.events = [[ask, reply]] := by decide +kernel

end AgentTrajectory.IncrementalSegment
