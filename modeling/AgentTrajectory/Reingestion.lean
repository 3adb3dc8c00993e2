import AgentTrajectory.IncrementalRuns

/-! `run_incremental` on a history file whose messages the state already has. What is read
again joins the active area, but the tasks that stay hard-frozen keep their copies, so a
message of such a task is then in two places. -/
namespace AgentTrajectory.IncrementalSegment
open PyText PyDict PyJson TaskStitch LlmSegment

variable {m : PyStr}

/-- How many of the lists hold a message with the id. -/
def holding (ls : List (List Event)) (m : PyStr) : ℕ := ls.countP fun l => m ∈ l.map Event.msgId

/-- The message ids of a state. -/
def State.msgIds (s : State) : List PyStr := (s.places.flatten.map Event.msgId).filter (· ≠ [])

def keptEvents (env : Env) (s : State) (batch : List Event) (thawHours : ℤ) : List Event :=
  (atomicSegments env (sortByTs (activeEvents s batch thawHours))).flatten

/-- What a run starts from: every hard-frozen task and the active area. An empty batch
leaves the state as it is. -/
def areas (env : Env) (s : State) (batch : List Event) (thawHours : ℤ) : List (List Event) :=
  if batch = [] then s.places
  else (hardTasks s batch thawHours).map TaskRecord.events ++ [keptEvents env s batch thawHours]

structure Filed (d : Dict EventKey Event) : Prop where
  nodup : (keys d).Nodup
  key : ∀ kv ∈ d, kv.2.msgId ≠ [] → kv.1 = .id kv.2.msgId

lemma Filed.set {d : Dict EventKey Event} (h : Filed d) (e : Event) : Filed (set d (eventKey d e) e) := by
  refine ⟨keys_nodup_set h.nodup _ _, fun kv hkv hid => ?_⟩
  rcases (mem_set h.nodup _ _ kv).mp hkv with rfl | ⟨hold, -⟩
  · simp_all [eventKey]
  · exact h.key kv hold hid

lemma filed_foldl (events : List Event) {d : Dict EventKey Event} (h : Filed d) :
    Filed (events.foldl (fun d e => PyDict.set d (eventKey d e) e) d) := by
  induction events generalizing d with
  | nil => exact h
  | cons e es ih => exact ih (h.set e)

lemma Filed.count_le {d : Dict EventKey Event} (h : Filed d) (hm : m ≠ []) :
    ((d.map Prod.snd).map Event.msgId).count m ≤ 1 := by
  have hkeys := List.nodup_iff_count_le_one.mp h.nodup (.id m)
  rw [keys, List.count_eq_countP, List.countP_map] at hkeys
  rw [List.map_map, List.count_eq_countP, List.countP_map]
  refine (List.countP_mono_left fun kv hkv hid => ?_).trans hkeys
  have hid : kv.2.msgId = m := by simpa using hid
  simp [h.key kv hkv (hid ▸ hm), hid]

lemma count_dedupByMsg (events : List Event) (hm : m ≠ []) :
    ((dedupByMsg events).map Event.msgId).count m ≤ 1 := by
  have hfiled : Filed (events.foldl (fun d e => PyDict.set d (eventKey d e) e) []) :=
    filed_foldl events ⟨by simp [keys], by simp⟩
  rw [dedupByMsg, ((sortByTs_perm _).map Event.msgId).count_eq]
  exact hfiled.count_le hm

lemma count_keptEvents (env : Env) (s : State) (batch : List Event) (thawHours : ℤ) (hm : m ≠ []) :
    ((keptEvents env s batch thawHours).map Event.msgId).count m ≤ 1 := by
  obtain ⟨dropped, -, hperm⟩ := atomicSegments_perm env (sortByTs (activeEvents s batch thawHours))
  have hcount := ((hperm.trans (sortByTs_perm _)).map Event.msgId).count_eq m
  rw [List.map_append, List.count_append] at hcount
  have hone := count_dedupByMsg ((thawedTasks s batch thawHours).flatMap TaskRecord.events ++
    s.activeTailEvents ++ batch) hm
  rw [activeEvents] at hcount
  rw [keptEvents, activeEvents]
  omega

lemma holding_append (ls ls' : List (List Event)) (m : PyStr) :
    holding (ls ++ ls') m = holding ls m + holding ls' m := List.countP_append

lemma holding_le_count (ls : List (List Event)) (m : PyStr) :
    holding ls m ≤ (ls.flatten.map Event.msgId).count m := by
  induction ls with
  | nil => simp [holding]
  | cons l ls ih =>
    rw [List.flatten_cons, List.map_append, List.count_append]
    rw [holding] at ih
    by_cases hl : m ∈ l.map Event.msgId
    · have hpos := List.count_pos_iff.mpr hl
      rw [holding, List.countP_cons_of_pos (by simpa using hl)]
      omega
    · rw [holding, List.countP_cons_of_neg (by simpa using hl)]
      omega

lemma holding_eq_count {ls : List (List Event)} (h : (ls.flatten.map Event.msgId).count m ≤ 1) :
    holding ls m = (ls.flatten.map Event.msgId).count m := by
  refine le_antisymm (holding_le_count ls m) ?_
  by_cases hm : m ∈ ls.flatten.map Event.msgId
  · obtain ⟨e, he, rfl⟩ := List.mem_map.mp hm
    obtain ⟨l, hl, hel⟩ := List.mem_flatten.mp he
    have hpos : 0 < holding ls e.msgId :=
      List.countP_pos_iff.mpr ⟨l, hl, by simpa using ⟨e, hel, rfl⟩⟩
    omega
  · rw [List.count_eq_zero.mpr hm]
    exact Nat.zero_le _

lemma holding_eq_of_perm {ls ls' : List (List Event)} (hperm : ls.flatten.Perm ls'.flatten)
    (h : (ls'.flatten.map Event.msgId).count m ≤ 1) : holding ls m = holding ls' m := by
  have hcount := (hperm.map Event.msgId).count_eq m
  rw [holding_eq_count h, holding_eq_count (hcount ▸ h), hcount]

lemma holding_places_run {env : Env} {s s' : State} {batch : List Event} {thawHours : ℤ} {answer : Option Answer}
    (h : runIncremental env (some s) batch thawHours answer = some s') (hm : m ≠ []) :
    holding s'.places m = holding (areas env s batch thawHours) m := by
  rw [runIncremental] at h
  rw [areas]
  split_ifs at h ⊢ with hbatch
  · obtain rfl := Option.some.inj h
    rfl
  · obtain ⟨⟨cs, a⟩, hseg, rfl⟩ := Option.map_eq_some_iff.mp h
    have hplaces : (nextState env s batch cs a thawHours).places =
      (hardTasks s batch thawHours).map TaskRecord.events ++
        ((collectClusters env cs a).1.map TaskRecord.events ++ [(collectClusters env cs a).2.events]) := by
      simp [State.places, nextState]
    have hperm : ((collectClusters env cs a).1.map TaskRecord.events ++
        [(collectClusters env cs a).2.events]).flatten.Perm [keptEvents env s batch thawHours].flatten := by
      have hclusters := (collectClusters_perm env a cs).trans (segmentEvents_flatten hseg)
      rwa [List.flatten_append, List.flatten_singleton, List.flatten_singleton, ← List.flatMap_def]
    have hone : ([keptEvents env s batch thawHours].flatten.map Event.msgId).count m ≤ 1 := by
      rw [List.flatten_singleton]
      exact count_keptEvents env s batch thawHours hm
    rw [hplaces, holding_append, holding_eq_of_perm hperm hone, ← holding_append]

/-- Reading a file again leaves every id in one place exactly if every id is in one of the
areas that the run starts from. -/
theorem reingested_in_one_place_iff (env : Env) (s s' : State) (batch : List Event) (thawHours : ℤ)
    (answer : Option Answer) (h : runIncremental env (some s) batch thawHours answer = some s') :
    (∀ m ∈ s.msgIds, holding s'.places m = 1) ↔ ∀ m ∈ s.msgIds, holding (areas env s batch thawHours) m = 1 := by
  have hid : ∀ m ∈ s.msgIds, m ≠ [] := fun m hm => by simpa using (List.mem_filter.mp hm).2
  refine forall₂_congr fun m hm => ?_
  rw [holding_places_run h (hid m hm)]

def later : Event := ⟨200000000, .user, py "m3", [], py "write the report"⟩

def twoTasks : Answer :=
  ⟨[⟨.str (py "deployment"), .str [], .str [], [py "#1"]⟩,
    ⟨.str (py "report"), .str [], .str [], [py "#2"]⟩], [], [], []⟩

/-- A first run, and two days later a message of its first task, then hard-frozen, is read
again: it is in two places. -/
theorem reread_message_in_two_places :
    ∃ s s', runIncremental asciiEnv none [ask, reply, later] 24 (some twoTasks) = some s ∧
      ask ∈ s.places.flatten ∧ runIncremental asciiEnv (some s) [ask] 24 (some twoTasks) = some s' ∧
      py "m1" ∈ s.msgIds ∧ holding s'.places (py "m1") = 2 := by
  have hfirst : ∀ s ∈ runIncremental asciiEnv none [ask, reply, later] 24 (some twoTasks),
      ask ∈ s.places.flatten ∧ py "m1" ∈ s.msgIds ∧
      (runIncremental asciiEnv (some s) [ask] 24 (some twoTasks)).isSome = true ∧
      ∀ s' ∈ runIncremental asciiEnv (some s) [ask] 24 (some twoTasks), holding s'.places (py "m1") = 2 := by
    decide +kernel
  obtain ⟨s, hs⟩ := Option.isSome_iff_exists.mp (show (runIncremental asciiEnv none [ask, reply, later] 24
    (some twoTasks)).isSome = true by decide +kernel)
  obtain ⟨hask, hid, hsome, hplaces⟩ := hfirst s hs
  obtain ⟨s', hs'⟩ := Option.isSome_iff_exists.mp hsome
  exact ⟨s, s', hs, hask, hs', hid, hplaces s' hs'⟩

theorem reingested_in_one_place_iff_reopened :
    ∃ s s', runIncremental asciiEnv none [ask, reply, later] 24 (some twoTasks) = some s ∧
      runIncremental asciiEnv (some s) [reply] 24 (some twoTasks) = some s' ∧ s.msgIds.length = 3 ∧
      ∀ m ∈ s.msgIds, holding s'.places m = 1 := by
  have hfirst : ∀ s ∈ runIncremental asciiEnv none [ask, reply, later] 24 (some twoTasks),
      s.msgIds.length = 3 ∧ (runIncremental asciiEnv (some s) [reply] 24 (some twoTasks)).isSome = true ∧
      (s.msgIds.all fun m => holding (areas asciiEnv s [reply] 24) m == 1) = true := by decide +kernel
  obtain ⟨s, hs⟩ := Option.isSome_iff_exists.mp (show (runIncremental asciiEnv none [ask, reply, later] 24
    (some twoTasks)).isSome = true by decide +kernel)
  obtain ⟨hlen, hsome, hareas⟩ := hfirst s hs
  obtain ⟨s', hs'⟩ := Option.isSome_iff_exists.mp hsome
  refine ⟨s, s', hs, hs', hlen, (reingested_in_one_place_iff asciiEnv s s' [reply] 24 _ hs').mpr fun m hm => ?_⟩
  exact beq_iff_eq.mp (List.all_eq_true.mp hareas m hm)

end AgentTrajectory.IncrementalSegment
