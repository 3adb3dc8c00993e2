import AgentTrajectory.IncrementalSegment
import AgentTrajectory.SegmentStitching

/-! Whole histories of incremental runs. Every message stays in exactly one place of the
state: the clusters of a run partition what it segments up to noise, and the messages a
fetch can deliver again are newer than anything that is hard-frozen. -/
namespace AgentTrajectory.IncrementalSegment
open PyText PyDict PyJson TaskStitch LlmSegment

variable {events : List Event} {answer : Option Answer}

lemma count_false_mapIdx {α : Type*} (l : List α) (f : α → Bool) (k last : ℕ) :
    (l.mapIdx fun i d => if i + k = last then f d else true).count false ≤ 1 := by
  induction l generalizing k with
  | nil => simp
  | cons d l ih =>
    have hshift : (l.mapIdx fun i e => if i + 1 + k = last then f e else true) =
        l.mapIdx fun i e => if i + (k + 1) = last then f e else true := by
      refine congrArg (fun g => List.mapIdx g l) (funext fun i => funext fun e => ?_)
      rw [show i + 1 + k = i + (k + 1) by omega]
    rw [List.mapIdx_cons, hshift, List.count_cons]
    by_cases hk : 0 + k = last
    · have hrest : (l.mapIdx fun i e => if i + (k + 1) = last then f e else true).count false = 0 := by
        rw [List.count_eq_zero]
        intro hmem
        obtain ⟨i, hi, he⟩ := List.mem_mapIdx.mp hmem
        rw [if_neg (by omega)] at he
        exact absurd he (by simp)
      rw [hrest]
      split_ifs <;> omega
    · rw [if_neg hk]
      exact ih (k + 1)

lemma computeTerminal_length (env : Env) (cs : List (List Event)) :
    (computeTerminal env cs).length = cs.length := by
  cases cs <;> simp [computeTerminal]

lemma computeTerminal_count (env : Env) (cs : List (List Event)) :
    (computeTerminal env cs).count false ≤ 1 := by
  cases cs with
  | nil => simp [computeTerminal]
  | cons c cs => exact count_false_mapIdx (c :: cs) (resolvedTail env) 0 _

lemma carryForwardTitles_fst (anchors : List TitleAnchor) (used : List ℕ)
    (cs : List (List Event × Meta)) :
    (carryForwardTitles anchors used cs).map Prod.fst = cs.map Prod.fst := by
  induction cs generalizing used with
  | nil => rfl
  | cons c cs ih =>
    obtain ⟨cluster, m⟩ := c
    rw [carryForwardTitles]
    split
    · split_ifs <;> simp [ih]
    · simp [ih]

section Collect
variable (env : Env) (a : Answer)

lemma collect_terminal (i : ℕ) (tail : Tail) (l : List ((List Event × Meta) × Bool))
    (h : (l.map Prod.snd).count false = 0) :
    (collect env a i tail l).1.flatMap TaskRecord.events = (l.map fun c => c.1.1).flatten ∧
      (collect env a i tail l).2 = tail := by
  induction l generalizing i with
  | nil => simp [collect]
  | cons c l ih =>
    obtain ⟨⟨cluster, m⟩, terminal⟩ := c
    cases terminal with
    | false => simp at h
    | true =>
      obtain ⟨h1, h2⟩ := ih (i + 1) (by simpa using h)
      simp [collect, h1, h2, taskRecord]

lemma collect_perm (i : ℕ) (tail : Tail) (ht : tail.events = [])
    (l : List ((List Event × Meta) × Bool)) (h : (l.map Prod.snd).count false ≤ 1) :
    ((collect env a i tail l).1.flatMap TaskRecord.events ++ (collect env a i tail l).2.events).Perm
      (l.map fun c => c.1.1).flatten := by
  induction l generalizing i with
  | nil => simp [collect, ht]
  | cons c l ih =>
    obtain ⟨⟨cluster, m⟩, terminal⟩ := c
    cases terminal with
    | false =>
      obtain ⟨h1, h2⟩ := collect_terminal env a (i + 1)
        ⟨cluster, m.title, (a.taskSubreqs.getD i ([], true)).1⟩ l (by simpa using h)
      simp only [collect, Bool.false_eq_true, if_false, h1, h2, List.map_cons, List.flatten_cons]
      exact List.perm_append_comm
    | true =>
      have := ih (i + 1) (by simpa using h)
      simp only [collect, if_true, List.flatMap_cons, List.map_cons, List.flatten_cons,
        List.append_assoc]
      exact this.append_left cluster

lemma collect_records (i : ℕ) (tail : Tail) (l : List ((List Event × Meta) × Bool)) :
    ∀ t ∈ (collect env a i tail l).1, t.lastTs = lastTs t.events := by
  induction l generalizing i tail with
  | nil => simp [collect]
  | cons c l ih =>
    obtain ⟨⟨cluster, m⟩, terminal⟩ := c
    cases terminal with
    | false => exact ih _ _
    | true => exact List.forall_mem_cons.mpr ⟨rfl, ih _ _⟩

lemma collectClusters_perm (cs : List (List Event × Meta)) :
    ((collectClusters env cs a).1.flatMap TaskRecord.events ++ (collectClusters env cs a).2.events).Perm
      (cs.map Prod.fst).flatten := by
  have hlen : (computeTerminal env (cs.map Prod.fst)).length = cs.length := by
    rw [computeTerminal_length, List.length_map]
  have hflags := computeTerminal_count env (cs.map Prod.fst)
  have hzip := collect_perm env a 0 Tail.empty rfl
    (cs.zip (computeTerminal env (cs.map Prod.fst)))
    (by rwa [List.map_snd_zip (by omega)])
  have hfst : ((cs.zip (computeTerminal env (cs.map Prod.fst))).map fun c => c.1.1) =
      cs.map Prod.fst := by
    have hz : (cs.zip (computeTerminal env (cs.map Prod.fst))).map Prod.fst = cs :=
      List.map_fst_zip (by omega)
    have hm := congrArg (List.map Prod.fst) hz
    rwa [List.map_map] at hm
  rwa [hfst] at hzip

end Collect

lemma segmentEvents_flatten {env : Env} {prior : List TitleAnchor}
    {cs : List (List Event × Meta)} {a : Answer}
    (h : segmentEvents env events prior answer = some (cs, a)) :
    (cs.map Prod.fst).flatten.Perm (atomicSegments env (sortByTs events)).flatten := by
  simp only [segmentEvents] at h
  split_ifs at h with hatoms
  · obtain ⟨rfl, -⟩ := Prod.mk.inj (Option.some.inj h)
    simp [hatoms]
  · obtain ⟨b, -, hb⟩ := Option.map_eq_some_iff.mp h
    obtain ⟨rfl, -⟩ := Prod.mk.inj hb
    rw [carryForwardTitles_fst]
    exact assembleClusters_perm env _ _

lemma segmentEvents_perm {env : Env} {prior : List TitleAnchor}
    {cs : List (List Event × Meta)} {a : Answer}
    (h : segmentEvents env events prior answer = some (cs, a)) :
    ∃ dropped, (∀ e ∈ dropped, isNoise e.text = true) ∧
      ((cs.map Prod.fst).flatten ++ dropped).Perm events := by
  obtain ⟨dropped, hnoise, hperm⟩ := atomicSegments_perm env (sortByTs events)
  exact ⟨dropped, hnoise,
    (((segmentEvents_flatten h).append_right _).trans hperm).trans (sortByTs_perm events)⟩

lemma le_lastTs {e : Event} (h : e ∈ events) : e.ts ≤ lastTs events := by
  cases events with
  | nil => simp at h
  | cons d es =>
    have hfold : ∀ (l : List Event) (m : ℤ), m ≤ l.foldl (fun m d => max m d.ts) m ∧
        ∀ x ∈ l, x.ts ≤ l.foldl (fun m d => max m d.ts) m := by
      intro l
      induction l with
      | nil => simp
      | cons x l ih =>
        intro m
        obtain ⟨h1, h2⟩ := ih (max m x.ts)
        simp only [List.foldl_cons]
        exact ⟨by omega, List.forall_mem_cons.mpr ⟨by omega, h2⟩⟩
    rcases List.mem_cons.mp h with rfl | h
    · exact (hfold es e.ts).1
    · exact (hfold es d.ts).2 e h

lemma hard_append_thawed (s : State) (batch : List Event) (thawHours : ℤ) :
    (hardTasks s batch thawHours ++ thawedTasks s batch thawHours).Perm s.frozenTasks := by
  have hz : s.frozenTasks.zipIdx.map Prod.fst = s.frozenTasks := by simp
  rw [hardTasks, thawedTasks, ← List.map_append]
  have := (List.filter_append_perm
    (isHardFrozen s.watermarkTs thawHours (reopenedFrozenIndexes s.frozenTasks batch))
    s.frozenTasks.zipIdx).map Prod.fst
  rwa [hz] at this

lemma mem_hardTasks {s : State} {batch : List Event} {thawHours : ℤ} {t : TaskRecord}
    (h : t ∈ hardTasks s batch thawHours) :
    decomposeFailed t = false ∧ t.terminal = true ∧
      t.lastTs < s.watermarkTs - thawHours * 3600 * 1000 := by
  obtain ⟨⟨u, i⟩, hu, rfl⟩ := List.mem_map.mp h
  have := (List.mem_filter.mp hu).2
  simp only [isHardFrozen, Bool.and_eq_true, Bool.not_eq_true', decide_eq_true_eq] at this
  exact ⟨this.1.1.2, this.1.2, this.2⟩

def Coherent (events : List Event) : Prop :=
  ∀ e ∈ events, ∀ d ∈ events, e.msgId = d.msgId → e = d

structure ById (events : List Event) (d : Dict EventKey Event) : Prop where
  nodup : (keys d).Nodup
  entry : ∀ kv ∈ d, kv.1 = .id kv.2.msgId ∧ kv.2 ∈ events

lemma byId_set (hid : ∀ e ∈ events, e.msgId ≠ []) (hc : Coherent events)
    {d : Dict EventKey Event} (hd : ById events d) {e : Event} (he : e ∈ events) :
    ById events (set d (eventKey d e) e) ∧
      ∀ x, x ∈ (set d (eventKey d e) e).map Prod.snd ↔ x ∈ d.map Prod.snd ∨ x = e := by
  have hkey : eventKey d e = .id e.msgId := by simp [eventKey, hid e he]
  have hmem := fun kv => mem_set hd.nodup (eventKey d e) e kv
  rw [hkey] at hmem ⊢
  refine ⟨⟨keys_nodup_set hd.nodup _ _, fun kv hkv => ?_⟩, fun x => ?_⟩
  · rcases (hmem kv).mp hkv with rfl | ⟨hold, -⟩
    · exact ⟨rfl, he⟩
    · exact hd.entry kv hold
  · simp only [List.mem_map]
    constructor
    · rintro ⟨kv, hkv, rfl⟩
      rcases (hmem kv).mp hkv with rfl | ⟨hold, -⟩
      · exact .inr rfl
      · exact .inl ⟨kv, hold, rfl⟩
    · rintro (⟨kv, hkv, rfl⟩ | rfl)
      · by_cases hk : kv.1 = .id e.msgId
        · obtain ⟨h1, h2⟩ := hd.entry kv hkv
          have hsame : kv.2 = e := hc _ h2 _ he (EventKey.id.inj (h1.symm.trans hk))
          exact ⟨(.id e.msgId, e), (hmem _).mpr (.inl rfl), hsame.symm⟩
        · exact ⟨kv, (hmem _).mpr (.inr ⟨hkv, hk⟩), rfl⟩
      · exact ⟨(.id x.msgId, x), (hmem _).mpr (.inl rfl), rfl⟩

lemma byId_foldl (hid : ∀ e ∈ events, e.msgId ≠ []) (hc : Coherent events)
    {l : List Event} (hl : l ⊆ events) {d : Dict EventKey Event} (hd : ById events d) :
    ById events (l.foldl (fun d e => set d (eventKey d e) e) d) ∧
      ∀ x, x ∈ (l.foldl (fun d e => set d (eventKey d e) e) d).map Prod.snd ↔
        x ∈ d.map Prod.snd ∨ x ∈ l := by
  induction l generalizing d with
  | nil => exact ⟨hd, by simp⟩
  | cons e l ih =>
    obtain ⟨hset, hmem⟩ := byId_set hid hc hd (hl List.mem_cons_self)
    obtain ⟨hrest, hrmem⟩ := ih (fun x hx => hl (by simp [hx])) hset
    refine ⟨hrest, fun x => ?_⟩
    rw [List.foldl_cons, hrmem, hmem, List.mem_cons, or_assoc]

lemma dedupByMsg_spec (hid : ∀ e ∈ events, e.msgId ≠ []) (hc : Coherent events) :
    ((dedupByMsg events).map Event.msgId).Nodup ∧ ∀ e, e ∈ dedupByMsg events ↔ e ∈ events := by
  have hempty : ById events [] := ⟨by simp [keys], by simp⟩
  obtain ⟨hd, hmem⟩ := byId_foldl hid hc (List.Subset.refl _) hempty
  have hperm := sortByTs_perm ((events.foldl (fun d e => set d (eventKey d e) e) []).map Prod.snd)
  refine ⟨?_, fun e => ?_⟩
  · rw [dedupByMsg, (hperm.map Event.msgId).nodup_iff, List.map_map]
    have hkeys : keys (events.foldl (fun d e => set d (eventKey d e) e) []) =
        ((events.foldl (fun d e => set d (eventKey d e) e) []).map (Event.msgId ∘ Prod.snd)).map
          EventKey.id := by
      rw [keys, List.map_map]
      exact List.map_congr_left fun kv hkv => (hd.entry kv hkv).1
    have hn := hd.nodup
    rw [hkeys] at hn
    exact hn.of_map
  · rw [dedupByMsg, hperm.mem_iff, hmem]
    simp

/-- The places of a state: the events of each frozen task, and the active tail. -/
def State.places (s : State) : List (List Event) :=
  s.frozenTasks.map TaskRecord.events ++ [s.activeTailEvents]

/-- What a live fetch promises: distinct ids, nothing older than the stored watermark in
whole seconds, and messages that were fetched before unchanged. -/
structure LiveBatch (state : Option State) (fetched batch : List Event) : Prop where
  nodup : (batch.map Event.msgId).Nodup
  nonempty : ∀ e ∈ batch, e.msgId ≠ []
  recent : ∀ s ∈ state, ∀ e ∈ batch, s.fetchStart * 1000 ≤ e.ts
  unchanged : ∀ e ∈ batch, ∀ d ∈ fetched, e.msgId = d.msgId → e = d

/-- The stored state after any number of live runs, with everything they fetched. The
character tables, the similarity model and the answers may change from run to run. -/
inductive LiveRuns : Option State → List Event → Prop
  | start : LiveRuns none []
  | run {state : Option State} {fetched : List Event} {s : State} (env : Env) (batch : List Event)
      (thawHours : ℤ) (answer : Option Answer) : LiveRuns state fetched →
      LiveBatch state fetched batch → 1 ≤ thawHours →
      runIncremental env state batch thawHours answer = some s → LiveRuns (some s) (fetched ++ batch)

/-- The invariant: ids occur once, in fetched events only, and no fetched event that is
not noise is missing; records know the time of their last event. -/
structure Placed (s : State) (fetched : List Event) : Prop where
  nodup : (s.places.flatten.map Event.msgId).Nodup
  known : s.places.flatten ⊆ fetched
  covered : ∀ e ∈ fetched, isNoise e.text = false → e ∈ s.places.flatten
  lastTs : ∀ t ∈ s.frozenTasks, t.lastTs = lastTs t.events

structure FetchedOk (fetched : List Event) : Prop where
  nonempty : ∀ e ∈ fetched, e.msgId ≠ []
  coherent : Coherent fetched

lemma places_flatten (s : State) :
    s.places.flatten = s.frozenTasks.flatMap TaskRecord.events ++ s.activeTailEvents := by
  simp [State.places, List.flatMap_def]

lemma fetchedOk_append {state : Option State} {fetched batch : List Event} (hf : FetchedOk fetched)
    (hb : LiveBatch state fetched batch) : FetchedOk (fetched ++ batch) := by
  refine ⟨fun e he => ?_, fun e he d hd hid => ?_⟩
  · rcases List.mem_append.mp he with h | h
    · exact hf.nonempty e h
    · exact hb.nonempty e h
  · rcases List.mem_append.mp he with h | h <;> rcases List.mem_append.mp hd with h' | h'
    · exact hf.coherent e h d h' hid
    · exact (hb.unchanged d h' e h hid.symm).symm
    · exact hb.unchanged e h d h' hid
    · exact List.inj_on_of_nodup_map hb.nodup h h' hid

lemma placed_of_segments {s' : State} (hard : List TaskRecord) {kept segmented fetched' : List Event}
    {env : Env} {prior : List TitleAnchor}
    {cs : List (List Event × Meta)} {a : Answer} (hkept : kept = hard.flatMap TaskRecord.events)
    (hseg : segmentEvents env segmented prior answer = some (cs, a))
    (hfrozen : s'.frozenTasks = hard ++ (collectClusters env cs a).1)
    (htail : s'.activeTailEvents = (collectClusters env cs a).2.events)
    (hk : (kept.map Event.msgId).Nodup) (hs : (segmented.map Event.msgId).Nodup)
    (hdisj : ∀ e ∈ kept, ∀ d ∈ segmented, e.msgId ≠ d.msgId)
    (hsub : kept ⊆ fetched' ∧ segmented ⊆ fetched')
    (hcov : ∀ e ∈ fetched', isNoise e.text = false → e ∈ kept ∨ e ∈ segmented)
    (hlast : ∀ t ∈ hard, t.lastTs = lastTs t.events) : Placed s' fetched' := by
  obtain ⟨dropped, hnoise, hperm⟩ := segmentEvents_perm hseg
  have hplaces : s'.places.flatten.Perm (kept ++ (cs.map Prod.fst).flatten) := by
    rw [places_flatten, hfrozen, htail, List.flatMap_append, hkept, List.append_assoc]
    exact (collectClusters_perm env a cs).append_left _
  have hsegmem : ∀ e ∈ (cs.map Prod.fst).flatten, e ∈ segmented := fun e he =>
    hperm.mem_iff.mp (List.mem_append_left _ he)
  refine ⟨?_, fun e he => ?_, fun e he hn => ?_, fun t ht => ?_⟩
  · rw [(hplaces.map _).nodup_iff, List.map_append, List.nodup_append]
    have hall := ((hperm.map Event.msgId).nodup_iff).mpr hs
    rw [List.map_append] at hall
    refine ⟨hk, (List.nodup_append.mp hall).1, ?_⟩
    intro x hx y hy
    obtain ⟨e, he, rfl⟩ := List.mem_map.mp hx
    obtain ⟨d, hd, rfl⟩ := List.mem_map.mp hy
    exact hdisj e he d (hsegmem d hd)
  · rcases List.mem_append.mp (hplaces.mem_iff.mp he) with h | h
    · exact hsub.1 h
    · exact hsub.2 (hsegmem e h)
  · rw [hplaces.mem_iff, List.mem_append]
    rcases hcov e he hn with h | h
    · exact .inl h
    · rcases List.mem_append.mp (hperm.mem_iff.mpr h) with h' | h'
      · exact .inr h'
      · rw [hnoise e h'] at hn
        exact absurd hn (by simp)
  · rw [hfrozen] at ht
    rcases List.mem_append.mp ht with h | h
    · exact hlast t h
    · exact collect_records env a 0 _ _ t h

lemma hard_older {s : State} {fetched batch : List Event} {thawHours : ℤ} (hp : Placed s fetched)
    (hb : LiveBatch (some s) fetched batch) (ht : 1 ≤ thawHours) {t : TaskRecord}
    (hh : t ∈ hardTasks s batch thawHours) {e d : Event} (he : e ∈ t.events) (hd : d ∈ batch) :
    e.ts < d.ts := by
  obtain ⟨-, -, hcut⟩ := mem_hardTasks hh
  have hfrozen : t ∈ s.frozenTasks :=
    (hard_append_thawed s batch thawHours).mem_iff.mp (List.mem_append_left _ hh)
  have h1 := le_lastTs he
  rw [← hp.lastTs t hfrozen] at h1
  have h2 := hb.recent s rfl d hd
  have h3 : s.watermarkTs - 1000 < s.fetchStart * 1000 := by
    have hdiv := Int.mul_tdiv_add_tmod s.watermarkTs 1000
    have hmod := Int.tmod_lt_of_pos s.watermarkTs (show (0 : ℤ) < 1000 by norm_num)
    rw [State.fetchStart]
    omega
  omega

lemma placed_first_run {env : Env} {batch : List Event} {thawHours : ℤ}
    {s' : State} (hb : LiveBatch none [] batch)
    (hrun : runIncremental env none batch thawHours answer = some s') : Placed s' batch := by
  obtain ⟨⟨cs, a⟩, hseg, rfl⟩ := Option.map_eq_some_iff.mp hrun
  exact placed_of_segments [] rfl hseg rfl rfl (by simp) hb.nodup (by simp)
    ⟨by simp, List.Subset.refl _⟩ (fun e he _ => .inr he) (by simp)

lemma placed_next_run {env : Env} {s s' : State} {fetched batch : List Event} {thawHours : ℤ}
    (hf : FetchedOk fetched) (hp : Placed s fetched)
    (hb : LiveBatch (some s) fetched batch) (ht : 1 ≤ thawHours)
    (hrun : runIncremental env (some s) batch thawHours answer = some s') :
    Placed s' (fetched ++ batch) := by
  simp only [runIncremental] at hrun
  split_ifs at hrun with hempty
  · obtain rfl := Option.some.inj hrun
    rwa [hempty, List.append_nil]
  obtain ⟨⟨cs, a⟩, hseg, rfl⟩ := Option.map_eq_some_iff.mp hrun
  let hard := hardTasks s batch thawHours
  let kept := hard.flatMap TaskRecord.events
  let old := (thawedTasks s batch thawHours).flatMap TaskRecord.events ++ s.activeTailEvents
  have hsplit : (kept ++ old).Perm s.places.flatten := by
    rw [places_flatten, ← List.append_assoc, ← List.flatMap_append]
    exact ((hard_append_thawed s batch thawHours).flatMap_right _).append_right _
  have hnodup : ((kept ++ old).map Event.msgId).Nodup := ((hsplit.map _).nodup_iff).mpr hp.nodup
  rw [List.map_append, List.nodup_append] at hnodup
  have hkept : ∀ e ∈ kept, e ∈ fetched := fun e he =>
    hp.known (hsplit.mem_iff.mp (List.mem_append_left _ he))
  have hold : ∀ e ∈ old ++ batch, e ∈ fetched ++ batch := by
    intro e he
    rcases List.mem_append.mp he with h | h
    · exact List.mem_append_left _ (hp.known (hsplit.mem_iff.mp (List.mem_append_right _ h)))
    · exact List.mem_append_right _ h
  have hf' := fetchedOk_append hf hb
  obtain ⟨hdn, hdm⟩ := dedupByMsg_spec (fun e he => hf'.nonempty e (hold e he))
    (fun e he d hd => hf'.coherent e (hold e he) d (hold d hd))
  refine placed_of_segments hard rfl hseg rfl rfl hnodup.1 hdn ?_ ⟨?_, ?_⟩ ?_ ?_
  · intro e he d hd hid
    rcases List.mem_append.mp ((hdm d).mp hd) with h | h
    · exact hnodup.2.2 _ (List.mem_map_of_mem he) _ (List.mem_map_of_mem h) hid
    · obtain ⟨t, hth, het⟩ := List.mem_flatMap.mp he
      have hlt := hard_older hp hb ht hth het h
      rw [hb.unchanged d h e (hkept e he) hid.symm] at hlt
      exact lt_irrefl _ hlt
  · exact fun e he => List.mem_append_left _ (hkept e he)
  · exact fun e he => hold e ((hdm e).mp he)
  · intro e he hn
    rcases List.mem_append.mp he with h | h
    · rcases List.mem_append.mp (hsplit.mem_iff.mpr (hp.covered e h hn)) with h' | h'
      · exact .inl h'
      · exact .inr ((hdm e).mpr (List.mem_append_left _ h'))
    · exact .inr ((hdm e).mpr (List.mem_append_right _ h))
  · exact fun t hth => hp.lastTs t
      ((hard_append_thawed s batch thawHours).mem_iff.mp (List.mem_append_left _ hth))

theorem liveRuns_placed {state : Option State} {fetched : List Event} (h : LiveRuns state fetched) :
    FetchedOk fetched ∧ (state = none → fetched = []) ∧ ∀ s ∈ state, Placed s fetched := by
  induction h with
  | start => exact ⟨⟨by simp, by simp [Coherent]⟩, fun _ => rfl, by simp⟩
  | @run state fetched s env batch thawHours answer _ hb ht hrun ih =>
    obtain ⟨hf, hnone, hp⟩ := ih
    refine ⟨fetchedOk_append hf hb, by simp, fun s' hs' => ?_⟩
    obtain rfl := Option.some.inj hs'
    cases state with
    | none =>
      obtain rfl := hnone rfl
      exact placed_first_run hb hrun
    | some s₀ => exact placed_next_run hf (hp s₀ rfl) hb ht hrun

lemma index_eq_of_key_eq {α : Type*} {ls : List (List α)} {f : α → PyStr}
    (hn : (ls.flatten.map f).Nodup) {i j : Fin ls.length} {e d : α} (he : e ∈ ls.get i)
    (hd : d ∈ ls.get j) (h : f e = f d) : i = j := by
  rw [List.map_flatten, List.nodup_flatten] at hn
  have hdisj := List.pairwise_iff_getElem.mp hn.2
  have hlt : ∀ i j : Fin ls.length, i < j → ∀ e ∈ ls.get i, ∀ d ∈ ls.get j, f e ≠ f d := by
    intro i j hij e he d hd hed
    have := hdisj i j (by simp) (by simp) hij
    simp only [List.getElem_map] at this
    exact this (List.mem_map_of_mem he) (hed ▸ List.mem_map_of_mem hd)
  rcases lt_trichotomy i j with hij | hij | hij
  · exact absurd h (hlt i j hij e he d hd)
  · exact hij
  · exact absurd h.symm (hlt j i hij d hd e he)

/-- After every live run each fetched event that is not noise lies in exactly one place,
and no id lies in two. -/
theorem live_events_in_one_place {s : State} {fetched : List Event}
    (h : LiveRuns (some s) fetched) :
    (∀ e ∈ fetched, isNoise e.text = false → ∃! i : Fin s.places.length, e ∈ s.places.get i) ∧
      ∀ (i j : Fin s.places.length) (e d : Event), e ∈ s.places.get i → d ∈ s.places.get j →
        e.msgId = d.msgId → i = j := by
  have hp := (liveRuns_placed h).2.2 s rfl
  have hkey : ∀ (i j : Fin s.places.length) (e d : Event), e ∈ s.places.get i →
      d ∈ s.places.get j → e.msgId = d.msgId → i = j := fun i j e d he hd hid =>
    index_eq_of_key_eq hp.nodup he hd hid
  refine ⟨fun e he hn => ?_, hkey⟩
  obtain ⟨place, hplace, hmem⟩ := List.mem_flatten.mp (hp.covered e he hn)
  obtain ⟨i, hi⟩ := List.get_of_mem hplace
  rw [← hi] at hmem
  exact ⟨i, hmem, fun j hj => hkey j i e e hj hmem rfl⟩

def oneTask (title : String) (members : List PyStr) : Answer :=
  ⟨[⟨.str (py title), .str [], .str [], members⟩], [], [], []⟩

def afterFirstRun : Option State :=
  runIncremental asciiEnv none [ask, reply] 24 (some (oneTask "deployment" [py "#1"]))

theorem live_events_in_one_place_two_runs : ∃ s, LiveRuns (some s) [ask, reply, reply, nextAsk] ∧
      ∃! i : Fin s.places.length, reply ∈ s.places.get i := by
  obtain ⟨s₁, h₁⟩ := Option.isSome_iff_exists.mp (show afterFirstRun.isSome = true by decide +kernel)
  have run₁ : LiveRuns afterFirstRun [ask, reply] := by
    rw [h₁]
    exact .run asciiEnv [ask, reply] 24 _ .start
      ⟨by decide, by decide, by simp, by simp⟩ (by norm_num) h₁
  obtain ⟨s₂, h₂⟩ := Option.isSome_iff_exists.mp (show (runIncremental asciiEnv afterFirstRun
    [reply, nextAsk] 24 (some (oneTask "report" [py "2"]))).isSome = true by decide +kernel)
  have run₂ : LiveRuns (some s₂) ([ask, reply] ++ [reply, nextAsk]) :=
    .run asciiEnv [reply, nextAsk] 24 _ run₁
      ⟨by decide, by decide, by decide +kernel, by decide⟩ (by norm_num) h₂
  exact ⟨s₂, run₂, (live_events_in_one_place run₂).1 reply (by simp) (by decide)⟩

end AgentTrajectory.IncrementalSegment
