import AgentTrajectory.SessionCorrections
import AgentTrajectory.RouteRuns
import AgentTrajectory.RelatedLists

/-! Which messages the executions of `run` have looked at. A session is looked at once; what
a later route adds to it is not. -/
namespace AgentTrajectory.SessionCorrections
open PyText PyDict PyJson PyValue TaskStitch RouteDay CorrectionCensus RelatedLists

lemma getD_extendAt (d : Dict ℕ (List DayEvent)) (k j : ℕ) (xs : List DayEvent) :
    (get? (extendAt d k xs) j).getD [] = (get? d j).getD [] ++ if k = j then xs else [] := by
  rw [extendAt, get?_set]
  split_ifs with h
  · rw [h]
    rfl
  · simp

lemma foldl_addToSession (assign : Dict ℕ ℕ) (sid : ℕ) (ps : List (DayEvent × ℕ)) (d : Dict ℕ (List DayEvent)) :
    (get? (ps.foldl (addToSession assign) d) sid).getD [] =
      (get? d sid).getD [] ++ (ps.filter fun p => get? assign p.2 == some sid).map Prod.fst := by
  induction ps generalizing d with
  | nil => simp
  | cons p ps ih =>
    rw [List.foldl_cons, ih, addToSession]
    cases hp : get? assign p.2 with
    | none => simp [hp]
    | some sid' =>
      simp only [getD_extendAt, List.append_assoc]
      by_cases h : sid' = sid <;> simp [hp, h]

lemma mem_groupBySession {assign : Dict ℕ ℕ} {evs : List DayEvent} {sid : ℕ} {e : DayEvent} :
    e ∈ (get? (groupBySession assign evs) sid).getD [] ↔ ∃ i, evs[i]? = some e ∧ get? assign i = some sid := by
  rw [groupBySession, foldl_addToSession]
  simp only [get?_nil, Option.getD_none, List.nil_append, List.mem_map, List.mem_filter, beq_iff_eq, Prod.exists,
    exists_and_right, exists_eq_right, List.mk_mem_zipIdx_iff_getElem?]

lemma mem_sessionsInOrder {bySess : Dict ℕ (List DayEvent)} {sid : ℕ} {evs : List DayEvent} :
    (sid, evs) ∈ sessionsInOrder bySess ↔ sid ∈ keys bySess ∧ evs = (get? bySess sid).getD [] := by
  rw [sessionsInOrder, List.mem_map]
  constructor
  · rintro ⟨sid', hmem, heq⟩
    obtain ⟨rfl, rfl⟩ := Prod.mk.inj heq
    exact ⟨(List.mem_insertionSort _).mp hmem, rfl⟩
  · rintro ⟨hmem, rfl⟩
    exact ⟨sid, (List.mem_insertionSort _).mpr hmem, rfl⟩

variable {env : RouteEnv} {maxChars : ℕ}

lemma calls_detectLoop {done : List Json} {sessions : List (ℕ × List DayEvent)} {answers : Answers} {store : Store}
    {rows rows' : List Correction}
    (h : (detectLoop env maxChars done sessions answers store rows).result = .ok rows') :
    (detectLoop env maxChars done sessions answers store rows).calls =
      sessions.filter fun p => !done.elem (.int p.1) := by
  induction sessions generalizing answers store rows with
  | nil => rfl
  | cons p rest ih =>
    obtain ⟨sid, evs⟩ := p
    rw [detectLoop] at h ⊢
    by_cases hdone : done.elem (.int sid) = true
    · rw [if_pos hdone] at h ⊢
      rw [ih h, List.filter_cons_of_neg (by simpa using hdone)]
    · rw [if_neg hdone] at h ⊢
      rw [List.filter_cons_of_pos (by simpa using hdone)]
      simp only [Outcome.called] at h ⊢
      congr 1
      revert h
      cases (detectSession env maxChars evs answers).1 with
      | error err => exact fun h => ih h
      | ok found =>
        cases found with
        | nil => exact fun h => ih h
        | cons e es =>
          simp only
          split_ifs with hw
          · exact fun h => ih h
          · exact fun h => by simp at h

/-- The detection cache has a row of the session. -/
def Recorded (store : Store) (sid : ℕ) : Prop :=
  ∃ r ∈ store.cache, (getItem r (py "_session") >>= sessionKey) = .ok (.int sid)

lemma mem_doneSessions {store : Store} {done : List Json} (h : doneSessions store.cache = .ok done) (sid : ℕ) :
    Json.int sid ∈ done ↔ Recorded store sid := by
  have hall := mapM_eq_ok.mp h
  constructor
  · intro hmem
    exact forall₂_mem_right hall hmem
  · rintro ⟨r, hr, hkey⟩
    obtain ⟨v, hv, hok⟩ := forall₂_mem_left hall hr
    rwa [Except.ok.inj (hkey.symm.trans hok)]

lemma mem_calls_run {store : Store} {x : Input} {rows : List Correction} {route : RouteDay.State}
    (hroute : buildRoute env store.route x.evs x.replies = .ok route)
    (h : (run env maxChars store x).result = .ok rows) (e : DayEvent) :
    (∃ call ∈ (run env maxChars store x).calls, e ∈ call.2) ↔
      ∃ i sid, x.evs[i]? = some e ∧ get? route.assign i = some sid ∧ ¬Recorded store sid := by
  rw [run, hroute] at h ⊢
  simp only at h ⊢
  cases hdone : doneSessions store.cache with
  | error err => simp [hdone, bind, Except.bind] at h
  | ok done =>
    cases hrows : reguardCachedRows env (groupBySession route.assign x.evs) store.cache with
    | error err => simp [hdone, hrows, bind, Except.bind] at h
    | ok old =>
      simp only [hdone, hrows, bind, Except.bind] at h ⊢
      rw [calls_detectLoop h]
      have hnot : ∀ sid : ℕ, (!done.elem (.int sid)) = true ↔ ¬Recorded store sid := fun sid => by
        rw [← mem_doneSessions hdone]
        simp
      simp only [List.mem_filter, hnot, Prod.exists, mem_sessionsInOrder]
      constructor
      · rintro ⟨sid, -, ⟨⟨-, rfl⟩, hnew⟩, he⟩
        obtain ⟨i, hi, hassign⟩ := mem_groupBySession.mp he
        exact ⟨i, sid, hi, hassign, hnew⟩
      · rintro ⟨i, sid, hi, hassign, hnew⟩
        have he := mem_groupBySession.mpr ⟨i, hi, hassign⟩
        refine ⟨sid, _, ⟨⟨?_, rfl⟩, hnew⟩, he⟩
        by_contra hkey
        simp [get?_eq_none.mpr hkey] at he

/-- The files after some executions, and the messages of every call of `detect_session`. -/
def afterRuns (env : RouteEnv) (maxChars : ℕ) (xs : List Input) : Store × List (List DayEvent) :=
  xs.foldl (fun acc x =>
    let o := run env maxChars acc.1 x
    (o.store, acc.2 ++ o.calls.map Prod.snd)) (⟨none, []⟩, [])

lemma afterRuns_concat (xs : List Input) (x : Input) : (afterRuns env maxChars (xs ++ [x])).2 =
      (afterRuns env maxChars xs).2 ++ (run env maxChars (afterRuns env maxChars xs).1 x).calls.map Prod.snd := by
  simp [afterRuns]

/-- After any executions, an execution that comes to its end leaves every routed message looked
at, if and only if its route gives the sessions recorded before no message that none of the
earlier detections has seen. -/
theorem routed_messages_detected_iff {env : RouteEnv} {maxChars : ℕ} (xs : List Input) {x : Input}
    (hd : (x.evs.map (·.msgId)).Nodup) {rows : List Correction}
    (hok : (run env maxChars (afterRuns env maxChars xs).1 x).result = .ok rows) {route : RouteDay.State}
    (hroute : buildRoute env (afterRuns env maxChars xs).1.route x.evs x.replies = .ok route) :
    (∀ i sid e, get? route.assign i = some sid → x.evs[i]? = some e →
        ∃ call ∈ (afterRuns env maxChars (xs ++ [x])).2, e ∈ call) ↔
      ∀ i sid e, get? route.assign i = some sid → x.evs[i]? = some e →
        Recorded (afterRuns env maxChars xs).1 sid → ∃ call ∈ (afterRuns env maxChars xs).2, e ∈ call := by
  have hnew := mem_calls_run hroute hok
  rw [afterRuns_concat]
  constructor
  · intro hall i sid e hassign he hrec
    obtain ⟨call, hcall, hmem⟩ := hall i sid e hassign he
    rcases List.mem_append.mp hcall with hold | hcall
    · exact ⟨call, hold, hmem⟩
    · obtain ⟨⟨sid', evs⟩, hp, rfl⟩ := List.mem_map.mp hcall
      obtain ⟨j, sid'', hj, hassign', hfresh⟩ := (hnew e).mp ⟨_, hp, hmem⟩
      obtain ⟨hil, rfl⟩ := List.getElem?_eq_some_iff.mp he
      have hij : i = j := by
        obtain ⟨hjl, heq⟩ := List.getElem?_eq_some_iff.mp hj
        exact (List.Nodup.of_map _ hd).getElem_inj_iff.mp heq.symm
      subst hij
      rw [Option.some.inj (hassign.symm.trans hassign')] at hrec
      exact absurd hrec hfresh
  · intro hall i sid e hassign he
    by_cases hrec : Recorded (afterRuns env maxChars xs).1 sid
    · obtain ⟨call, hcall, hmem⟩ := hall i sid e hassign he hrec
      exact ⟨call, List.mem_append_left _ hcall, hmem⟩
    · obtain ⟨p, hp, hmem⟩ := (hnew e).mpr ⟨i, sid, he, hassign, hrec⟩
      exact ⟨p.2, List.mem_append_right _ (List.mem_map_of_mem hp), hmem⟩

/-- A request and its answer. -/
def firstLook : Input where
  evs := [⟨⟨1, .user, py "m1", [], py "deploy the service on the new host"⟩, py "Ann"⟩,
    ⟨⟨2, .bot, py "m2", py "m1", py "deployed, the port is 8080"⟩, py "bot"⟩]
  replies := []
  answers := [.ok []]

/-- The answer is denied afterwards. -/
def denial : DayEvent := ⟨⟨3, .user, py "m3", py "m2", py "wrong, the port is 9090"⟩, py "Ann"⟩

def secondLook : Input where
  evs := firstLook.evs ++ [denial]
  replies := []
  answers := [.ok []]

/-- The denial joins a session that is recorded, and nobody looks at it. -/
theorem denial_of_recorded_session_skipped :
    (run plainRoute 20000 (afterRuns plainRoute 20000 [firstLook]).1 secondLook).result = .ok [] ∧
      (∃ route, buildRoute plainRoute (afterRuns plainRoute 20000 [firstLook]).1.route
        secondLook.evs [] = .ok route ∧
        get? route.assign 2 = some 1) ∧ secondLook.evs[2]? = some denial ∧
      ¬∃ call ∈ (afterRuns plainRoute 20000 [firstLook, secondLook]).2, denial ∈ call := by
  refine ⟨by decide +kernel, ?_, rfl, by decide +kernel⟩
  exact ok_of_toOption (by decide +kernel)

theorem routed_messages_detected_iff_again :
    ∃ route, buildRoute plainRoute (afterRuns plainRoute 20000 [firstLook]).1.route firstLook.evs [] = .ok route ∧
      ∀ i sid e, get? route.assign i = some sid → firstLook.evs[i]? = some e →
        ∃ call ∈ (afterRuns plainRoute 20000 [firstLook, firstLook]).2, e ∈ call := by
  obtain ⟨route, hroute⟩ := isOk_iff.mp (show (buildRoute plainRoute
    (afterRuns plainRoute 20000 [firstLook]).1.route firstLook.evs []).isOk = true by decide +kernel)
  have hok : (run plainRoute 20000 (afterRuns plainRoute 20000 [firstLook]).1 firstLook).result = .ok [] := by
    decide +kernel
  have hseen : ∀ e ∈ firstLook.evs, ∃ call ∈ (afterRuns plainRoute 20000 [firstLook]).2, e ∈ call := by
    decide +kernel
  exact ⟨route, hroute, (routed_messages_detected_iff [firstLook] (by decide) hok hroute).mpr
    fun i sid e _ he _ => hseen e (List.mem_of_getElem? he)⟩

end AgentTrajectory.SessionCorrections
