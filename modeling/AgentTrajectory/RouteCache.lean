import AgentTrajectory.ReplySessions
import AgentTrajectory.SessionCorrections

/-! The cached route of `build_route`. The cache is taken as soon as it reaches to the length
of the current event list; whether its indexes still stand for the same messages is not
looked at. -/
namespace AgentTrajectory.SessionCorrections
open PyText PyDict PyJson PyValue PyRegex TaskStitch RouteDay CorrectionCensus

/-- Message `i` is given to a session: it is a user request, or it has an id and comes after one. -/
def Routed (env : RouteEnv) (evs : List DayEvent) (i : ℕ) : Prop :=
  requestAt env evs i = true ∨ (∃ e, evs[i]? = some e ∧ e.msgId ≠ []) ∧ ∃ k < i, requestAt env evs k = true

section Routed
variable {env : RouteEnv} {evs : List DayEvent} {assign : Dict ℕ ℕ}

lemma activeSession_isSome {i : ℕ} (hassign : ∀ k < i, requestAt env evs k = true →
    (get? assign k).isSome = true) :
    (activeSession env evs assign i).isSome = true ↔ ∃ k < i, requestAt env evs k = true := by
  induction i with
  | zero => simp [activeSession]
  | succ i ih =>
    rw [activeSession]
    split_ifs with hi
    · rw [hassign i (by omega) hi]
      exact iff_of_true rfl ⟨i, by omega, hi⟩
    · rw [ih fun k hk => hassign k (by omega)]
      constructor
      · rintro ⟨k, hk, hreq⟩
        exact ⟨k, by omega, hreq⟩
      · rintro ⟨k, hk, hreq⟩
        have hki : k ≠ i := fun hki => hi (hki ▸ hreq)
        exact ⟨k, by omega, hreq⟩

lemma exists_activeSession {q k : ℕ} (h : (targetSession env evs assign q k).isSome = true) :
    ∃ r < k, (activeSession env evs assign r).isSome = true := by
  induction k with
  | zero => simp [targetSession] at h
  | succ k ih =>
    rw [targetSession] at h
    split_ifs at h with hreceipt
    · rw [Option.isSome_or, Bool.or_eq_true] at h
      rcases h with h | h
      · exact ⟨k, by omega, h⟩
      · obtain ⟨r, hr, hactive⟩ := ih h
        exact ⟨r, by omega, hactive⟩
    · obtain ⟨r, hr, hactive⟩ := ih h
      exact ⟨r, by omega, hactive⟩

lemma inheritedSession_isSome {i : ℕ} {e : DayEvent}
    (hassign : ∀ k < i, requestAt env evs k = true → (get? assign k).isSome = true) :
    (inheritedSession env evs assign i e).isSome = true ↔ ∃ k < i, requestAt env evs k = true := by
  rw [inheritedSession]
  split_ifs
  · rw [Option.isSome_or, Bool.or_eq_true, activeSession_isSome hassign, or_iff_right_iff_imp]
    intro htarget
    obtain ⟨sid, hsid⟩ := Option.isSome_iff_exists.mp htarget
    obtain ⟨q, -, hq⟩ := Option.bind_eq_some_iff.mp hsid
    obtain ⟨r, hr, hactive⟩ := exists_activeSession (Option.isSome_iff_exists.mpr ⟨sid, hq⟩)
    obtain ⟨k, hk, hreq⟩ := (activeSession_isSome fun k hk => hassign k (by omega)).mp hactive
    exact ⟨k, by omega, hreq⟩
  · exact activeSession_isSome hassign

lemma assigned_iff_routed {respectReply : Bool} {replies : List PyStr} {route : RouteDay.State}
    (h : routeDay env evs respectReply replies = .ok route) (i : ℕ) :
    (get? route.assign i).isSome = true ↔ Routed env evs i := by
  have hroute := routeDay_explained h
  cases he : evs[i]? with
  | none =>
    have hlen := List.getElem?_eq_none_iff.mp he
    rw [hroute.fresh i hlen]
    simp [Routed, requestAt, he]
  | some e =>
    have hlt := (List.getElem?_eq_some_iff.mp he).1
    by_cases hreq : isUserRequest env e = true
    · have hat : requestAt env evs i = true := by simp [requestAt, he, hreq]
      exact iff_of_true (hroute.requests i hlt hat) (.inl hat)
    · have hat : requestAt env evs i = false := by simpa [requestAt, he] using hreq
      have hinherited := @inheritedSession_isSome env evs route.assign i e fun k hk => hroute.requests k (by omega)
      rw [routeDay_inherited h he (by simpa using hreq), Routed, hat]
      by_cases hid : e.msgId = []
      · simp [hid, he]
      · simp [hid, he, hinherited]

end Routed

/-- The test of `build_route` on the cached route. -/
def Reuses (route : RouteDay.State) (evs : List DayEvent) : Prop := evs.length ≤ coveredTo route.assign

instance (route : RouteDay.State) (evs : List DayEvent) : Decidable (Reuses route evs) :=
  inferInstanceAs (Decidable (_ ≤ _))

lemma buildRoute_cached {env : RouteEnv} {route : RouteDay.State} {evs : List DayEvent} {replies : List PyStr}
    (h : Reuses route evs) : buildRoute env (some route) evs replies = .ok route := if_pos h

lemma le_coveredTo_iff {assign : Dict ℕ ℕ} {n : ℕ} :
    n ≤ coveredTo assign ↔ n = 0 ∨ ∃ i, (get? assign i).isSome = true ∧ n ≤ i + 1 := by
  have hkeys : ∀ ks : List ℕ, n ≤ ks.foldr (fun k m => max (k + 1) m) 0 ↔ n = 0 ∨ ∃ i ∈ ks, n ≤ i + 1 := by
    intro ks
    induction ks with
    | nil => simp
    | cons k ks ih =>
      rw [List.foldr_cons, le_max_iff, ih]
      simp only [List.mem_cons, exists_eq_or_imp]
      tauto
  have hmem : ∀ i, (get? assign i).isSome = true ↔ i ∈ keys assign := fun i => by
    rw [Option.isSome_iff_ne_none, Ne, get?_eq_none, not_not]
  simp only [coveredTo, hkeys, hmem]

/-- The message that an index denotes, by its id. -/
def idAt (evs : List DayEvent) (i : ℕ) : Option PyStr := evs[i]?.map (·.msgId)

/-- The indexes of a cached route denote the same messages whenever it is reused exactly if
this holds of every routed message of the old list, unless the new list is longer than the
old one up to its last routed message. -/
theorem reused_route_denotes_iff (env : RouteEnv) (old new : List DayEvent) (replies : List PyStr)
    (route : RouteDay.State) (h : routeDay env old true replies = .ok route) :
    (Reuses route new → ∀ i sid, get? route.assign i = some sid → idAt new i = idAt old i) ↔
      ((new = [] ∨ ∃ i, Routed env old i ∧ new.length ≤ i + 1) →
        ∀ i, Routed env old i → idAt new i = idAt old i) := by
  have hreuses : Reuses route new ↔ new = [] ∨ ∃ i, Routed env old i ∧ new.length ≤ i + 1 := by
    rw [Reuses, le_coveredTo_iff, List.length_eq_zero_iff]
    simp only [assigned_iff_routed h]
  rw [hreuses]
  refine imp_congr_right fun _ => forall_congr' fun i => ?_
  rw [← assigned_iff_routed h, Option.isSome_iff_exists, forall_exists_index]

def editedDay : List DayEvent := interleavedDay.map fun e => { e with text := e.text ++ py " (edited)" }

theorem reused_route_denotes_iff_edited :
    ∃ route, routeDay plainRoute interleavedDay true [py "new"] = .ok route ∧ Reuses route editedDay ∧
      ∀ i sid, get? route.assign i = some sid → idAt editedDay i = idAt interleavedDay i := by
  obtain ⟨route, hroute, hreuses⟩ := ok_of_toOption
    (show ∃ st ∈ (routeDay plainRoute interleavedDay true [py "new"]).toOption,
      Reuses st editedDay by decide +kernel)
  refine ⟨route, hroute, hreuses, (reused_route_denotes_iff plainRoute interleavedDay editedDay [py "new"] route
    hroute).mpr (fun _ i _ => ?_) hreuses⟩
  rw [idAt, idAt, editedDay, List.getElem?_map, Option.map_map]
  rfl

/-- The first request with a message before it that was found later; the answer is lost. -/
def shiftedDay : List DayEvent :=
  ⟨⟨0, .user, py "m0", [], py "good morning"⟩, py "Ann"⟩ :: queueDay.take 1

/-- The cache is reused, and the index of the request denotes the message before it. -/
theorem cached_index_denotes_other_message :
    ∃ route, routeDay plainRoute (queueDay.take 2) true [] = .ok route ∧
      buildRoute plainRoute (some route) shiftedDay [] = .ok route ∧ Reuses route shiftedDay ∧
      get? route.assign 0 = some 1 ∧ idAt (queueDay.take 2) 0 = some (py "m1") ∧
      idAt shiftedDay 0 = some (py "m0") := by
  obtain ⟨route, hroute, hreuses, hids⟩ := ok_of_toOption
    (show ∃ route ∈ (routeDay plainRoute (queueDay.take 2) true []).toOption, Reuses route shiftedDay ∧
      get? route.assign 0 = some 1 ∧ idAt (queueDay.take 2) 0 = some (py "m1") ∧
      idAt shiftedDay 0 = some (py "m0") by decide +kernel)
  exact ⟨route, hroute, buildRoute_cached hreuses, hreuses, hids⟩

end AgentTrajectory.SessionCorrections
