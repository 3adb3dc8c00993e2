import AgentTrajectory.RouteDay

/-! What holds after every turn of `route_day`, whatever the model replies. -/
namespace AgentTrajectory.RouteDay
open PyText PyDict PyJson PyValue PyRegex TaskStitch

variable {st st' : State} {e : DayEvent}

lemma keys_idmap_nodup {evs : List DayEvent} (hd : (evs.map (·.msgId)).Nodup) :
    (keys ((evs.zipIdx.filter fun p => p.1.msgId != []).map fun p => (p.1.msgId, p.2))).Nodup := by
  have hsub : ((evs.zipIdx.filter fun p => p.1.msgId != []).map (·.1.msgId)).Sublist
      (evs.map (·.msgId)) := by
    have h := (List.filter_sublist (p := fun p => p.1.msgId != []) (l :=
      evs.zipIdx)).map (·.1.msgId)
    have hall : evs.zipIdx.map (·.1.msgId) = evs.map (·.msgId) := by
      conv_rhs => rw [← List.zipIdx_map_fst 0 evs, List.map_map]
      rfl
    rwa [hall] at h
  rw [keys, List.map_map]
  exact hd.sublist hsub

lemma get?_idmap {evs : List DayEvent} (hd : (evs.map (·.msgId)).Nodup) {j : ℕ} {p : DayEvent}
    (hj : evs[j]? = some p) (hp : p.msgId ≠ []) : get? (idmap evs) p.msgId = some j := by
  rw [idmap, ofPairs_of_nodup (keys_idmap_nodup hd)]
  refine get?_of_mem (keys_idmap_nodup hd)
    (List.mem_map.mpr ⟨(p, j), List.mem_filter.mpr ⟨?_, ?_⟩, rfl⟩)
  · exact List.mk_mem_zipIdx_iff_getElem?.mpr hj
  · simpa using hp

variable {env : RouteEnv} {evs : List DayEvent} {respectReply : Bool}

inductive Turn (env : RouteEnv) (evs : List DayEvent) (respectReply : Bool) (i : ℕ)
    (e : DayEvent) (st : State) :
    State → Prop
  | inherited {st' : State} (hreq : isUserRequest env e = false)
    (hsess : st'.sessions = st.sessions)
      (hlast : st'.lastSid = st.lastSid) (hasked : st'.asked = st.asked)
      (hqueue : ∀ q sid, get? st'.queueTarget q = some sid →
        get? st.queueTarget q = some sid ∨ st.lastSid = some sid)
      (hassign : st'.assign = st.assign ∨ ∃ sid, st'.assign = set st.assign i sid ∧
        (st.lastSid = some sid ∨ ∃ q, get? st'.queueTarget q = some sid)) :
          Turn env evs respectReply i e st st'
  | followed {st' : State} (hreq : isUserRequest env e = true) (sid : ℕ)
      (hparent : parentSession evs respectReply e st = some sid)
        (hsess : st'.sessions = st.sessions)
      (hlast : st'.lastSid = some sid) (hasked : st'.asked = st.asked)
      (hqueue : st'.queueTarget = st.queueTarget) (hassign : st'.assign = set st.assign i sid) :
      Turn env evs respectReply i e st st'
  | opened {st' : State} (hreq : isUserRequest env e = true)
    (hparent : parentSession evs respectReply e st = none)
      (title : PyStr) (hsess : st'.sessions = st.sessions ++ [⟨st.sessions.length + 1, title, i⟩])
      (hlast : st'.lastSid = some (st.sessions.length + 1))
        (hasked : ∀ q ∈ st'.asked, q ∈ st.asked ∨ q.1 = i)
      (hqueue : st'.queueTarget = st.queueTarget)
      (hassign : st'.assign = set st.assign i (st.sessions.length + 1)) :
        Turn env evs respectReply i e st st'
  | continued {st' : State} (hreq : isUserRequest env e = true)
      (hparent : parentSession evs respectReply e st = none) (s : Session) (hs : s ∈ st.sessions)
      (hsess : st'.sessions = st.sessions) (hlast : st'.lastSid = some s.id)
      (hasked : ∀ q ∈ st'.asked, q ∈ st.asked ∨ q.1 = i) (hqueue : st'.queueTarget = st.queueTarget)
      (hassign : st'.assign = set st.assign i s.id) : Turn env evs respectReply i e st st'

lemma bindQueue_eq (h : bindQueue env e st = .ok st') :
    ∃ queue, st' = { st with queueTarget := queue } ∧ ∀ q, get? queue q =
      if (enqueuedQ env e).toOption = some (some q) then st.lastSid.or (get? st.queueTarget q)
      else get? st.queueTarget q := by
  rw [bindQueue] at h
  split at h
  · simp at h
  · next q sid hq hlast =>
    obtain rfl := Except.ok.inj h
    refine ⟨_, rfl, fun q' => ?_⟩
    rw [get?_set, hq, hlast]
    simp [Except.toOption]
  · next hlast =>
    obtain rfl := Except.ok.inj h
    exact ⟨_, rfl, fun q => by simp [hlast]⟩
  · next hq _ =>
    obtain rfl := Except.ok.inj h
    exact ⟨_, rfl, fun q => by simp [hq, Except.toOption]⟩

lemma bindQueue_ok (h : bindQueue env e st = .ok st') :
    ∃ queue, st' = { st with queueTarget := queue } ∧
      ∀ q sid, get? queue q = some sid → get? st.queueTarget q = some sid ∨
        st.lastSid = some sid := by
  obtain ⟨queue, rfl, hqueue⟩ := bindQueue_eq h
  refine ⟨queue, rfl, fun q sid hq => ?_⟩
  rw [hqueue] at hq
  split_ifs at hq
  · rcases Option.or_eq_some_iff.mp hq with hlast | ⟨-, hold⟩
    · exact .inr hlast
    · exact .inl hold
  · exact .inl hq

lemma inheritFor_eq {k : ℕ} {sess : Option ℕ} (h : inheritFor env k e st = .ok (sess, st')) :
    (∃ ds, st' = { st with decisions := ds }) ∧ sess =
      if e.role = .user ∧ isControlCommand env e = true then
        ((ctrlTargetQ env e).toOption.join.bind (get? st.queueTarget)).or st.lastSid
      else st.lastSid := by
  rw [inheritFor] at h
  split_ifs at h ⊢
  · obtain ⟨tq, htq, h⟩ := bind_eq_ok.mp h
    obtain ⟨rfl, rfl⟩ := Prod.mk.inj (Except.ok.inj h)
    rw [htq]
    exact ⟨⟨_, rfl⟩, rfl⟩
  · obtain ⟨rfl, rfl⟩ := Prod.mk.inj (Except.ok.inj h)
    exact ⟨⟨_, rfl⟩, rfl⟩

lemma inheritFor_ok {i : ℕ} {sess : Option ℕ} (h : inheritFor env i e st = .ok (sess, st')) :
    (∃ ds, st' = { st with decisions := ds }) ∧
      ∀ sid, sess = some sid → st.lastSid = some sid ∨ ∃ q, get? st.queueTarget q = some sid := by
  obtain ⟨hst, hsess⟩ := inheritFor_eq h
  refine ⟨hst, fun sid hsid => ?_⟩
  rw [hsess] at hsid
  split_ifs at hsid
  · rcases Option.or_eq_some_iff.mp hsid with htgt | ⟨-, hlast⟩
    · obtain ⟨q, -, hq⟩ := Option.bind_eq_some_iff.mp htgt
      exact .inr ⟨q, hq⟩
    · exact .inl hlast
  · exact .inl hsid

lemma turn_of_inheritStep {i : ℕ} (hreq : isUserRequest env e = false)
    (h : inheritStep env i e st = .ok st') : Turn env evs respectReply i e st st' := by
  obtain ⟨st₁, h₁, h⟩ := bind_eq_ok.mp h
  obtain ⟨⟨sess, st₂⟩, h₂, h⟩ := bind_eq_ok.mp h
  obtain ⟨queue, rfl, hqueue⟩ := bindQueue_ok h₁
  obtain ⟨⟨ds, rfl⟩, hsess⟩ := inheritFor_ok h₂
  cases sess with
  | none =>
    obtain rfl := Except.ok.inj h
    exact .inherited hreq rfl rfl rfl hqueue (.inl rfl)
  | some sid =>
    simp only [Except.ok.injEq] at h
    subst h
    split_ifs with hid
    · exact .inherited hreq rfl rfl rfl hqueue (.inl rfl)
    · exact .inherited hreq rfl rfl rfl hqueue (.inr ⟨sid, rfl, hsess sid rfl⟩)

lemma chosenSession_mem {sessions : List Session} {out : Json} {s : Session}
    (h : chosenSession env sessions out = .ok (some s)) : s ∈ sessions := by
  rw [chosenSession] at h
  split_ifs at h with hnew
  · simp at h
  split at h
  · exact List.mem_of_find?_eq_some (Except.ok.inj h)
  all_goals simp at h

lemma turn_of_askStep {i : ℕ} (hreq : isUserRequest env e = true)
    (hparent : parentSession evs respectReply e st = none) (h : askStep env evs i e st = .ok st') :
    Turn env evs respectReply i e st st' := by
  rw [askStep] at h
  split at h
  · simp at h
  · next raw replies _ =>
    obtain ⟨chosen, hchosen, h⟩ := bind_eq_ok.mp h
    have hasked : ∀ q ∈ st.asked ++ [(i, promptFor env evs st.sessions i e)],
        q ∈ st.asked ∨ q.1 = i := by
      intro q hq
      rcases List.mem_append.mp hq with hq | hq
      · exact .inl hq
      · exact .inr (by rw [List.mem_singleton.mp hq])
    cases chosen with
    | none =>
      obtain rfl := Except.ok.inj h
      exact .opened hreq hparent _ rfl rfl hasked rfl rfl
    | some s =>
      obtain rfl := Except.ok.inj h
      exact .continued hreq hparent s (chosenSession_mem hchosen) rfl rfl hasked rfl rfl

theorem turn_of_routeStep {i : ℕ} (h : routeStep env evs respectReply i e st = .ok st') :
    Turn env evs respectReply i e st st' := by
  rw [routeStep] at h
  by_cases hreq : isUserRequest env e = true
  · rw [if_pos hreq] at h
    cases hdet : parentSession evs respectReply e st with
    | some det =>
      rw [hdet] at h
      obtain rfl := Except.ok.inj h
      exact .followed hreq det hdet rfl rfl rfl rfl rfl
    | none =>
      rw [hdet] at h
      by_cases hnil : st.sessions = []
      · simp only [hnil, if_true] at h
        obtain rfl := Except.ok.inj h
        exact .opened hreq hdet _ rfl rfl (fun q hq => .inl hq) rfl rfl
      · simp only [hnil, if_false] at h
        exact turn_of_askStep hreq hdet h
  · rw [if_neg hreq] at h
    exact turn_of_inheritStep (by simpa using hreq) h

lemma routeFrom_invariant {P : ℕ → State → Prop}
    (hstep : ∀ k e st st', evs[k]? = some e → P k st → routeStep env evs respectReply k e st =
      .ok st' → P (k + 1) st')
    {rest : List DayEvent} {k : ℕ} (hrest : evs.drop k = rest) (hst : P k st)
    (h : routeFrom env evs respectReply k rest st = .ok st') : P (k + rest.length) st' := by
  induction rest generalizing k st with
  | nil =>
    obtain rfl := Except.ok.inj h
    exact hst
  | cons e rest ih =>
    obtain ⟨st₁, hturn, hrun⟩ := bind_eq_ok.mp h
    have he : evs[k]? = some e := by rw [← List.head?_drop, hrest, List.head?_cons]
    have htail : evs.drop (k + 1) = rest := by rw [← List.tail_drop, hrest, List.tail_cons]
    have := ih htail (hstep k e st st₁ he hst hturn) hrun
    rwa [List.length_cons, Nat.add_comm rest.length, ← Nat.add_assoc]

lemma routeDay_invariant {P : ℕ → State → Prop} {replies : List PyStr} {st : State}
    (hstart : P 0 (.start replies))
    (hstep : ∀ k e st st', evs[k]? = some e → P k st → routeStep env evs respectReply k e st =
      .ok st' → P (k + 1) st')
    (h : routeDay env evs respectReply replies = .ok st) : P evs.length st := by
  have hrun := routeFrom_invariant hstep rfl hstart h
  rwa [Nat.zero_add] at hrun

def IsOpen (st : State) (sid : ℕ) : Prop := 1 ≤ sid ∧ sid ≤ st.sessions.length

/-- The routing of the first `k` messages. -/
structure RoutedUpTo (env : RouteEnv) (evs : List DayEvent) (respectReply : Bool) (k : ℕ)
    (st : State) : Prop where
  numbered : st.sessions.map (·.id) = List.range' 1 st.sessions.length
  increasing : (st.sessions.map (·.firstIdx)).Pairwise (· < ·)
  opened : ∀ s ∈ st.sessions, s.firstIdx < k ∧ get? st.assign s.firstIdx = some s.id ∧
    ∃ e, evs[s.firstIdx]? = some e ∧ isUserRequest env e = true
  assigned : ∀ i e, i < k → evs[i]? = some e → isUserRequest env e = true →
    (get? st.assign i).isSome
  known : ∀ i sid, get? st.assign i = some sid → i < k ∧ IsOpen st sid
  last : ∀ sid, st.lastSid = some sid → IsOpen st sid
  queued : ∀ q sid, get? st.queueTarget q = some sid → IsOpen st sid
  asked : ∀ q ∈ st.asked, q.1 < k
  replies : respectReply = true → ∀ i e j p sid, i < k → evs[i]? = some e →
    isUserRequest env e = true →
    evs[j]? = some p → e.parentId = p.msgId → p.msgId ≠ [] → j < i → get? st.assign j = some sid →
    get? st.assign i = some sid ∧ ∀ q ∈ st.asked, q.1 ≠ i

lemma routedUpTo_start (env : RouteEnv) (evs : List DayEvent) (respectReply : Bool)
    (replies : List PyStr) :
    RoutedUpTo env evs respectReply 0 (.start replies) where
  numbered := rfl
  increasing := .nil
  opened := by simp [State.start]
  assigned := by simp
  known := by simp [State.start]
  last := by simp [State.start]
  queued := by simp [State.start]
  asked := by simp [State.start]
  replies := by simp

lemma IsOpen.mono {sid : ℕ} (h : IsOpen st sid) (hle : st.sessions.length ≤ st'.sessions.length) :
    IsOpen st' sid := ⟨h.1, h.2.trans hle⟩

lemma RoutedUpTo.isOpen_id {k : ℕ} {st : State}
    (hst : RoutedUpTo env evs respectReply k st) {s : Session}
    (hs : s ∈ st.sessions) : IsOpen st s.id := by
  have h : s.id ∈ List.range' 1 st.sessions.length := hst.numbered ▸ List.mem_map_of_mem hs
  rw [List.mem_range'_1] at h
  exact ⟨h.1, by omega⟩

lemma get?_assign_of_ne {k : ℕ}
    (hassign : st'.assign = st.assign ∨ ∃ sid, st'.assign = set st.assign k sid) {j : ℕ}
    (hj : j ≠ k) :
    get? st'.assign j = get? st.assign j := by
  rcases hassign with h | ⟨sid, h⟩
  · rw [h]
  · rw [h, get?_set_ne _ _ hj.symm]

lemma parentSession_eq (hd : (evs.map (·.msgId)).Nodup) {e p : DayEvent}
    {j : ℕ} (hj : evs[j]? = some p) (hp : e.parentId = p.msgId) (hne : p.msgId ≠ []) (st : State) :
    parentSession evs true e st = get? st.assign j := by
  have hreply : hasReply e = true := by simpa [hasReply, hp] using hne
  rw [parentSession, hreply, hp, get?_idmap hd hj hne]
  rfl

lemma RoutedUpTo.inherit {k : ℕ} (hst : RoutedUpTo env evs respectReply k st)
    (he : evs[k]? = some e) (hreq : isUserRequest env e = false)
    (hsess : st'.sessions = st.sessions)
    (hlast : st'.lastSid = st.lastSid) (hasked : st'.asked = st.asked)
    (hqueue : ∀ q sid, get? st'.queueTarget q = some sid →
      get? st.queueTarget q = some sid ∨ st.lastSid = some sid)
    (hassign : st'.assign = st.assign ∨ ∃ sid, st'.assign = set st.assign k sid ∧
      (st.lastSid = some sid ∨ ∃ q, get? st'.queueTarget q = some sid)) :
    RoutedUpTo env evs respectReply (k + 1) st' := by
  have hold : ∀ j, j ≠ k → get? st'.assign j = get? st.assign j := fun j hj =>
    get?_assign_of_ne (hassign.imp_right fun ⟨sid, h, _⟩ => ⟨sid, h⟩) hj
  have hopen : ∀ sid, IsOpen st sid → IsOpen st' sid := fun sid h => h.mono (by rw [hsess])
  have hq : ∀ q sid, get? st'.queueTarget q = some sid → IsOpen st sid := fun q sid h =>
    (hqueue q sid h).elim (hst.queued q sid) (hst.last sid)
  have hne : ∀ i e', evs[i]? = some e' → isUserRequest env e' = true → i ≠ k := by
    rintro i e' he' hreq' rfl
    obtain rfl := Option.some.inj (he'.symm.trans he)
    simp [hreq] at hreq'
  refine ⟨hsess ▸ hst.numbered, hsess ▸ hst.increasing, fun s hs => ?_, fun i e' hi he' hreq' => ?_,
    fun i sid hi => ?_, fun sid h => hopen sid (hst.last sid (hlast ▸ h)),
      fun q sid h => hopen sid (hq q sid h),
    fun q h => Nat.lt_succ_of_lt (hst.asked q (hasked ▸ h)),
      fun hr i e' j p sid hi he' hreq' hj hp hpid hji hsid => ?_⟩
  · obtain ⟨hlt, hget, hex⟩ := hst.opened s (hsess ▸ hs)
    exact ⟨by omega, by rw [hold _ (by omega), hget], hex⟩
  · have hik := hne i e' he' hreq'
    rw [hold i hik]
    exact hst.assigned i e' (by omega) he' hreq'
  · by_cases hik : i = k
    · subst hik
      refine ⟨by omega, hopen sid ?_⟩
      rcases hassign with h | ⟨sid', h, hfrom⟩
      · exact (hst.known i sid (h ▸ hi)).2
      · rw [h, get?_set_self] at hi
        obtain rfl := Option.some.inj hi
        exact hfrom.elim (hst.last sid') fun ⟨q, h⟩ => hq q sid' h
    · obtain ⟨hlt, ho⟩ := hst.known i sid (hold i hik ▸ hi)
      exact ⟨by omega, hopen sid ho⟩
  · have hik := hne i e' he' hreq'
    rw [hold j (by omega)] at hsid
    rw [hold i hik, hasked]
    exact hst.replies hr i e' j p sid (by omega) he' hreq' hj hp hpid hji hsid

/-- The session that the message `k` is put into was open, or it is opened there. -/
def Joins (st st' : State) (k sid : ℕ) : Prop :=
  (st'.sessions = st.sessions ∧ IsOpen st sid) ∨
    sid = st.sessions.length + 1 ∧ ∃ title, st'.sessions = st.sessions ++ [⟨sid, title, k⟩]

section Joins
variable {st st' : State} {k sid : ℕ} (h : Joins st st' k sid)
include h

lemma Joins.length_le : st.sessions.length ≤ st'.sessions.length := by
  rcases h with ⟨h, -⟩ | ⟨-, title, h⟩ <;> simp [h]

lemma Joins.isOpen : IsOpen st' sid := by
  rcases h with ⟨h, hopen⟩ | ⟨rfl, title, h⟩
  · exact hopen.mono (by rw [h])
  · exact ⟨by omega, by simp [h]⟩

lemma Joins.numbered (hn : st.sessions.map (·.id) = List.range' 1 st.sessions.length) :
    st'.sessions.map (·.id) = List.range' 1 st'.sessions.length := by
  rcases h with ⟨h, -⟩ | ⟨rfl, title, h⟩
  · rw [h]
    exact hn
  · rw [h, List.map_append, hn, List.length_append, List.length_singleton, List.range'_concat]
    simp [Nat.add_comm]

lemma Joins.increasing (hi : (st.sessions.map (·.firstIdx)).Pairwise (· < ·))
    (hlt : ∀ s ∈ st.sessions, s.firstIdx < k) :
    (st'.sessions.map (·.firstIdx)).Pairwise (· < ·) := by
  rcases h with ⟨h, -⟩ | ⟨rfl, title, h⟩
  · rw [h]
    exact hi
  · rw [h, List.map_append, List.pairwise_append]
    refine ⟨hi, by simp, fun a ha b hb => ?_⟩
    obtain ⟨s, hs, rfl⟩ := List.mem_map.mp ha
    obtain rfl := List.mem_singleton.mp hb
    exact hlt s hs

lemma Joins.mem_sessions {s : Session} (hs : s ∈ st'.sessions) :
    s ∈ st.sessions ∨ s.id = sid ∧ s.firstIdx = k := by
  rcases h with ⟨h, -⟩ | ⟨-, title, h⟩
  · exact .inl (h ▸ hs)
  · rcases List.mem_append.mp (h ▸ hs) with hs | hs
    · exact .inl hs
    · rw [List.mem_singleton.mp hs]
      exact .inr ⟨rfl, rfl⟩

end Joins

lemma RoutedUpTo.request (hd : (evs.map (·.msgId)).Nodup) {k sid : ℕ}

    (hst : RoutedUpTo env evs respectReply k st) (he : evs[k]? = some e)
    (hreq : isUserRequest env e = true)
    (hjoins : Joins st st' k sid) (hlast : st'.lastSid = some sid)
    (hasked : ∀ q ∈ st'.asked, q ∈ st.asked ∨ q.1 = k)
    (hqueue : st'.queueTarget = st.queueTarget) (hassign : st'.assign = set st.assign k sid)
    (hfollow : ∀ s, parentSession evs respectReply e st = some s → s = sid ∧ st'.asked = st.asked) :
    RoutedUpTo env evs respectReply (k + 1) st' := by
  have hold : ∀ j, j ≠ k → get? st'.assign j = get? st.assign j := fun j hj =>
    get?_assign_of_ne (.inr ⟨sid, hassign⟩) hj
  have hnew : get? st'.assign k = some sid := by rw [hassign, get?_set_self]
  have hasked' : ∀ q ∈ st'.asked, q.1 < k + 1 := fun q hq =>
    (hasked q hq).elim (fun h => Nat.lt_succ_of_lt (hst.asked q h)) fun h => by omega
  refine ⟨hjoins.numbered hst.numbered,
    hjoins.increasing hst.increasing fun s hs => (hst.opened s hs).1,
    fun s hs => ?_, fun i e' hi he' hreq' => ?_, fun i s hi => ?_, fun s h => ?_,
    fun q s h => (hst.queued q s (hqueue ▸ h)).mono hjoins.length_le, hasked',
    fun hr i e' j p s hi he' hreq' hj hp hpid hji hs => ?_⟩
  · rcases hjoins.mem_sessions hs with hs | ⟨hid, hidx⟩
    · obtain ⟨hlt, hget, hex⟩ := hst.opened s hs
      exact ⟨by omega, by rw [hold _ (by omega), hget], hex⟩
    · rw [hid, hidx]
      exact ⟨by omega, hnew, e, he, hreq⟩
  · by_cases hik : i = k
    · rw [hik, hnew]
      rfl
    · rw [hold i hik]
      exact hst.assigned i e' (by omega) he' hreq'
  · by_cases hik : i = k
    · subst hik
      rw [hnew] at hi
      obtain rfl := Option.some.inj hi
      exact ⟨by omega, hjoins.isOpen⟩
    · obtain ⟨hlt, ho⟩ := hst.known i s (hold i hik ▸ hi)
      exact ⟨by omega, ho.mono hjoins.length_le⟩
  · obtain rfl := Option.some.inj (hlast.symm.trans h)
    exact hjoins.isOpen
  · rw [hold j (by omega)] at hs
    by_cases hik : i = k
    · subst hik
      obtain rfl := Option.some.inj (he'.symm.trans he)
      obtain ⟨rfl, hsame⟩ := hfollow s (by rw [hr, parentSession_eq hd hj hp hpid, hs])
      refine ⟨hnew, fun q hq => ?_⟩
      have := hst.asked q (hsame ▸ hq)
      omega
    · obtain ⟨hsame, hno⟩ := hst.replies hr i e' j p s (by omega) he' hreq' hj hp hpid hji hs
      refine ⟨by rw [hold i hik, hsame], fun q hq => ?_⟩
      rcases hasked q hq with h | h
      · exact hno q h
      · omega

lemma RoutedUpTo.step (hd : (evs.map (·.msgId)).Nodup) {k : ℕ}
    (hst : RoutedUpTo env evs respectReply k st) (he : evs[k]? = some e)
    (h : routeStep env evs respectReply k e st = .ok st') :
    RoutedUpTo env evs respectReply (k + 1) st' := by
  cases turn_of_routeStep h with
  | inherited hreq hsess hlast hasked hqueue hassign =>
    exact hst.inherit he hreq hsess hlast hasked hqueue hassign
  | followed hreq sid hparent hsess hlast hasked hqueue hassign =>
    have hsid : IsOpen st sid := by
      rw [parentSession] at hparent
      split_ifs at hparent
      obtain ⟨j, -, hj⟩ := Option.bind_eq_some_iff.mp hparent
      exact (hst.known j sid hj).2
    exact hst.request hd he hreq (.inl ⟨hsess, hsid⟩) hlast (fun q hq =>
      .inl (hasked ▸ hq)) hqueue hassign
      fun s hs => ⟨Option.some.inj (hs.symm.trans hparent), hasked⟩
  | opened hreq hparent title hsess hlast hasked hqueue hassign =>
    exact hst.request hd he hreq (.inr ⟨rfl, title, hsess⟩) hlast hasked hqueue hassign
      fun s hs => by simp [hparent] at hs
  | continued hreq hparent s hs hsess hlast hasked hqueue hassign =>
    exact hst.request hd he hreq (.inl ⟨hsess, hst.isOpen_id hs⟩) hlast hasked hqueue hassign
      fun s hs => by simp [hparent] at hs

lemma routeDay_routedUpTo (hd : (evs.map (·.msgId)).Nodup) {replies : List PyStr} {st : State}
    (h : routeDay env evs respectReply replies = .ok st) :
    RoutedUpTo env evs respectReply evs.length st :=
  routeDay_invariant (routedUpTo_start env evs respectReply replies)
    (fun _ _ _ _ he hst => hst.step hd he) h

/-- The sessions that `route_day` returns are numbered in the order of their openings, which
are user requests of theirs; every request is assigned, only open sessions are, and a reply
to an assigned message follows it unasked. -/
theorem routeDay_assigns_requests {env : RouteEnv} {evs : List DayEvent}
    (hd : (evs.map (·.msgId)).Nodup) {respectReply : Bool} {replies : List PyStr} {st : State}
    (h : routeDay env evs respectReply replies = .ok st) :
    (st.sessions.map (·.id) = List.range' 1 st.sessions.length ∧
      (st.sessions.map (·.firstIdx)).Pairwise (· < ·)) ∧
    (∀ s ∈ st.sessions, get? st.assign s.firstIdx = some s.id ∧
      ∃ e, evs[s.firstIdx]? = some e ∧ e.role = .user ∧ isControlCommand env e = false) ∧
    (∀ i e, evs[i]? = some e → e.role = .user → isControlCommand env e = false → ∃ sid,
      get? st.assign i = some sid) ∧
    (∀ i sid, get? st.assign i = some sid → sid ∈ st.sessions.map (·.id)) ∧
    (respectReply = true → ∀ i e j p sid, evs[i]? = some e → e.role = .user →
      isControlCommand env e = false →
      evs[j]? = some p → e.parentId = p.msgId → p.msgId ≠ [] → j < i → get? st.assign j = some sid →
      get? st.assign i = some sid ∧ ∀ q ∈ st.asked, q.1 ≠ i) := by
  have hst := routeDay_routedUpTo hd h
  have hlt : ∀ {i e}, evs[i]? = some e → i < evs.length := fun he =>
    (List.getElem?_eq_some_iff.mp he).1
  have hreq : ∀ e : DayEvent, isUserRequest env e = true ↔ e.role = .user ∧
      isControlCommand env e = false := by
    intro e
    simp [isUserRequest]
  refine ⟨⟨hst.numbered, hst.increasing⟩, fun s hs => ?_,
    fun i e he hu hc => ?_, fun i sid hi => ?_,
    fun hr i e j p sid he hu hc => hst.replies hr i e j p sid (hlt he) he ((hreq e).mpr ⟨hu, hc⟩)⟩
  · obtain ⟨-, hget, e, he, hu⟩ := hst.opened s hs
    exact ⟨hget, e, he, (hreq e).mp hu⟩
  · exact Option.isSome_iff_exists.mp (hst.assigned i e (hlt he) he ((hreq e).mpr ⟨hu, hc⟩))
  · obtain ⟨-, hone, hle⟩ := hst.known i sid hi
    rw [hst.numbered, List.mem_range'_1]
    omega

/-- ASCII character classes, no floats, and `str` of a text. -/
def plainRoute : RouteEnv where
  env := asciiEnv
  truncate _ := .error .overflowError
  str v := match v with
    | .str s => s
    | v => v.dumps

/-- A request, its answer, a queued request, a command on it and a reply to the answer. -/
def queueDay : List DayEvent :=
  [⟨⟨1, .user, py "m1", [], py "deploy the service"⟩, py "Ann"⟩,
    ⟨⟨2, .bot, py "m2", py "m1", py "deployed"⟩, py "bot"⟩,
    ⟨⟨3, .user, py "m3", [], py "write the report"⟩, py "Ann"⟩,
    ⟨⟨4, .bot, py "m4", py "m3", py "🕒 已入队 q1"⟩, py "bot"⟩,
    ⟨⟨5, .user, py "m5", py "m2", py "it is down again"⟩, py "Ann"⟩,
    ⟨⟨6, .user, py "m6", [], py "!parallel q1"⟩, py "Ann"⟩]

theorem routeDay_assigns_requests_queueDay :
    ∃ st, routeDay plainRoute queueDay true [py "\x7b\"session\": 7\x7d"] = .ok st ∧
      st.assign = [(0, 1), (1, 1), (2, 2), (3, 2), (4, 1), (5, 2)] ∧
      (st.sessions.map (·.id) = List.range' 1 st.sessions.length ∧
        (st.sessions.map (·.firstIdx)).Pairwise (· < ·)) := by
  obtain ⟨st, hst, hassign⟩ := ok_of_toOption
    (show ∃ st ∈ (routeDay plainRoute queueDay true [py "\x7b\"session\": 7\x7d"]).toOption,
      st.assign = [(0, 1), (1, 1), (2, 2), (3, 2), (4, 1), (5, 2)] by decide +kernel)
  exact ⟨st, hst, hassign, (routeDay_assigns_requests (by decide) hst).1⟩

end AgentTrajectory.RouteDay
