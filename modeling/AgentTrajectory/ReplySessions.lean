import AgentTrajectory.RouteRuns

/-! Which session `route_day` puts a message into that is no user request: that of the latest
request before it, or for a command on a queue position that of the latest request before the
receipt. The message that a bot message, a receipt or a command replies to plays no part, so
reply chains and queue positions follow their parents only where no other session comes
between. -/
namespace AgentTrajectory.RouteDay
open PyText PyDict PyJson PyValue PyRegex TaskStitch

variable {e : DayEvent}

section Sessions
variable (env : RouteEnv) (evs : List DayEvent) (assign : Dict ℕ ℕ)

/-- Message `k` is a user request. -/
def requestAt (k : ℕ) : Bool := evs[k]?.any (isUserRequest env)

/-- Message `k` is no user request and gives out queue position `q`. -/
def receiptAt (q k : ℕ) : Bool :=
  evs[k]?.any fun e => !isUserRequest env e && decide ((enqueuedQ env e).toOption = some (some q))

/-- The session of the latest user request before message `k`. -/
def activeSession : ℕ → Option ℕ
  | 0 => none
  | k + 1 => if requestAt env evs k then get? assign k else activeSession k

/-- The session that was active at the latest receipt for `q` before message `k`; receipts
before the first request do not count. -/
def targetSession (q : ℕ) : ℕ → Option ℕ
  | 0 => none
  | k + 1 =>
      if receiptAt env evs q k then (activeSession env evs assign k).or (targetSession q k) else targetSession q k

/-- The session that message `i` inherits if it is no user request. -/
def inheritedSession (i : ℕ) (e : DayEvent) : Option ℕ :=
  if e.role = .user ∧ isControlCommand env e = true then
    ((ctrlTargetQ env e).toOption.join.bind fun q => targetSession env evs assign q (i + 1)).or
      (activeSession env evs assign i)
  else activeSession env evs assign i

end Sessions

variable {env : RouteEnv} {evs : List DayEvent} {respectReply : Bool}

lemma activeSession_congr {assign assign' : Dict ℕ ℕ} {k : ℕ} (h : ∀ i < k, get? assign' i = get? assign i) :
    activeSession env evs assign' k = activeSession env evs assign k := by
  induction k with
  | zero => rfl
  | succ k ih => rw [activeSession, activeSession, h k (by omega), ih fun i hi => h i (by omega)]

lemma targetSession_congr {assign assign' : Dict ℕ ℕ} {q k : ℕ} (h : ∀ i < k, get? assign' i = get? assign i) :
    targetSession env evs assign' q k = targetSession env evs assign q k := by
  induction k with
  | zero => rfl
  | succ k ih =>
    rw [targetSession, targetSession, activeSession_congr fun i hi => h i (by omega),
      ih fun i hi => h i (by omega)]

lemma inheritedSession_congr {assign assign' : Dict ℕ ℕ} {i : ℕ}
    (h : ∀ j ≤ i, get? assign' j = get? assign j) :
    inheritedSession env evs assign' i e = inheritedSession env evs assign i e := by
  have htarget : ∀ q, targetSession env evs assign' q (i + 1) = targetSession env evs assign q (i + 1) := fun q =>
    targetSession_congr fun j hj => h j (by omega)
  rw [inheritedSession, inheritedSession, activeSession_congr fun j hj => h j (by omega)]
  simp only [htarget]

structure Inherits (env : RouteEnv) (k : ℕ) (e : DayEvent) (st st' : State) : Prop where
  last : st'.lastSid = st.lastSid
  queue : ∀ q, get? st'.queueTarget q =
    if (enqueuedQ env e).toOption = some (some q) then st.lastSid.or (get? st.queueTarget q)
    else get? st.queueTarget q
  others : ∀ i, i ≠ k → get? st'.assign i = get? st.assign i
  own : get? st.assign k = none → get? st'.assign k =
    if e.msgId = [] then none
    else if e.role = .user ∧ isControlCommand env e = true then
      ((ctrlTargetQ env e).toOption.join.bind (get? st'.queueTarget)).or st.lastSid
    else st.lastSid

lemma inherits_of_inheritStep {k : ℕ} {st st' : State} (h : inheritStep env k e st = .ok st') :
    Inherits env k e st st' := by
  obtain ⟨st₁, h₁, h⟩ := bind_eq_ok.mp h
  obtain ⟨⟨sess, st₂⟩, h₂, h⟩ := bind_eq_ok.mp h
  obtain ⟨queue, rfl, hqueue⟩ := bindQueue_eq h₁
  obtain ⟨⟨ds, rfl⟩, hsess⟩ := inheritFor_eq h₂
  dsimp only at hsess
  cases sess with
  | none =>
    obtain rfl := Except.ok.inj h
    refine ⟨rfl, hqueue, fun i _ => rfl, fun hfresh => hfresh.trans ?_⟩
    rw [← hsess]
    split_ifs <;> rfl
  | some sid =>
    simp only [Except.ok.injEq] at h
    by_cases hid : e.msgId = []
    · rw [if_pos hid] at h
      subst h
      exact ⟨rfl, hqueue, fun i _ => rfl, fun hfresh => by rw [if_pos hid]; exact hfresh⟩
    · rw [if_neg hid] at h
      subst h
      refine ⟨rfl, hqueue, fun i hi => get?_set_ne _ _ hi.symm, fun _ => ?_⟩
      rw [if_neg hid]
      exact (get?_set_self ..).trans hsess

/-- The variables after the first `k` messages, read off the assignment. -/
structure Explained (env : RouteEnv) (evs : List DayEvent) (k : ℕ) (st : State) : Prop where
  fresh : ∀ i, k ≤ i → get? st.assign i = none
  requests : ∀ i < k, requestAt env evs i = true → (get? st.assign i).isSome = true
  active : st.lastSid = activeSession env evs st.assign k
  queue : ∀ q, get? st.queueTarget q = targetSession env evs st.assign q k
  inherited : ∀ i e, i < k → evs[i]? = some e → isUserRequest env e = false →
    get? st.assign i = if e.msgId = [] then none else inheritedSession env evs st.assign i e

lemma explained_start (env : RouteEnv) (evs : List DayEvent) (replies : List PyStr) :
    Explained env evs 0 (.start replies) where
  fresh _ _ := rfl
  requests := by simp
  active := rfl
  queue _ := rfl
  inherited := by simp

lemma Explained.request {k sid : ℕ} {st st' : State} (h : Explained env evs k st)
    (he : evs[k]? = some e) (hreq : isUserRequest env e = true) (hlast : st'.lastSid = some sid)
    (hqueue : st'.queueTarget = st.queueTarget) (hassign : st'.assign = set st.assign k sid) :
    Explained env evs (k + 1) st' := by
  have hold : ∀ i, i ≠ k → get? st'.assign i = get? st.assign i := fun i hi => by
    rw [hassign, get?_set_ne _ _ hi.symm]
  have hrequest : requestAt env evs k = true := by simp [requestAt, he, hreq]
  have hreceipt : ∀ q, receiptAt env evs q k = false := fun q => by simp [receiptAt, he, hreq]
  refine ⟨fun i hi => ?_, fun i hi hi' => ?_, ?_, fun q => ?_, fun i e' hi he' hreq' => ?_⟩
  · rw [hold i (by omega)]
    exact h.fresh i (by omega)
  · by_cases hik : i = k
    · rw [hik, hassign, get?_set_self]
      rfl
    · rw [hold i hik]
      exact h.requests i (by omega) hi'
  · rw [activeSession, hrequest, if_pos rfl, hassign, get?_set_self, hlast]
  · rw [targetSession, hreceipt, hqueue, h.queue]
    exact (targetSession_congr fun i hi => hold i (by omega)).symm
  · have hik : i ≠ k := by
      rintro rfl
      obtain rfl := Option.some.inj (he'.symm.trans he)
      simp [hreq] at hreq'
    rw [hold i hik, h.inherited i e' (by omega) he' hreq', inheritedSession_congr fun j hj => hold j (by omega)]

lemma Explained.inherit {k : ℕ} {st st' : State} (h : Explained env evs k st)
    (he : evs[k]? = some e) (hreq : isUserRequest env e = false) (hin : Inherits env k e st st') :
    Explained env evs (k + 1) st' := by
  have hrequest : requestAt env evs k = false := by simp [requestAt, he, hreq]
  have hreceipt : ∀ q, receiptAt env evs q k = decide ((enqueuedQ env e).toOption = some (some q)) := fun q => by
    simp [receiptAt, he, hreq]
  have hactive : activeSession env evs st'.assign k = st.lastSid := by
    rw [activeSession_congr fun i hi => hin.others i (by omega), h.active]
  have hqueue : ∀ q, get? st'.queueTarget q = targetSession env evs st'.assign q (k + 1) := fun q => by
    rw [hin.queue, targetSession, hreceipt, hactive, h.queue,
      targetSession_congr fun i hi => hin.others i (by omega)]
    simp only [decide_eq_true_eq]
  refine ⟨fun i hi => ?_, fun i hi hi' => ?_, ?_, hqueue, fun i e' hi he' hreq' => ?_⟩
  · rw [hin.others i (by omega)]
    exact h.fresh i (by omega)
  · have hik : i ≠ k := by
      rintro rfl
      simp [hrequest] at hi'
    rw [hin.others i hik]
    exact h.requests i (by omega) hi'
  · rw [activeSession, hrequest, hin.last, hactive]
    rfl
  · by_cases hik : i = k
    · subst hik
      obtain rfl := Option.some.inj (he'.symm.trans he)
      rw [hin.own (h.fresh i le_rfl), inheritedSession, hactive]
      simp only [hqueue]
    · rw [hin.others i hik, h.inherited i e' (by omega) he' hreq',
        inheritedSession_congr fun j hj => hin.others j (by omega)]

lemma Explained.step {k : ℕ} {st st' : State} (h : Explained env evs k st) (he : evs[k]? = some e)
    (hstep : routeStep env evs respectReply k e st = .ok st') : Explained env evs (k + 1) st' := by
  cases turn_of_routeStep hstep with
  | inherited hreq =>
    rw [routeStep, hreq] at hstep
    exact h.inherit he hreq (inherits_of_inheritStep hstep)
  | followed hreq sid _ _ hlast _ hqueue hassign => exact h.request he hreq hlast hqueue hassign
  | opened hreq _ _ _ hlast _ hqueue hassign => exact h.request he hreq hlast hqueue hassign
  | continued hreq _ s _ _ hlast _ hqueue hassign => exact h.request he hreq hlast hqueue hassign

lemma routeDay_explained {replies : List PyStr} {st : State} (h : routeDay env evs respectReply replies = .ok st) :
    Explained env evs evs.length st :=
  routeDay_invariant (explained_start env evs replies) (fun _ _ _ _ he hst => hst.step he) h

lemma routeDay_inherited {replies : List PyStr} {st : State} (h : routeDay env evs respectReply replies = .ok st)
    {i : ℕ} (he : evs[i]? = some e) (hreq : isUserRequest env e = false) :
    get? st.assign i = if e.msgId = [] then none else inheritedSession env evs st.assign i e :=
  (routeDay_explained h).inherited i e (List.getElem?_eq_some_iff.mp he).1 he hreq

/-- Message `e` at `i` replies to the earlier message at `j`, which is in session `sid`. -/
structure RepliesTo (evs : List DayEvent) (assign : Dict ℕ ℕ) (i : ℕ) (e : DayEvent) (j sid : ℕ) : Prop where
  message : evs[i]? = some e
  earlier : j < i
  parent : ∃ p, evs[j]? = some p ∧ e.parentId = p.msgId ∧ p.msgId ≠ []
  session : get? assign j = some sid

/-- Every reply is in the session of its parent exactly if every reply that is no user request
has an id and inherits the session of its parent. -/
theorem replies_in_parent_session_iff (env : RouteEnv) (evs : List DayEvent) (hd : (evs.map (·.msgId)).Nodup)
    (replies : List PyStr) (st : State) (h : routeDay env evs true replies = .ok st) :
    (∀ i e j sid, RepliesTo evs st.assign i e j sid → get? st.assign i = some sid) ↔
      ∀ i e j sid, RepliesTo evs st.assign i e j sid → isUserRequest env e = false →
        e.msgId ≠ [] ∧ inheritedSession env evs st.assign i e = some sid := by
  have hrouted := routeDay_routedUpTo hd h
  constructor
  · intro hall i e j sid hreply hreq
    have hsession := hall i e j sid hreply
    rw [routeDay_inherited h hreply.message hreq] at hsession
    split_ifs at hsession with hid
    exact ⟨hid, hsession⟩
  · intro hall i e j sid hreply
    by_cases hreq : isUserRequest env e = true
    · obtain ⟨p, hp, hparent, hid⟩ := hreply.parent
      have hlt := (List.getElem?_eq_some_iff.mp hreply.message).1
      exact (hrouted.replies rfl i e j p sid hlt hreply.message hreq hp hparent hid hreply.earlier
        hreply.session).1
    · obtain ⟨hid, hsession⟩ := hall i e j sid hreply (by simpa using hreq)
      rw [routeDay_inherited h hreply.message (by simpa using hreq), if_neg hid, hsession]

/-- Two requests of different sessions, and the answer to the first. -/
def interleavedDay : List DayEvent :=
  [⟨⟨1, .user, py "m1", [], py "deploy the service"⟩, py "Ann"⟩,
    ⟨⟨2, .user, py "m2", [], py "write the report"⟩, py "Ann"⟩,
    ⟨⟨3, .bot, py "m3", py "m1", py "deployed"⟩, py "bot"⟩]

theorem replies_in_parent_session_iff_queueDay :
    ∃ st, routeDay plainRoute queueDay true [py "new"] = .ok st ∧
      ∀ i e j sid, RepliesTo queueDay st.assign i e j sid → get? st.assign i = some sid := by
  obtain ⟨st, hst, hall⟩ := ok_of_toOption (show ∃ st ∈ (routeDay plainRoute queueDay true [py "new"]).toOption,
    ∀ a ∈ queueDay.zipIdx, ∀ p ∈ queueDay.zipIdx, a.1.parentId = p.1.msgId → isUserRequest plainRoute a.1 = false →
      a.1.msgId ≠ [] ∧ inheritedSession plainRoute queueDay st.assign a.2 a.1 =
        get? st.assign p.2 by decide +kernel)
  refine ⟨st, hst, (replies_in_parent_session_iff plainRoute queueDay (by decide) [py "new"] st hst).mpr ?_⟩
  intro i e j sid h hreq
  obtain ⟨p, hp, hparent, -⟩ := h.parent
  rw [← h.session]
  exact hall (e, i) (List.mem_zipIdx_iff_getElem?.mpr h.message) (p, j)
    (List.mem_zipIdx_iff_getElem?.mpr hp) hparent
    hreq

/-- The answer to the first request is put into the session of the second. -/
theorem answer_leaves_session :
    (interleavedDay.map (·.msgId)).Nodup ∧ (interleavedDay.map (·.ts)).Pairwise (· < ·) ∧
    ∃ st, routeDay plainRoute interleavedDay true [py "new"] = .ok st ∧
      interleavedDay.map (·.parentId) = [[], [], py "m1"] ∧ st.assign = [(0, 1), (1, 2), (2, 2)] :=
  ⟨by decide, by decide, ok_of_toOption (by decide +kernel)⟩

/-- A receipt of the bot for queue position `q`. -/
def IsReceipt (env : RouteEnv) (q : ℕ) (e : DayEvent) : Prop :=
  e.role = .bot ∧ enqueuedQ env e = .ok (some q)

/-- The latest receipt for `q` before message `i` replies to the user request at `u`. -/
def QueuedAs (env : RouteEnv) (evs : List DayEvent) (i q u : ℕ) : Prop :=
  ∃ r c p, r < i ∧ evs[r]? = some c ∧ IsReceipt env q c ∧
    (∀ r' c', r < r' → r' < i → evs[r']? = some c' → ¬ IsReceipt env q c') ∧
    evs[u]? = some p ∧ isUserRequest env p = true ∧ c.parentId = p.msgId ∧ p.msgId ≠ []

/-- A control command at `i` that names queue position `q`. -/
structure NamesQueue (env : RouteEnv) (evs : List DayEvent) (i q : ℕ) (e : DayEvent) : Prop where
  message : evs[i]? = some e
  role : e.role = .user
  control : isControlCommand env e = true
  target : ctrlTargetQ env e = .ok (some q)

/-- Every command on a queue position is in the session of the request that was queued there
exactly if every such command has an id and the request is in the session that was active at
the latest receipt. -/
theorem commands_follow_queue_iff (env : RouteEnv) (evs : List DayEvent) (respectReply : Bool)
    (replies : List PyStr) (st : State) (h : routeDay env evs respectReply replies = .ok st) :
    (∀ i e q u, NamesQueue env evs i q e → QueuedAs env evs i q u →
      ∃ sid, get? st.assign u = some sid ∧ get? st.assign i = some sid) ↔
      ∀ i e q u, NamesQueue env evs i q e → QueuedAs env evs i q u → e.msgId ≠ [] ∧
        (targetSession env evs st.assign q (i + 1)).or (activeSession env evs st.assign i) = get? st.assign u := by
  have hcommand : ∀ i e q, NamesQueue env evs i q e → get? st.assign i = if e.msgId = [] then none
      else (targetSession env evs st.assign q (i + 1)).or (activeSession env evs st.assign i) := by
    intro i e q hnames
    have hreq : isUserRequest env e = false := by simp [isUserRequest, hnames.control]
    have hinherited : inheritedSession env evs st.assign i e =
        (targetSession env evs st.assign q (i + 1)).or (activeSession env evs st.assign i) := by
      rw [inheritedSession, if_pos ⟨hnames.role, hnames.control⟩, hnames.target]
      rfl
    rw [routeDay_inherited h hnames.message hreq, hinherited]
  refine forall₄_congr fun i e q u => forall₂_congr fun hnames hqueued => ?_
  obtain ⟨r, c, p, -, -, -, -, hp, hreq, -⟩ := hqueued
  obtain ⟨sid, hsid⟩ := Option.isSome_iff_exists.mp ((routeDay_explained h).requests u
    (List.getElem?_eq_some_iff.mp hp).1 (by simp [requestAt, hp, hreq]))
  rw [hcommand i e q hnames, hsid]
  by_cases hid : e.msgId = []
  · simp [hid]
  · simp [hid]

/-- Two requests of different sessions, the receipt for the first and a command on it. -/
def lateReceiptDay : List DayEvent :=
  [⟨⟨1, .user, py "m1", [], py "deploy the service"⟩, py "Ann"⟩,
    ⟨⟨2, .user, py "m2", [], py "write the report"⟩, py "Ann"⟩,
    ⟨⟨3, .bot, py "m3", py "m1", py "🕒 已入队 q1"⟩, py "bot"⟩,
    ⟨⟨4, .user, py "m4", [], py "!parallel q1"⟩, py "Ann"⟩]

theorem commands_follow_queue_iff_queueDay :
    ∃ st, routeDay plainRoute queueDay true [py "new"] = .ok st ∧
      ∀ i e q u, NamesQueue plainRoute queueDay i q e → QueuedAs plainRoute queueDay i q u →
        ∃ sid, get? st.assign u = some sid ∧ get? st.assign i = some sid := by
  obtain ⟨st, hst, hall⟩ := ok_of_toOption (show ∃ st ∈ (routeDay plainRoute queueDay true [py "new"]).toOption,
    ∀ a ∈ queueDay.zipIdx, ∀ q ∈ (ctrlTargetQ plainRoute a.1).toOption.join, ∀ c ∈ queueDay,
      enqueuedQ plainRoute c = .ok (some q) → ∀ p ∈ queueDay.zipIdx, c.parentId = p.1.msgId → a.1.msgId ≠ [] ∧
        (targetSession plainRoute queueDay st.assign q (a.2 + 1)).or
          (activeSession plainRoute queueDay st.assign a.2) =
          get? st.assign p.2 by decide +kernel)
  refine ⟨st, hst, (commands_follow_queue_iff plainRoute queueDay true [py "new"] st hst).mpr ?_⟩
  rintro i e q u hnames ⟨r, c, p, -, hc, hreceipt, -, hp, -, hparent, -⟩
  refine hall (e, i) (List.mem_zipIdx_iff_getElem?.mpr hnames.message) q ?_ c (List.mem_of_getElem? hc) hreceipt.2
    (p, u) (List.mem_zipIdx_iff_getElem?.mpr hp) hparent
  rw [hnames.target]
  rfl

/-- The command goes to the session of the second request, although the first one was queued. -/
theorem late_receipt_binds_other_session : (lateReceiptDay.map (·.msgId)).Nodup ∧
    (∃ e, NamesQueue plainRoute lateReceiptDay 3 1 e) ∧ QueuedAs plainRoute lateReceiptDay 3 1 0 ∧
    ∃ st, routeDay plainRoute lateReceiptDay true [py "new"] = .ok st ∧
      st.assign = [(0, 1), (1, 2), (2, 2), (3, 2)] := by
  refine ⟨by decide, ⟨_, rfl, rfl, by decide +kernel, by decide +kernel⟩, ?_, ok_of_toOption (by decide +kernel)⟩
  refine ⟨2, _, _, by decide, rfl, ⟨rfl, by decide +kernel⟩, fun r' c' hlow hhigh => ?_,
    rfl, by decide +kernel, rfl, by decide⟩
  omega

end AgentTrajectory.RouteDay
