import AgentTrajectory.SessionWindows

/-! The context that the second look at a correction is shown: the messages around the anchor,
the corrector and the bot's repair. Where these lie far apart only the two ends are kept, and a
protagonist between them is left out with the middle. -/
namespace AgentTrajectory.SessionCorrections
open PyText PyDict PyJson PyValue TaskStitch RouteDay

variable {evs : List DayEvent}

def ctxBefore : ℕ := 3
def ctxAfter : ℕ := 2
def ctxMaxSpan : ℕ := 14
def ctxMsgCap : ℕ := 1200
def ctxAnchorCap : ℕ := 3500

def verifyMark (aid cid rid mid : PyStr) : PyStr :=
  if mid = aid then py "▶【bot锚点】"
  else if mid = cid then py "▶【疑似翻案】"
  else if rid ≠ [] ∧ mid = rid then py "▶【bot返工】"
  else []

/-- `_render_verify_row`; `rid` is empty where no repair is given. -/
def renderVerifyRow (env : RouteDay.RouteEnv) (aid cid rid : PyStr) (e : DayEvent) : PyStr :=
  let cap := if e.msgId = aid ∨ e.msgId = cid then ctxAnchorCap else ctxMsgCap
  let txt := stripFeishu env.env e.text
  let txt := if cap < txt.length then txt.take cap ++ py "…〔截断,原长" ++
    natDigits txt.length ++ py "〕" else txt
  verifyMark aid cid rid e.msgId ++ py "[" ++ e.msgId ++ py "] " ++ roleName e.role ++ py "/" ++
    (if e.name = [] then roleName e.role else e.name).take 10 ++ py ": " ++ txt

inductive ContextLine
  | row (e : DayEvent)
  | omitted (n : ℕ)
  deriving DecidableEq

def ContextLine.event? : ContextLine → Option DayEvent
  | .row e => some e
  | .omitted _ => none

/-- The messages that lines show. -/
def shown (lines : List ContextLine) : List DayEvent := lines.filterMap ContextLine.event?

def renderLine (env : RouteDay.RouteEnv) (aid cid rid : PyStr) : ContextLine → PyStr
  | .row e => renderVerifyRow env aid cid rid e
  | .omitted n => py "    …（省略中间 " ++ natDigits n ++ py " 轮）…"

/-- `evs[i]`. -/
def eventAt (evs : List DayEvent) (i : ℕ) : Except PyError DayEvent :=
  match evs[i]? with
  | some e => .ok e
  | none => .error .indexError

/-- The rows of `range(start, stop)`. -/
def rowsIn (evs : List DayEvent) (start stop : ℕ) : Except PyError (List ContextLine) := do
  let es ← (List.range' start (stop - start)).mapM (eventAt evs)
  .ok (es.map .row)

/-- `order_idx`, as the callers build it. -/
def orderIdx (evs : List DayEvent) : Dict PyStr ℕ := places (·.msgId) evs

/-- The lines of the context from the positions of its protagonists. `stop` is `end + 1`; the
second range starts `ctxBefore` before `hi`, the first ends as far behind `lo`. -/
def linesAround (evs : List DayEvent) (endpoints : List ℕ) (ai : ℕ) :
    Except PyError (List ContextLine) :=
  let lo := endpoints.foldl min ai
  let hi := endpoints.foldl max ai
  let start := lo - ctxBefore
  let stop := min evs.length (hi + ctxAfter + 1)
  if ctxMaxSpan < hi - lo then do
    let head ← rowsIn evs start (lo + ctxBefore + 1)
    if hi - ctxBefore < stop then do
      let tail ← rowsIn evs (hi - ctxBefore) stop
      .ok (head ++ [.omitted (hi - ctxBefore - (lo + ctxBefore) - 1)] ++ tail)
    else .error .indexError
  else rowsIn evs start stop

/-- The lines of `_verify_context`; `none` where the anchor or the corrector has no position. -/
def contextLines (aid cid : PyStr) (order : Dict PyStr ℕ) (evs : List DayEvent) (rid : PyStr) :
    Except PyError (Option (List ContextLine)) :=
  let ri := if rid ≠ [] then get? order rid else none
  match get? order aid, get? order cid with
  | some ai, some ci => do
      let lines ← linesAround evs ([ai, ci] ++ ri.toList) ai
      .ok (some lines)
  | _, _ => .ok none

def verifyContext (env : RouteDay.RouteEnv) (aid cid : PyStr) (order : Dict PyStr ℕ)
    (evs : List DayEvent) (rid : PyStr) :
    Except PyError (Option PyStr) := do
  let lines ← contextLines aid cid order evs rid
  .ok (lines.map fun ls => join (py "\n") (ls.map (renderLine env aid cid rid)))

def place (evs : List DayEvent) (id : PyStr) : ℕ := (evs.map (·.msgId)).idxOf id

section Places
variable {evs : List DayEvent} (hd : (evs.map (·.msgId)).Nodup)
include hd

lemma get?_orderIdx {id : PyStr} (h : id ∈ evs.map (·.msgId)) :
    get? (orderIdx evs) id = some (place evs id) := by
  have hlt : place evs id < evs.length := by simpa [place] using List.idxOf_lt_length_of_mem h
  have hid := List.getElem_idxOf (List.idxOf_lt_length_of_mem h)
  rw [List.getElem_map] at hid
  have hget := get?_places hd (List.getElem?_eq_getElem hlt)
  rwa [show evs[place evs id].msgId = id from hid] at hget

lemma place_eq {i : ℕ} {e : DayEvent} (h : evs[i]? = some e) : place evs e.msgId = i := by
  obtain ⟨hi, rfl⟩ := List.getElem?_eq_some_iff.mp h
  have hlt : i < (evs.map (·.msgId)).length := by simpa using hi
  have hidx := hd.idxOf_getElem i hlt
  rwa [List.getElem_map] at hidx

end Places

lemma eventAt_of_lt {i : ℕ} (h : i < evs.length) : eventAt evs i = .ok (evs.get ⟨i, h⟩) := by
  rw [eventAt, List.getElem?_eq_getElem h]
  rfl

lemma mapM_eventAt (n start : ℕ) (h : start + n ≤ evs.length) :
    (List.range' start n).mapM (eventAt evs) = .ok (slice evs (start, start + n)) := by
  induction n generalizing start with
  | zero =>
    simp [slice, pure, Except.pure]
  | succ n ih =>
    have hlt : start < (evs.take (start + (n + 1))).length := by
      rw [List.length_take]
      omega
    rw [List.range'_succ, List.mapM_cons, eventAt_of_lt (by omega), ih (start + 1) (by omega)]
    dsimp only [bind, Except.bind, pure, Except.pure]
    rw [slice, slice, List.drop_eq_getElem_cons hlt, List.getElem_take,
      Nat.add_right_comm, Nat.add_assoc]
    rfl

lemma rowsIn_eq {start stop : ℕ} (hle : start ≤ stop) (h : stop ≤ evs.length) :
    rowsIn evs start stop = .ok ((slice evs (start, stop)).map .row) := by
  rw [rowsIn, mapM_eventAt _ _ (by omega), Nat.add_sub_cancel' hle]
  rfl

lemma mem_slice {start stop : ℕ} {e : DayEvent} :
    e ∈ slice evs (start, stop) ↔ ∃ i, start ≤ i ∧ i < stop ∧ evs[i]? = some e := by
  rw [slice, List.mem_iff_getElem?]
  simp only [List.getElem?_drop, List.getElem?_take]
  constructor
  · rintro ⟨i, hi⟩
    split_ifs at hi with hlt
    · exact ⟨start + i, by omega, hlt, hi⟩
  · rintro ⟨i, hlow, hhigh, hi⟩
    refine ⟨i - start, ?_⟩
    rw [Nat.add_sub_cancel' hlow, if_pos hhigh, hi]

lemma slice_append_sublist {a b c d : ℕ} (hbc : b ≤ c) :
    (slice evs (a, b) ++ slice evs (c, d)).Sublist evs := by
  have hleft : (slice evs (a, b)).Sublist (evs.take c) :=
    (List.drop_sublist a _).trans (List.take_prefix_take_left hbc).sublist
  have hright : (slice evs (c, d)).Sublist (evs.drop c) := (List.take_sublist d evs).drop c
  simpa using hleft.append hright

@[simp] lemma shown_rows (es : List DayEvent) : shown (es.map .row) = es := by
  simp [shown, List.filterMap_map, Function.comp_def, ContextLine.event?]

@[simp] lemma shown_omitted (n : ℕ) : shown [.omitted n] = [] := rfl

@[simp] lemma shown_append (xs ys : List ContextLine) :
    shown (xs ++ ys) = shown xs ++ shown ys := List.filterMap_append

lemma linesAround_eq {endpoints : List ℕ} {ai lo hi : ℕ}
    (hlo : endpoints.foldl min ai = lo) (hhi : endpoints.foldl max ai = hi) (hle : lo ≤ hi)
    (hlt : hi < evs.length) :
    ∃ lines, linesAround evs endpoints ai = .ok lines ∧ (shown lines).Sublist evs ∧
      ∀ e, e ∈ shown lines ↔ ∃ j : ℕ, evs[j]? = some e ∧ lo ≤ j + ctxBefore ∧ j ≤ hi + ctxAfter ∧
        (hi - lo ≤ ctxMaxSpan ∨ j ≤ lo + ctxBefore ∨ hi ≤ j + ctxBefore) := by
  have hplace : ∀ {j : ℕ} {e : DayEvent}, evs[j]? = some e → j < evs.length := fun h =>
    (List.getElem?_eq_some_iff.mp h).1
  have hbefore : ctxBefore = 3 := rfl
  have hmax : ctxMaxSpan = 14 := rfl
  rw [linesAround, hlo, hhi]
  by_cases hspan : ctxMaxSpan < hi - lo
  · rw [if_pos hspan, rowsIn_eq (by omega) (by omega), rowsIn_eq (by omega) (by omega)]
    dsimp only [bind, Except.bind]
    rw [if_pos (by omega)]
    refine ⟨_, rfl, ?_, ?_⟩
    · simp only [shown_append, shown_rows, shown_omitted, List.append_nil]
      exact slice_append_sublist (by omega)
    · intro e
      simp only [shown_append, shown_rows, shown_omitted, List.append_nil,
        List.mem_append, mem_slice]
      constructor
      · rintro (⟨j, hlow, hhigh, hj⟩ | ⟨j, hlow, hhigh, hj⟩)
        · exact ⟨j, hj, by omega, by omega, by omega⟩
        · exact ⟨j, hj, by omega, by omega, by omega⟩
      · rintro ⟨j, hj, hlow, hhigh, hfar | hnear | hnear⟩
        · omega
        · exact Or.inl ⟨j, by omega, by omega, hj⟩
        · exact Or.inr ⟨j, by omega, by have := hplace hj; omega, hj⟩
  · rw [if_neg hspan, rowsIn_eq (by omega) (by omega)]
    refine ⟨_, rfl, ?_, ?_⟩
    · rw [shown_rows]
      exact (List.drop_sublist _ _).trans (List.take_sublist _ _)
    · intro e
      rw [shown_rows, mem_slice]
      constructor
      · rintro ⟨j, hlow, hhigh, hj⟩
        exact ⟨j, hj, by omega, by omega, by omega⟩
      · rintro ⟨j, hj, hlow, hhigh, -⟩
        exact ⟨j, by omega, by have := hplace hj; omega, hj⟩

lemma place_lt {id : PyStr} (h : id ∈ evs.map (·.msgId)) : place evs id < evs.length := by
  simpa [place] using List.idxOf_lt_length_of_mem h

/-- The positions of the anchor, the corrector and the repair where one is given. -/
def protagonists (evs : List DayEvent) (aid cid rid : PyStr) : List ℕ :=
  [place evs aid, place evs cid] ++ if rid = [] then [] else [place evs rid]

lemma contextLines_of_mem (hd : (evs.map (·.msgId)).Nodup) {aid cid rid : PyStr}
    (ha : aid ∈ evs.map (·.msgId)) (hc : cid ∈ evs.map (·.msgId))
    (hr : rid ≠ [] → rid ∈ evs.map (·.msgId)) :
    contextLines aid cid (orderIdx evs) evs rid =
      (linesAround evs (protagonists evs aid cid rid) (place evs aid)).map some := by
  have hrepair : (if rid ≠ [] then get? (orderIdx evs) rid else none).toList =
      if rid = [] then [] else [place evs rid] := by
    by_cases hrid : rid = []
    · simp [hrid]
    · simp [hrid, get?_orderIdx hd (hr hrid)]
  rw [contextLines, get?_orderIdx hd ha, get?_orderIdx hd hc]
  dsimp only
  rw [hrepair, ← protagonists]
  cases linesAround evs (protagonists evs aid cid rid) (place evs aid) <;> rfl

lemma count_shown (hd : (evs.map (·.msgId)).Nodup) {lines : List ContextLine}
    (hsub : (shown lines).Sublist evs) {kept : ℕ → Prop}
    (hshown : ∀ e, e ∈ shown lines ↔ ∃ j : ℕ, evs[j]? = some e ∧ kept j) {id : PyStr}
    (hid : id ∈ evs.map (·.msgId)) : ((shown lines).map (·.msgId)).count id = 1 ↔
    kept (place evs id) := by
  have hnodup : ((shown lines).map (·.msgId)).Nodup := hd.sublist (hsub.map _)
  have hone : ((shown lines).map (·.msgId)).count id = 1 ↔ id ∈ (shown lines).map (·.msgId) :=
    ⟨fun h => List.count_pos_iff.mp (by omega), List.count_eq_one_of_mem hnodup⟩
  rw [hone, List.mem_map]
  constructor
  · rintro ⟨e, he, rfl⟩
    obtain ⟨j, hj, hkept⟩ := (hshown e).mp he
    rwa [place_eq hd hj]
  · intro hkept
    obtain ⟨e, he, rfl⟩ := List.mem_map.mp hid
    obtain ⟨j, hj⟩ := List.mem_iff_getElem?.mp he
    rw [place_eq hd hj] at hkept
    exact ⟨e, (hshown e).mpr ⟨j, hj, hkept⟩, rfl⟩

/-- The context shows the anchor, the corrector and the repair once each and in the order of the
messages exactly when no repair is given, or the three lie within `ctxMaxSpan`, or each lies at
most `ctxBefore` behind the first or before the last of them. -/
theorem verifyContext_shows_iff (env : RouteDay.RouteEnv) (evs : List DayEvent)
    (hd : (evs.map (·.msgId)).Nodup)
    (aid cid rid : PyStr) (ha : aid ∈ evs.map (·.msgId)) (hc : cid ∈ evs.map (·.msgId))
    (hr : rid ≠ [] → rid ∈ evs.map (·.msgId)) :
    (∃ lines, contextLines aid cid (orderIdx evs) evs rid = .ok (some lines) ∧
        verifyContext env aid cid (orderIdx evs) evs rid =
          .ok (some (join (py "\n") (lines.map (renderLine env aid cid rid)))) ∧
        (shown lines).Sublist evs ∧
        ∀ id, id = aid ∨ id = cid ∨ (rid ≠ [] ∧ id = rid) →
          ((shown lines).map (·.msgId)).count id = 1) ↔
      rid = [] ∨ (∀ p ∈ protagonists evs aid cid rid,
        ∀ q ∈ protagonists evs aid cid rid, q ≤ p + ctxMaxSpan) ∨
        ∀ x ∈ protagonists evs aid cid rid,
          (∀ p ∈ protagonists evs aid cid rid, x ≤ p + ctxBefore) ∨
          ∀ p ∈ protagonists evs aid cid rid, p ≤ x + ctxBefore := by
  have hbefore : ctxBefore = 3 := rfl
  have hmax : ctxMaxSpan = 14 := rfl
  have hai := place_lt ha
  have hci := place_lt hc
  have hri : rid ≠ [] → place evs rid < evs.length := fun h => place_lt (hr h)
  obtain ⟨lines, hlines, hsub, hshown⟩ := @linesAround_eq evs (protagonists evs aid cid rid)
    (place evs aid) _ _ rfl rfl
    (by unfold protagonists; split_ifs <;> simp) (by unfold protagonists; split_ifs <;> simp_all)
  have hcontext : contextLines aid cid (orderIdx evs) evs rid = .ok (some lines) := by
    rw [contextLines_of_mem hd ha hc hr, hlines]
    rfl
  have htext : verifyContext env aid cid (orderIdx evs) evs rid =
      .ok (some (join (py "\n") (lines.map (renderLine env aid cid rid)))) := by
    rw [verifyContext, hcontext]
    rfl
  have hcount := fun id hid => @count_shown evs hd lines hsub _ hshown id hid
  trans (∀ id, id = aid ∨ id = cid ∨ (rid ≠ [] ∧ id = rid) →
    ((shown lines).map (·.msgId)).count id = 1)
  · constructor
    · rintro ⟨lines', hlines', -, -, h⟩
      rw [hcontext] at hlines'
      cases hlines'
      exact h
    · exact fun h => ⟨lines, hcontext, htext, hsub, h⟩
  · by_cases hrid : rid = []
    · subst hrid
      have hprot : protagonists evs aid cid [] = [place evs aid, place evs cid] := by
        simp [protagonists]
      simp only [ne_eq, not_true_eq_false, false_and, or_false, forall_eq_or_imp,
        forall_eq, true_or, iff_true,
        hcount aid ha, hcount cid hc, hprot, List.foldl_cons, List.foldl_nil]
      omega
    · have hprot : protagonists evs aid cid rid =
          [place evs aid, place evs cid, place evs rid] := by
        simp [protagonists, hrid]
      simp only [hrid, ne_eq, not_false_eq_true, true_and, false_or, forall_eq_or_imp,
        forall_eq, hcount aid ha,
        hcount cid hc, hcount rid (hr hrid), hprot, List.foldl_cons, List.foldl_nil,
          List.mem_cons, List.not_mem_nil,
        or_false]
      omega

/-- Messages `m0`, `m1`, and so on. -/
def numberedSession (n : ℕ) : List DayEvent :=
  (List.range n).map fun i : ℕ =>
    ⟨⟨i, if i % 8 = 0 then .bot else .user, py "m" ++ natDigits i, [], py "text"⟩, []⟩

/-- A corrector seven messages behind the anchor and nine before the repair is not shown. -/
theorem corrector_in_omitted_middle :
    ∃ text, verifyContext plainRoute (py "m0") (py "m7")
    (orderIdx (numberedSession 17)) (numberedSession 17)
        (py "m16") = .ok (some text) ∧
      ∃ c ∈ numberedSession 17, c.msgId = py "m7" ∧
        contains (renderVerifyRow plainRoute (py "m0") (py "m7") (py "m16") c) text = false := by
  obtain ⟨x, hx, hP⟩ := ok_of_toOption (show ∃ x ∈ (verifyContext plainRoute (py "m0") (py "m7")
      (orderIdx (numberedSession 17)) (numberedSession 17) (py "m16")).toOption, ∃ text ∈ x,
        ∃ c ∈ numberedSession 17, c.msgId = py "m7" ∧
          contains (renderVerifyRow plainRoute (py "m0") (py "m7") (py "m16") c) text = false by
            decide +kernel)
  obtain ⟨text, rfl, hc⟩ := hP
  exact ⟨text, hx, hc⟩

theorem verifyContext_shows_iff_near :
    ∃ lines, contextLines (py "m0") (py "m3") (orderIdx (numberedSession 17))
    (numberedSession 17) (py "m16") =
        .ok (some lines) ∧
      verifyContext plainRoute (py "m0") (py "m3") (orderIdx (numberedSession 17))
        (numberedSession 17) (py "m16") =
        .ok (some (join (py "\n")
          (lines.map (renderLine plainRoute (py "m0") (py "m3") (py "m16"))))) ∧
      (shown lines).Sublist (numberedSession 17) ∧
      ∀ id, id = py "m0" ∨ id = py "m3" ∨ (py "m16" ≠ [] ∧ id = py "m16") →
        ((shown lines).map (·.msgId)).count id = 1 :=
  (verifyContext_shows_iff plainRoute (numberedSession 17) (by decide +kernel)
    (py "m0") (py "m3") (py "m16")
    (by decide +kernel) (by decide +kernel) (by decide +kernel)).mpr (by decide +kernel)

end AgentTrajectory.SessionCorrections
