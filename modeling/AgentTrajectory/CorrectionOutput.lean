import AgentTrajectory.CorrectionRuns
import AgentTrajectory.DetectedEvents
import AgentTrajectory.Grouping
import AgentTrajectory.VerifyContext

/-! The end of `run` in `session_corrections.py`: a judge looks at every row a second time, and the
first row of each anchor goes to the output. What comes out has passed the checks of its session,
whatever the model answered and whatever the cache held. -/
namespace AgentTrajectory.SessionCorrections
open PyText PyDict PyJson PyValue RouteDay CorrectionCensus RelatedLists Grouping

variable {evs : List DayEvent}

/-- The judge: its reply about the row at a place, the text of a failed look, and `str.upper`. -/
structure Judge where
  reply : ℕ → PyStr → Except PyError PyStr
  failure : Except PyError PyStr → PyStr
  upper : PyStr → PyStr

section Output
variable (env : RouteEnv) (judge : Judge)

/-- `json.loads(raw[raw.index("{"):raw.rindex("}") + 1])`. -/
def judgement (raw : PyStr) : Option (Dict PyStr Json) :=
  match loads (((strip raw).dropWhile (· != cp '{')).rdropWhile (· != cp '}')) with
  | some (.obj m) => some m
  | _ => none

def repairId (e : Correction) : Except PyError PyStr :=
  match getNone e (py "_self_correction_msg_id") with
  | .str s => .ok s
  | .arr (_ :: _) => .error .typeError
  | .obj (_ :: _) => .error .typeError
  | _ => .ok []

def eventsById (evs : List DayEvent) :
    Dict PyStr DayEvent := ofPairs (evs.map fun e => (e.msgId, e))

/-- `_verify_one`: whether the row stays, and the row with its mark. -/
def verifyOne (evs : List DayEvent) (n : ℕ) (e : Correction) :
    Except PyError (Bool × Correction) := do
  let a ← lookup (eventsById evs) (anchorId e)
  let c ← lookup (eventsById evs) (correctorId e)
  match a, c with
  | some a, some c => do
      let rid ← repairId e
      let context ← verifyContext env a.msgId c.msgId (orderIdx evs) evs rid
      let raw := judge.reply n (context.getD (join (py "\n")
        [renderVerifyRow env a.msgId c.msgId [] a, renderVerifyRow env a.msgId c.msgId [] c]))
      match raw.toOption.bind judgement with
      | none => .ok (true, set e (py "_verify_err") (.str ((judge.failure raw).take 80)))
      | some m =>
          if judge.upper (env.str ((get? m (py "verdict")).getD (.str []))) =
            py "YES" then .ok (true, e)
          else .ok (false, set e (py "_drop")
            (.str (py "对抗核验NO(" ++ env.str ((get? m (py "kind")).getD (.str (py "?"))) ++
            py ":" ++ env.str ((get? m (py "why")).getD (.str [])) ++ py ")")))
  | _, _ => .ok (true, e)

/-- `verify_events`: the rows kept, and those dropped. -/
def verifyEvents (evs : List DayEvent) :
    ℕ → List Correction → Except PyError (List Correction × List Correction)
  | _, [] => .ok ([], [])
  | n, e :: es => do
      let (keep, e) ← verifyOne env judge evs n e
      let (kept, dropped) ← verifyEvents evs (n + 1) es
      .ok (if keep then (e :: kept, dropped) else (kept, e :: dropped))

def outRow (r : Correction) : Correction :=
  [(py "anchor_msg_id", anchorId r),
    (py "bot_error_quote", (get? r (py "bot_error_quote")).getD (.str [])),
    (py "corrector_msg_id", (get? r (py "corrector_msg_id")).getD (.str [])),
    (py "corrector", (get? r (py "corrector")).getD (.str [])),
    (py "corrector_role", (get? r (py "corrector_role")).getD (.str (py "user"))),
    (py "what", (get? r (py "what")).getD (.str [])),
      (py "task", (get? r (py "task")).getD (.str [])),
    (py "severity", (get? r (py "severity")).getD (.str (py "minor"))),
      (py "_session", getNone r (py "_session"))] ++
  ["_reanchored", "_corrector_reanchored", "_self_correction_msg_id"].filterMap fun k =>
    (get? r (py k)).map fun v => (py k, v)

/-- `seen`. -/
def outRows (rows : List Correction) : List Correction := (firstPerAnchor [] rows).1.map outRow

/-- `run` to its end: the rows of the output, and those that the judge dropped. -/
def publish (maxChars : ℕ) (store : Store) (x : Input) :
    Except PyError (List Correction × List Correction) := do
  let rows ← (run env maxChars store x).result
  let (kept, dropped) ← verifyEvents env judge x.evs 0 rows
  if (outRows kept).all writable then .ok (outRows kept, dropped) else .error .unicodeEncodeError

end Output

/-- The rows without the marks of empty sessions. -/
def found (rows : List Correction) : List Correction := rows.filter (!isSentinel ·)

/-- The outcome has whole rows more at the end of the cache, and has the rows it wrote; apart from
marks all of them have `P`. -/
def Continues (P : Correction → Prop) (store : Store) (rows : List Correction) (o : Outcome) :
    Prop :=
  ∃ added, o.store = ⟨store.route, store.cache ++ added⟩ ∧
    (∀ r ∈ added, (∃ sid, r = sentinel sid) ∨ P r) ∧
    (∀ rows', o.result = .ok rows' → ∃ new, rows' = rows ++ new ∧ (∀ r ∈ new, P r) ∧
      found new = found added) ∧
    ∀ err, o.result = .error err → err = .unicodeEncodeError

section Loop
variable {env : RouteEnv} {maxChars : ℕ} {P : Correction → Prop}

lemma Continues.after {store : Store} {rows : List Correction} {o : Outcome}
    (more new : List Correction)
    (h : Continues P ⟨store.route, store.cache ++ more⟩ (rows ++ new) o)
    (hmore : ∀ r ∈ more, (∃ sid, r = sentinel sid) ∨ P r)
    (hnew : ∀ r ∈ new, P r) (hsame : found new = found more) : Continues P store rows o := by
  obtain ⟨added, hstore, hadded, hok, herr⟩ := h
  refine ⟨more ++ added, by rw [hstore, List.append_assoc],
    List.forall_mem_append.mpr ⟨hmore, hadded⟩, fun rows' h => ?_, herr⟩
  obtain ⟨new', hrows', hnew', hsame'⟩ := hok rows' h
  refine ⟨new ++ new', by rw [hrows', List.append_assoc],
    List.forall_mem_append.mpr ⟨hnew, hnew'⟩, ?_⟩
  rw [found, found, List.filter_append, List.filter_append]
  exact congrArg₂ (· ++ ·) hsame hsame'

lemma detectLoop_continues {done : List Json} {sessions : List (ℕ × List DayEvent)}
    (hP : ∀ p ∈ sessions, ∀ answers es, (detectSession env maxChars p.2 answers).1 = .ok es →
      ∀ e ∈ es, P (tagged p.1 e))
    (answers : Answers) (store : Store) (rows : List Correction) :
    Continues P store rows (detectLoop env maxChars done sessions answers store rows) := by
  induction sessions generalizing answers store rows with
  | nil =>
    exact ⟨[], by simp [detectLoop], by simp, fun rows' h =>
      ⟨[], by simpa [detectLoop] using h.symm, by simp, rfl⟩, by simp [detectLoop]⟩
  | cons p rest ih =>
    obtain ⟨sid, evs⟩ := p
    have hrest := ih fun q hq => hP q (List.mem_cons_of_mem _ hq)
    rw [detectLoop]
    split_ifs with hdone
    · exact hrest answers store rows
    · simp only [Outcome.called]
      cases hfound : (detectSession env maxChars evs answers).1 with
      | error err => exact hrest _ store rows
      | ok es =>
        cases es with
        | nil =>
          have hnone : found [sentinel sid] = [] := by simp [found, isSentinel, sentinel,
            getNone, get?_cons, Json.truthy]
          refine Continues.after [sentinel sid] [] ?_ (by simp) (by simp) hnone.symm
          rw [List.append_nil]
          exact hrest _ ⟨store.route, store.cache ++ [sentinel sid]⟩ rows
        | cons e es =>
          have hnew : ∀ r ∈ (e :: es).map (tagged sid), P r :=
            List.forall_mem_map.mpr (hP (sid, evs) List.mem_cons_self answers (e :: es) hfound)
          simp only
          split_ifs with hw
          · exact (hrest _ ⟨store.route, store.cache ++ (e :: es).map (tagged sid)⟩
              (rows ++ (e :: es).map (tagged sid))).after _ _
              (fun r hr => .inr (hnew r hr)) hnew rfl
          · refine ⟨((e :: es).map (tagged sid)).takeWhile writable, rfl, fun r hr =>
              .inr (hnew r (List.takeWhile_subset _ hr)), by simp, ?_⟩
            intro err herr
            exact (Except.error.inj herr).symm

lemma guard_detectSession {answers : Answers} {es : List Correction}
    (h : (detectSession env maxChars evs answers).1 = .ok es) {e : Correction} (he : e ∈ es) :
    ∃ events dropped, guard env (rowsOf evs) events = .ok (es, dropped) := by
  have hguard {found : Except PyError (List Correction)}
      (hfound : (found >>= fun events => (guard env (rowsOf evs) events).map Prod.fst) = .ok es) :
      ∃ events dropped, guard env (rowsOf evs) events = .ok (es, dropped) := by
    obtain ⟨events, -, hfound⟩ := bind_eq_ok.mp hfound
    obtain ⟨⟨kept, dropped⟩, hg, rfl⟩ := map_eq_ok.mp hfound
    exact ⟨events, dropped, hg⟩
  rw [detectSession] at h
  simp only at h
  split_ifs at h with hshort hone
  · rw [← Except.ok.inj h] at he
    cases he
  · exact hguard h
  · exact hguard h

lemma get?_of_mem_sessionsInOrder {bySess : Dict ℕ (List DayEvent)} {p : ℕ × List DayEvent}
    (hp : p ∈ sessionsInOrder bySess) :
    get? bySess p.1 = some p.2 := by
  obtain ⟨hkey, hevs⟩ := mem_sessionsInOrder.mp hp
  cases hget : get? bySess p.1 with
  | none => exact absurd hkey (get?_eq_none.mp hget)
  | some evs => rw [hevs, hget, Option.getD_some]

end Loop

section Checked
variable {env : RouteEnv} {rows : List Row} {e e' : Correction}

lemma session_resolveAnchor (h : resolveAnchor rows e = .ok e') :
    getNone e' (py "_session") = getNone e (py "_session") := by
  obtain ⟨pick, -, h⟩ := bind_eq_ok.mp h
  cases pick with
  | none => rw [Except.ok.inj h]
  | some p =>
    simp only at h
    split_ifs at h with ha
    · rw [Except.ok.inj h]
    · rw [← Except.ok.inj h, getNone_set_ne _ (by simp), getNone_set_ne _ (by simp)]

lemma session_resolveCorrector (h : resolveCorrector env rows e = .ok e') :
    getNone e' (py "_session") = getNone e (py "_session") := by
  obtain ⟨pick, -, h⟩ := bind_eq_ok.mp h
  cases pick with
  | none => rw [Except.ok.inj h]
  | some p =>
    rw [← Except.ok.inj h]
    simp only [update, List.foldl_cons, List.foldl_nil, getNone_set]
    simp

lemma guarded {events kept dropped : List Correction}
    (h : guard env rows events = .ok (kept, dropped)) (he : e ∈ kept) :
    fault env rows e = .ok none ∧ ∃ e₀ ∈ events, getNone e (py "_session") =
      getNone e₀ (py "_session") := by
  obtain ⟨e₀, he₀, hone⟩ := (mem_guard h).mp he
  obtain ⟨e₁, h₁, h₂, hf⟩ := guardOne_eq_ok.mp hone
  exact ⟨hf, e₀, he₀, (session_resolveCorrector h₂).trans (session_resolveAnchor h₁)⟩

def Checked (env : RouteEnv) (bySess : Dict ℕ (List DayEvent)) (r : Correction) : Prop :=
  ∃ (sid : ℕ) (evs : List DayEvent), sessionKey (getNone r (py "_session")) = .ok (.int sid) ∧
    get? bySess sid = some evs ∧
    fault env (rowsOf evs) r = .ok none

variable {bySess : Dict ℕ (List DayEvent)} {key : Json} {d d' : Dict Json (List Correction)}
    {rs dropped dropped' kept : List Correction}

lemma groupCached_ok (h : groupCached rs d dropped = .ok (d', dropped')) :
    ∃ ps : List (Json × Correction),
    (∀ p ∈ ps, sessionKey (getNone p.2 (py "_session")) = .ok p.1) ∧
      d' = ps.foldl (fun d p => extendAt d p.1 [p.2]) d := by
  induction rs generalizing d dropped with
  | nil => exact ⟨[], by simp, (Prod.mk.inj (Except.ok.inj h)).1.symm⟩
  | cons r rs ih =>
    rw [groupCached] at h
    split_ifs at h with hempty hnull
    · exact ih h
    · exact ih h
    · obtain ⟨key, hkey, h⟩ := bind_eq_ok.mp h
      obtain ⟨ps, hps, hd⟩ := ih h
      exact ⟨(key, r) :: ps, List.forall_mem_cons.mpr ⟨hkey, hps⟩, hd⟩

lemma session_groupCached (h : groupCached rs [] dropped = .ok (d, dropped')) :
    ∀ p ∈ d, ∀ r ∈ p.2, sessionKey (getNone r (py "_session")) = .ok p.1 := by
  obtain ⟨ps, hps, rfl⟩ := groupCached_ok h
  intro p hp r hr
  rw [foldl_extendAt] at hp
  obtain ⟨k, -, rfl⟩ := List.mem_map.mp hp
  obtain ⟨q, hq, hr⟩ := List.mem_flatMap.mp hr
  obtain ⟨hq, hk⟩ := List.mem_filter.mp hq
  rw [List.mem_singleton.mp hr, hps q hq, of_decide_eq_true hk]

lemma sessionOf_eq_some (h : sessionOf bySess key = some evs) :
    ∃ sid : ℕ, key = .int sid ∧ get? bySess sid = some evs := by
  cases key with
  | int n =>
    rw [sessionOf] at h
    split_ifs at h with hn
    exact ⟨n.toNat, by rw [Int.toNat_of_nonneg hn], h⟩
  | _ => simp [sessionOf] at h

lemma reguardGroups_cons (h : reguardGroups env bySess ((key, rs) :: d) = .ok (kept, dropped)) :
    ∃ kept₁ kept₂ dropped₂, kept = kept₁ ++ kept₂ ∧
    reguardGroups env bySess d = .ok (kept₂, dropped₂) ∧
      (kept₁ = [] ∨ ∃ evs dropped₁, sessionOf bySess key = some evs ∧ guard env (rowsOf evs) rs =
        .ok (kept₁, dropped₁)) := by
  rw [reguardGroups] at h
  split at h
  · rename_i e evs hsess
    obtain ⟨⟨kept₁, dropped₁⟩, h₁, h⟩ := bind_eq_ok.mp h
    obtain ⟨⟨kept₂, dropped₂⟩, h₂, h⟩ := bind_eq_ok.mp h
    obtain ⟨rfl, -⟩ := Prod.mk.inj (Except.ok.inj h)
    exact ⟨kept₁, kept₂, dropped₂, rfl, h₂, .inr ⟨_, dropped₁, hsess, h₁⟩⟩
  · obtain ⟨missing, hmissing, h⟩ := bind_eq_ok.mp h
    obtain rfl := Except.ok.inj hmissing
    obtain ⟨⟨kept₂, dropped₂⟩, h₂, h⟩ := bind_eq_ok.mp h
    obtain ⟨rfl, -⟩ := Prod.mk.inj (Except.ok.inj h)
    exact ⟨[], kept₂, dropped₂, rfl, h₂, .inl rfl⟩

lemma checked_reguardGroups (hd : ∀ p ∈ d, ∀ r ∈ p.2,
    sessionKey (getNone r (py "_session")) = .ok p.1)
    (h : reguardGroups env bySess d = .ok (kept, dropped)) : ∀ r ∈ kept, Checked env bySess r := by
  induction d generalizing kept dropped with
  | nil =>
    rw [← (Prod.mk.inj (Except.ok.inj h)).1]
    simp
  | cons p d ih =>
    obtain ⟨kept₁, kept₂, dropped₂, rfl, h₂, h₁⟩ := reguardGroups_cons h
    refine List.forall_mem_append.mpr ⟨fun r hr => ?_,
      ih (fun q hq => hd q (List.mem_cons_of_mem _ hq)) h₂⟩
    rcases h₁ with rfl | ⟨evs, dropped₁, hsess, h₁⟩
    · cases hr
    · obtain ⟨hf, r₀, hr₀, hsame⟩ := guarded h₁ hr
      obtain ⟨sid, hkey, hget⟩ := sessionOf_eq_some hsess
      refine ⟨sid, evs, ?_, hget, hf⟩
      rw [hsame, hd p List.mem_cons_self r₀ hr₀, hkey]

lemma checked_tagged {sid : ℕ} (hget : get? bySess sid = some evs)
    (hf : fault env (rowsOf evs) e = .ok none) :
    Checked env bySess (tagged sid e) := by
  refine ⟨sid, evs, by rw [tagged, getNone_set, if_pos rfl]; rfl, hget, ?_⟩
  rw [← hf]
  refine fault_congr fun k hk => getNone_tagged sid e fun he => ?_
  rw [← py_inj.mp he] at hk
  simp at hk

lemma checked_run {maxChars : ℕ} {store : Store} {x : Input} {route : RouteDay.State}
    (hroute : buildRoute env store.route x.evs x.replies = .ok route) {rows : List Correction}
    (h : (run env maxChars store x).result = .ok rows) : ∀ r ∈ rows,
    Checked env (groupBySession route.assign x.evs) r := by
  rw [run, hroute] at h
  simp only at h
  split at h
  · cases h
  · rename_i done old hresumed
    obtain ⟨done', -, hresumed⟩ := bind_eq_ok.mp hresumed
    obtain ⟨out, hout, hresumed⟩ := bind_eq_ok.mp hresumed
    obtain ⟨-, rfl⟩ := Prod.mk.inj (Except.ok.inj hresumed)
    obtain ⟨⟨groups, dropped⟩, hgroups, hout⟩ := bind_eq_ok.mp hout
    obtain ⟨⟨kept, dropped'⟩, hkept, hout⟩ := bind_eq_ok.mp hout
    obtain rfl := Except.ok.inj hout
    obtain ⟨added, -, -, hok, -⟩ : Continues (Checked env (groupBySession route.assign x.evs))
      ⟨some route, store.cache⟩ kept
        (detectLoop env maxChars done (sessionsInOrder (groupBySession route.assign x.evs))
          x.answers ⟨some route, store.cache⟩ kept) := by
      refine detectLoop_continues (fun p hp answers es hes e he => ?_) _ _ _
      obtain ⟨events, dropped, hg⟩ := guard_detectSession hes he
      exact checked_tagged (get?_of_mem_sessionsInOrder hp) (guarded hg he).1
    obtain ⟨new, rfl, hnew, -⟩ := hok rows h
    exact List.forall_mem_append.mpr ⟨checked_reguardGroups (session_groupCached hgroups) hkept,
      hnew⟩

end Checked

section Publish
variable {env : RouteEnv} {judge : Judge}

def SameRow (e v : Correction) :
    Prop := ∀ k ∉ ["_verify_err", "_drop"].map py, getNone v k = getNone e k

lemma sameRow_verifyOne {n : ℕ} {e e' : Correction} {keep : Bool}
    (h : verifyOne env judge evs n e = .ok (keep, e')) : SameRow e e' := by
  have hset {k : String} (v : Json) (hk : k ∈ ["_verify_err", "_drop"]) :
    SameRow e (set e (py k) v) :=
    fun k' hk' => getNone_set_ne _ (fun he => hk' (List.mem_map.mpr ⟨k, hk, he⟩)) _
  obtain ⟨a, -, h⟩ := bind_eq_ok.mp h
  obtain ⟨c, -, h⟩ := bind_eq_ok.mp h
  split at h
  · obtain ⟨rid, -, h⟩ := bind_eq_ok.mp h
    obtain ⟨context, -, h⟩ := bind_eq_ok.mp h
    simp only at h
    split at h
    · rw [← (Prod.mk.inj (Except.ok.inj h)).2]
      exact hset _ (by simp)
    · split_ifs at h
      · rw [← (Prod.mk.inj (Except.ok.inj h)).2]
        exact fun _ _ => rfl
      · rw [← (Prod.mk.inj (Except.ok.inj h)).2]
        exact hset _ (by simp)
  · rw [← (Prod.mk.inj (Except.ok.inj h)).2]
    exact fun _ _ => rfl

lemma verifyEvents_ok {n : ℕ} {es kept dropped : List Correction}
    (h : verifyEvents env judge evs n es = .ok (kept, dropped)) :
    ∃ seen, List.Forall₂ SameRow es seen ∧ (kept ++ dropped).Perm seen := by
  induction es generalizing n kept dropped with
  | nil =>
    obtain ⟨rfl, rfl⟩ := Prod.mk.inj (Except.ok.inj h)
    exact ⟨[], .nil, .refl _⟩
  | cons e es ih =>
    obtain ⟨⟨keep, e'⟩, hone, h⟩ := bind_eq_ok.mp h
    obtain ⟨⟨kept', dropped'⟩, hrest, h⟩ := bind_eq_ok.mp h
    obtain ⟨seen, hseen, hperm⟩ := ih hrest
    refine ⟨e' :: seen, .cons (sameRow_verifyOne hone) hseen, ?_⟩
    cases keep with
    | true =>
      obtain ⟨rfl, rfl⟩ := Prod.mk.inj (Except.ok.inj h)
      exact hperm.cons e'
    | false =>
      obtain ⟨rfl, rfl⟩ := Prod.mk.inj (Except.ok.inj h)
      exact List.perm_middle.trans (hperm.cons e')

lemma getD_of_getNone {r : Correction} {k : PyStr} {v : Json} (h : getNone r k = v)
    (hv : v ≠ .null) (other : Json) :
    (get? r k).getD other = v := by
  rw [getNone] at h
  cases hget : get? r k with
  | none => exact absurd (by rw [← h, hget]; rfl) hv
  | some w => simpa [hget] using h

lemma session_outRow (r : Correction) :
    getNone (outRow r) (py "_session") = getNone r (py "_session") := by
  simp [outRow, getNone, get?_cons]

lemma anchorId_outRow (r : Correction) : anchorId (outRow r) = anchorId r := by
  simp [outRow, anchorId, getNone, get?_cons]

lemma normQuote_outRow (r : Correction) : normQuote (outRow r) = normQuote r := by
  have hquote : getNone (outRow r) (py "bot_error_quote") =
      (get? r (py "bot_error_quote")).getD (.str []) := by
    simp [outRow, getNone, get?_cons]
  rw [normQuote, normQuote, hquote, getNone]
  cases get? r (py "bot_error_quote") <;> rfl

lemma sound_outRow {rows : List Row} {r v : Correction} (hsame : SameRow r v)
    (h : fault env rows r = .ok none) :
    ∃ q a c, Sound env rows (outRow v) q a c := by
  have hfault : fault env rows v = .ok none := by
    rw [← h]
    refine fault_congr fun k hk => hsame _ fun hin => ?_
    obtain ⟨k', hk', he⟩ := List.mem_map.mp hin
    rw [py_inj.mp he] at hk'
    simp at hk hk'
    rcases hk' with rfl | rfl <;> simp at hk
  obtain ⟨q, a, c, hs⟩ := sound_of_fault hfault
  have hcor : correctorId (outRow v) = correctorId v := by
    have hid := (lookup_byId hs.corrector).1
    have hout : correctorId (outRow v) = (get? v (py "corrector_msg_id")).getD (.str []) := by
      simp [outRow, correctorId, getNone, get?_cons]
    rw [hout, hid, getD_of_getNone hid (by simp)]
  exact ⟨q, a, c,
    { hs with
      anchor := by rw [anchorId_outRow]; exact hs.anchor
      quote := by rw [normQuote_outRow]; exact hs.quote
      corrector := by rw [hcor]; exact hs.corrector }⟩

lemma nodup_firstPerAnchor (seen : List Json) (es : List Correction) :
    ((firstPerAnchor seen es).1.map anchorId).Nodup := by
  induction es generalizing seen with
  | nil => exact List.nodup_nil
  | cons e es ih =>
    rw [firstPerAnchor]
    split_ifs with hnew
    · refine List.nodup_cons.mpr ⟨fun hin => ?_, ih _⟩
      obtain ⟨f, hf, heq⟩ := List.mem_map.mp hin
      obtain ⟨-, -, -, -, hout, -⟩ := mem_firstPerAnchor.mp hf
      exact hout (by simp [heq])
    · exact ih seen

lemma exists_firstPerAnchor (seen : List Json) {es : List Correction} {e : Correction} (he : e ∈ es)
    (htruthy : (anchorId e).truthy = true) (hseen : anchorId e ∉ seen) :
    ∃ f ∈ (firstPerAnchor seen es).1, anchorId f = anchorId e := by
  induction es generalizing seen with
  | nil => cases he
  | cons d es ih =>
    rw [firstPerAnchor]
    by_cases hde : anchorId d = anchorId e
    · rw [if_pos (by rw [hde]; simpa using ⟨htruthy, hseen⟩)]
      exact ⟨d, by simp, hde⟩
    · have he' : e ∈ es := (List.mem_cons.mp he).resolve_left fun h => hde (h ▸ rfl)
      split_ifs with hnew
      · have hseen' : anchorId e ∉ anchorId d :: seen := by simp [hseen, Ne.symm hde]
        obtain ⟨f, hf, heq⟩ := ih _ he' hseen'
        exact ⟨f, List.mem_cons_of_mem _ hf, heq⟩
      · exact ih _ he' hseen

variable {maxChars : ℕ} {store : Store} {x : Input}

lemma publish_ok {out dropped : List Correction}
    (h : publish env judge maxChars store x = .ok (out, dropped)) :
    ∃ route rows kept, buildRoute env store.route x.evs x.replies = .ok route ∧
    (run env maxChars store x).result = .ok rows ∧
      verifyEvents env judge x.evs 0 rows = .ok (kept, dropped) ∧ out = outRows kept := by
  obtain ⟨rows, hrows, h⟩ := bind_eq_ok.mp h
  obtain ⟨⟨kept, dropped'⟩, hkept, h⟩ := bind_eq_ok.mp h
  simp only at h
  split_ifs at h
  obtain ⟨rfl, rfl⟩ := Prod.mk.inj (Except.ok.inj h)
  cases hroute : buildRoute env store.route x.evs x.replies with
  | error err => simp [run, hroute] at hrows
  | ok route => exact ⟨route, rows, kept, rfl, hrows, hkept, rfl⟩

/-- A row of the output quotes a message of a bot in the session it names, which a human of that
session answers later. There is one row for an anchor, and no anchor is lost but by the judge. -/
structure Published (env : RouteEnv) (bySess : Dict ℕ (List DayEvent))
    (rows out dropped : List Correction) : Prop where
  sound : ∀ v ∈ out, ∃ (sid : ℕ) (evs : List DayEvent) (q : PyStr) (a c : Row),
    sessionKey (getNone v (py "_session")) = .ok (.int sid) ∧ get? bySess sid = some evs ∧
      Sound env (rowsOf evs) v q a c
  distinct : (out.map anchorId).Nodup
  kept : ∀ r ∈ rows, (anchorId r).truthy = true → anchorId r ∈ (out ++ dropped).map anchorId

/-- Whatever the model answers and whatever the cache holds, what is published is sound. -/
theorem published_rows_sound {out dropped : List Correction}
    (h : publish env judge maxChars store x = .ok (out, dropped)) :
    ∃ route rows, buildRoute env store.route x.evs x.replies = .ok route ∧
    (run env maxChars store x).result = .ok rows ∧
      Published env (groupBySession route.assign x.evs) rows out dropped := by
  obtain ⟨route, rows, kept, hroute, hrows, hkept, rfl⟩ := publish_ok h
  obtain ⟨seen, hseen, hperm⟩ := verifyEvents_ok hkept
  refine ⟨route, rows, hroute, hrows, fun v hv => ?_, ?_, fun r hr htruthy => ?_⟩
  · obtain ⟨f, hf, rfl⟩ := List.mem_map.mp hv
    obtain ⟨before, after, hsplit, -⟩ := mem_firstPerAnchor.mp hf
    have hfseen : f ∈ seen := hperm.mem_iff.mp (List.mem_append_left _ (by simp [hsplit]))
    obtain ⟨r, hr, hsame⟩ := forall₂_mem_right hseen hfseen
    obtain ⟨sid, evs, hkey, hget, hfault⟩ := checked_run hroute hrows r hr
    obtain ⟨q, a, c, hs⟩ := sound_outRow hsame hfault
    refine ⟨sid, evs, q, a, c, ?_, hget, hs⟩
    rw [session_outRow, hsame _ (by simp), hkey]
  · rw [outRows, List.map_map]
    simpa only [Function.comp_def, anchorId_outRow] using nodup_firstPerAnchor [] kept
  · obtain ⟨v, hv, hsame⟩ := forall₂_mem_left hseen hr
    have hid : anchorId v = anchorId r := hsame _ (by simp)
    rw [List.map_append, List.mem_append, ← hid]
    rcases List.mem_append.mp (hperm.mem_iff.mpr hv) with hv | hv
    · obtain ⟨f, hf, heq⟩ := exists_firstPerAnchor [] hv (by rwa [hid]) (List.not_mem_nil)
      exact .inl (List.mem_map.mpr ⟨outRow f, List.mem_map_of_mem hf, by rw [anchorId_outRow, heq]⟩)
    · exact .inr (List.mem_map_of_mem hv)

end Publish

def deniedRoute : RouteDay.State := { RouteDay.State.start [] with assign := [(0, 1), (1, 1)] }

def deniedInput : Input := ⟨deniedClaim, [], []⟩

def deniedStore : Store := ⟨some deniedRoute, [tagged 1 (portEvent [])]⟩

def failingJudge : Judge := ⟨fun _ _ => .error .indexError, fun _ => [], id⟩

lemma run_denied :
    (run plainRoute 20000 deniedStore deniedInput).result = .ok [tagged 1 (portEvent [])] := by
  have hbuild : buildRoute plainRoute deniedStore.route deniedInput.evs deniedInput.replies =
    .ok deniedRoute := rfl
  have hbySess : groupBySession deniedRoute.assign deniedInput.evs = [(1, deniedClaim)] := rfl
  have hsess : get? [(1, deniedClaim)] 1 = some deniedClaim := rfl
  have hport : ∀ e ∈ [portEvent []], Settled plainRoute (rowsOf deniedClaim) e :=
    settled_of_kept (by decide) (by decide) guard_port
  have hdone : doneSessions [tagged 1 (portEvent [])] = .ok [.int 1] := by
    simp [doneSessions, getItem, tagged, get?_set_self, sessionKey, bind,
      Except.bind, pure, Except.pure]
  have hrows := reguardCachedRows_tagged hsess hport
  have hfound : isSentinel (portEvent []) = false := by simp [isSentinel, portEvent,
    getNone, get?_cons, Json.truthy]
  simp only [List.map_cons, List.map_nil, List.filter_cons, hfound, List.filter_nil,
    Bool.not_false, if_true] at hrows
  rw [run, hbuild]
  simp only [hbySess, deniedStore, hdone, hrows, bind, Except.bind]
  rfl

lemma publish_denied : ∃ out, out ≠ [] ∧
    publish plainRoute failingJudge 20000 deniedStore deniedInput = .ok (out, []) := by
  let row := set (tagged 1 (portEvent [])) (py "_verify_err") (.str [])
  have hverify : verifyEvents plainRoute failingJudge deniedInput.evs 0 [tagged 1 (portEvent [])] =
    .ok ([row], []) := rfl
  have hwritable : (outRows [row]).all writable = true := by decide +kernel
  refine ⟨outRows [row], ?_, ?_⟩
  · obtain ⟨f, hf, -⟩ := exists_firstPerAnchor []
      (List.mem_singleton_self row) rfl (List.not_mem_nil)
    exact List.ne_nil_of_mem (List.mem_map_of_mem hf)
  · rw [publish, run_denied]
    simp only [bind, Except.bind, hverify, hwritable, if_true]

theorem published_rows_sound_denied :
    ∃ out route rows, out ≠ [] ∧
    buildRoute plainRoute deniedStore.route deniedInput.evs deniedInput.replies = .ok route ∧
      (run plainRoute 20000 deniedStore deniedInput).result = .ok rows ∧
      Published plainRoute (groupBySession route.assign deniedInput.evs) rows out [] := by
  obtain ⟨out, hne, hout⟩ := publish_denied
  obtain ⟨route, rows, hroute, hrows, hsound⟩ := published_rows_sound hout
  exact ⟨out, route, rows, hne, hroute, hrows, hsound⟩

end AgentTrajectory.SessionCorrections
