import AgentTrajectory.RawContextReplay

/-! Nothing that happens at T0 or later reaches the replay context of T0. Two logs are
compared that agree on the events before T0: what the builder looks up on the way from such
an event along its parent links is the same in both. -/
namespace AgentTrajectory.RawContextReplay
open PyText PyDict PyJson PyValue PathWalk RuntimeLane

variable {τ : Type} [LinearOrder τ]
variable {e : Event τ} {byId : Dict PyStr (Event τ)}

/-- A parent that is in the log is earlier than the reply. -/
def ParentsEarlier (log : EventLog τ) : Prop :=
  ∀ e ∈ log.events, ∀ p ∈ log.events, p.msgId = e.parentId → p.ts < e.ts

/-- Both logs hold T0 and the same events before it; from T0 on they may differ in anything. -/
structure SameBefore (t0 : Event τ) (log log' : EventLog τ) : Prop where
  mem : t0 ∈ log.events
  mem' : t0 ∈ log'.events
  past : preEvents t0 log.events = preEvents t0 log'.events

/-- The messages have a common ancestor along the parent links. -/
def InReplyTree (log : EventLog τ) (m m' : PyStr) : Prop :=
  ∃ r, Leads (parentOf log.byId) m r ∧ Leads (parentOf log.byId) m' r

def Visible (t0 : Event τ) (log log' : EventLog τ) (m : PyStr) : Prop :=
  get? log.byId m = get? log'.byId m ∧ ∀ e, get? log.byId m = some e → e.ts < t0.ts ∨ e = t0

lemma mem_preEvents_of_candidates {t0 : Event τ} {events : List (Event τ)}
    {laneOf : Dict PyStr PyStr} (h : e ∈ (candidates t0 events byId laneOf).2) :
    e ∈ preEvents t0 events := by
  have hthread (he : e ∈ threadEvents t0 events byId) : e ∈ preEvents t0 events := by
    unfold threadEvents eventsWithRoot at he
    split_ifs at he
    · simp at he
    split at he
    · simp at he
    · exact (List.mem_filter.mp (List.mem_filter.mp he).1).1
  unfold candidates at h
  split_ifs at h
  · exact (List.mem_filter.mp h).1
  · exact hthread h
  · exact hthread h

lemma mem_preEvents_of_chosen {env : ReplayEnv τ} {row : Dict PyStr Json} {t0 : Event τ}
    {events : List (Event τ)}
    {laneOf : Dict PyStr PyStr} {limit : ℤ} {x : Quality × List (Event τ) × Audit}
    (h : chooseContext env row t0 events byId laneOf limit = .ok x) (he : e ∈ x.2.1) :
    e ∈ preEvents t0 events := by
  unfold chooseContext at h
  obtain ⟨ids, -, h⟩ := bind_eq_ok.mp h
  obtain rfl := Except.ok.inj h
  exact mem_preEvents_of_candidates (mem_of_mem_sliceFrom he)

section Agreement
variable {t0 : Event τ} {log log' : EventLog τ}

lemma SameBefore.mem_past (h : SameBefore t0 log log') (hts : e.ts < t0.ts) :
    e ∈ log.events ↔ e ∈ log'.events := by
  have hiff : e ∈ preEvents t0 log.events ↔ e ∈ preEvents t0 log'.events := by rw [h.past]
  simpa [preEvents, hts] using hiff

lemma SameBefore.visible (h : SameBefore t0 log log') (he : e ∈ log.events)
    (hts : e.ts < t0.ts ∨ e = t0) : Visible t0 log log' e.msgId := by
  have he' : e ∈ log'.events := by
    rcases hts with hts | rfl
    · exact (h.mem_past hts).mp he
    · exact h.mem'
  refine ⟨by rw [log.get?_byId_self he, log'.get?_byId_self he'], fun x hx => ?_⟩
  rw [log.get?_byId_self he] at hx
  exact Option.some.inj hx ▸ hts

lemma ts_le_of_before (h : e.ts < t0.ts ∨ e = t0) : e.ts ≤ t0.ts := by
  rcases h with h | rfl
  · exact h.le
  · exact le_rfl

lemma SameBefore.visible_parent (h : SameBefore t0 log log') (hp : ParentsEarlier log)
    (hp' : ParentsEarlier log') {m : PyStr} (hm : Visible t0 log log' m)
    (he : get? log.byId m = some e) : Visible t0 log log' e.parentId := by
  have hts := ts_le_of_before (hm.2 e he)
  have hmem := ((log.get?_byId).mp he).1
  have hmem' := ((log'.get?_byId).mp (hm.1 ▸ he)).1
  cases hq : get? log.byId e.parentId with
  | some p =>
    obtain ⟨hplog, hpid⟩ := (log.get?_byId).mp hq
    have hpts := (hp e hmem p hplog hpid).trans_le hts
    exact hpid ▸ h.visible hplog (.inl hpts)
  | none =>
    refine ⟨?_, fun x hx => by rw [hq] at hx; cases hx⟩
    rw [hq]
    cases hq' : get? log'.byId e.parentId with
    | none => rfl
    | some p =>
      obtain ⟨hplog, hpid⟩ := (log'.get?_byId).mp hq'
      have hpts := (hp' e hmem' p hplog hpid).trans_le hts
      have hself := log.get?_byId_self ((h.mem_past hpts).mpr hplog)
      rw [hpid, hq] at hself
      cases hself

omit [LinearOrder τ] in
lemma parent_of_parentOf {m p : PyStr} (h : parentOf byId m = some p) :
    ∃ e, get? byId m = some e ∧ e.parentId = p := by
  simp only [parentOf, Option.filter_eq_some_iff, Option.map_eq_some_iff] at h
  exact h.1

omit [LinearOrder τ] in
lemma parent_of_parentIn {m p : PyStr} (h : parentIn byId m = some p) :
    ∃ e, get? byId m = some e ∧ e.parentId = p := by
  simp only [parentIn, Option.filter_eq_some_iff, Option.map_eq_some_iff] at h
  exact h.1

lemma Visible.parentOf_eq {m : PyStr} (hm : Visible t0 log log' m) :
    parentOf log.byId m = parentOf log'.byId m := by
  rw [parentOf, parentOf, hm.1]

variable (h : SameBefore t0 log log') (hp : ParentsEarlier log) (hp' : ParentsEarlier log')
include h hp hp'

lemma parentIn_eq_of_visible {m : PyStr} (hm : Visible t0 log log' m) :
    parentIn log.byId m = parentIn log'.byId m := by
  rw [parentIn, parentIn, ← hm.1]
  cases he : get? log.byId m with
  | none => rfl
  | some e => simp only [Option.map_some, Option.filter_some, (h.visible_parent hp hp' hm he).1]

lemma walk_parents_eq {link : Dict PyStr (Event τ) → PyStr → Option PyStr}
    (hlink : ∀ byId m p, link byId m = some p → ∃ e, get? byId m = some e ∧ e.parentId = p)
    (heq : ∀ m, Visible t0 log log' m → link log.byId m = link log'.byId m) {m : PyStr}
    (hm : Visible t0 log log' m) :
    walk (link log.byId) (log.byId.length + 1) [] m = walk (link log'.byId)
    (log'.byId.length + 1) [] m := by
  have hkeys (byId : Dict PyStr (Event τ)) (x : PyStr)
      (hx : (link byId x).isSome) : x ∈ keys byId := by
    obtain ⟨p, hxp⟩ := Option.isSome_iff_exists.mp hx
    obtain ⟨e, he, -⟩ := hlink byId x p hxp
    exact mem_keys_of_get? he
  rw [← length_keys, ← length_keys]
  refine walk_agree (hkeys _) (hkeys _) heq (fun x y hx hy => ?_) hm
  obtain ⟨e, he, rfl⟩ := hlink _ x y hy
  exact h.visible_parent hp hp' hx he

lemma chain_eq {m : PyStr} (hm : Visible t0 log log' m) :
    rootOf log.byId m = rootOf log'.byId m := by
  have hwalk : walk (parentOf log.byId) (log.byId.length + 1) [] m =
      walk (parentOf log'.byId) (log'.byId.length + 1) [] m :=
    walk_parents_eq h hp hp' (fun _ _ _ => parent_of_parentOf) (fun _ => Visible.parentOf_eq) hm
  have hend : walkEnd (parentOf log'.byId) (log'.byId.length + 1) m =
      walkEnd (parentOf log.byId) (log.byId.length + 1) m := by rw [walkEnd, walkEnd, hwalk]
  have htop : Visible t0 log log' (walkEnd (parentOf log.byId) (log.byId.length + 1) m) := by
    refine (leads_walkEnd _ m).preserves (fun x y hx hy => ?_) hm
    obtain ⟨e, he, rfl⟩ := parent_of_parentOf hy
    exact h.visible_parent hp hp' hx he
  simp only [rootOf, hm.1, hend, htop.1, hwalk]

lemma laneFor_eq (real : Dict PyStr PyStr) (he : e ∈ log.events) (hts : e.ts < t0.ts ∨ e = t0) :
    laneFor real log.byId e = laneFor real log'.byId e := by
  have hwalk := walk_parents_eq h hp hp' (fun _ _ _ => parent_of_parentIn)
    (fun _ => parentIn_eq_of_visible h hp hp') (h.visible he hts)
  have hroot : RuntimeLane.rootOf log.byId e.msgId = RuntimeLane.rootOf log'.byId e.msgId := by
    rw [RuntimeLane.rootOf, RuntimeLane.rootOf, walkEnd, walkEnd, hwalk]
  rw [laneFor, laneFor, hroot]

lemma assignLanes_eq (real : Dict PyStr PyStr) (he : e ∈ log.events)
    (hts : e.ts < t0.ts ∨ e = t0) : get? (assignLanes real log) e.msgId =
      get? (assignLanes real log') e.msgId := by
  have he' : e ∈ log'.events := by
    rcases hts with hlt | rfl
    · exact (h.mem_past hlt).mp he
    · exact h.mem'
  rw [get?_assignLanes real log he, get?_assignLanes real log' he', laneFor_eq h hp hp' real he hts]

lemma shortLanes_eq (real : Dict PyStr PyStr) (he : e ∈ log.events)
    (hts : e.ts < t0.ts ∨ e = t0) : get? (shortLanes real log) e.msgId =
      get? (shortLanes real log') e.msgId := by
  rw [shortLanes, shortLanes, get?_map (fun v : PyStr × Provenance => laneShort v.1),
    get?_map (fun v : PyStr × Provenance => laneShort v.1),
    assignLanes_eq h hp hp' real he hts]

lemma threadEvents_eq :
    threadEvents t0 log.events log.byId = threadEvents t0 log'.events log'.byId := by
  have hroot := chain_eq h hp hp' (h.visible h.mem (.inr rfl))
  rw [threadEvents, threadEvents, ← hroot, ← h.past]
  split_ifs
  · rfl
  congr 1
  unfold eventsWithRoot
  cases (rootOf log.byId t0.msgId).root with
  | none => rfl
  | some r =>
    refine List.filter_congr fun e he => ?_
    obtain ⟨hmem, hts⟩ := List.mem_filter.mp he
    rw [chain_eq h hp hp' (h.visible hmem (.inl (of_decide_eq_true hts)))]

lemma laneEvents_eq (real : Dict PyStr PyStr) :
    laneEvents t0 log.events (shortLanes real log) =
      laneEvents t0 log'.events (shortLanes real log') := by
  rw [laneEvents, laneEvents, ← h.past, shortLanes_eq h hp hp' real h.mem (.inr rfl)]
  refine List.filter_congr fun e he => ?_
  obtain ⟨hmem, hts⟩ := List.mem_filter.mp he
  rw [shortLanes_eq h hp hp' real hmem (.inl (of_decide_eq_true hts))]

lemma candidates_eq (real : Dict PyStr PyStr) :
    candidates t0 log.events log.byId (shortLanes real log) =
      candidates t0 log'.events log'.byId (shortLanes real log') := by
  rw [candidates, candidates, threadEvents_eq h hp hp', laneEvents_eq h hp hp',
    chain_eq h hp hp' (h.visible h.mem (.inr rfl))]

lemma chooseContext_eq (env : ReplayEnv τ) (row : Dict PyStr Json)
    (real : Dict PyStr PyStr) (limit : ℤ) :
    chooseContext env row t0 log.events log.byId (shortLanes real log) limit =
      chooseContext env row t0 log'.events log'.byId (shortLanes real log') limit := by
  simp only [chooseContext, candidates_eq h hp hp', shortLanes_eq h hp hp' real h.mem (.inr rfl),
    chain_eq h hp hp' (h.visible h.mem (.inr rfl))]

lemma formatEvent_eq (env : ReplayEnv τ) (real : Dict PyStr PyStr) (he : e ∈ log.events)
    (hts : e.ts < t0.ts ∨ e = t0) :
    formatEvent env (shortLanes real log) e = formatEvent env (shortLanes real log') e := by
  rw [formatEvent, formatEvent, shortLanes_eq h hp hp' real he hts]

theorem replayRow_eq (env : ReplayEnv τ) (opts : Options) (real : Dict PyStr PyStr)
    (row : Dict PyStr Json) :
    replayRow env opts real log row t0 = replayRow env opts real log' row t0 := by
  unfold replayRow
  simp only [chooseContext_eq h hp hp', formatEvent_eq h hp hp' env real h.mem (.inr rfl),
    shortLanes_eq h hp hp' real h.mem (.inr rfl), assignLanes_eq h hp hp' real h.mem (.inr rfl)]
  refine bind_congr_ok fun x hx => ?_
  have hformat : ∀ e ∈ x.2.1, formatEvent env (shortLanes real log) e =
      formatEvent env (shortLanes real log') e := by
    intro e he
    obtain ⟨hmem, hts⟩ := List.mem_filter.mp (mem_preEvents_of_chosen hx he)
    exact formatEvent_eq h hp hp' env real ((h.mem_past (of_decide_eq_true hts)).mpr hmem)
      (.inl (of_decide_eq_true hts))
  have hpreview :
      previewEvents env (shortLanes real log) opts.previewChars opts.previewEvents x.2.1 =
        previewEvents env (shortLanes real log') opts.previewChars opts.previewEvents x.2.1 := by
    unfold previewEvents
    split_ifs
    · rfl
    refine List.map_congr_left fun e he => ?_
    simp only [previewEvent, hformat e (mem_of_mem_sliceFrom he)]
  simp only [hpreview, List.map_congr_left hformat]

end Agreement

section Rows
variable {env : ReplayEnv τ} {opts : Options} {real : Dict PyStr PyStr} {log log' : EventLog τ}
  {row : Dict PyStr Json} {t0 : Event τ}

omit [LinearOrder τ] in
lemma mem_of_namedT0 (h : namedT0 log row = .ok (some t0)) : t0 ∈ log.events := by
  unfold namedT0 at h
  obtain ⟨m, -, h⟩ := bind_eq_ok.mp h
  split_ifs at h
  · cases m with
    | str s => exact ((log.get?_byId).mp (Except.ok.inj h)).1
    | _ => simp [CorrectionCensus.lookup] at h
  · simp at h

omit [LinearOrder τ] in
lemma namedT0_of_mem (h : namedT0 log row = .ok (some t0)) (hmem : t0 ∈ log'.events) :
    namedT0 log' row = .ok (some t0) := by
  unfold namedT0 at h ⊢
  obtain ⟨m, hm, h⟩ := bind_eq_ok.mp h
  refine bind_eq_ok.mpr ⟨m, hm, ?_⟩
  split_ifs at h ⊢
  · cases m with
    | str s =>
      obtain ⟨-, hid⟩ := (log.get?_byId).mp (Except.ok.inj h)
      rw [CorrectionCensus.lookup, (log'.get?_byId).mpr ⟨hmem, hid⟩]
    | _ => simp [CorrectionCensus.lookup] at h
  · simp at h

omit [LinearOrder τ] in
lemma snapshotT0Event_of_named (h : namedT0 log row = .ok (some t0)) :
    snapshotT0Event env log row = .ok (some t0, []) :=
  bind_eq_ok.mpr ⟨some t0, h, rfl⟩

omit [LinearOrder τ] in
lemma mem_of_snapshotT0Event {es : List (Event τ)}
    (h : snapshotT0Event env log row = .ok (some t0, es)) :
    t0 ∈ log.events := by
  unfold snapshotT0Event at h
  obtain ⟨named, hnamed, h⟩ := bind_eq_ok.mp h
  cases named with
  | some e =>
    obtain rfl := Option.some.inj (Prod.mk.inj (Except.ok.inj h)).1
    exact mem_of_namedT0 hnamed
  | none =>
    obtain ⟨original, -, h⟩ := bind_eq_ok.mp h
    have hsub : ∀ e ∈ textCandidates env log (norm env original), e ∈ log.events := by
      intro e he
      unfold textCandidates at he
      split_ifs at he
      · simp at he
      · exact (List.mem_filter.mp he).1
    split at h
    case h_1 e heq =>
      obtain rfl := Option.some.inj (Prod.mk.inj (Except.ok.inj h)).1
      exact hsub _ (by simp [heq])
    case h_2 => simp at h

theorem manifestRow_eq (env : ReplayEnv τ) (opts : Options) (real : Dict PyStr PyStr)
    (hp : ParentsEarlier log) (hp' : ParentsEarlier log')
    (ht0 : namedT0 log row = .ok (some t0)) (h : SameBefore t0 log log') :
    manifestRow env opts real log row = manifestRow env opts real log' row := by
  have ht0' := namedT0_of_mem ht0 h.mem'
  unfold manifestRow
  rw [snapshotT0Event_of_named ht0, snapshotT0Event_of_named ht0']
  simp only [bind, Except.bind]
  cases getNone row (py "status") == .str (py "ok") with
  | true => simp only [replayRow_eq h hp hp']
  | false => simp only [List.map_nil]

lemma getElem?_buildManifest {snapshots : List (Dict PyStr Json)}
    {rows : List (ManifestRow τ)} {i : ℕ}
    (h : buildManifest env opts real log snapshots = .ok rows) (hrow : snapshots[i]? = some row) :
    ∃ x, rows[i]? = some x ∧ manifestRow env opts real log row = .ok x := by
  obtain ⟨hlen, hget⟩ := List.forall₂_iff_get.mp (mapM_eq_ok.mp h)
  obtain ⟨hi, rfl⟩ := List.getElem?_eq_some_iff.mp hrow
  have hi' : i < rows.length := hlen ▸ hi
  exact ⟨rows[i], List.getElem?_eq_getElem hi', hget i hi hi'⟩

/-- What the context of a finished row holds. -/
structure Isolated (env : ReplayEnv τ) (opts : Options) (real : Dict PyStr PyStr) (log : EventLog τ)
    (row : Dict PyStr Json) (r : ReplayRow τ) (t0 : Event τ) : Prop where
  earlier : ∀ m ∈ r.context.eventIds, ∃ e ∈ log.events, e.msgId = m ∧ e.ts < t0.ts
  unrecorded : ∃ ids, correctionMsgIds env row = .ok ids ∧ ∀ m ∈ r.context.eventIds, m ∉ ids
  oneSource : (∀ m ∈ r.context.eventIds, InReplyTree log t0.msgId m) ∨
    (∀ m ∈ r.context.eventIds, get? (shortLanes real log) m = get? (shortLanes real log) t0.msgId) ∨
    (get? (shortLanes real log) t0.msgId = some [] ∧
      r.context.eventIds =
        (sliceFrom (-opts.contextLimit) (preEvents t0 log.events)).map Event.msgId)

omit [LinearOrder τ] in
lemma inReplyTree_of_root {m m' r : PyStr} (h : (rootOf log.byId m).root = some r)
    (h' : (rootOf log.byId m').root = some r) : InReplyTree log m m' := by
  have hleads {x : PyStr} (hx : (rootOf log.byId x).root = some r) :
      Leads (parentOf log.byId) x r := by
    unfold rootOf at hx
    split_ifs at hx
    obtain rfl := Option.some.inj hx
    exact leads_walkEnd _ x
  exact ⟨r, hleads h, hleads h'⟩

lemma inReplyTree_of_threadEvents (h : e ∈ threadEvents t0 log.events log.byId) :
    InReplyTree log t0.msgId e.msgId := by
  unfold threadEvents at h
  split_ifs at h
  · simp at h
  obtain ⟨h, -⟩ := List.mem_filter.mp h
  unfold eventsWithRoot at h
  split at h
  case h_1 => simp at h
  case h_2 r hr => exact inReplyTree_of_root hr (of_decide_eq_true (List.mem_filter.mp h).2)

lemma candidates_oneSource (t0 : Event τ) (log : EventLog τ) (lanes : Dict PyStr PyStr) :
    (∀ e ∈ (candidates t0 log.events log.byId lanes).2, InReplyTree log t0.msgId e.msgId) ∨
    (∀ e ∈ (candidates t0 log.events log.byId lanes).2, get? lanes e.msgId = get? lanes t0.msgId) ∨
    ((get? lanes t0.msgId).getD [] = [] ∧
      (candidates t0 log.events log.byId lanes).2 = preEvents t0 log.events) := by
  unfold candidates
  split_ifs
  · by_cases hlane : (get? lanes t0.msgId).getD [] = []
    · exact .inr (.inr ⟨hlane, by simp [laneEvents, hlane]⟩)
    · refine .inr (.inl fun e he => ?_)
      simpa [laneEvents, hlane] using (List.mem_filter.mp he).2
  · exact .inl fun e => inReplyTree_of_threadEvents
  · exact .inl fun e => inReplyTree_of_threadEvents

lemma chooseContext_ok {events : List (Event τ)} {lanes : Dict PyStr PyStr}
    {limit : ℤ} {q : Quality} {chosen : List (Event τ)} {audit : Audit}
    (h : chooseContext env row t0 events byId lanes limit = .ok (q, chosen, audit)) :
    chosen = sliceFrom (-limit) (candidates t0 events byId lanes).2 ∧
      (q ≠ .missing → ∃ ids, correctionMsgIds env row = .ok ids ∧ ∀ e ∈ chosen, e.msgId ∉ ids) := by
  unfold chooseContext at h
  generalize candidates t0 events byId lanes = found at h ⊢
  obtain ⟨q', all⟩ := found
  obtain ⟨ids, hids, h⟩ := bind_eq_ok.mp h
  obtain ⟨hquality, hrest⟩ := Prod.mk.inj (Except.ok.inj h)
  obtain rfl := (Prod.mk.inj hrest).1
  rw [← hquality]
  refine ⟨rfl, fun hq => ⟨ids, hids, fun e he hmem => ?_⟩⟩
  split_ifs at hq with hleak
  · have hmem' : e.msgId ∈ (ids.filter fun m =>
        m ∈ (sliceFrom (-limit) all).map Event.msgId).insertionSort (· ≤ ·) := by
      rw [List.mem_insertionSort, List.mem_filter]
      exact ⟨hmem, decide_eq_true (List.mem_map_of_mem he)⟩
    rw [hleak.1] at hmem'
    simp at hmem'
  · exact hq rfl

omit [LinearOrder τ] in
lemma get?_shortLanes (ht0 : t0 ∈ log.events) :
    get? (shortLanes real log) t0.msgId = some (laneShort (laneFor real log.byId t0).1) := by
  rw [shortLanes, get?_map (fun v : PyStr × Provenance => laneShort v.1),
    get?_assignLanes real log ht0, Option.map_some]

theorem manifestRow_isolated {r : ReplayRow τ}
    (h : manifestRow env opts real log row = .ok (.replay r))
    (hstatus : r.status = .ok) : ∃ t0 ∈ log.events, t0.msgId = r.t0.msgId ∧
    Isolated env opts real log row r t0 := by
  unfold manifestRow at h
  obtain ⟨⟨found, es⟩, hfound, h⟩ := bind_eq_ok.mp h
  dsimp only at h
  split at h
  case h_2 =>
    obtain ⟨ref, -, h⟩ := bind_eq_ok.mp h
    simp at h
  case h_1 t0 hok =>
    obtain ⟨r', hrow, h⟩ := bind_eq_ok.mp h
    obtain rfl := ManifestRow.replay.inj (Except.ok.inj h)
    have ht0 := mem_of_snapshotT0Event hfound
    unfold replayRow at hrow
    obtain ⟨⟨q, chosen, audit⟩, hchoose, hrow⟩ := bind_eq_ok.mp hrow
    obtain ⟨legs, -, hrow⟩ := bind_eq_ok.mp hrow
    obtain rfl := Except.ok.inj hrow
    obtain ⟨hchosen, hids⟩ := chooseContext_ok hchoose
    obtain ⟨ids, hids, hnot⟩ := hids fun hq => by simp [hq] at hstatus
    refine ⟨t0, ht0, rfl, ⟨?_, ⟨ids, hids, ?_⟩, ?_⟩⟩
    · intro m hm
      obtain ⟨e, he, rfl⟩ := List.mem_map.mp hm
      obtain ⟨hmem, hts⟩ := List.mem_filter.mp (mem_preEvents_of_chosen hchoose he)
      exact ⟨e, hmem, rfl, of_decide_eq_true hts⟩
    · intro m hm
      obtain ⟨e, he, rfl⟩ := List.mem_map.mp hm
      exact hnot e he
    · rcases candidates_oneSource t0 log (shortLanes real log) with htree | hlane | ⟨hname, hall⟩
      · refine .inl fun m hm => ?_
        obtain ⟨e, he, rfl⟩ := List.mem_map.mp hm
        exact htree e (mem_of_mem_sliceFrom (hchosen ▸ he))
      · refine .inr (.inl fun m hm => ?_)
        obtain ⟨e, he, rfl⟩ := List.mem_map.mp hm
        exact hlane e (mem_of_mem_sliceFrom (hchosen ▸ he))
      · refine .inr (.inr ⟨?_, by rw [hchosen, hall]⟩)
        rw [get?_shortLanes ht0, Option.getD_some] at hname
        rw [get?_shortLanes ht0, hname]

/-- What happens at T0 or later leaves the row of T0 as it is, and the context of a finished
row is older than T0, holds no recorded error or correction, and comes from the reply tree of
T0 or from its lane; it is all that came before where this lane has an empty name. -/
theorem replay_context_isolated (env : ReplayEnv τ) (opts : Options) (real : Dict PyStr PyStr)
    (snapshots : List (Dict PyStr Json)) :
    (∀ log log' : EventLog τ, ParentsEarlier log → ParentsEarlier log' →
      ∀ (i : ℕ) (row : Dict PyStr Json) (t0 : Event τ), snapshots[i]? = some row →
        namedT0 log row = .ok (some t0) → SameBefore t0 log log' →
          manifestRow env opts real log row = manifestRow env opts real log' row ∧
          ∀ rows rows', buildManifest env opts real log snapshots = .ok rows →
            buildManifest env opts real log' snapshots = .ok rows' → rows[i]? = rows'[i]?) ∧
    (∀ (log : EventLog τ) (rows : List (ManifestRow τ)),
      buildManifest env opts real log snapshots = .ok rows →
      ∀ (i : ℕ) (row : Dict PyStr Json) (r : ReplayRow τ), snapshots[i]? = some row →
        rows[i]? = some (.replay r) → r.status = .ok →
          ∃ t0 ∈ log.events, t0.msgId = r.t0.msgId ∧ Isolated env opts real log row r t0) := by
  constructor
  · intro log log' hp hp' i row t0 hi ht0 h
    have heq := manifestRow_eq env opts real hp hp' ht0 h
    refine ⟨heq, fun rows rows' hrows hrows' => ?_⟩
    obtain ⟨x, hx, hxrow⟩ := getElem?_buildManifest hrows hi
    obtain ⟨x', hx', hxrow'⟩ := getElem?_buildManifest hrows' hi
    rw [heq, hxrow'] at hxrow
    rw [hx, hx', Except.ok.inj hxrow]
  · intro log rows hrows i row r hi hr hstatus
    obtain ⟨x, hx, hxrow⟩ := getElem?_buildManifest hrows hi
    obtain rfl := Option.some.inj (hx.symm.trans hr)
    exact manifestRow_isolated hxrow hstatus

end Rows

def plainEnv :
    ReplayEnv ℕ := ⟨TaskStitch.asciiEnv, fun _ => [], fun _ => none, fun _ => .ok ([], [])⟩

def plainOptions : Options := ⟨80, none, true, 180, 12⟩

def chatEvent (msgId parentId role : String) (ts : ℕ) (text : String) : Event ℕ :=
  ⟨py msgId, py parentId, py role, py role, py text, ts⟩

def snapshotOf (t0 anchor corrector : String) : Dict PyStr Json :=
  [(py "status", .str (py "ok")), (py "t0", .obj [(py "msg_id", .str (py t0))]),
    (py "original_instruction", .str (py "deploy the service")),
    (py "corrections",
      .arr [.obj [(py "anchor", .str (py anchor)), (py "corrector", .str (py corrector))]])]

/-- A thread with its instruction, the wrong answer and the correction, beside another message. -/
def threadLog : EventLog ℕ where
  events := [chatEvent "m1" "" "user" 10 "what is running", chatEvent "m2" "" "user" 11 "lunch",
    chatEvent "m3" "m1" "bot" 12 "version 4", chatEvent "t0" "m3" "user" 20 "deploy the service",
    chatEvent "m5" "t0" "bot" 30 "deployed to test", chatEvent "m6" "m5" "user" 40 "not to test"]
  named := by decide +kernel
  distinct := by decide +kernel

def changedLog : EventLog ℕ where
  events := [chatEvent "m1" "" "user" 10 "what is running", chatEvent "m2" "" "user" 11 "lunch",
    chatEvent "m3" "m1" "bot" 12 "version 4", chatEvent "t0" "m3" "user" 20 "deploy the service",
    chatEvent "m5" "m1" "user" 30 "thanks"]
  named := by decide +kernel
  distinct := by decide +kernel

lemma replayRow_of_named {τ : Type} [LinearOrder τ] {env : ReplayEnv τ} {opts : Options}
    {real : Dict PyStr PyStr}
    {log : EventLog τ} {row : Dict PyStr Json} {t0 : Event τ} {r : ReplayRow τ}
    (ht0 : namedT0 log row = .ok (some t0))
    (hstatus : (getNone row (py "status") == .str (py "ok")) = true)
    (hr : replayRow env opts real log row t0 = .ok r) :
    buildManifest env opts real log [row] = .ok [.replay r] := by
  refine mapM_eq_ok.mpr (.cons ?_ .nil)
  unfold manifestRow
  refine bind_eq_ok.mpr ⟨_, snapshotT0Event_of_named ht0, ?_⟩
  rw [hstatus]
  exact bind_eq_ok.mpr ⟨r, hr, rfl⟩

theorem replay_context_isolated_threadLog :
    ∃ r, buildManifest plainEnv plainOptions [] threadLog [snapshotOf "t0" "m5" "m6"] =
      .ok [.replay r] ∧
      buildManifest plainEnv plainOptions [] changedLog [snapshotOf "t0" "m5" "m6"] =
        .ok [.replay r] ∧
      r.quality = .exactThread ∧ r.context.eventIds = [py "m1", py "m3"] ∧
      ∃ t0 ∈ threadLog.events, t0.msgId = r.t0.msgId ∧
        Isolated plainEnv plainOptions [] threadLog (snapshotOf "t0" "m5" "m6") r t0 := by
  let t0 := chatEvent "t0" "m3" "user" 20 "deploy the service"
  have hnamed : namedT0 threadLog (snapshotOf "t0" "m5" "m6") = .ok (some t0) := by decide +kernel
  have hnamed' : namedT0 changedLog (snapshotOf "t0" "m5" "m6") = .ok (some t0) := by decide +kernel
  have hok : (getNone (snapshotOf "t0" "m5" "m6") (py "status") == .str (py "ok")) = true := by
    decide +kernel
  have hsame : SameBefore t0 threadLog changedLog :=
    ⟨by decide +kernel, by decide +kernel, by decide +kernel⟩
  have hparents : ParentsEarlier threadLog ∧ ParentsEarlier changedLog := by
    unfold ParentsEarlier
    exact ⟨by decide +kernel, by decide +kernel⟩
  obtain ⟨r, hr, hquality, hids, hstatus⟩ := ok_of_toOption
    (show ∃ r ∈ (replayRow plainEnv plainOptions [] threadLog
      (snapshotOf "t0" "m5" "m6") t0).toOption,
      r.quality = .exactThread ∧ r.context.eventIds = [py "m1", py "m3"] ∧
        r.status = .ok by decide +kernel)
  obtain ⟨r', hr'⟩ := isOk_iff.mp
    (show (replayRow plainEnv plainOptions [] changedLog (snapshotOf "t0" "m5" "m6") t0).isOk =
      true by decide +kernel)
  have hrows := replayRow_of_named hnamed hok hr
  have hrows' := replayRow_of_named hnamed' hok hr'
  obtain ⟨hsecret, hisolated⟩ :=
    replay_context_isolated plainEnv plainOptions [] [snapshotOf "t0" "m5" "m6"]
  have heq := (hsecret threadLog changedLog hparents.1 hparents.2 0 _ t0 rfl hnamed hsame).2 _ _
    hrows hrows'
  obtain rfl := ManifestRow.replay.inj (Option.some.inj heq)
  exact ⟨r, hrows, hrows', hquality, hids, hisolated threadLog _ hrows 0 _ r rfl rfl hstatus⟩

/-- A message of the main lane, and an instruction on a lane whose short name is empty. -/
def twoLanes : EventLog ℕ where
  events := [chatEvent "m1" "" "user" 10 "lunch", chatEvent "t0" "" "user" 20 "deploy the service"]
  named := by decide +kernel
  distinct := by decide +kernel

def namelessLane : Dict PyStr PyStr := [(py "t0", group ++ py ":")]

theorem nameless_lane_takes_all :
    ∃ r, buildManifest plainEnv plainOptions namelessLane twoLanes [snapshotOf "t0" "m5" "m6"] =
      .ok [.replay r] ∧
      r.status = .ok ∧ r.context.eventIds = [py "m1"] ∧ ParentsEarlier twoLanes ∧
      ¬InReplyTree twoLanes (py "t0") (py "m1") ∧
      get? (shortLanes namelessLane twoLanes) (py "m1") ≠
        get? (shortLanes namelessLane twoLanes) (py "t0") := by
  let t0 := chatEvent "t0" "" "user" 20 "deploy the service"
  have hnamed : namedT0 twoLanes (snapshotOf "t0" "m5" "m6") = .ok (some t0) := by decide +kernel
  obtain ⟨r, hr, hstatus, hids⟩ := ok_of_toOption
    (show ∃ r ∈ (replayRow plainEnv plainOptions namelessLane twoLanes
      (snapshotOf "t0" "m5" "m6") t0).toOption,
      r.status = .ok ∧ r.context.eventIds = [py "m1"] by decide +kernel)
  refine ⟨r, replayRow_of_named hnamed (by decide +kernel) hr, hstatus, hids,
    ?_, ?_, by decide +kernel⟩
  · unfold ParentsEarlier
    decide +kernel
  · rintro ⟨top, ht0, hm1⟩
    have htop := eq_of_leads_of_none (by decide +kernel) ht0
    have htop' := eq_of_leads_of_none (by decide +kernel) hm1
    exact absurd (htop.symm.trans htop') (by decide +kernel)

end AgentTrajectory.RawContextReplay
