import AgentTrajectory.ReminderSegments
import AgentTrajectory.RelatedLists

/-! What becomes of the calls of a session. Every call with messages goes to exactly one
thread, but a thread shows the longest of its calls only: it keeps the history of all of
them if and only if the others show nothing that the longest does not. -/
namespace AgentTrajectory.ExportContext
open PyText PyDict PyJson PyValue MessageTree RelatedLists

/-- A text, thinking, tool use or tool result block with something in it. -/
def nonBlank (b : Dict PyStr Json) : Bool :=
  let filled (k : PyStr) := match getNone b k with
    | .str s => !isBlank s
    | _ => false
  if isType b "text" then filled (py "text")
  else if isType b "thinking" then filled (py "thinking")
  else isType b "tool_use" || isType b "tool_result"

def rawBlocks (m : Dict PyStr Json) : List (Dict PyStr Json) :=
  match getNone m (py "content") with
  | .str s => [[(py "type", .str (py "text")), (py "text", .str s)]]
  | .arr bs => bs.filterMap fun b => match b with
    | .obj d => some d
    | _ => none
  | _ => []

/-- The blocks of the request with the roles of their messages. -/
def requestBlocks (c : Captured) : List (Json × Dict PyStr Json) :=
  c.call.messages.flatMap fun m =>
    match m with
    | .obj d => (rawBlocks d).map fun b => (getNone d (py "role"), b)
    | _ => []

section Shown
variable (str : Json → PyStr)

/-- The turns of a block are among those given, and there are some. -/
def Represented (turns : List Turn) (b : Json × Dict PyStr Json) : Prop :=
  ∃ bodies, blockBodies str b.1 (.obj b.2) = .ok bodies ∧ bodies ≠ [] ∧
    ∀ x ∈ bodies, x.1 ∈ turns.map Turn.body

def bodiesOf (c : Captured) : Except PyError (List Body) := do
  let sys ← cleanSystem str c.call.system
  let bodies ← c.call.messages.mapM (messageBodies str)
  let resp ← responseTurns str c.response .main 0
  .ok ((systemTurns sys).map Turn.body ++ bodies.flatten.map Prod.fst ++ resp.map Turn.body)

instance (turns : List Turn) (b : Json × Dict PyStr Json) : Decidable (Represented str turns b) :=
  match h : blockBodies str b.1 (.obj b.2) with
  | .error e => .isFalse fun ⟨_, hb, _⟩ => by simp [h] at hb
  | .ok bodies => decidable_of_iff (bodies ≠ [] ∧ ∀ x ∈ bodies, x.1 ∈ turns.map Turn.body)
      ⟨fun hr => ⟨bodies, h, hr⟩, fun ⟨_, hb, hr⟩ => Except.ok.inj (h.symm.trans hb) ▸ hr⟩

/-- Everything a block shows is shown by the call. -/
def CoveredBy (rep : Captured) (b : Json × Dict PyStr Json) : Prop :=
  ∃ bodies shown, blockBodies str b.1 (.obj b.2) = .ok bodies ∧ bodiesOf str rep = .ok shown ∧
    ∀ x ∈ bodies, x.1 ∈ shown

instance (rep : Captured) (b : Json × Dict PyStr Json) : Decidable (CoveredBy str rep b) :=
  match h : blockBodies str b.1 (.obj b.2), h' : bodiesOf str rep with
  | .error e, _ => .isFalse fun ⟨_, _, hb, _⟩ => by simp [h] at hb
  | _, .error e => .isFalse fun ⟨_, _, _, hb, _⟩ => by simp [h'] at hb
  | .ok bodies, .ok shown => decidable_of_iff (∀ x ∈ bodies, x.1 ∈ shown)
      ⟨fun hr => ⟨bodies, shown, h, h', hr⟩, fun ⟨_, _, hb, hs, hr⟩ =>
        Except.ok.inj (h.symm.trans hb) ▸ Except.ok.inj (h'.symm.trans hs) ▸ hr⟩

end Shown

lemma emitText_ne_nil (role : Json) {text : PyStr} (h : isBlank text = false) : emitText role text ≠ [] := by
  rw [emitText]
  split_ifs with hrole hblank
  · intro hnil
    rw [List.map_eq_nil_iff, List.filter_eq_nil_iff] at hnil
    refine absurd ((isBlank_iff text).mpr fun c hc => ?_) (by simp [h])
    rw [← splitSystemReminders_flatten text, List.mem_flatten] at hc
    obtain ⟨seg, hseg, hc⟩ := hc
    obtain ⟨p, hp, rfl⟩ := List.mem_map.mp hseg
    have hall := hnil p hp
    simp only [Bool.not_eq_true', Bool.not_eq_false] at hall
    exact (isBlank_iff p.2).mp hall c hc
  · simp [h] at hblank
  · simp

lemma filled_text {b : Dict PyStr Json} {k : PyStr} (h : (match getNone b k with
      | .str s => !isBlank s
      | _ => false) = true) : ∃ s, getNone b k = .str s ∧ isBlank s = false := by
  split at h
  · rename_i s hs
    exact ⟨s, hs, by simpa using h⟩
  · exact absurd h (by simp)

lemma blockBodies_ne_nil {str : Json → PyStr} {role : Json} {b : Dict PyStr Json} (h : nonBlank b = true)
    {bodies : List (Body × Bool)} (hb : blockBodies str role (.obj b) = .ok bodies) : bodies ≠ [] := by
  simp only [nonBlank] at h
  simp only [blockBodies] at hb
  by_cases htext : isType b "text" = true
  · rw [if_pos htext] at h hb
    obtain ⟨s, hs, hblank⟩ := filled_text h
    have hne : s ≠ [] := by
      rintro rfl
      exact absurd hblank (by decide)
    have hor : orEmpty (getNone b (py "text")) (.str []) = .str s := by
      rw [hs]
      simp [orEmpty, Json.truthy, hne]
    obtain ⟨text, hstr, hb⟩ := bind_eq_ok.mp hb
    rw [hor] at hstr
    obtain rfl := Except.ok.inj hstr
    obtain rfl := Except.ok.inj hb
    exact emitText_ne_nil role hblank
  rw [if_neg htext] at h hb
  by_cases hthink : isType b "thinking" = true
  · rw [if_pos hthink] at hb
    obtain rfl := Except.ok.inj hb
    simp
  rw [if_neg hthink] at h hb
  by_cases huse : isType b "tool_use" = true
  · rw [if_pos huse] at hb
    obtain rfl := Except.ok.inj hb
    simp
  rw [if_neg huse, if_pos (by simpa [huse] using h)] at hb
  obtain ⟨out, -, hb⟩ := bind_eq_ok.mp hb
  obtain rfl := Except.ok.inj hb
  simp

lemma perm_groups (xs : List (Captured × PyStr)) (d : Dict PyStr (List Captured)) :
    ((xs.foldl (fun d c => extendAt d c.2 [c.1]) d).map Prod.snd).flatten.Perm
      ((d.map Prod.snd).flatten ++ xs.map Prod.fst) := by
  induction xs generalizing d with
  | nil => simp
  | cons x xs ih =>
    refine (ih _).trans ?_
    rw [List.map_cons, ← List.singleton_append, ← List.append_assoc]
    exact (flatten_extendAt d x.2 [x.1]).append_right _

lemma mem_groups {xs : List (Captured × PyStr)} {d : Dict PyStr (List Captured)} (hn : (keys d).Nodup)
    (hd : ∀ g ∈ d, g.2 ≠ []) :
    (keys (xs.foldl (fun d c => extendAt d c.2 [c.1]) d)).Nodup ∧
      ∀ g ∈ xs.foldl (fun d c => extendAt d c.2 [c.1]) d, g.2 ≠ [] := by
  induction xs generalizing d with
  | nil => exact ⟨hn, hd⟩
  | cons x xs ih =>
    refine ih (keys_nodup_set hn _ _) fun g hg => ?_
    rcases (mem_set hn _ _ g).mp hg with rfl | ⟨hmem, -⟩
    · simp
    · exact hd g hmem

lemma mountEach_length {t : Tree} {cs : List Captured} {r : Tree × List (PyStr × Bool)}
    (h : mountEach t cs = .ok r) : r.2.length = cs.length := by
  induction cs generalizing t r with
  | nil =>
    obtain rfl := Except.ok.inj h
    rfl
  | cons c cs ih =>
    rw [mountEach] at h
    split at h
    · simp at h
    · obtain ⟨q, hq, hr⟩ := bind_eq_ok.mp h
      obtain rfl := Except.ok.inj hr
      simp [ih hq]

lemma groupCalls_spec {calls : List Captured} {groups : Dict PyStr (List Captured)}
    (h : groupCalls calls = .ok groups) :
    (groups.map Prod.snd).flatten.Perm (calls.filter hasMessages) ∧ (keys groups).Nodup ∧
      ∀ g ∈ groups, g.2 ≠ [] := by
  obtain ⟨⟨t, ids⟩, hmount, h⟩ := bind_eq_ok.mp h
  obtain ⟨ks, hks, h⟩ := bind_eq_ok.mp h
  obtain rfl := Except.ok.inj h
  have hlen : (calls.filter hasMessages).length ≤ ks.length := by
    rw [← (mapM_eq_ok.mp hks).length_eq, List.length_zip, mountEach_length hmount, min_self]
  have hperm := perm_groups ((calls.filter hasMessages).zip ks) []
  rw [List.map_fst_zip hlen] at hperm
  exact ⟨by simpa using hperm, mem_groups (by simp [keys]) (by simp)⟩

section Threads
variable {fl : Floats} {str : Json → PyStr}

lemma bodies_mkTurn (kind : Kind) (bodies : List (Body × Bool)) :
    (bodies.zipIdx.map (mkTurn kind)).map Turn.body = bodies.map Prod.fst := by
  have hfun : Turn.body ∘ mkTurn kind = Prod.fst ∘ Prod.fst := rfl
  rw [List.map_map, hfun, ← List.map_map, List.zipIdx_map_fst]

lemma anthropicTurns_bodies {messages : List Json} {kind : Kind} {turns : List Turn}
    (h : anthropicTurns str messages kind = .ok turns) :
    ∃ bodies, messages.mapM (messageBodies str) = .ok bodies ∧
      turns.map Turn.body = bodies.flatten.map Prod.fst := by
  obtain ⟨bodies, hb, h⟩ := bind_eq_ok.mp h
  obtain rfl := Except.ok.inj h
  exact ⟨bodies, hb, bodies_mkTurn kind _⟩

lemma responseTurns_bodies {resp : Json} {kind : Kind} {idx : ℕ} {turns : List Turn}
    (h : responseTurns str resp kind idx = .ok turns) :
    ∃ turns₀, responseTurns str resp .main 0 = .ok turns₀ ∧
      turns₀.map Turn.body = turns.map Turn.body := by
  cases resp with
  | obj r =>
    simp only [responseTurns] at h ⊢
    split_ifs at h ⊢ with hc
    · obtain ⟨ts, hts, h⟩ := bind_eq_ok.mp h
      obtain rfl := Except.ok.inj h
      obtain ⟨bodies, hb, hbodies⟩ := anthropicTurns_bodies hts
      refine ⟨_, bind_eq_ok.mpr ⟨_, bind_eq_ok.mpr ⟨bodies, hb, rfl⟩, rfl⟩, ?_⟩
      have hid : ∀ (ts : List Turn) (i : ℕ), (ts.map fun t =>
          { t with id := py "r" ++ natDigits i ++ py "_" ++ t.id }).map Turn.body = ts.map Turn.body := by
        intro ts i
        rw [List.map_map]
        rfl
      rw [hid, hid, hbodies, bodies_mkTurn]
    · obtain rfl := Except.ok.inj h
      exact ⟨[], rfl, rfl⟩
  | _ =>
    obtain rfl := Except.ok.inj h
    exact ⟨[], rfl, rfl⟩

lemma body_fixOrigin (kind : Kind) (t : Turn) : (fixOrigin kind t).body = t.body := by
  rw [fixOrigin]
  split
  · split_ifs <;> rfl
  · rfl

structure DraftOf (str : Json → PyStr) (g : PyStr × List Captured) (d : Draft) : Prop where
  rep : representative g.2 = some d.rep
  id : d.threadId = g.1
  system : cleanSystem str d.rep.call.system = .ok d.sysClean
  turns : anthropicTurns str d.rep.call.messages .main = .ok d.turns

lemma groupDraft_ok {g : PyStr × List Captured} (hg : g.2 ≠ []) {ds : List Draft}
    (h : groupDraft fl str g = .ok ds) : ∃ d, ds = [d] ∧ DraftOf str g d := by
  rw [groupDraft] at h
  cases hrep : representative g.2 with
  | none => exact absurd (List.argmax_eq_none.mp hrep) hg
  | some rep =>
    simp only [hrep] at h
    obtain ⟨d, hd, rfl⟩ := map_eq_ok.mp h
    obtain ⟨sys, hsys, hd⟩ := bind_eq_ok.mp hd
    obtain ⟨fu, -, hd⟩ := bind_eq_ok.mp hd
    obtain ⟨turns, hturns, hd⟩ := bind_eq_ok.mp hd
    obtain ⟨summary, -, hd⟩ := bind_eq_ok.mp hd
    obtain ⟨fu', -, hd⟩ := bind_eq_ok.mp hd
    obtain ⟨key, -, hd⟩ := bind_eq_ok.mp hd
    obtain rfl := Except.ok.inj hd
    exact ⟨_, rfl, hrep, rfl, hsys, hturns⟩

lemma drafts_of_groups {groups : List (PyStr × List Captured)} (hne : ∀ g ∈ groups, g.2 ≠ [])
    {dss : List (List Draft)} (h : List.Forall₂ (fun g ds => groupDraft fl str g = .ok ds) groups dss) :
    List.Forall₂ (DraftOf str) groups dss.flatten := by
  induction h with
  | nil => exact .nil
  | cons hd _ ih =>
    obtain ⟨d, rfl, hdraft⟩ := groupDraft_ok (hne _ (by simp)) hd
    exact .cons hdraft (ih fun g hg => hne g (by simp [hg]))

lemma wire_length (pts : List Point) (ds : List Draft) : (wire pts ds).length = ds.length := by
  induction ds generalizing pts with
  | nil => rfl
  | cons d ds ih =>
    rw [wire]
    split <;> simp [ih]

lemma classifyAndWire_fst {ds : List Draft} {wired : List (Draft × Kind × Option (PyStr × Json × PyStr))}
    (h : classifyAndWire ds = .ok wired) : wired.map Prod.fst = ds := by
  obtain ⟨pts, -, h⟩ := bind_eq_ok.mp h
  obtain rfl := Except.ok.inj h
  rw [List.map_map]
  exact List.map_fst_zip (by rw [wire_length])

def Shows (str : Json → PyStr) (g : PyStr × List Captured) (th : Thread) : Prop :=
  th.threadId = g.1 ∧ ∃ rep, representative g.2 = some rep ∧
    bodiesOf str rep = .ok (th.turns.map Turn.body)

lemma threadOf_shows {g : PyStr × List Captured} {w : (Draft × Kind × Option (PyStr × Json × PyStr)) × ℕ}
    (hd : DraftOf str g w.1.1) {th : Thread} (h : threadOf str w = .ok th) : Shows str g th := by
  obtain ⟨resp, hresp, h⟩ := bind_eq_ok.mp h
  obtain rfl := Except.ok.inj h
  obtain ⟨bodies, hb, hbodies⟩ := anthropicTurns_bodies hd.turns
  obtain ⟨resp₀, hresp₀, hsame⟩ := responseTurns_bodies hresp
  refine ⟨hd.id, _, hd.rep, ?_⟩
  have hfix : (w.1.1.turns.map (fixOrigin w.1.2.1)).map Turn.body = bodies.flatten.map Prod.fst := by
    rw [List.map_map, ← hbodies]
    exact List.map_congr_left fun t _ => body_fixOrigin _ t
  refine bind_eq_ok.mpr ⟨_, hd.system, bind_eq_ok.mpr ⟨_, hb, bind_eq_ok.mpr ⟨_, hresp₀, ?_⟩⟩⟩
  simp only [List.map_append, hfix, hsame]

lemma build_threads {calls : List Captured} {groups : Dict PyStr (List Captured)} {payload : Payload}
    (hg : groupCalls calls = .ok groups) (h : buildThreadsPayload fl str calls = .ok payload) :
    ∃ threads, List.Forall₂ (Shows str) groups threads ∧ payload.threads.Perm threads := by
  obtain ⟨groups', hg', h⟩ := bind_eq_ok.mp h
  obtain rfl := Except.ok.inj (hg.symm.trans hg')
  obtain ⟨ds, hds, h⟩ := bind_eq_ok.mp h
  obtain ⟨dss, hdss, rfl⟩ := map_eq_ok.mp hds
  obtain ⟨wired, hwired, h⟩ := bind_eq_ok.mp h
  obtain ⟨threads, hthreads, h⟩ := bind_eq_ok.mp h
  obtain rfl := Except.ok.inj h
  refine ⟨threads, ?_, List.perm_insertionSort _ _⟩
  have hdrafts := drafts_of_groups (groupCalls_spec hg).2.2 (mapM_eq_ok.mp hdss)
  rw [← classifyAndWire_fst hwired, List.forall₂_map_right_iff] at hdrafts
  have hzip := zipIdx_forall₂ hdrafts 0
  exact forall₂_comp hzip (mapM_eq_ok.mp hthreads) fun g w th hd hth => threadOf_shows hd hth

lemma shows_ids {groups : Dict PyStr (List Captured)} {threads : List Thread}
    (h : List.Forall₂ (Shows str) groups threads) : threads.map Thread.threadId = keys groups := by
  induction h with
  | nil => rfl
  | cons hs _ ih =>
    rw [List.map_cons, hs.1, ih]
    rfl

/-- Every call with messages is in exactly one group, there is one thread for each group, and
every block of every call is represented in its thread if and only if the group's longest
call shows all that the others show. -/
theorem session_threads_keep_blocks_iff {calls : List Captured} {groups : Dict PyStr (List Captured)}
    {payload : Payload} (hg : groupCalls calls = .ok groups)
    (h : buildThreadsPayload fl str calls = .ok payload) :
    ((groups.map Prod.snd).flatten.Perm (calls.filter hasMessages) ∧
      (payload.threads.map Thread.threadId).Nodup ∧
      (payload.threads.map Thread.threadId).Perm (keys groups)) ∧
    ((∀ g ∈ groups, ∀ c ∈ g.2, ∀ b ∈ requestBlocks c, nonBlank b.2 = true →
        ∃ th ∈ payload.threads, th.threadId = g.1 ∧ Represented str th.turns b) ↔
      ∀ g ∈ groups, ∀ rep ∈ representative g.2, ∀ c ∈ g.2, ∀ b ∈ requestBlocks c,
        nonBlank b.2 = true → CoveredBy str rep b) := by
  obtain ⟨hperm, hnodup, -⟩ := groupCalls_spec hg
  obtain ⟨threads, hshows, hsorted⟩ := build_threads hg h
  have hids : (payload.threads.map Thread.threadId).Perm (keys groups) := by
    rw [← shows_ids hshows]
    exact hsorted.map _
  have huniq : (payload.threads.map Thread.threadId).Nodup := hids.nodup_iff.mpr hnodup
  refine ⟨⟨hperm, huniq, hids⟩, forall₂_congr fun g hmem => ?_⟩
  obtain ⟨th, hth, hid, rep, hrep, hbodies⟩ := forall₂_mem_left hshows hmem
  have hth' : th ∈ payload.threads := hsorted.mem_iff.mpr hth
  constructor
  · intro hall rep' hrep' c hc b hb hblank
    obtain rfl := Option.some.inj (hrep.symm.trans hrep')
    obtain ⟨th', hmem', hid', bodies, hok, -, hsub⟩ := hall c hc b hb hblank
    obtain rfl : th' = th := List.inj_on_of_nodup_map huniq hmem' hth' (hid'.trans hid.symm)
    exact ⟨bodies, _, hok, hbodies, hsub⟩
  · intro hall c hc b hb hblank
    obtain ⟨bodies, shown, hok, hshown, hsub⟩ := hall rep hrep c hc b hb hblank
    obtain rfl := Except.ok.inj (hbodies.symm.trans hshown)
    exact ⟨th, hth', hid, bodies, hok, blockBodies_ne_nil hblank hok, hsub⟩

end Threads

def captured (call : ApiCall) : Captured := ⟨.null, .null, call, .null⟩

def longCall : Captured := captured
  { system := text "S"
    messages := [message "user" (text "hi"), message "assistant" (text "A1"), message "user" (text "go on"),
      message "assistant" (text "A2")]
    wf_system := wf_text "S"
    wf_messages := by decide }

/-- The second question is asked anew. -/
def rewoundCall : Captured := captured
  { system := text "S"
    messages := [message "user" (text "hi"), message "assistant" (text "A1"), message "user" (text "stop")]
    wf_system := wf_text "S"
    wf_messages := by decide }

def inertFloats : Floats := ⟨.float, fun _ _ => .error .typeError⟩

/-- What was asked in the rewound branch is in no thread. -/
theorem rewound_question_dropped :
    ∃ groups payload, groupCalls [longCall, rewoundCall] = .ok groups ∧
      buildThreadsPayload inertFloats Json.dumps [longCall, rewoundCall] = .ok payload ∧
      ∃ b ∈ requestBlocks rewoundCall, nonBlank b.2 = true ∧
        ∀ th ∈ payload.threads, ¬ Represented Json.dumps th.turns b := by
  obtain ⟨groups, hg⟩ := isOk_iff.mp (show (groupCalls [longCall, rewoundCall]).isOk = true by
    decide +kernel)
  obtain ⟨payload, hp, hnone⟩ := ok_of_toOption
    (show ∃ p ∈ (buildThreadsPayload inertFloats Json.dumps [longCall, rewoundCall]).toOption,
      ∃ b ∈ requestBlocks rewoundCall, nonBlank b.2 = true ∧
        ∀ th ∈ p.threads, ¬ Represented Json.dumps th.turns b by decide +kernel)
  exact ⟨groups, payload, hg, hp, hnone⟩

theorem session_threads_keep_blocks_iff_growing :
    ∃ groups payload, groupCalls [captured firstFrame, captured afterReply] = .ok groups ∧
      buildThreadsPayload inertFloats Json.dumps [captured firstFrame, captured afterReply] = .ok payload ∧
      ∀ g ∈ groups, ∀ c ∈ g.2, ∀ b ∈ requestBlocks c, nonBlank b.2 = true →
        ∃ th ∈ payload.threads, th.threadId = g.1 ∧ Represented Json.dumps th.turns b := by
  obtain ⟨groups, hg, hcovered⟩ := ok_of_toOption
    (show ∃ gs ∈ (groupCalls [captured firstFrame, captured afterReply]).toOption,
      ∀ g ∈ gs, ∀ rep ∈ representative g.2, ∀ c ∈ g.2, ∀ b ∈ requestBlocks c,
        nonBlank b.2 = true → CoveredBy Json.dumps rep b by decide +kernel)
  obtain ⟨payload, hp⟩ := isOk_iff.mp (show (buildThreadsPayload inertFloats Json.dumps
    [captured firstFrame, captured afterReply]).isOk = true by decide +kernel)
  exact ⟨groups, payload, hg, hp, (session_threads_keep_blocks_iff hg hp).2.mpr hcovered⟩

end AgentTrajectory.ExportContext
