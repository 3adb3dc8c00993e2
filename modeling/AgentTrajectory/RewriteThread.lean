import AgentTrajectory.Grouping
import AgentTrajectory.ReplayNoninterference
import AgentTrajectory.RelatedLists

/-! `rewrite_thread.py`: every correction is led back to an instruction before it on its lane, and
the corrections of one instruction are put together. -/
namespace AgentTrajectory.RewriteThread
open PyText PyDict PyJson PyValue RuntimeLane RawContextReplay Grouping RelatedLists

variable {τ : Type}

def windowSize : ℕ := 30

def upTo (aid : PyStr) : List (Event τ) → List (Event τ)
  | [] => []
  | e :: es => if e.msgId = aid then [e] else e :: upTo aid es

/-- The window of `_lane_prefix` on a lane. -/
def laneWindow (lanes : Dict PyStr (PyStr × Provenance)) (ordered : List (Event τ))
    (lane aid : PyStr) : List (Event τ) :=
  sliceFrom (-(windowSize + 1))
    (upTo aid (ordered.filter fun e => (get? lanes e.msgId).map Prod.fst = some lane))

structure Fixed where
  anchor : PyStr
  fix : PyStr
  lane : PyStr
  fixText : PyStr
  fixName : PyStr
  task : Json
  what : Json
  corrector : Json

inductive Anchored
  | missContext (anchor : Json) (lane : PyStr) (task : Json)
  | noFixFound (anchor lane : PyStr) (task : Json) (pick : Option PyStr)
  | ok (row : Fixed)

def Anchored.fixed? : Anchored → Option Fixed
  | .ok row => some row
  | _ => none

/-- What is asked of the model, each time it is asked, and `str.lower`. -/
structure Model where
  anchor : ℕ → PyStr → Except PyError PyStr
  rewrite : ℕ → PyStr → Except PyError PyStr
  lower : PyStr → PyStr

section Definitions
variable (env : ReplayEnv τ) (model : Model)

def tagOf (k : ℕ) : PyStr := py "M" ++ natDigits (k + 1)

def idMap (window : List (Event τ)) :
    Dict PyStr PyStr := ofPairs (window.zipIdx.map fun p => (tagOf p.2, p.1.msgId))

def anchorPrompt (window : List (Event τ)) (aid : PyStr) (what : Json) : PyStr :=
  py "【同一运行时 thread 内的上下文（候选，时间升序，最后一条是本次纠正）】\n" ++
    join (py "\n") (window.zipIdx.map fun p =>
      tagOf p.2 ++ py " [" ++ p.1.role ++ py "/" ++
        (if p.1.name = [] then p.1.role else p.1.name) ++ py "] " ++
        (TaskStitch.stripFeishu env.env p.1.text).take 120 ++ if p.1.msgId = aid then
          py "  ←【本次纠正】" else []) ++
    py "\n\n【本次纠正在纠什么】" ++ strOf env what ++ py "\n\n请指出这次纠正针对的原始指令是哪条候选（输出其编号）。"

def pickOf (raw : PyStr) : Option PyStr :=
  match loads ((raw.dropWhile (· != cp '{')).rdropWhile (· != cp '}')) with
  | some (.obj d) => some (strip (strOf env ((get? d (py "pick")).getD (.str []))))
  | _ => none

/-- The rest of `anchor_one` where the window ends with the anchor. -/
def fixIn (window : List (Event τ)) (lane m : PyStr) (n : ℕ) (anchor : Dict PyStr Json) :
    Except PyError Anchored := do
  let what ← getItem anchor (py "what")
  let raw ← model.anchor n (anchorPrompt env window m what)
  let task ← getItem anchor (py "task")
  match (pickOf env raw).filter (fun p => p ≠ [] ∧ model.lower p ≠ py "none") >>=
    get? (idMap window) with
  | none => .ok (.noFixFound m (laneShort lane) task (pickOf env raw))
  | some fix =>
      let event := window.find? fun e => e.msgId = fix
      .ok (.ok
        { anchor := m
          fix
          lane := laneShort lane
          fixText := (event.map fun e => TaskStitch.stripFeishu env.env e.text).getD []
          fixName := (event.map Event.name).getD []
          task
          what
          corrector := (get? anchor (py "corrector")).getD (.str []) })

/-- `anchor_one`, at its place in the census. -/
def anchorOne (lanes : Dict PyStr (PyStr × Provenance)) (ordered : List (Event τ)) (n : ℕ)
    (anchor : Dict PyStr Json) :
    Except PyError Anchored := do
  let aid ← getItem anchor (py "anchor_msg_id")
  let found ← CorrectionCensus.lookup lanes aid
  match aid, found with
  | .str m, some (lane, _) =>
      let window := laneWindow lanes ordered lane m
      if window.getLast?.map Event.msgId ≠ some m then do
        let task ← getItem anchor (py "task")
        .ok (.missContext aid (if lane = [] then py "?" else laneShort lane) task)
      else fixIn env model window lane m n anchor
  | _, _ => do
      let task ← getItem anchor (py "task")
      .ok (.missContext aid (py "?") task)

def rewritePrompt (fixText : PyStr) (rows : List Fixed) : PyStr :=
  py "【原始指令】\n" ++ fixText ++ py "\n\n【随后收到的纠正/补充（共 " ++ natDigits rows.length ++ py " 条）】\n" ++
    join (py "\n") (rows.map fun r => py "- （" ++ strOf env r.corrector ++
      py "）" ++ strOf env r.what) ++
    py "\n\n请合并改写成一条完备指令。"

def correctionOf (r : Fixed) : Json :=
  .obj [(py "what", r.what), (py "corrector", r.corrector), (py "anchor", .str r.anchor)]

def rewriteItem (n : ℕ) (g : (PyStr × PyStr) × List Fixed) : Except PyError (Dict PyStr Json) := do
  let fixText := (g.2.head?.map Fixed.fixText).getD []
  let merged ← model.rewrite n (rewritePrompt env fixText g.2)
  .ok [(py "lane", .str g.1.1), (py "instruction_to_fix_msg", .str g.1.2),
    (py "instruction_to_fix_text", .str fixText),
    (py "n_corrections", .int g.2.length), (py "corrections", .arr (g.2.map correctionOf)),
      (py "rewritten", .str (strip merged))]

structure Result where
  anchored : List Anchored
  rewritten : List (Dict PyStr Json)

def groupsOf (rows : List Fixed) : List ((PyStr × PyStr) × List Fixed) :=
  sortBy (fun g => -(g.2.length : ℤ)) (groupBy (fun r => (r.lane, r.fix)) rows)

def run (real : Dict PyStr PyStr) (log : EventLog τ) (census : List (Dict PyStr Json)) :
    Except PyError Result := do
  let anchored ← census.zipIdx.mapM fun p =>
    anchorOne env model (assignLanes real log) log.events p.2 p.1
  let rewritten ← (groupsOf (anchored.filterMap Anchored.fixed?)).zipIdx.mapM fun p =>
    rewriteItem env model p.2 p.1
  .ok ⟨anchored, rewritten⟩

end Definitions

section Window

/-- The events that `assign_lanes` puts on a lane. -/
def onLane (real : Dict PyStr PyStr) (log : EventLog τ) (lane : PyStr) : List (Event τ) :=
  log.events.filter fun e => (get? (assignLanes real log) e.msgId).map Prod.fst = some lane

/-- A correction ends a window of messages that follow each other in order of time, at most
`windowSize` before it, and the instruction is in the window. -/
def LedBack [LinearOrder τ] (es : List (Event τ)) (fix anchor : PyStr) : Prop :=
  ∃ front window rest, es = front ++ window ++ rest ∧ window.Pairwise (fun a b => a.ts ≤ b.ts) ∧
    window.length ≤ windowSize + 1 ∧ window.getLast?.map Event.msgId = some anchor ∧
    fix ∈ window.map Event.msgId

variable {real : Dict PyStr PyStr} {log : EventLog τ} {window : List (Event τ)} {lane m : PyStr}

lemma upTo_prefix (aid : PyStr) (es : List (Event τ)) : upTo aid es <+: es := by
  induction es with
  | nil => exact List.prefix_rfl
  | cons e es ih =>
    rw [upTo]
    split_ifs
    · exact (List.prefix_cons_inj e).mpr (List.nil_prefix)
    · exact (List.prefix_cons_inj e).mpr ih

lemma laneWindow_spec (real : Dict PyStr PyStr) (log : EventLog τ) (lane aid : PyStr) :
    ∃ front rest, onLane real log lane =
        front ++ laneWindow (assignLanes real log) log.events lane aid ++ rest ∧
      (laneWindow (assignLanes real log) log.events lane aid).length ≤ windowSize + 1 := by
  obtain ⟨rest, hrest⟩ := upTo_prefix aid (onLane real log lane)
  set shown := upTo aid (onLane real log lane)
  have hslice : laneWindow (assignLanes real log) log.events lane aid =
      shown.drop (shown.length - (windowSize + 1)) := rfl
  refine ⟨shown.take (shown.length - (windowSize + 1)), rest, ?_, ?_⟩
  · rw [hslice, List.take_append_drop, hrest]
  · rw [hslice, List.length_drop]
    omega

lemma mem_of_idMap {p : PyStr} (h : get? (idMap window) p = some m) :
    m ∈ window.map Event.msgId := by
  obtain ⟨q, hq, heq⟩ := List.mem_map.mp (mem_of_get?_ofPairs h)
  exact List.mem_map.mpr ⟨q.1, List.fst_mem_of_mem_zipIdx hq, (Prod.mk.inj heq).2⟩

variable {env : ReplayEnv τ} {model : Model} {n : ℕ} {anchor : Dict PyStr Json} {row : Fixed}

lemma fixIn_ok (h : fixIn env model window lane m n anchor = .ok (.ok row)) :
    row.anchor = m ∧ row.lane = laneShort lane ∧ row.fix ∈ window.map Event.msgId := by
  obtain ⟨what, -, h⟩ := bind_eq_ok.mp h
  obtain ⟨raw, -, h⟩ := bind_eq_ok.mp h
  obtain ⟨task, -, h⟩ := bind_eq_ok.mp h
  cases hpick : (pickOf env raw).filter (fun p => p ≠ [] ∧ model.lower p ≠ py "none") >>=
      get? (idMap window) with
  | none =>
    rw [hpick] at h
    cases h
  | some fix =>
    rw [hpick] at h
    obtain ⟨p, -, hp⟩ := Option.bind_eq_some_iff.mp hpick
    obtain rfl := Anchored.ok.inj (Except.ok.inj h)
    exact ⟨rfl, rfl, mem_of_idMap hp⟩

lemma anchorOne_ok [LinearOrder τ] (hsorted : log.events.Pairwise fun a b => a.ts ≤ b.ts)
    (h : anchorOne env model (assignLanes real log) log.events n anchor = .ok (.ok row)) :
    ∃ lane, row.lane = laneShort lane ∧ LedBack (onLane real log lane) row.fix row.anchor := by
  have hmiss {aid : Json} {lane : PyStr} (hm : (do
      let task ← getItem anchor (py "task")
      Except.ok (Anchored.missContext aid lane task)) = .ok (.ok row)) : False := by
    obtain ⟨task, -, hm⟩ := bind_eq_ok.mp hm
    cases hm
  obtain ⟨aid, -, h⟩ := bind_eq_ok.mp h
  obtain ⟨found, -, h⟩ := bind_eq_ok.mp h
  cases aid with
  | str m =>
    cases found with
    | none => exact (hmiss h).elim
    | some p =>
      -- the window is taken on the lane that the anchor was found on
      obtain ⟨lane, prov⟩ := p
      obtain ⟨front, rest, hsplit, hlength⟩ := laneWindow_spec real log lane m
      simp only at h
      split_ifs at h with hlast hempty
      · exact (hmiss h).elim
      · exact (hmiss h).elim
      · obtain ⟨hanchor, hrow, hfix⟩ := fixIn_ok h
        rw [← hanchor] at hlast hsplit hlength hfix
        have htime : (onLane real log lane).Pairwise fun a b => a.ts ≤ b.ts :=
          hsorted.sublist List.filter_sublist
        rw [hsplit, List.append_assoc] at htime
        have hwindow := (List.pairwise_append.mp (List.pairwise_append.mp htime).2.1).1
        exact ⟨lane, hrow, front, _, rest, hsplit, hwindow, hlength, not_not.mp hlast, hfix⟩
  | _ => exact (hmiss h).elim

end Window

section Items

lemma groupsOf_ok (rows : List Fixed) :
    ((groupsOf rows).flatMap Prod.snd).Perm rows ∧ ((groupsOf rows).map Prod.fst).Nodup ∧
      (groupsOf rows).Pairwise (fun g g' => g'.2.length ≤ g.2.length) ∧
      ∀ g ∈ groupsOf rows, g.2 ≠ [] ∧ ∀ r ∈ g.2, r ∈ rows ∧ (r.lane, r.fix) = g.1 := by
  have hsort := sortBy_perm (fun g : (PyStr × PyStr) × List Fixed => -(g.2.length : ℤ))
    (groupBy (fun r => (r.lane, r.fix)) rows)
  obtain ⟨hperm, hnodup, hmem⟩ := groupBy_ok (fun r : Fixed => (r.lane, r.fix)) rows
  refine ⟨(hsort.flatMap_right _).trans hperm, (hsort.map Prod.fst).nodup_iff.mpr hnodup, ?_,
    fun g hg => hmem g (hsort.mem_iff.mp hg)⟩
  refine (sortBy_sorted (fun g : (PyStr × PyStr) × List Fixed =>
    -(g.2.length : ℤ)) _).imp fun {g g'} hle => ?_
  omega

def correctionsOf (item : Dict PyStr Json) : List Json :=
  match getNone item (py "corrections") with
  | .arr xs => xs
  | _ => []

structure Shows (g : (PyStr × PyStr) × List Fixed) (item : Dict PyStr Json) : Prop where
  lane : getNone item (py "lane") = .str g.1.1
  fix : getNone item (py "instruction_to_fix_msg") = .str g.1.2
  corrections : correctionsOf item = g.2.map correctionOf

variable {env : ReplayEnv τ} {model : Model}

lemma shows_rewriteItem {n : ℕ} {g : (PyStr × PyStr) × List Fixed} {item : Dict PyStr Json}
    (h : rewriteItem env model n g = .ok item) : Shows g item := by
  obtain ⟨merged, -, h⟩ := bind_eq_ok.mp h
  rw [← Except.ok.inj h]
  exact ⟨by simp [getNone, get?_cons], by simp [getNone,
    get?_cons], by simp [correctionsOf, getNone, get?_cons]⟩

variable {real : Dict PyStr PyStr} {log : EventLog τ}
    {census : List (Dict PyStr Json)} {out : Result}

lemma run_ok (h : run env model real log census = .ok out) :
    (∀ row ∈ out.anchored.filterMap Anchored.fixed?, ∃ n anchor,
        anchorOne env model (assignLanes real log) log.events n anchor = .ok (.ok row)) ∧
      List.Forall₂ Shows (groupsOf (out.anchored.filterMap Anchored.fixed?)) out.rewritten := by
  obtain ⟨anchored, hanchored, h⟩ := bind_eq_ok.mp h
  obtain ⟨rewritten, hrewritten, h⟩ := bind_eq_ok.mp h
  obtain rfl := Except.ok.inj h
  refine ⟨fun row hrow => ?_, ?_⟩
  · obtain ⟨x, hx, hfixed⟩ := List.mem_filterMap.mp hrow
    obtain ⟨p, -, hp⟩ := forall₂_mem_right (mapM_eq_ok.mp hanchored) hx
    cases x with
    | ok row' =>
      obtain rfl : row' = row := Option.some.inj hfixed
      exact ⟨p.2, p.1, hp⟩
    | _ => cases hfixed
  · have hshows : List.Forall₂ (fun p item => Shows p.1 item)
      (groupsOf (anchored.filterMap Anchored.fixed?)).zipIdx rewritten :=
      (mapM_eq_ok.mp hrewritten).imp fun p item => shows_rewriteItem
    rw [← List.forall₂_map_left_iff, List.zipIdx_map_fst] at hshows
    exact hshows

/-- Every correction that is led back to an instruction is in one item, the items have different
lanes or instructions, and those with more corrections come first. -/
structure SharedOut (out : Result) : Prop where
  corrections : (out.rewritten.flatMap correctionsOf).Perm
    ((out.anchored.filterMap Anchored.fixed?).map correctionOf)
  distinct : (out.rewritten.map fun item =>
    (getNone item (py "lane"), getNone item (py "instruction_to_fix_msg"))).Nodup
  ordered : out.rewritten.Pairwise fun item later => (correctionsOf later).length ≤
    (correctionsOf item).length
  nonempty : ∀ item ∈ out.rewritten, correctionsOf item ≠ []

/-- Whatever the model picks, the corrections are shared out. -/
theorem rewritten_corrections_shared_out (h : run env model real log census = .ok out) :
    SharedOut out := by
  obtain ⟨-, hshows⟩ := run_ok h
  obtain ⟨hperm, hnodup, hsorted, hgroups⟩ := groupsOf_ok (out.anchored.filterMap Anchored.fixed?)
  have hcorrections : out.rewritten.map correctionsOf =
      (groupsOf (out.anchored.filterMap Anchored.fixed?)).map fun g => g.2.map correctionOf :=
    forall₂_map_eq hshows fun g item hs => hs.corrections
  refine ⟨?_, ?_, ?_, fun item hitem => ?_⟩
  · rw [List.flatMap_def, hcorrections, ← List.flatMap_def, ← List.map_flatMap]
    exact hperm.map correctionOf
  · have hkeys : (out.rewritten.map fun item =>
      (getNone item (py "lane"), getNone item (py "instruction_to_fix_msg"))) =
        ((groupsOf (out.anchored.filterMap Anchored.fixed?)).map Prod.fst).map fun k =>
          (Json.str k.1, Json.str k.2) := by
      rw [List.map_map]
      exact forall₂_map_eq hshows fun g item hs => by rw [hs.lane, hs.fix]; rfl
    rw [hkeys]
    refine hnodup.map fun k k' hk => ?_
    obtain ⟨h₁, h₂⟩ := Prod.mk.inj hk
    exact Prod.ext (Json.str.inj h₁) (Json.str.inj h₂)
  · have hlengths : (out.rewritten.map correctionsOf).Pairwise fun xs ys =>
      ys.length ≤ xs.length := by
      rw [hcorrections, List.pairwise_map]
      simpa only [List.length_map] using hsorted
    exact List.pairwise_map.mp hlengths
  · obtain ⟨g, hg, hs⟩ := forall₂_mem_right hshows hitem
    rw [hs.corrections]
    simpa using (hgroups g hg).1

/-- Whatever the model picks, the corrections of an item are led back to its instruction on its
lane. -/
theorem rewritten_instructions_on_lane [LinearOrder τ] {sources : List (List (Event τ))}
    (h : run env model real (loadEvents sources) census = .ok out) :
    ∀ item ∈ out.rewritten, ∀ c ∈ correctionsOf item, ∃ row lane, c = correctionOf row ∧
      getNone item (py "lane") = .str (laneShort lane) ∧
      getNone item (py "instruction_to_fix_msg") = .str row.fix ∧
      LedBack (onLane real (loadEvents sources) lane) row.fix row.anchor := by
  obtain ⟨hrows, hshows⟩ := run_ok h
  obtain ⟨-, -, -, hgroups⟩ := groupsOf_ok (out.anchored.filterMap Anchored.fixed?)
  intro item hitem c hc
  obtain ⟨g, hg, hs⟩ := forall₂_mem_right hshows hitem
  rw [hs.corrections] at hc
  obtain ⟨row, hrow, rfl⟩ := List.mem_map.mp hc
  obtain ⟨hmem, hkey⟩ := (hgroups g hg).2 row hrow
  obtain ⟨n, anchor, hanchor⟩ := hrows row hmem
  obtain ⟨lane, hlane, hled⟩ := anchorOne_ok (loadEvents_sorted sources) hanchor
  refine ⟨row, lane, rfl, ?_, ?_, hled⟩
  · rw [hs.lane, ← hlane, ← hkey]
  · rw [hs.fix, ← hkey]

end Items

def instructionEvent : Event ℕ := ⟨py "a", [], py "user", [], [], 1⟩

def answerEvent : Event ℕ := ⟨py "b", [], py "bot", [], [], 2⟩

def answeredLog : EventLog ℕ where
  events := [instructionEvent, answerEvent]
  named := by decide
  distinct := by decide

def answerAnchor : Dict PyStr Json :=
  [(py "anchor_msg_id", .str (py "b")), (py "what", .str []), (py "task", .str [])]

def firstCandidate : Model := ⟨fun _ _ => .ok (py "\x7b\"pick\":\"M1\"\x7d"), fun _ _ => .ok [], id⟩

lemma lanes_answered {e : Event ℕ} (he : e ∈ answeredLog.events) :
    get? (assignLanes [] answeredLog) e.msgId = some (mainLane, .main) := by
  have hparent : e.parentId = [] := by
    revert e
    decide
  rw [get?_assignLanes [] answeredLog he]
  simp [laneFor, hparent]

lemma window_answered :
    laneWindow (assignLanes [] answeredLog) answeredLog.events mainLane (py "b") =
      [instructionEvent, answerEvent] := by
  rw [laneWindow, List.filter_eq_self.mpr fun e he => by rw [lanes_answered he]; simp]
  rfl

lemma pick_answered : get? (idMap [instructionEvent, answerEvent]) (py "M1") = some (py "a") := by
  have h0 : tagOf 0 = py "M1" := by simp [tagOf, natDigits]; rfl
  have h1 : tagOf 1 = py "M2" := by simp [tagOf, natDigits]; rfl
  simp only [idMap, List.zipIdx_cons, List.zipIdx_nil, List.map_cons, List.map_nil, h0, h1]
  rfl

def answerRow :
    Fixed := ⟨py "b", py "a", laneShort mainLane, TaskStitch.stripFeishu TaskStitch.asciiEnv [], [],
      .str [], .str [], .str []⟩

lemma anchorOne_answered :
    anchorOne plainEnv firstCandidate (assignLanes [] answeredLog) answeredLog.events 0
      answerAnchor = .ok (.ok answerRow) := by
  have hpick : pickOf plainEnv (py "\x7b\"pick\":\"M1\"\x7d") = some (py "M1") := by decide +kernel
  have hmem : answerEvent ∈ answeredLog.events := by simp [answeredLog]
  have hlane : get? (assignLanes [] answeredLog) (py "b") = some (mainLane, .main) :=
    lanes_answered hmem
  have hchosen : ((some (py "M1")).filter fun p => p ≠ [] ∧ firstCandidate.lower p ≠ py "none") >>=
      get? (idMap [instructionEvent, answerEvent]) = some (py "a") := by
    have hne : py "M1" ≠ [] := by decide
    simpa [Option.filter_some, firstCandidate, hne] using pick_answered
  have hraw (prompt : PyStr) : firstCandidate.anchor 0 prompt =
    .ok (py "\x7b\"pick\":\"M1\"\x7d") := rfl
  have hlast : [instructionEvent, answerEvent].getLast?.map Event.msgId = some (py "b") := rfl
  have hget : getItem answerAnchor (py "anchor_msg_id") = .ok (.str (py "b")) ∧
      getItem answerAnchor (py "what") = .ok (.str []) ∧
        getItem answerAnchor (py "task") = .ok (.str []) ∧
          get? answerAnchor (py "corrector") = none := by
    simp [getItem, answerAnchor, get?_cons]
  have hfind : [instructionEvent, answerEvent].find? (fun e => e.msgId = py "a") =
    some instructionEvent := rfl
  simp only [anchorOne, hget, CorrectionCensus.lookup, hlane, bind, Except.bind, window_answered,
    hlast, ne_eq, not_true_eq_false, if_false, fixIn, hraw, hpick]
  rw [show Option.bind _ _ = _ from hchosen]
  simp only [hfind]
  rfl

lemma run_answered : ∃ item, rewriteItem plainEnv firstCandidate 0 ((answerRow.lane, answerRow.fix),
    [answerRow]) = .ok item ∧
    run plainEnv firstCandidate [] answeredLog [answerAnchor] = .ok ⟨[.ok answerRow], [item]⟩ := by
  obtain ⟨item, hitem⟩ : ∃ item, rewriteItem plainEnv firstCandidate 0 ((answerRow.lane,
    answerRow.fix), [answerRow]) = .ok item :=
    ⟨_, rfl⟩
  refine ⟨item, hitem, ?_⟩
  have hgroups : groupsOf [answerRow] = [((answerRow.lane, answerRow.fix), [answerRow])] := rfl
  simp [run, anchorOne_answered, hgroups, hitem, Anchored.fixed?, bind,
    Except.bind, pure, Except.pure]

theorem rewritten_corrections_shared_out_answered :
    ∃ out, out.rewritten ≠ [] ∧ run plainEnv firstCandidate [] answeredLog [answerAnchor] =
      .ok out ∧ SharedOut out := by
  obtain ⟨item, -, hrun⟩ := run_answered
  exact ⟨_, by simp, hrun, rewritten_corrections_shared_out hrun⟩

theorem rewritten_instructions_on_lane_answered :
    ∃ out, run plainEnv firstCandidate [] (loadEvents [[answerEvent], [instructionEvent]])
    [answerAnchor] = .ok out ∧
      ∃ item ∈ out.rewritten, ∃ c ∈ correctionsOf item, ∃ row lane, c = correctionOf row ∧
        getNone item (py "lane") = .str (laneShort lane) ∧
        getNone item (py "instruction_to_fix_msg") = .str row.fix ∧
        LedBack (onLane [] (loadEvents [[answerEvent], [instructionEvent]]) lane)
          row.fix row.anchor := by
  have hlog : loadEvents [[answerEvent], [instructionEvent]] = answeredLog := by
    simp only [loadEvents, answeredLog, EventLog.mk.injEq]
    decide
  obtain ⟨item, hitem, hrun⟩ := run_answered
  rw [← hlog] at hrun
  have hc : correctionOf answerRow ∈ correctionsOf item := by
    rw [(shows_rewriteItem hitem).corrections]
    simp
  exact ⟨_, hrun, item, by simp, _, hc, rewritten_instructions_on_lane hrun item (by simp) _ hc⟩

end AgentTrajectory.RewriteThread
