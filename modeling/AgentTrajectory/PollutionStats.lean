import AgentTrajectory.PyDict
import AgentTrajectory.PyJson
import AgentTrajectory.ClusterCounts

/-! The pollution statistics of `turn_intent.py`: the gold sub-requirement of every message against
the one the automatic segmentation gave it, by pairs of messages and message by message. -/
namespace AgentTrajectory.TurnIntent
open PyText PyDict PyJson ClusterCounts

structure Subreq where
  id : PyStr
  memberMsgIds : List PyStr
  deriving DecidableEq

structure Task where
  title : PyStr
  subreqs : List Subreq

structure State where
  frozenTasks : List Task
  activeTailSubreqs : List Subreq

def frozenKey (ti : ℕ) (t : Task) : PyStr := py "FT" ++ natDigits ti ++ py ":" ++ t.title.take 14

def tailKey (sr : Subreq) : PyStr := py "AT:" ++ sr.id

def addMembers (tkey : PyStr) (m : Dict PyStr (PyStr × PyStr)) (sr : Subreq) :
    Dict PyStr (PyStr × PyStr) :=
  sr.memberMsgIds.foldl (fun m mid => setdefault m mid (tkey, sr.id)) m

def autoMembership (s : State) : Dict PyStr (PyStr × PyStr) :=
  let m := s.frozenTasks.zipIdx.foldl (fun m p =>
    p.1.subreqs.foldl (addMembers (frozenKey p.2 p.1)) m) []
  s.activeTailSubreqs.foldl (fun m sr => addMembers (tailKey sr) m sr) m

/-- An entry of the effective message list. -/
structure Effective where
  idx : ℕ
  msgId : PyStr

def goldMem (segs : Dict PyStr (List ℕ)) (effmap : List Effective) : Dict PyStr PyStr :=
  let idx2seg := ofPairs (segs.flatMap fun d => d.2.map fun i => (i, d.1))
  let idx2mid := ofPairs (effmap.map fun e => (e.idx, e.msgId))
  ofPairs (idx2seg.filterMap fun p => ((get? idx2mid p.1).filter (· ≠ [])).map fun mid =>
    (mid, p.2))

def mid2idx (effmap : List Effective) :
    Dict PyStr ℕ := ofPairs (effmap.map fun e => (e.msgId, e.idx))

/-- A message with a gold label and an automatic sub-requirement. -/
structure Joined where
  idx : ℕ
  mid : PyStr
  gold : PyStr
  auto : PyStr × PyStr
  deriving DecidableEq

def Joined.sub (x : Joined) : PyStr := x.auto.2

def joined (effmap : List Effective) (gold : Dict PyStr PyStr) (auto : Dict PyStr (PyStr × PyStr)) :
    List Joined :=
  gold.filterMap fun g => (get? auto g.1).map fun a =>
    ⟨(get? (mid2idx effmap) g.1).getD 0, g.1, g.2, a⟩

structure PairStats where
  sameGold : ℕ
  diffGold : ℕ
  overSplit : ℕ
  overMerge : ℕ
  overSplitExamples : List (ℕ × ℕ × PyStr × PyStr × PyStr)
  overMergeExamples : List (ℕ × ℕ × PyStr × PyStr × PyStr)
  deriving DecidableEq

/-- `if len(examples) < 6: examples.append(e)`. -/
def keepSix {α : Type*} (examples : List α) (e : α) : List α :=
  if examples.length < 6 then examples ++ [e] else examples

def countPair (st : PairStats) (p : Joined × Joined) : PairStats :=
  let asame := p.1.sub == p.2.sub
  if p.1.gold = p.2.gold then
    let st := { st with sameGold := st.sameGold + 1 }
    if asame then st
    else { st with
      overSplit := st.overSplit + 1
      overSplitExamples := keepSix st.overSplitExamples (p.1.idx, p.2.idx,
        p.1.gold, p.1.sub, p.2.sub) }
  else
    let st := { st with diffGold := st.diffGold + 1 }
    if asame then { st with
      overMerge := st.overMerge + 1
      overMergeExamples := keepSix st.overMergeExamples (p.1.idx, p.2.idx,
        p.1.gold, p.2.gold, p.1.sub) }
    else st

/-- The double loop. -/
def pairStats (js : List Joined) : PairStats := (pairs js).foldl countPair ⟨0, 0, 0, 0, [], []⟩

def autoCluster (js : List Joined) :
    Dict PyStr (List Joined) := js.foldl (fun d x => extendAt d x.sub [x]) []

def siblings (cluster : Dict PyStr (List Joined)) (x : Joined) : List Joined :=
  ((get? cluster x.sub).getD []).filter fun y => y.mid ≠ x.mid

/-- `Counter(labels).most_common(1)[0][0]`: the first of the most frequent. -/
def majority (labels : List PyStr) : Option PyStr := (firstOccurrences labels).argmax labels.count

structure MisAssigned where
  idx : ℕ
  goldSeg : PyStr
  autoSub : PyStr
  autoMajorityGold : PyStr
  deriving DecidableEq

def misAssigned (cluster : Dict PyStr (List Joined)) (x : Joined) : Option MisAssigned :=
  (majority ((siblings cluster x).map Joined.gold)).bind fun maj =>
    if maj ≠ x.gold then some ⟨x.idx, x.gold, x.sub, maj⟩ else none

structure Coverage where
  chunkTotal : ℕ
  goldLabeled : ℕ
  autoCovered : ℕ
  joinedBoth : ℕ
  goldNotInAuto : List ℕ
  deriving DecidableEq

structure Pollution where
  coverage : Coverage
  pairStats : PairStats
  overSplitRate : Option ℚ
  overMergeRate : Option ℚ
  nBase : ℕ
  nMis : ℕ
  misRate : Option ℚ
  misExamples : List MisAssigned
  deriving DecidableEq

/-- `(n / base) if base else None`. -/
def rate (n base : ℕ) : Option ℚ := if base = 0 then none else some (n / base)

def measurePollution (segs : Dict PyStr (List ℕ)) (effmap : List Effective) (s : State) :
    Pollution :=
  let gold := goldMem segs effmap
  let auto := autoMembership s
  let js := joined effmap gold auto
  let ids := firstOccurrences (effmap.map Effective.msgId)
  let missing := (keys gold).filter fun m => (get? auto m).isNone
  let stats := pairStats js
  let mis := js.filterMap (misAssigned (autoCluster js))
  let nBase := js.countP fun x => siblings (autoCluster js) x ≠ []
  { coverage :=
      { chunkTotal := ids.length
        goldLabeled := gold.length
        autoCovered := ids.countP fun m => (get? auto m).isSome
        joinedBoth := js.length
        goldNotInAuto := (missing.map fun m => (get? (mid2idx effmap) m).getD 0).mergeSort }
    pairStats := stats
    overSplitRate := rate stats.overSplit stats.sameGold
    overMergeRate := rate stats.overMerge stats.diffGold
    nBase := nBase
    nMis := mis.length
    misRate := rate mis.length nBase
    misExamples := mis.take 12 }

section reference
variable {κ : Type*} [DecidableEq κ] (key : Joined → κ)

def companions (js : List Joined) (x : Joined) :
    List Joined := js.filter fun y => key y = key x ∧ y.mid ≠ x.mid

/-- The messages that are not alone in their cluster. -/
def accompanied (js : List Joined) : ℕ := js.countP fun x => companions key js x ≠ []

/-- The messages whose companions mostly have another gold label. -/
def misplaced (js : List Joined) : ℕ :=
  js.countP fun x => (majority ((companions key js x).map Joined.gold)).any (· ≠ x.gold)

end reference

abbrev Place := Option ℕ × ℕ

structure Seat where
  place : Place
  tkey : PyStr
  subreq : Subreq

def seats (s : State) : List Seat :=
  (s.frozenTasks.zipIdx.flatMap fun p => p.1.subreqs.zipIdx.map fun q =>
    ⟨(some p.2, q.2), frozenKey p.2 p.1, q.1⟩) ++
    s.activeTailSubreqs.zipIdx.map fun q => ⟨(none, q.2), tailKey q.1, q.1⟩

def seatOf (s : State) (mid : PyStr) :
    Option Seat := (seats s).find? fun seat => mid ∈ seat.subreq.memberMsgIds

/-- The automatic sub-requirement of a message. -/
def placeOf (s : State) (x : Joined) : Option Place := (seatOf s x.mid).map Seat.place

lemma foldl_countPair (ps : List (Joined × Joined)) (st : PairStats) :
    (ps.foldl countPair st).overSplit = st.overSplit + ps.countP (isSplit Joined.gold Joined.sub) ∧
      (ps.foldl countPair st).overMerge = st.overMerge +
        ps.countP (isMerged Joined.gold Joined.sub) := by
  induction ps generalizing st with
  | nil => simp
  | cons p ps ih =>
    have hstep : (countPair st p).overSplit = st.overSplit +
        (if isSplit Joined.gold Joined.sub p then 1 else 0) ∧
          (countPair st p).overMerge = st.overMerge +
            (if isMerged Joined.gold Joined.sub p then 1 else 0) := by
      by_cases hg : p.1.gold = p.2.gold
      · by_cases ha : p.1.sub = p.2.sub
        · simp [countPair, isSplit, isMerged, hg, ha]
        · simp [countPair, isSplit, isMerged, hg, ha]
      · by_cases ha : p.1.sub = p.2.sub
        · simp [countPair, isSplit, isMerged, hg, ha]
        · simp [countPair, isSplit, isMerged, hg, ha]
    obtain ⟨hsplit, hmerge⟩ := ih (countPair st p)
    rw [List.foldl_cons, hsplit, hmerge, hstep.1, hstep.2, List.countP_cons, List.countP_cons]
    omega

lemma pairStats_overSplit (js : List Joined) :
    (pairStats js).overSplit = splitPairs Joined.gold Joined.sub js := by
  rw [pairStats, (foldl_countPair _ _).1, Nat.zero_add, splitPairs]

lemma pairStats_overMerge (js : List Joined) :
    (pairStats js).overMerge = mergedPairs Joined.gold Joined.sub js := by
  rw [pairStats, (foldl_countPair _ _).2, Nat.zero_add, mergedPairs]

lemma getD_autoCluster (js : List Joined) (k : PyStr) :
    (get? (autoCluster js) k).getD [] = js.filter fun y => y.sub = k := by
  induction js using List.reverseRecOn with
  | nil => rfl
  | append_singleton js x ih =>
    have hstep : autoCluster (js ++ [x]) = extendAt (autoCluster js) x.sub [x] := by
      simp [autoCluster]
    rw [hstep, extendAt, get?_set, List.filter_append]
    by_cases hk : x.sub = k
    · rw [if_pos hk, hk, ih]
      simp [hk]
    · rw [if_neg hk, ih]
      simp [hk]

lemma siblings_eq (js : List Joined) (x : Joined) :
    siblings (autoCluster js) x = companions Joined.sub js x := by
  rw [siblings, getD_autoCluster, List.filter_filter, companions]
  exact List.filter_congr fun y _ => by simp [and_comm]

lemma length_misAssigned (js : List Joined) :
    (js.filterMap (misAssigned (autoCluster js))).length = misplaced Joined.sub js := by
  rw [List.length_filterMap_eq_countP, misplaced]
  refine List.countP_congr fun x _ => ?_
  rw [misAssigned, siblings_eq]
  cases majority ((companions Joined.sub js x).map Joined.gold) with
  | none => simp
  | some maj => by_cases h : maj = x.gold <;> simp [h]

lemma get?_addMembers (tkey : PyStr) (m : Dict PyStr (PyStr × PyStr)) (sr : Subreq) (mid : PyStr) :
    get? (addMembers tkey m sr) mid = (get? m mid).or (if mid ∈ sr.memberMsgIds then
      some (tkey, sr.id) else none) := by
  rw [addMembers]
  induction sr.memberMsgIds generalizing m with
  | nil => simp
  | cons k ks ih =>
    rw [List.foldl_cons, ih, get?_setdefault, Option.or_assoc]
    by_cases hmid : mid = k
    · simp [hmid]
    · simp [hmid]

lemma foldl_zipIdx_fst {α β : Type*} (f : β → α → β) (l : List α) (b : β) :
    l.zipIdx.foldl (fun b p => f b p.1) b = l.foldl f b := by
  rw [← List.foldl_map, List.zipIdx_map_fst]

lemma autoMembership_eq (s : State) :
    autoMembership s = (seats s).foldl (fun m seat => addMembers seat.tkey m seat.subreq) [] := by
  rw [seats, List.foldl_append, List.foldl_flatMap, List.foldl_map, autoMembership]
  simp only [List.foldl_map]
  rw [foldl_zipIdx_fst (fun m sr => addMembers (tailKey sr) m sr)]
  simp only [foldl_zipIdx_fst]

lemma get?_autoMembership (s : State) (mid : PyStr) :
    get? (autoMembership s) mid = (seatOf s mid).map fun seat => (seat.tkey, seat.subreq.id) := by
  have hfold (l : List Seat) (m : Dict PyStr (PyStr × PyStr)) :
      get? (l.foldl (fun m seat => addMembers seat.tkey m seat.subreq) m) mid =
        (get? m mid).or ((l.find? fun seat => mid ∈ seat.subreq.memberMsgIds).map fun seat =>
          (seat.tkey, seat.subreq.id)) := by
    induction l generalizing m with
    | nil => simp
    | cons seat l ih =>
      rw [List.foldl_cons, ih, get?_addMembers, Option.or_assoc, List.find?_cons]
      by_cases hmid : mid ∈ seat.subreq.memberMsgIds
      · simp [hmid]
      · simp [hmid]
  rw [autoMembership_eq, hfold, get?_nil, Option.none_or, seatOf]

def subreqAt (s : State) : Place → Option Subreq
  | (some ti, si) => s.frozenTasks[ti]?.bind fun t => t.subreqs[si]?
  | (none, si) => s.activeTailSubreqs[si]?

lemma subreqAt_of_mem {s : State} {seat : Seat} (h : seat ∈ seats s) :
    subreqAt s seat.place = some seat.subreq := by
  rcases List.mem_append.mp h with h | h
  · obtain ⟨p, hp, h⟩ := List.mem_flatMap.mp h
    obtain ⟨q, hq, rfl⟩ := List.mem_map.mp h
    simp only [subreqAt, List.mem_zipIdx_iff_getElem?.mp hp, Option.bind_some,
      List.mem_zipIdx_iff_getElem?.mp hq]
  · obtain ⟨q, hq, rfl⟩ := List.mem_map.mp h
    exact List.mem_zipIdx_iff_getElem?.mp hq

def Labelled (segs : Dict PyStr (List ℕ)) (effmap : List Effective) (mid : PyStr) : Prop :=
  mid ≠ [] ∧ ∃ d ∈ segs, ∃ i ∈ d.2,
    ((effmap.filter fun e => e.idx = i).getLast?).map Effective.msgId = some mid

lemma mem_keys_goldMem (segs : Dict PyStr (List ℕ)) (effmap : List Effective) (mid : PyStr) :
    mid ∈ keys (goldMem segs effmap) ↔ Labelled segs effmap mid := by
  have hlast (i : ℕ) : get? (ofPairs (effmap.map fun e => (e.idx, e.msgId))) i =
      ((effmap.filter fun e => e.idx = i).getLast?).map Effective.msgId := by
    rw [get?_ofPairs, List.filter_map, List.getLast?_map, Option.map_map]
    rfl
  have hidx (i : ℕ) : i ∈ keys (ofPairs (segs.flatMap fun d => d.2.map fun i => (i, d.1))) ↔
      ∃ d ∈ segs, i ∈ d.2 := by
    rw [mem_keys_ofPairs]
    simp
  rw [goldMem, mem_keys_ofPairs, Labelled]
  constructor
  · intro h
    obtain ⟨g, hg, rfl⟩ := List.mem_map.mp h
    obtain ⟨p, hp, hpg⟩ := List.mem_filterMap.mp hg
    obtain ⟨mid, hmid, rfl⟩ := Option.map_eq_some_iff.mp hpg
    obtain ⟨hmid, hne⟩ := Option.filter_eq_some_iff.mp hmid
    obtain ⟨d, hd, hi⟩ := (hidx p.1).mp (List.mem_map_of_mem hp)
    exact ⟨by simpa using hne, d, hd, p.1, hi, (hlast p.1).symm.trans hmid⟩
  · rintro ⟨hne, d, hd, i, hi, hmid⟩
    obtain ⟨p, hp, rfl⟩ := List.mem_map.mp ((hidx i).mpr ⟨d, hd, hi⟩)
    refine List.mem_map.mpr ⟨(mid, p.2), List.mem_filterMap.mpr ⟨p, hp, ?_⟩, rfl⟩
    rw [hlast, hmid]
    simp [Option.filter, hne]

def Joins (segs : Dict PyStr (List ℕ)) (effmap : List Effective) (s : State)
    (mid : PyStr) (seat : Seat) : Prop :=
  Labelled segs effmap mid ∧ seatOf s mid = some seat

abbrev joinedOf (segs : Dict PyStr (List ℕ)) (effmap : List Effective) (s : State) : List Joined :=
  joined effmap (goldMem segs effmap) (autoMembership s)

variable {segs : Dict PyStr (List ℕ)} {effmap : List Effective} {s : State}

lemma joins_of_mem {x : Joined} (h : x ∈ joinedOf segs effmap s) :
    ∃ seat, Joins segs effmap s x.mid seat ∧ x.sub = seat.subreq.id := by
  obtain ⟨g, hg, hx⟩ := List.mem_filterMap.mp h
  obtain ⟨a, ha, rfl⟩ := Option.map_eq_some_iff.mp hx
  rw [get?_autoMembership] at ha
  obtain ⟨seat, hseat, rfl⟩ := Option.map_eq_some_iff.mp ha
  exact ⟨seat, ⟨(mem_keys_goldMem segs effmap g.1).mp (List.mem_map_of_mem hg), hseat⟩, rfl⟩

lemma mem_of_joins {mid : PyStr} {seat : Seat} (h : Joins segs effmap s mid seat) :
    ∃ x ∈ joinedOf segs effmap s, x.mid = mid ∧ x.sub = seat.subreq.id := by
  obtain ⟨g, hg, rfl⟩ := List.mem_map.mp ((mem_keys_goldMem segs effmap mid).mpr h.1)
  have hauto : get? (autoMembership s) g.1 = some (seat.tkey, seat.subreq.id) := by
    rw [get?_autoMembership, h.2]
    rfl
  refine ⟨⟨(get? (mid2idx effmap) g.1).getD 0, g.1, g.2, (seat.tkey, seat.subreq.id)⟩,
    List.mem_filterMap.mpr ⟨g, hg, ?_⟩, rfl, rfl⟩
  rw [hauto]
  rfl

lemma sub_eq_of_placeOf {x y : Joined} (hx : x ∈ joinedOf segs effmap s)
    (hy : y ∈ joinedOf segs effmap s) (h : placeOf s x = placeOf s y) : x.sub = y.sub := by
  obtain ⟨p, ⟨-, hp⟩, hxp⟩ := joins_of_mem hx
  obtain ⟨q, ⟨-, hq⟩, hyq⟩ := joins_of_mem hy
  rw [placeOf, placeOf, hp, hq, Option.map_some, Option.map_some, Option.some.injEq] at h
  have hsub : some p.subreq = some q.subreq := by
    rw [← subreqAt_of_mem (List.mem_of_find?_eq_some hp),
      ← subreqAt_of_mem (List.mem_of_find?_eq_some hq), h]
  rw [hxp, hyq, Option.some.inj hsub]

/-- Whether sub-requirement ids tell the sub-requirements of labelled messages apart. -/
def IdsTellApart (segs : Dict PyStr (List ℕ)) (effmap : List Effective) (s : State) : Prop :=
  ∀ a p, Joins segs effmap s a p → ∀ b q, Joins segs effmap s b q →
    p.subreq.id = q.subreq.id → p.place = q.place

lemma idsTellApart_iff : IdsTellApart segs effmap s ↔
      ∀ x ∈ joinedOf segs effmap s, ∀ y ∈ joinedOf segs effmap s, x.sub = y.sub →
        placeOf s x = placeOf s y := by
  constructor
  · intro h x hx y hy hsub
    obtain ⟨p, hp, hxp⟩ := joins_of_mem hx
    obtain ⟨q, hq, hyq⟩ := joins_of_mem hy
    rw [placeOf, placeOf, hp.2, hq.2, Option.map_some, Option.map_some,
      h _ p hp _ q hq (by rw [← hxp, ← hyq, hsub])]
  · intro h a p hp b q hq hid
    obtain ⟨x, hx, rfl, hxp⟩ := mem_of_joins hp
    obtain ⟨y, hy, rfl, hyq⟩ := mem_of_joins hq
    have hplace := h x hx y hy (by rw [hxp, hyq, hid])
    rw [placeOf, placeOf, hp.2, hq.2] at hplace
    exact Option.some.inj hplace

lemma companions_congr {κ κ' : Type*} [DecidableEq κ] [DecidableEq κ'] {key : Joined → κ}
    {key' : Joined → κ'} {js : List Joined}
    (h : ∀ x ∈ js, ∀ y ∈ js, key x = key y ↔ key' x = key' y) {x : Joined} (hx : x ∈ js) :
    companions key js x = companions key' js x :=
  List.filter_congr fun y hy => by simp [h y hy x hx]

/-- The statistics are those of the clustering into sub-requirements of tasks exactly if the ids
tell the sub-requirements of labelled messages apart. -/
theorem pollution_compares_clusterings_iff (segs : Dict PyStr (List ℕ))
    (effmap : List Effective) (s : State) :
    ((measurePollution segs effmap s).pairStats.overSplit = splitPairs Joined.gold (placeOf s)
      (joinedOf segs effmap s) ∧
        (measurePollution segs effmap s).pairStats.overMerge = mergedPairs Joined.gold (placeOf s)
          (joinedOf segs effmap s) ∧
        (measurePollution segs effmap s).nBase = accompanied (placeOf s) (joinedOf segs effmap s) ∧
        (measurePollution segs effmap s).nMis = misplaced (placeOf s) (joinedOf segs effmap s)) ↔
      IdsTellApart segs effmap s := by
  have hsplit : (measurePollution segs effmap s).pairStats.overSplit = _ :=
    pairStats_overSplit (joinedOf segs effmap s)
  have hmerge : (measurePollution segs effmap s).pairStats.overMerge = _ :=
    pairStats_overMerge (joinedOf segs effmap s)
  have hmis : (measurePollution segs effmap s).nMis = _ :=
    length_misAssigned (joinedOf segs effmap s)
  have hbase : (measurePollution segs effmap s).nBase =
    accompanied Joined.sub (joinedOf segs effmap s) :=
    List.countP_congr fun x _ => by rw [siblings_eq]
  have hcoarse : ∀ x ∈ joinedOf segs effmap s, ∀ y ∈ joinedOf segs effmap s,
    placeOf s x = placeOf s y → x.sub = y.sub :=
    fun x hx y hy => sub_eq_of_placeOf hx hy
  rw [idsTellApart_iff, hsplit, hmerge, hmis, hbase, ← and_assoc, coarser_counts_eq_iff hcoarse]
  refine and_iff_left_of_imp fun h => ?_
  have hsame (x) (hx : x ∈ joinedOf segs effmap s) :
      companions Joined.sub (joinedOf segs effmap s) x = companions (placeOf s)
        (joinedOf segs effmap s) x :=
    companions_congr (fun x hx y hy => ⟨h x hx y hy, hcoarse x hx y hy⟩) hx
  exact ⟨List.countP_congr fun x hx => by rw [hsame x hx],
    List.countP_congr fun x hx => by rw [hsame x hx]⟩

/-- Two tasks that both number a sub-requirement `S1`: its two messages count as one cluster. -/
theorem equal_ids_merge_tasks :
    (measurePollution [(py "A1", [1]), (py "B1", [2])] [⟨1, py "m1"⟩, ⟨2, py "m2"⟩]
        ⟨[⟨py "a", [⟨py "S1", [py "m1"]⟩]⟩, ⟨py "b", [⟨py "S1", [py "m2"]⟩]⟩],
          []⟩).pairStats.overMerge = 1 ∧
      mergedPairs Joined.gold
        (placeOf ⟨[⟨py "a", [⟨py "S1", [py "m1"]⟩]⟩, ⟨py "b", [⟨py "S1", [py "m2"]⟩]⟩], []⟩)
        (joinedOf [(py "A1", [1]), (py "B1", [2])] [⟨1, py "m1"⟩, ⟨2, py "m2"⟩]
          ⟨[⟨py "a", [⟨py "S1", [py "m1"]⟩]⟩, ⟨py "b", [⟨py "S1", [py "m2"]⟩]⟩], []⟩) = 0 := by
  decide +kernel

end AgentTrajectory.TurnIntent
