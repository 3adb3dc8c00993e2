import AgentTrajectory.SegmentStitching

/-! The reply edges of `atomic_segments` read off the events. With message ids that name
one event each, the atomic segments are the components of pass one; an event without an
id is looked up under the empty id and stands for the last segment that holds one. -/
namespace AgentTrajectory.TaskStitch
open PyText PyDict

/-- The events, each with the segment that holds it. -/
def placed (segs : List Segment) : List (Event × Fin segs.length) :=
  (List.finRange segs.length).flatMap fun i => (segs.get i).rows.map fun e => (e, i)

/-- No two events share a message id, except for the empty one. -/
def DistinctIds (evs : List Event) : Prop :=
  ((evs.filter fun e => !e.msgId.isEmpty).map Event.msgId).Nodup

lemma mem_placed {segs : List Segment} {e : Event} {i : Fin segs.length} :
    (e, i) ∈ placed segs ↔ e ∈ (segs.get i).rows := by
  simp [placed]

lemma placed_fst (segs : List Segment) : (placed segs).map Prod.fst = segs.flatMap Segment.rows := by
  rw [← flatMap_finRange_rows]
  simp [placed, List.map_flatMap, Function.comp_def]

lemma exists_placed {evs : List Event} {e : Event} (he : e ∈ evs) :
    ∃ i, (e, i) ∈ placed (passOne evs) := by
  rw [← passOne_rows evs, ← placed_fst] at he
  obtain ⟨⟨_, i⟩, hq, rfl⟩ := List.mem_map.mp he
  exact ⟨i, hq⟩

lemma mem_of_placed {evs : List Event} {q : Event × Fin (passOne evs).length}
    (hq : q ∈ placed (passOne evs)) : q.1 ∈ evs := by
  have hmem := List.mem_map_of_mem (f := Prod.fst) hq
  rwa [placed_fst, passOne_rows] at hmem

lemma segOf_eq (segs : List Segment) :
    segOf segs = ofPairs ((placed segs).map fun q => (q.1.msgId, q.2)) := by
  simp [segOf, placed, List.map_flatMap, Function.comp_def]

lemma mem_of_segOf {segs : List Segment} {k : PyStr} {i : Fin segs.length}
    (h : get? (segOf segs) k = some i) : ∃ q ∈ placed segs, q.1.msgId = k ∧ q.2 = i := by
  rw [segOf_eq] at h
  obtain ⟨q, hq, he⟩ := List.mem_map.mp (mem_of_get?_ofPairs h)
  obtain ⟨rfl, rfl⟩ := Prod.mk.inj he
  exact ⟨q, hq, rfl, rfl⟩

lemma segOf_isSome {segs : List Segment} {q : Event × Fin segs.length} (hq : q ∈ placed segs) :
    (get? (segOf segs) q.1.msgId).isSome := by
  rw [segOf_eq, Option.isSome_iff_ne_none, ne_eq, get?_eq_none, not_not, ofPairs, mem_keys_update]
  exact .inr (List.mem_map.mpr ⟨_, List.mem_map_of_mem hq, rfl⟩)

section Distinct
variable {evs : List Event} (hids : DistinctIds evs)
include hids

lemma placed_unique {q q' : Event × Fin (passOne evs).length} (hq : q ∈ placed (passOne evs))
    (hq' : q' ∈ placed (passOne evs)) (hne : q.1.msgId ≠ []) (he : q.1.msgId = q'.1.msgId) :
    q = q' := by
  let named := (placed (passOne evs)).filter fun q => !q.1.msgId.isEmpty
  have hnodup : (named.map fun q => q.1.msgId).Nodup := by
    have hfst := placed_fst (passOne evs)
    rw [passOne_rows] at hfst
    rw [DistinctIds, ← hfst, List.filter_map, List.map_map] at hids
    exact hids
  refine List.inj_on_of_nodup_map hnodup ?_ ?_ he
  · exact List.mem_filter.mpr ⟨hq, by simpa using hne⟩
  · exact List.mem_filter.mpr ⟨hq', by simpa using he ▸ hne⟩

lemma segOf_of_mem {q : Event × Fin (passOne evs).length} (hq : q ∈ placed (passOne evs))
    (hne : q.1.msgId ≠ []) : get? (segOf (passOne evs)) q.1.msgId = some q.2 := by
  obtain ⟨i, hi⟩ := Option.isSome_iff_exists.mp (segOf_isSome hq)
  obtain ⟨q', hq', hid, rfl⟩ := mem_of_segOf hi
  rw [hi, placed_unique hids hq hq' hne hid.symm]

lemma eventByMsg_of_mem {q : Event × Fin (passOne evs).length} (hq : q ∈ placed (passOne evs))
    (hne : q.1.msgId ≠ []) : get? (eventByMsg evs) q.1.msgId = some q.1 := by
  have hkeys : (keys ((evs.filter fun e => !e.msgId.isEmpty).map fun e => (e.msgId, e))).Nodup := by
    rw [keys, List.map_map]
    exact hids
  rw [eventByMsg, ofPairs_of_nodup hkeys]
  exact get?_of_mem hkeys
    (List.mem_map_of_mem (List.mem_filter.mpr ⟨mem_of_placed hq, by simpa using hne⟩))

lemma stitchEdge_eq_some_iff (env : Env) (e : Event) (a b : Fin (passOne evs).length) :
    stitchEdge env (passOne evs) (eventByMsg evs) e = some (a, b) ↔
      get? (segOf (passOne evs)) e.msgId = some a ∧ e.parentId ≠ [] ∧
        ∃ p ∈ placed (passOne evs), p.1.msgId = e.parentId ∧ p.2 = b ∧
          shouldStrongStitchByReply env ((passOne evs).get a) ((passOne evs).get b) e p.1 = true := by
  rw [stitchEdge]
  by_cases hp : e.parentId = []
  · simp [hp]
  rw [if_neg (by simpa using hp)]
  constructor
  · intro h
    cases hparent : get? (segOf (passOne evs)) e.parentId with
    | none => simp [hparent] at h
    | some parentSi =>
      cases hchild : get? (segOf (passOne evs)) e.msgId with
      | none => simp [hparent, hchild] at h
      | some childSi =>
        obtain ⟨p, hpm, hid, rfl⟩ := mem_of_segOf hparent
        have hev := eventByMsg_of_mem hids hpm (hid ▸ hp)
        rw [hid] at hev
        simp only [hparent, hchild, acceptsReply, hev] at h
        split_ifs at h with hs
        obtain ⟨rfl, rfl⟩ := Prod.mk.inj (Option.some.inj h)
        exact ⟨rfl, hp, p, hpm, hid, rfl, hs⟩
  · rintro ⟨hchild, -, p, hpm, hid, rfl, hs⟩
    have hparent := segOf_of_mem hids hpm (hid ▸ hp)
    have hev := eventByMsg_of_mem hids hpm (hid ▸ hp)
    rw [hid] at hparent hev
    simp only [hparent, hchild, acceptsReply, hev, hs, if_true]

end Distinct

/-- A reply from one segment of pass one to another that the check accepts. -/
def ReplyEdge (env : Env) (segs : List Segment) (i j : Fin segs.length) : Prop :=
  ∃ child ∈ (segs.get i).rows, ∃ parent ∈ (segs.get j).rows, child.parentId = parent.msgId ∧
    shouldStrongStitchByReply env (segs.get i) (segs.get j) child parent = true

lemma mainCut_rows_ne_nil (gap prev : ℤ) (cur : Segment) (l : List (Event × PyStr))
    (hcur : cur.rows ≠ []) : ∀ s ∈ mainCut gap prev cur l, s.rows ≠ [] := by
  induction l generalizing prev cur with
  | nil => simpa [mainCut] using hcur
  | cons x l ih =>
    obtain ⟨e, tp⟩ := x
    rw [mainCut.eq_def]
    simp only
    split_ifs
    · exact List.forall_mem_cons.mpr ⟨hcur, ih _ _ (by simp)⟩
    · exact ih _ _ (by simp)

lemma passOne_rows_ne_nil {evs : List Event} (i : Fin (passOne evs).length) :
    ((passOne evs).get i).rows ≠ [] := by
  have hall : ∀ s ∈ passOne evs, s.rows ≠ [] := by
    rw [passOne]
    cases effectiveTopics [] evs with
    | nil => simp [firstCut]
    | cons x l => exact mainCut_rows_ne_nil _ _ _ _ (by simp)
  exact hall _ (List.get_mem _ i)

section Named
variable {evs : List Event} (hids : (evs.map Event.msgId).Nodup) (hne : ∀ e ∈ evs, e.msgId ≠ [])
include hids hne

lemma distinctIds_of_named : DistinctIds evs := by
  have hall : evs.filter (fun e => !e.msgId.isEmpty) = evs :=
    List.filter_eq_self.mpr fun e he => by simpa using hne e he
  rw [DistinctIds, hall]
  exact hids

lemma replyEdge_iff (env : Env) {order : List Event} (horder : order.Perm evs)
    (a b : Fin (passOne evs).length) :
    (∃ e ∈ order, stitchEdge env (passOne evs) (eventByMsg evs) e = some (a, b)) ↔
      ReplyEdge env (passOne evs) a b := by
  have hdist := distinctIds_of_named hids hne
  constructor
  · rintro ⟨e, he, h⟩
    obtain ⟨hchild, -, p, hp, hid, rfl, hs⟩ := (stitchEdge_eq_some_iff hdist env e a b).mp h
    obtain ⟨i, hi⟩ := exists_placed (horder.mem_iff.mp he)
    have hown := segOf_of_mem hdist hi (hne e (horder.mem_iff.mp he))
    obtain rfl := Option.some.inj (hown.symm.trans hchild)
    exact ⟨e, mem_placed.mp hi, p.1, mem_placed.mp hp, hid.symm, hs⟩
  · rintro ⟨child, hc, parent, hp, hid, hs⟩
    have hc' := mem_placed.mpr hc
    have hp' := mem_placed.mpr hp
    have hmem := mem_of_placed hc'
    refine ⟨child, horder.mem_iff.mpr hmem, (stitchEdge_eq_some_iff hdist env child a b).mpr ?_⟩
    exact ⟨segOf_of_mem hdist hc' (hne _ hmem), hid ▸ hne _ (mem_of_placed hp'), _, hp', hid.symm,
      rfl, hs⟩

lemma rows_subset_iff (F : Forest (Fin (passOne evs).length)) (i k : Fin (passOne evs).length) :
    ((passOne evs).get i).rows ⊆ sortByTs (((List.finRange (passOne evs).length).filter fun j =>
        F.root j = F.root k).flatMap fun j => ((passOne evs).get j).rows) ↔ F.root i = F.root k := by
  constructor
  · intro hsub
    obtain ⟨e, he⟩ := List.exists_mem_of_ne_nil _ (passOne_rows_ne_nil i)
    obtain ⟨j, hj, hej⟩ := List.mem_flatMap.mp ((sortByTs_perm _).mem_iff.mp (hsub he))
    have hi' := mem_placed.mpr he
    have heq := placed_unique (distinctIds_of_named hids hne) hi' (mem_placed.mpr hej)
      (hne _ (mem_of_placed hi')) rfl
    obtain ⟨-, rfl⟩ := Prod.mk.inj heq
    simpa using (List.mem_filter.mp hj).2
  · intro hroot e he
    refine (sortByTs_perm _).mem_iff.mpr (List.mem_flatMap.mpr ⟨i, ?_, he⟩)
    exact List.mem_filter.mpr ⟨List.mem_finRange i, by simpa using hroot⟩

omit hids hne in
lemma noise_mem_iff (F : Forest (Fin (passOne evs).length)) (k : Fin (passOne evs).length) :
    (∃ e ∈ sortByTs (((List.finRange (passOne evs).length).filter fun j =>
        F.root j = F.root k).flatMap fun j => ((passOne evs).get j).rows), isNoise e.text = false) ↔
      ∃ j, F.root j = F.root k ∧ ∃ e ∈ ((passOne evs).get j).rows, isNoise e.text = false := by
  simp only [(sortByTs_perm _).mem_iff, List.mem_flatMap, List.mem_filter, List.mem_finRange,
    true_and, decide_eq_true_eq]
  constructor
  · rintro ⟨e, ⟨j, hj, he⟩, hn⟩
    exact ⟨j, hj, e, he, hn⟩
  · rintro ⟨j, hj, e, he, hn⟩
    exact ⟨e, ⟨j, hj, he⟩, hn⟩

end Named

/-- Two segments of pass one end in one atomic segment exactly when accepted replies connect
them and their component is not noise throughout; the order of the replies plays no part. -/
theorem same_atomic_segment_iff (env : Env) (evs : List Event)
    (hids : (evs.map Event.msgId).Nodup) (hne : ∀ e ∈ evs, e.msgId ≠ []) :
    (∀ i j : Fin (passOne evs).length,
      (∃ s ∈ atomicSegments env evs,
        ((passOne evs).get i).rows ⊆ s ∧ ((passOne evs).get j).rows ⊆ s) ↔
      Relation.EqvGen (ReplyEdge env (passOne evs)) i j ∧
        ∃ k, Relation.EqvGen (ReplyEdge env (passOne evs)) i k ∧
          ∃ e ∈ ((passOne evs).get k).rows, isNoise e.text = false) ∧
    ∀ order, order.Perm evs → atomicSegmentsInOrder env evs order = atomicSegments env evs := by
  have hroot : ∀ order : List Event, order.Perm evs → ∀ i j,
      (replyForest env evs order).root i = (replyForest env evs order).root j ↔
        Relation.EqvGen (ReplyEdge env (passOne evs)) i j := by
    intro order horder i j
    rw [root_replyForest_iff]
    simp only [replyEdge_iff hids hne env horder]
  refine ⟨fun i j => ?_, fun order horder => ?_⟩
  · simp only [← hroot evs (.refl _), atomicSegments_eq, mem_atomicSegmentsInOrder, mem_mergedGroups]
    constructor
    · rintro ⟨s, ⟨⟨k, rfl⟩, hnoise⟩, hi, hj⟩
      rw [rows_subset_iff hids hne] at hi hj
      obtain ⟨l, hl, he⟩ := (noise_mem_iff _ k).mp hnoise
      exact ⟨hi.trans hj.symm, l, hi.trans hl.symm, he⟩
    · rintro ⟨hij, k, hk, he⟩
      refine ⟨_, ⟨⟨i, rfl⟩, (noise_mem_iff _ i).mpr ⟨k, hk.symm, he⟩⟩, ?_, ?_⟩
      · exact (rows_subset_iff hids hne _ i i).mpr rfl
      · exact (rows_subset_iff hids hne _ j i).mpr hij.symm
  · have hmerge := mergeSegments_congr (passOne evs)
      (F := replyForest env evs order) (G := replyForest env evs evs) fun i j =>
        (hroot order horder i j).trans (hroot evs (.refl _) i j).symm
    rw [atomicSegments_eq, atomicSegmentsInOrder, atomicSegmentsInOrder, mergedGroups, mergedGroups,
      hmerge]

def lateReply : Event := ⟨9000000, .user, py "m4", py "m1", py "is it deployed?"⟩

theorem same_atomic_segment_late_reply :
    ([ask, lateReply].map Event.msgId).Nodup ∧ (∀ e ∈ [ask, lateReply], e.msgId ≠ []) ∧
      ∃ s ∈ atomicSegments asciiEnv [ask, lateReply],
        ((passOne [ask, lateReply]).get ⟨1, by decide +kernel⟩).rows ⊆ s ∧
        ((passOne [ask, lateReply]).get ⟨0, by decide +kernel⟩).rows ⊆ s := by
  have hids : ([ask, lateReply].map Event.msgId).Nodup := by decide +kernel
  have hne : ∀ e ∈ [ask, lateReply], e.msgId ≠ [] := by decide +kernel
  refine ⟨hids, hne, ((same_atomic_segment_iff asciiEnv _ hids hne).1 _ _).mpr ⟨.rel _ _ ?_, _,
    .refl _, ?_⟩⟩
  · exact ⟨lateReply, by decide +kernel, ask, by decide +kernel, by decide +kernel, by decide +kernel⟩
  · exact ⟨lateReply, by decide +kernel, by decide +kernel⟩

def ack : Event := ⟨1000000, .bot, py "n1", [], py "👀"⟩
def lateAck : Event := ⟨9000000, .bot, py "n2", py "n1", py "👀"⟩

/-- Two segments of noise are connected and end in no atomic segment. -/
theorem connected_noise_dropped :
    ([ack, lateAck].map Event.msgId).Nodup ∧ (∀ e ∈ [ack, lateAck], e.msgId ≠ []) ∧
      [ack, lateAck].Pairwise tsLe ∧
      Relation.EqvGen (ReplyEdge asciiEnv (passOne [ack, lateAck])) ⟨1, by decide +kernel⟩
        ⟨0, by decide +kernel⟩ ∧
      atomicSegments asciiEnv [ack, lateAck] = [] := by
  refine ⟨by decide +kernel, by decide +kernel, by decide +kernel, .rel _ _ ?_, by decide +kernel⟩
  exact ⟨lateAck, by decide +kernel, ack, by decide +kernel, by decide +kernel, by decide +kernel⟩

section Merges
variable (env : Env) (segs : List Segment) (byMsg : Dict PyStr Event)

structure Merge where
  event : Event
  own : Fin segs.length
  child : Fin segs.length
  parent : Fin segs.length

/-- The merges of the reply loop, in order. -/
def merges (uf : Forest (Fin segs.length)) : List (Event × Fin segs.length) → List (Merge segs)
  | [] => []
  | q :: rest =>
      ((stitchMerge env segs byMsg uf q.1).map fun m => ⟨q.1, q.2, m.1, m.2⟩).toList ++
        merges (stitchReply env segs byMsg uf q.1) rest

lemma mem_merges {uf : Forest (Fin segs.length)} {l : List (Event × Fin segs.length)}
    {m : Merge segs} :
    m ∈ merges env segs byMsg uf l ↔ ∃ before after, l = before ++ (m.event, m.own) :: after ∧
      stitchMerge env segs byMsg
        ((before.map Prod.fst).foldl (stitchReply env segs byMsg) uf) m.event =
          some (m.child, m.parent) := by
  induction l generalizing uf with
  | nil => simp [merges]
  | cons q l ih =>
    rw [merges, List.mem_append, ih]
    constructor
    · rintro (h | ⟨before, after, rfl, h⟩)
      · obtain ⟨ed, hed, rfl⟩ := Option.map_eq_some_iff.mp (Option.mem_toList.mp h)
        exact ⟨[], l, rfl, hed⟩
      · exact ⟨q :: before, after, rfl, h⟩
    · rintro ⟨before, after, hl, h⟩
      cases before with
      | nil =>
        obtain ⟨rfl, rfl⟩ := List.cons.inj hl
        exact .inl (Option.mem_toList.mpr (Option.map_eq_some_iff.mpr ⟨_, h, rfl⟩))
      | cons q' before =>
        obtain ⟨rfl, rfl⟩ := List.cons.inj hl
        exact .inr ⟨before, after, rfl, h⟩

end Merges

/-- The last segment that holds an event without an id. -/
def lastUnnamed (segs : List Segment) : Option (Fin segs.length) :=
  (((placed segs).filter fun q => q.1.msgId = []).getLast?).map Prod.snd

lemma segOf_nil (segs : List Segment) : get? (segOf segs) [] = lastUnnamed segs := by
  rw [segOf_eq, get?_ofPairs, lastUnnamed, List.filter_map, List.getLast?_map, Option.map_map]
  rfl

/-- Every merge joins the segment of an event with the segment of the event its parent id
names, and a reply without an id stitches its own segment, exactly when each reply without an
id that gets through lies in the last segment that holds an event without an id. -/
theorem merges_join_replies_iff (env : Env) (evs : List Event) (hids : DistinctIds evs) :
    (∀ m ∈ merges env (passOne evs) (eventByMsg evs) (.singletons _) (placed (passOne evs)),
      (∃ q ∈ placed (passOne evs), q.2 = m.child ∧ q.1.parentId ≠ [] ∧
        ∃ p ∈ placed (passOne evs), p.2 = m.parent ∧ p.1.msgId = q.1.parentId) ∧
      (m.event.msgId = [] → m.own = m.child)) ↔
    ∀ before q after, placed (passOne evs) = before ++ q :: after → q.1.msgId = [] →
      ∀ last, lastUnnamed (passOne evs) = some last →
      q.1.parentId ≠ [] → ∀ p ∈ placed (passOne evs), p.1.msgId = q.1.parentId →
      shouldStrongStitchByReply env ((passOne evs).get last) ((passOne evs).get p.2) q.1 p.1 = true →
      (replyForest env evs (before.map Prod.fst)).root p.2 ≠
        (replyForest env evs (before.map Prod.fst)).root last →
      q.2 = last := by
  constructor
  · intro hall before q after hsplit hid last hlast hpid p hp hpq hs hroot
    have hedge : stitchEdge env (passOne evs) (eventByMsg evs) q.1 = some (last, p.2) := by
      refine (stitchEdge_eq_some_iff hids env q.1 last p.2).mpr ⟨?_, hpid, p, hp, hpq, rfl, hs⟩
      rw [hid, segOf_nil, hlast]
    have hmem : (⟨q.1, q.2, last, p.2⟩ : Merge (passOne evs)) ∈
        merges env (passOne evs) (eventByMsg evs) (.singletons _) (placed (passOne evs)) := by
      refine (mem_merges ..).mpr ⟨before, after, hsplit, ?_⟩
      rw [stitchMerge, hedge, Option.filter_some, if_pos]
      exact decide_eq_true hroot
    exact (hall _ hmem).2 hid
  · intro hcond m hm
    obtain ⟨before, after, hsplit, hmerge⟩ := (mem_merges ..).mp hm
    rw [stitchMerge, Option.filter_eq_some_iff] at hmerge
    obtain ⟨hedge, hroot⟩ := hmerge
    obtain ⟨hchild, hpid, p, hp, hpq, hpm, hs⟩ :=
      (stitchEdge_eq_some_iff hids env m.event m.child m.parent).mp hedge
    have hq : (m.event, m.own) ∈ placed (passOne evs) := hsplit ▸ by simp
    have hown : m.own = m.child := by
      by_cases hid : m.event.msgId = []
      · rw [hid, segOf_nil] at hchild
        rw [← hpm] at hs
        refine hcond before (m.event, m.own) after hsplit hid m.child hchild hpid p hp hpq hs ?_
        rw [hpm]
        exact of_decide_eq_true hroot
      · exact Option.some.inj ((segOf_of_mem hids hq hid).symm.trans hchild)
    exact ⟨⟨_, hq, hown, hpid, p, hp, hpm, hpq⟩, fun _ => hown⟩

def unnamedReply : Event := ⟨9000000, .user, [], py "m1", py "is it deployed?"⟩
def unnamedAsk : Event := ⟨17000000, .user, [], [], py "write the report"⟩

theorem merges_join_replies_one_unnamed : DistinctIds [ask, unnamedReply] ∧
    ∀ m ∈ merges asciiEnv (passOne [ask, unnamedReply]) (eventByMsg [ask, unnamedReply])
        (.singletons _) (placed (passOne [ask, unnamedReply])),
      m.event.msgId = [] → m.own = m.child := by
  have hids : DistinctIds [ask, unnamedReply] := by
    unfold DistinctIds
    decide +kernel
  refine ⟨hids, fun m hm => ((merges_join_replies_iff asciiEnv _ hids).mpr ?_ m hm).2⟩
  intro before q after hsplit hid last hlast _ _ _ _ _ _
  have hall : ∀ q ∈ placed (passOne [ask, unnamedReply]), q.1.msgId = [] →
      ∀ last ∈ lastUnnamed (passOne [ask, unnamedReply]), q.2 = last := by decide +kernel
  exact hall q (hsplit ▸ by simp) hid last hlast

/-- The reply of the second segment puts the third one, which is about something else, into
the first. -/
theorem unnamed_reply_stitches_other_segment :
    DistinctIds [ask, unnamedReply, unnamedAsk] ∧ [ask, unnamedReply, unnamedAsk].Pairwise tsLe ∧
      (∃ m ∈ merges asciiEnv (passOne [ask, unnamedReply, unnamedAsk])
          (eventByMsg [ask, unnamedReply, unnamedAsk]) (.singletons _)
          (placed (passOne [ask, unnamedReply, unnamedAsk])),
        m.event = unnamedReply ∧ m.own ≠ m.child) ∧
      atomicSegments asciiEnv [ask, unnamedReply, unnamedAsk] =
        [[ask, unnamedAsk], [unnamedReply]] := by
  unfold DistinctIds
  refine ⟨by decide +kernel, by decide +kernel, by decide +kernel, by decide +kernel⟩

end AgentTrajectory.TaskStitch
