import AgentTrajectory.TaskStitch

/-! What `atomic_segments` returns. The reply loop joins segments along the accepted reply
edges, so that the merged groups are the components of the segments under these edges. -/
namespace AgentTrajectory.TaskStitch
open PyText PyDict

/-- The segments of pass one. -/
def passOne (evs : List Event) : List Segment := firstCut defaultGap (effectiveTopics [] evs)

/-- The forest the reply loop leaves when it examines the events in a given order. -/
def replyForest (env : Env) (evs order : List Event) : Forest (Fin (passOne evs).length) :=
  order.foldl (stitchReply env (passOne evs) (eventByMsg evs)) (Forest.singletons _)

def mergedGroups (env : Env) (evs order : List Event) : List (List Event) :=
  (mergeSegments (passOne evs) (replyForest env evs order)).map sortByTs

def atomicSegmentsInOrder (env : Env) (evs order : List Event) : List (List Event) :=
  sortByHead id ((mergedGroups env evs order).filter fun rs => !rs.all fun e => isNoise e.text)

lemma atomicSegments_eq (env : Env) (evs : List Event) :
    atomicSegments env evs = atomicSegmentsInOrder env evs evs := rfl

lemma mem_atomicSegmentsInOrder {env : Env} {evs order : List Event} {s : List Event} :
    s ∈ atomicSegmentsInOrder env evs order ↔
      s ∈ mergedGroups env evs order ∧ ∃ e ∈ s, isNoise e.text = false := by
  rw [atomicSegmentsInOrder, (sortByHead_perm id _).mem_iff, List.mem_filter]
  simp

lemma passOne_rows (evs : List Event) : (passOne evs).flatMap Segment.rows = evs := by
  rw [passOne, firstCut_rows, effectiveTopics_fst]

lemma mergedGroups_perm (env : Env) (evs order : List Event) :
    (mergedGroups env evs order).flatten.Perm evs := by
  have hsort : (mergedGroups env evs order).flatten.Perm
      (mergeSegments (passOne evs) (replyForest env evs order)).flatten := by
    rw [mergedGroups, ← List.flatMap_def, ← List.flatMap_id]
    exact List.Perm.flatMap_left _ fun c _ => sortByTs_perm c
  have hmerge := mergeSegments_perm (passOne evs) (replyForest env evs order)
  rw [passOne_rows] at hmerge
  exact hsort.trans hmerge

lemma atomicSegments_dropped (env : Env) (evs : List Event) : ∃ dropped : List (List Event),
      (∀ g ∈ dropped, g ∈ mergedGroups env evs evs ∧ ∀ e ∈ g, isNoise e.text = true) ∧
      ((atomicSegments env evs).flatten ++ dropped.flatten).Perm evs := by
  let keep := fun rs : List Event => !rs.all fun e => isNoise e.text
  let dropped := (mergedGroups env evs evs).filter fun rs => !keep rs
  refine ⟨dropped, fun g hg => ?_, ?_⟩
  · obtain ⟨hmem, hnoise⟩ := List.mem_filter.mp hg
    exact ⟨hmem, by simpa [keep] using hnoise⟩
  · have hsplit : (((mergedGroups env evs evs).filter keep).flatten ++ dropped.flatten).Perm
        (mergedGroups env evs evs).flatten := by
      rw [← List.flatten_append]
      exact (List.filter_append_perm keep _).flatten
    have hsort : (atomicSegments env evs).flatten.Perm
        ((mergedGroups env evs evs).filter keep).flatten := (sortByHead_perm id _).flatten
    exact ((hsort.append_right _).trans hsplit).trans (mergedGroups_perm env evs evs)

theorem atomicSegments_perm (env : Env) (evs : List Event) :
    ∃ dropped, (∀ e ∈ dropped, isNoise e.text = true) ∧
      ((atomicSegments env evs).flatten ++ dropped).Perm evs := by
  obtain ⟨dropped, hdropped, hperm⟩ := atomicSegments_dropped env evs
  refine ⟨dropped.flatten, fun e he => ?_, hperm⟩
  obtain ⟨g, hg, heg⟩ := List.mem_flatten.mp he
  exact (hdropped g hg).2 e heg

/-- The segments are non-empty, sorted and in order; they hold every event once, except for
the events of merged groups that are noise throughout. -/
theorem atomicSegments_partition (env : Env) (evs : List Event) :
    (∀ s ∈ atomicSegments env evs, s ≠ [] ∧ s.Pairwise tsLe) ∧
      (atomicSegments env evs).Pairwise (fun a b => headTs a ≤ headTs b) ∧
      (∃ dropped : List (List Event),
        (∀ g ∈ dropped, g ∈ mergedGroups env evs evs ∧ ∀ e ∈ g, isNoise e.text = true) ∧
        ((atomicSegments env evs).flatten ++ dropped.flatten).Perm evs) ∧
      ∀ e ∈ evs, isNoise e.text = false → ∃ s ∈ atomicSegments env evs, e ∈ s := by
  obtain ⟨dropped, hdropped, hperm⟩ := atomicSegments_dropped env evs
  refine ⟨fun s hs => ?_, pairwise_sortByHead id _, ⟨dropped, hdropped, hperm⟩, fun e he hnoise => ?_⟩
  · rw [atomicSegments_eq, mem_atomicSegmentsInOrder] at hs
    obtain ⟨hs, e, he, -⟩ := hs
    obtain ⟨rs, -, rfl⟩ := List.mem_map.mp hs
    exact ⟨List.ne_nil_of_mem he, pairwise_sortByTs rs⟩
  · rcases List.mem_append.mp (hperm.mem_iff.mpr he) with h | h
    · exact List.mem_flatten.mp h
    · obtain ⟨g, hg, heg⟩ := List.mem_flatten.mp h
      rw [(hdropped g hg).2 e heg] at hnoise
      cases hnoise

section Edges
variable (env : Env) (segs : List Segment) (byMsg : Dict PyStr Event)

def acceptsReply (e : Event) (childSi parentSi : Fin segs.length) : Bool :=
  match get? byMsg e.parentId with
  | none => true
  | some parentEv =>
      shouldStrongStitchByReply env (segs.get childSi) (segs.get parentSi) e parentEv

def stitchEdge (e : Event) : Option (Fin segs.length × Fin segs.length) :=
  match (if e.parentId.isEmpty then none else get? (segOf segs) e.parentId),
      get? (segOf segs) e.msgId with
  | some parentSi, some childSi =>
      if acceptsReply env segs byMsg e childSi parentSi then some (childSi, parentSi) else none
  | _, _ => none

def stitchMerge (uf : Forest (Fin segs.length)) (e : Event) :
    Option (Fin segs.length × Fin segs.length) :=
  (stitchEdge env segs byMsg e).filter fun m => uf.root m.2 ≠ uf.root m.1

lemma root_stitchReply_merge (uf : Forest (Fin segs.length)) (e : Event) (i : Fin segs.length) :
    (stitchReply env segs byMsg uf e).root i =
      (stitchMerge env segs byMsg uf e).elim (uf.root i) fun m => Forest.join uf.root m i := by
  rw [stitchReply, stitchMerge, stitchEdge]
  generalize (if e.parentId.isEmpty then none else get? (segOf segs) e.parentId) = parent
  generalize get? (segOf segs) e.msgId = child
  cases parent with
  | none => rfl
  | some parentSi =>
    cases child with
    | none => rfl
    | some childSi =>
      change (if ((uf.find parentSi).1 ≠ ((uf.find parentSi).2.find childSi).1 ∧
        acceptsReply env segs byMsg e childSi parentSi = true) then _ else _ : Forest _).root i = _
      simp only [Forest.find_fst, Forest.root_find]
      by_cases hne : uf.root parentSi = uf.root childSi
      · cases acceptsReply env segs byMsg e childSi parentSi <;> simp [Option.filter_some, hne]
      · cases acceptsReply env segs byMsg e childSi parentSi
        · simp
        · simp [Option.filter_some, hne, Forest.root_link, Forest.join]

lemma root_stitchReply (uf : Forest (Fin segs.length)) (e : Event) (i : Fin segs.length) :
    (stitchReply env segs byMsg uf e).root i =
      (stitchEdge env segs byMsg e).elim (uf.root i) fun m => Forest.join uf.root m i := by
  rw [root_stitchReply_merge, stitchMerge]
  cases stitchEdge env segs byMsg e with
  | none => rfl
  | some m =>
    by_cases hne : uf.root m.2 = uf.root m.1
    · have hjoin : Forest.join uf.root m i = uf.root i := by
        rw [Forest.join, hne]
        split_ifs with hi
        · exact hi.symm
        · rfl
      simp [Option.filter_some, hne, hjoin]
    · simp [Option.filter_some, hne]

lemma root_foldl_stitchReply (uf : Forest (Fin segs.length)) (order : List Event) :
    (order.foldl (stitchReply env segs byMsg) uf).root =
      (order.filterMap (stitchEdge env segs byMsg)).foldl Forest.join uf.root := by
  induction order generalizing uf with
  | nil => rfl
  | cons e order ih =>
    have hstep := funext (root_stitchReply env segs byMsg uf e)
    rw [List.foldl_cons, ih, hstep]
    cases he : stitchEdge env segs byMsg e with
    | none => rw [List.filterMap_cons_none he]; rfl
    | some m => rw [List.filterMap_cons_some he]; rfl

end Edges

lemma root_replyForest_iff (env : Env) (evs order : List Event) (i j : Fin (passOne evs).length) :
    (replyForest env evs order).root i = (replyForest env evs order).root j ↔
      Relation.EqvGen (fun a b => ∃ e ∈ order,
        stitchEdge env (passOne evs) (eventByMsg evs) e = some (a, b)) i j := by
  rw [replyForest, root_foldl_stitchReply, Forest.foldl_join_eq_iff]
  constructor
  · refine Forest.eqvGen_of_rel fun a b hab => ?_
    rcases hab with hab | hab
    · rw [Forest.root_singletons, Forest.root_singletons] at hab
      exact hab ▸ .refl a
    · exact .rel _ _ (List.mem_filterMap.mp hab)
  · exact Forest.eqvGen_of_rel fun a b hab => .rel _ _ (.inr (List.mem_filterMap.mpr hab))

lemma mergeSegments_eq (segs : List Segment) (uf : Forest (Fin segs.length)) :
    mergeSegments segs uf =
      (firstOccurrences ((List.finRange segs.length).map uf.root)).map fun r =>
        ((List.finRange segs.length).filter fun i => uf.root i = r).flatMap fun i =>
          (segs.get i).rows := by
  have hfold : ∀ (l : List (Fin segs.length)) (F : Forest (Fin segs.length))
      (d : Dict (Fin segs.length) (List Event)), F.root = uf.root →
      (l.foldl (fun (acc : Forest (Fin segs.length) × Dict (Fin segs.length) (List Event)) si =>
        ((acc.1.find si).2, extendAt acc.2 (acc.1.find si).1 (segs.get si).rows)) (F, d)).2 =
      l.foldl (fun d si => extendAt d (uf.root si) (segs.get si).rows) d := by
    intro l
    induction l with
    | nil => intros; rfl
    | cons si l ih =>
      intro F d hF
      rw [List.foldl_cons, List.foldl_cons, ih _ _ ((funext (Forest.root_find F si)).trans hF),
        Forest.find_fst, hF]
  rw [mergeSegments]
  simp only
  rw [hfold _ uf [] rfl, foldl_extendAt, List.map_map]
  rfl

lemma mergeSegments_congr (segs : List Segment) {F G : Forest (Fin segs.length)}
    (h : ∀ i j, F.root i = F.root j ↔ G.root i = G.root j) :
    mergeSegments segs F = mergeSegments segs G := by
  have hG : ∀ i, G.root (F.root i) = G.root i := fun i => (h _ _).mp (F.root_root i)
  have hroots : (List.finRange segs.length).map G.root =
      ((List.finRange segs.length).map F.root).map G.root := by
    rw [List.map_map]
    exact List.map_congr_left fun i _ => (hG i).symm
  rw [mergeSegments_eq, mergeSegments_eq, hroots, firstOccurrences_map G.root, List.map_map]
  · refine List.map_congr_left fun r hr => ?_
    obtain ⟨k, -, rfl⟩ := List.mem_map.mp (mem_firstOccurrences.mp hr)
    have hfilter : ∀ i, F.root i = F.root k ↔ G.root i = G.root (F.root k) := by
      intro i
      rw [h, hG]
    simp only [hfilter, Function.comp_apply]
  · intro a ha b hb hab
    obtain ⟨i, -, rfl⟩ := List.mem_map.mp ha
    obtain ⟨j, -, rfl⟩ := List.mem_map.mp hb
    rw [hG, hG] at hab
    exact (h i j).mpr hab

lemma mem_mergedGroups {env : Env} {evs order : List Event} {s : List Event} :
    s ∈ mergedGroups env evs order ↔ ∃ k, s = sortByTs
      (((List.finRange (passOne evs).length).filter fun i =>
        (replyForest env evs order).root i = (replyForest env evs order).root k).flatMap fun i =>
          ((passOne evs).get i).rows) := by
  rw [mergedGroups, mergeSegments_eq, List.map_map, List.mem_map]
  constructor
  · rintro ⟨r, hr, rfl⟩
    obtain ⟨k, -, rfl⟩ := List.mem_map.mp (mem_firstOccurrences.mp hr)
    exact ⟨k, rfl⟩
  · rintro ⟨k, rfl⟩
    exact ⟨_, mem_firstOccurrences.mpr (List.mem_map_of_mem (List.mem_finRange k)), rfl⟩

end AgentTrajectory.TaskStitch
