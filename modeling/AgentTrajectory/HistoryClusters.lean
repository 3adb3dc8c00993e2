import AgentTrajectory.NeighbourRuns
import AgentTrajectory.SegmentStitching
import AgentTrajectory.Subrequirements

/-! `segment_history` of `task_stitch.py`: neighbouring atomic segments that are close in time and
share terms are joined, in a forest of their own. -/
namespace AgentTrajectory.TaskStitch
open PyText NeighbourRuns

variable (r : RouteEnv)

def clusterTerms (cl : List Event) : List PyStr :=
  cl.foldl (fun t e => if isNoise e.text then t else (t ++ termsOf r e.text).dedup) []

def tailTs (c : List Event) : ℤ := (c.getLast?.map Event.ts).getD 0

/-- At most 20 minutes between the clusters, and an overlap of terms that scores 4. -/
def overlapping (a b : List Event) : Bool :=
  let overlap := (clusterTerms r a).filter (clusterTerms r b).elem
  headTs b - tailTs a ≤ 1200 * 1000 && 4 ≤ score overlap overlap

def segmentHistory (evs : List Event) : List (List Event) :=
  let clusters := atomicSegments r.env evs
  if clusters.isEmpty then []
  else (gather clusters id (united (overlapping r) clusters)).map sortByTs

lemma headTs_le {c : List Event} (hc : c.Pairwise tsLe) {e : Event} (he : e ∈ c) : headTs c ≤ e.ts := by
  cases c with
  | nil => cases he
  | cons d c =>
    rcases List.mem_cons.mp he with rfl | he
    · exact le_rfl
    · exact (List.pairwise_cons.mp hc).1 e he

lemma exists_headTs {c : List Event} (hc : c ≠ []) : ∃ e ∈ c, e.ts = headTs c := by
  cases c with
  | nil => exact absurd rfl hc
  | cons d c => exact ⟨d, by simp, rfl⟩

lemma headTs_sortByTs_flatten {s : List Event} {run : List (List Event)}
    (hrun : (s :: run).Pairwise fun a b => headTs a ≤ headTs b) (hsorted : ∀ c ∈ s :: run,
      c ≠ [] ∧ c.Pairwise tsLe) :
    headTs (sortByTs (s :: run).flatten) = headTs s := by
  obtain ⟨e, he, hts⟩ := exists_headTs (hsorted s (by simp)).1
  have hin : e ∈ sortByTs (s :: run).flatten :=
    (sortByTs_perm _).mem_iff.mpr (List.mem_flatten.mpr ⟨s, by simp, he⟩)
  refine le_antisymm ?_ ?_
  · rw [← hts]
    exact headTs_le (pairwise_sortByTs _) hin
  · obtain ⟨d, hd, hdts⟩ := exists_headTs (List.ne_nil_of_mem hin)
    obtain ⟨c, hc, hdc⟩ := List.mem_flatten.mp ((sortByTs_perm _).mem_iff.mp hd)
    rw [← hdts]
    refine le_trans ?_ (headTs_le (hsorted c hc).2 hdc)
    rcases List.mem_cons.mp hc with rfl | hc
    · exact le_rfl
    · exact (List.pairwise_cons.mp hrun).1 c hc

variable (evs : List Event)

variable {r evs} in
lemma mem_run {run : List (List Event)}
    (hrun : run ∈ (atomicSegments r.env evs).splitBy (overlapping r)) {c : List Event}
    (hc : c ∈ run) : c.Pairwise tsLe ∧ ∃ e ∈ c, isNoise e.text = false := by
  have hatom : c ∈ ((atomicSegments r.env evs).splitBy (overlapping r)).flatten :=
    List.mem_flatten.mpr ⟨_, hrun, hc⟩
  rw [List.flatten_splitBy, atomicSegments_eq, mem_atomicSegmentsInOrder] at hatom
  obtain ⟨hsorted, he⟩ := hatom
  obtain ⟨rs, -, rfl⟩ := List.mem_map.mp hsorted
  exact ⟨pairwise_sortByTs rs, he⟩

lemma segmentHistory_eq_runs :
    segmentHistory r evs = ((atomicSegments r.env evs).splitBy (overlapping r)).map fun run =>
    sortByTs run.flatten := by
  rw [segmentHistory]
  split_ifs with h
  · rw [List.isEmpty_iff.mp h]
    rfl
  · rw [gather_united, List.map_map]
    refine List.map_congr_left fun run _ => ?_
    rw [Function.comp_apply, List.flatMap_id]

lemma segmentHistory_ordered : (segmentHistory r evs).Pairwise fun a b => headTs a ≤ headTs b := by
  have hatoms : ((atomicSegments r.env evs).splitBy (overlapping r)).flatten.Pairwise fun a b =>
    headTs a ≤ headTs b := by
    rw [List.flatten_splitBy]
    exact pairwise_sortByHead id _
  obtain ⟨hinside, hacross⟩ := List.pairwise_flatten.mp hatoms
  have hhead : ∀ run ∈ (atomicSegments r.env evs).splitBy (overlapping r),
      ∃ s ∈ run, headTs (sortByTs run.flatten) = headTs s := by
    intro run hrun
    cases run with
    | nil => exact absurd hrun (List.nil_notMem_splitBy _ _)
    | cons s run =>
      refine ⟨s, by simp, headTs_sortByTs_flatten (hinside _ hrun) fun c hc => ?_⟩
      obtain ⟨hsorted, e, he, -⟩ := mem_run hrun hc
      exact ⟨List.ne_nil_of_mem he, hsorted⟩
  rw [segmentHistory_eq_runs, List.pairwise_map]
  refine hacross.imp_of_mem fun {a b} ha hb hab => ?_
  obtain ⟨s, hs, hsa⟩ := hhead a ha
  obtain ⟨t, ht, htb⟩ := hhead b hb
  rw [hsa, htb]
  exact hab s hs t ht

lemma segmentHistory_perm :
    ∃ dropped, (∀ e ∈ dropped, isNoise e.text = true) ∧ ((segmentHistory r evs).flatten ++ dropped).Perm evs := by
  obtain ⟨dropped, hnoise, hperm⟩ := atomicSegments_perm r.env evs
  refine ⟨dropped, hnoise, List.Perm.trans (List.Perm.append_right _ ?_) hperm⟩
  have hruns : ∀ runs : List (List (List Event)),
      (runs.map fun run => sortByTs run.flatten).flatten.Perm runs.flatten.flatten := by
    intro runs
    induction runs with
    | nil => exact .refl _
    | cons run runs ih =>
      rw [List.map_cons, List.flatten_cons, List.flatten_cons, List.flatten_append]
      exact (sortByTs_perm _).append ih
  rw [segmentHistory_eq_runs]
  have h := hruns ((atomicSegments r.env evs).splitBy (overlapping r))
  rwa [List.flatten_splitBy] at h

/-- The clusters are the longest runs of overlapping neighbours among the atomic segments. They
stand in the order of their first events, and every message is in one of them, except for dropped
noise. -/
theorem segmentHistory_partition :
    segmentHistory r evs = ((atomicSegments r.env evs).splitBy (overlapping r)).map
      (fun run => sortByTs run.flatten) ∧
      ((segmentHistory r evs).Pairwise fun a b => headTs a ≤ headTs b) ∧
      (∀ c ∈ segmentHistory r evs, c.Pairwise tsLe ∧ ∃ e ∈ c, isNoise e.text = false) ∧
      ∃ dropped, (∀ e ∈ dropped, isNoise e.text = true) ∧
        ((segmentHistory r evs).flatten ++ dropped).Perm evs := by
  refine ⟨segmentHistory_eq_runs r evs, segmentHistory_ordered r evs, fun c hc => ?_, segmentHistory_perm r evs⟩
  rw [segmentHistory_eq_runs] at hc
  obtain ⟨run, hrun, rfl⟩ := List.mem_map.mp hc
  refine ⟨pairwise_sortByTs _, ?_⟩
  cases run with
  | nil => exact absurd hrun (List.nil_notMem_splitBy _ _)
  | cons s run =>
    obtain ⟨-, e, he, hnoise⟩ := mem_run hrun List.mem_cons_self
    exact ⟨e, (sortByTs_perm _).mem_iff.mpr (List.mem_flatten.mpr ⟨s, by simp, he⟩), hnoise⟩

end AgentTrajectory.TaskStitch
