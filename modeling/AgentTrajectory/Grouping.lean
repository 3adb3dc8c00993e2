import AgentTrajectory.PyValue

/-! Rows filed under a key in the order they come, and what of it does not depend on that order. -/
namespace AgentTrajectory.Grouping
open PyText PyDict

variable {α β κ : Type} [DecidableEq κ]

/-- `d = defaultdict(list)` and `d[f(x)].append(x)` for every row. -/
def groupBy (f : α → κ) (xs : List α) : Dict κ (List α) := xs.foldl (fun d x => extendAt d (f x) [x]) []

lemma groupBy_eq (f : α → κ) (xs : List α) :
    groupBy f xs = (firstOccurrences (xs.map f)).map fun k => (k, xs.filter fun x => f x = k) := by
  rw [groupBy, foldl_extendAt]
  simp only [List.flatMap_singleton']

lemma flatMap_filter_perm {f : α → κ} {ks : List κ} (hks : ks.Nodup) {xs : List α} (h : ∀ x ∈ xs, f x ∈ ks) :
    (ks.flatMap fun k => xs.filter fun x => f x = k).Perm xs := by
  induction xs with
  | nil => simp
  | cons x xs ih =>
    obtain ⟨front, back, rfl⟩ := List.append_of_mem (h x (by simp))
    have hout : ∀ k ∈ front ++ back, f x ≠ k := by
      intro k hk he
      have hnodup := List.nodup_middle.mp hks
      exact (List.nodup_cons.mp hnodup).1 (he ▸ hk)
    have hskip : ∀ ks' : List κ, (∀ k ∈ ks', k ∈ front ++ back) →
        (ks'.flatMap fun k => (x :: xs).filter fun y => f y = k) = ks'.flatMap fun k =>
          xs.filter fun y => f y = k := by
      intro ks' hsub
      refine List.flatMap_congr fun k hk => ?_
      simp [hout k (hsub k hk)]
    have hrest := ih fun y hy => h y (by simp [hy])
    rw [List.flatMap_append, List.flatMap_cons] at hrest ⊢
    rw [hskip front (by simp +contextual), hskip back (by simp +contextual)]
    simp only [List.filter_cons, decide_true, if_true, List.cons_append]
    exact List.perm_middle.trans (hrest.cons x)

lemma groupBy_perm (f : α → κ) (xs : List α) : ((groupBy f xs).flatMap Prod.snd).Perm xs := by
  rw [groupBy_eq, List.flatMap_map]
  exact flatMap_filter_perm (firstOccurrences_nodup _) fun x hx =>
    mem_firstOccurrences.mpr (List.mem_map_of_mem hx)

lemma groupBy_ok (f : α → κ) (xs : List α) :
    ((groupBy f xs).flatMap Prod.snd).Perm xs ∧ ((groupBy f xs).map Prod.fst).Nodup ∧
      ∀ g ∈ groupBy f xs, g.2 ≠ [] ∧ ∀ x ∈ g.2, x ∈ xs ∧ f x = g.1 := by
  refine ⟨groupBy_perm f xs, ?_, fun g hg => ?_⟩
  · rw [groupBy_eq, List.map_map]
    change ((firstOccurrences (xs.map f)).map id).Nodup
    rw [List.map_id]
    exact firstOccurrences_nodup _
  · rw [groupBy_eq] at hg
    obtain ⟨k, hk, rfl⟩ := List.mem_map.mp hg
    refine ⟨?_, fun x hx => ?_⟩
    · obtain ⟨x, hx, hxk⟩ := List.mem_map.mp (mem_firstOccurrences.mp hk)
      exact List.ne_nil_of_mem (List.mem_filter.mpr ⟨hx, by simpa using hxk⟩)
    · obtain ⟨hx, hxk⟩ := List.mem_filter.mp hx
      exact ⟨hx, of_decide_eq_true hxk⟩

lemma firstOccurrences_perm {xs ys : List κ} (h : xs.Perm ys) :
    (firstOccurrences xs).Perm (firstOccurrences ys) := by
  refine (List.perm_ext_iff_of_nodup (firstOccurrences_nodup xs) (firstOccurrences_nodup ys)).mpr fun k => ?_
  rw [mem_firstOccurrences, mem_firstOccurrences, h.mem_iff]

lemma mapM_perm {f : α → Except PyError β} {xs ys : List α} (h : xs.Perm ys) {rs : List β}
    (hrs : xs.mapM f = .ok rs) :
    ∃ rs', ys.mapM f = .ok rs' ∧ rs'.Perm rs := by
  have hcomp : Relation.Comp List.Perm (List.Forall₂ fun x r => f x = .ok r) ys rs :=
    ⟨xs, h.symm, PyValue.mapM_eq_ok.mp hrs⟩
  rw [← List.forall₂_comp_perm_eq_perm_comp_forall₂] at hcomp
  obtain ⟨rs', hrs', hperm⟩ := hcomp
  exact ⟨rs', PyValue.mapM_eq_ok.mpr hrs', hperm⟩

section Sorting
variable {τ : Type} [LinearOrder τ]

/-- `sorted(xs, key=key)`. -/
def sortBy (key : α → τ) (xs : List α) : List α := xs.insertionSort fun a b => key a ≤ key b

lemma sortBy_perm (key : α → τ) (xs : List α) : (sortBy key xs).Perm xs := List.perm_insertionSort _ xs

lemma sortBy_sorted (key : α → τ) (xs : List α) : (sortBy key xs).Pairwise fun a b => key a ≤ key b := by
  have : Std.Total fun a b : α => key a ≤ key b := ⟨fun a b => le_total (key a) (key b)⟩
  have : IsTrans α fun a b : α => key a ≤ key b := ⟨fun _ _ _ => le_trans⟩
  exact List.pairwise_insertionSort _ xs

lemma sortBy_of_sorted {key : α → τ} {xs : List α} (h : xs.Pairwise fun a b => key a ≤ key b) :
    sortBy key xs = xs :=
  List.Pairwise.insertionSort_eq h

lemma sortBy_eq_of_perm {key : α → τ} {xs ys : List α} (h : xs.Perm ys) (hkeys : (xs.map key).Nodup) :
    sortBy key xs = sortBy key ys := by
  have hperm : (sortBy key xs).Perm (sortBy key ys) :=
    (sortBy_perm key xs).trans (h.trans (sortBy_perm key ys).symm)
  refine hperm.eq_of_pairwise (fun a b ha hb hab hba => ?_) (sortBy_sorted key xs) (sortBy_sorted key ys)
  have hmem : a ∈ xs ∧ b ∈ xs :=
    ⟨(sortBy_perm key xs).mem_iff.mp ha, h.mem_iff.mpr ((sortBy_perm key ys).mem_iff.mp hb)⟩
  exact List.inj_on_of_nodup_map hkeys hmem.1 hmem.2 (le_antisymm hab hba)

end Sorting

end AgentTrajectory.Grouping
