import Mathlib

/-! Settling items by nearness, in rounds. An item has a list of candidate places. In each round an
item with one candidate strictly nearest to the span of all places settled so far takes that place,
and the span widens for the next round. -/
namespace AgentTrajectory.NearestSettling
variable {ι : Type*}

def span (ps : List ℕ) : Option (ℕ × ℕ) :=
  let sorted := ps.insertionSort (· ≤ ·)
  sorted.head?.bind fun lo => sorted.getLast?.map fun hi => (lo, hi)

def distance (lo hi p : ℕ) : ℕ :=
  if lo ≤ p ∧ p ≤ hi then 0 else min (Nat.dist p lo) (Nat.dist p hi)

def StrictlyNearest (lo hi : ℕ) (ps : List ℕ) (p : ℕ) : Prop :=
  p ∈ ps ∧ ∀ q ∈ ps, q ≠ p → distance lo hi p < distance lo hi q

instance decidableStrictlyNearest (lo hi : ℕ) (ps : List ℕ) : DecidablePred (StrictlyNearest lo hi ps) :=
  fun _ => inferInstanceAs (Decidable (_ ∧ _))

def nearest? (lo hi : ℕ) (ps : List ℕ) : Option ℕ := ps.find? fun p => StrictlyNearest lo hi ps p

lemma StrictlyNearest.unique {lo hi p q : ℕ} {ps : List ℕ} (hp : StrictlyNearest lo hi ps p)
    (hq : StrictlyNearest lo hi ps q) : p = q := by
  by_contra hne
  exact (hp.2 q hq.1 (Ne.symm hne)).asymm (hq.2 p hp.1 hne)

lemma nearest?_eq_some {lo hi p : ℕ} {ps : List ℕ} :
    nearest? lo hi ps = some p ↔ StrictlyNearest lo hi ps p := by
  constructor
  · intro h
    simpa using List.find?_some h
  · intro h
    cases hf : nearest? lo hi ps with
    | none => simpa [h] using List.find?_eq_none.mp hf p h.1
    | some q =>
      have hq : StrictlyNearest lo hi ps q := by simpa using List.find?_some hf
      rw [hq.unique h]

def settle (cands : ι → List ℕ) : ℕ → List (ι × ℕ) → List ι → List (ι × ℕ) × List ι
  | 0, settled, rest => (settled, rest)
  | n + 1, settled, rest =>
      match span (settled.map Prod.snd) with
      | none => (settled, rest)
      | some (lo, hi) =>
          let new := rest.filterMap fun x => (nearest? lo hi (cands x)).map fun p => (x, p)
          if new = [] then (settled, rest)
          else settle cands n (settled ++ new) (rest.filter fun x => nearest? lo hi (cands x) = none)

section Right
variable (own : ι → ℕ) (cands : ι → List ℕ)

def widen (s : List ι × List ι) : List ι × List ι :=
  match span (s.1.map own) with
  | none => s
  | some (lo, hi) =>
      (s.1 ++ s.2.filter fun x => StrictlyNearest lo hi (cands x) (own x),
        s.2.filter fun x => ¬StrictlyNearest lo hi (cands x) (own x))

def NoneMisled (s : List ι × List ι) : Prop :=
  ∀ lo hi, span (s.1.map own) = some (lo, hi) → ∀ x ∈ s.2, ∀ p, StrictlyNearest lo hi (cands x) p → p = own x

variable {own cands}

lemma mem_settle {n : ℕ} {settled : List (ι × ℕ)} {rest : List ι} {e : ι × ℕ} (h : e ∈ settled) :
    e ∈ (settle cands n settled rest).1 := by
  induction n generalizing settled rest with
  | zero => exact h
  | succ n ih =>
    rw [settle]
    cases span (settled.map Prod.snd) with
    | none => exact h
    | some s =>
      dsimp only
      split_ifs
      · exact h
      · exact ih (List.mem_append_left _ h)

lemma round_perm (near : ι → Option ℕ) (rest : List ι) :
    ((rest.filterMap fun x => (near x).map fun p => (x, p)).map Prod.fst ++ rest.filter fun x =>
      near x = none).Perm rest := by
  have hnew : (rest.filterMap fun x => (near x).map fun p => (x, p)).map Prod.fst =
      rest.filter fun x => !decide (near x = none) := by
    induction rest with
    | nil => rfl
    | cons x rest ih =>
      cases hx : near x with
      | none => rw [List.filterMap_cons_none (by rw [hx]; rfl), List.filter_cons_of_neg (by simp [hx]), ih]
      | some p =>
        rw [List.filterMap_cons_some (by rw [hx]; rfl), List.filter_cons_of_pos (by simp [hx]), List.map_cons, ih]
  rw [hnew]
  exact List.perm_append_comm.trans (List.filter_append_perm _ rest)

lemma settle_perm (n : ℕ) (settled : List (ι × ℕ)) (rest : List ι) :
    ((settle cands n settled rest).1.map Prod.fst ++ (settle cands n settled rest).2).Perm
      (settled.map Prod.fst ++ rest) := by
  induction n generalizing settled rest with
  | zero => exact .refl _
  | succ n ih =>
    rw [settle]
    cases span (settled.map Prod.snd) with
    | none => exact .refl _
    | some s =>
      dsimp only
      split_ifs
      · exact .refl _
      · refine (ih _ _).trans ?_
        rw [List.map_append, List.append_assoc]
        exact (round_perm _ rest).append_left _

lemma map_snd_of_right {settled : List (ι × ℕ)} (h : ∀ e ∈ settled, e.2 = own e.1) :
    settled.map Prod.snd = (settled.map Prod.fst).map own := by
  rw [List.map_map]
  exact List.map_congr_left h

lemma iterate_widen_of_fixed {s : List ι × List ι} (h : widen own cands s = s) (k : ℕ) :
    (widen own cands)^[k] s = s := Function.iterate_fixed h k

lemma new_of_noneMisled {lo hi : ℕ} {rest : List ι}
    (h : ∀ x ∈ rest, ∀ p, StrictlyNearest lo hi (cands x) p → p = own x) :
    (rest.filterMap fun x => (nearest? lo hi (cands x)).map fun p => (x, p)) =
      (rest.filter fun x => StrictlyNearest lo hi (cands x) (own x)).map fun x => (x, own x) := by
  induction rest with
  | nil => rfl
  | cons x rest ih =>
    have ih := ih fun y hy => h y (List.mem_cons_of_mem _ hy)
    cases hx : nearest? lo hi (cands x) with
    | none =>
      have hnot : ¬StrictlyNearest lo hi (cands x) (own x) := fun hs => by
        rw [nearest?_eq_some.mpr hs] at hx
        simp at hx
      rw [List.filterMap_cons_none (by rw [hx]; rfl), List.filter_cons_of_neg (by simpa using hnot), ih]
    | some p =>
      have hs := nearest?_eq_some.mp hx
      have hp := h x List.mem_cons_self p hs
      subst hp
      rw [List.filterMap_cons_some (by rw [hx]; rfl), List.filter_cons_of_pos (by simpa using hs), ih]
      rfl

lemma left_of_noneMisled {lo hi : ℕ} {rest : List ι}
    (h : ∀ x ∈ rest, ∀ p, StrictlyNearest lo hi (cands x) p → p = own x) :
    (rest.filter fun x => nearest? lo hi (cands x) = none) =
      rest.filter fun x => ¬StrictlyNearest lo hi (cands x) (own x) := by
  refine List.filter_congr fun x hx => ?_
  rw [decide_eq_decide]
  constructor
  · intro hnone hs
    rw [nearest?_eq_some.mpr hs] at hnone
    simp at hnone
  · intro hnot
    cases hp : nearest? lo hi (cands x) with
    | none => rfl
    | some p =>
      have hs := nearest?_eq_some.mp hp
      exact absurd (h x hx p hs ▸ hs) hnot

lemma mem_settle_of_nearest {n lo hi p : ℕ} {settled : List (ι × ℕ)} {rest : List ι} {x : ι}
    (hs : span (settled.map Prod.snd) = some (lo, hi)) (hx : x ∈ rest) (hp : StrictlyNearest lo hi (cands x) p) :
    (x, p) ∈ (settle cands (n + 1) settled rest).1 := by
  have hnew : (x, p) ∈ rest.filterMap fun x => (nearest? lo hi (cands x)).map fun p => (x, p) :=
    List.mem_filterMap.mpr ⟨x, hx, by rw [nearest?_eq_some.mpr hp]; rfl⟩
  rw [settle, hs]
  dsimp only
  rw [if_neg (List.ne_nil_of_mem hnew)]
  exact mem_settle (List.mem_append_right _ hnew)

lemma round_cases (n : ℕ) {settled : List (ι × ℕ)} {rest : List ι} (hright : ∀ e ∈ settled, e.2 = own e.1)
    (hround : NoneMisled own cands (settled.map Prod.fst, rest)) :
    (widen own cands (settled.map Prod.fst, rest) = (settled.map Prod.fst, rest) ∧
        settle cands (n + 1) settled rest = (settled, rest)) ∨
      ∃ settled' rest', (∀ e ∈ settled', e.2 = own e.1) ∧
        widen own cands (settled.map Prod.fst, rest) = (settled'.map Prod.fst, rest') ∧
          rest'.length < rest.length ∧
          settle cands (n + 1) settled rest = settle cands n settled' rest' := by
  rw [settle, map_snd_of_right hright, widen]
  cases hs : span ((settled.map Prod.fst).map own) with
  | none => exact .inl ⟨rfl, rfl⟩
  | some s =>
    obtain ⟨lo, hi⟩ := s
    dsimp only
    rw [new_of_noneMisled (hround lo hi hs), left_of_noneMisled (hround lo hi hs)]
    split_ifs with hempty
    · have hnone := List.map_eq_nil_iff.mp hempty
      have hleft : (rest.filter fun x => ¬StrictlyNearest lo hi (cands x) (own x)) = rest :=
        List.filter_eq_self.mpr fun x hx => by simpa using List.filter_eq_nil_iff.mp hnone x hx
      rw [hnone, hleft, List.append_nil]
      exact .inl ⟨rfl, rfl⟩
    · obtain ⟨x, hx⟩ := List.exists_mem_of_ne_nil _ (mt List.map_eq_nil_iff.mpr hempty)
      refine .inr ⟨_, _, fun e he => ?_, ?_, ?_, rfl⟩
      · rcases List.mem_append.mp he with he | he
        · exact hright e he
        · obtain ⟨y, -, rfl⟩ := List.mem_map.mp he
          rfl
      · have hfst : (Prod.fst ∘ fun x => (x, own x)) = id := rfl
        rw [List.map_append, List.map_map, hfst, List.map_id]
      · exact List.length_filter_lt_length_iff_exists.mpr ⟨x, (List.mem_filter.mp hx).1, by
          simpa using (List.mem_filter.mp hx).2⟩

theorem settle_right_iff {n : ℕ} {settled : List (ι × ℕ)} {rest : List ι} (hn : rest.length < n) :
    (∀ e ∈ (settle cands n settled rest).1, e.2 = own e.1) ↔
      (∀ e ∈ settled, e.2 = own e.1) ∧
        ∀ k, NoneMisled own cands ((widen own cands)^[k] (settled.map Prod.fst, rest)) := by
  induction n generalizing settled rest with
  | zero => omega
  | succ n ih =>
    by_cases hright : ∀ e ∈ settled, e.2 = own e.1
    swap
    · exact iff_of_false (fun h => hright fun e he => h e (mem_settle he)) fun h => hright h.1
    by_cases hround : NoneMisled own cands (settled.map Prod.fst, rest)
    swap
    · refine iff_of_false (fun h => hround fun lo hi hs x hx p hp => ?_) fun h => hround (h.2 0)
      rw [← map_snd_of_right hright] at hs
      exact h (x, p) (mem_settle_of_nearest hs hx hp)
    rw [and_iff_right hright]
    rcases round_cases n hright hround with ⟨hfixed, heq⟩ | ⟨settled', rest', hright', hwiden, hlt, heq⟩
    · rw [heq]
      exact iff_of_true hright fun k => (iterate_widen_of_fixed hfixed k).symm ▸ hround
    · rw [heq, ih (by omega), and_iff_right hright', ← hwiden]
      constructor
      · intro h k
        cases k with
        | zero => exact hround
        | succ k => exact h k
      · exact fun h k => h (k + 1)

end Right

end AgentTrajectory.NearestSettling
