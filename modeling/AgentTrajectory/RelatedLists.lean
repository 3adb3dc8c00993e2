import Mathlib

/-! Lists of equal length whose elements are related place by place. -/
namespace AgentTrajectory.RelatedLists

variable {α β γ : Type*} {R : α → β → Prop} {xs : List α} {ys : List β}

lemma forall₂_mem_left (h : List.Forall₂ R xs ys) {x : α} (hx : x ∈ xs) : ∃ y ∈ ys, R x y := by
  induction h with
  | nil => simp at hx
  | cons hr _ ih =>
    rcases List.mem_cons.mp hx with rfl | hx
    · exact ⟨_, by simp, hr⟩
    · obtain ⟨y, hy, hxy⟩ := ih hx
      exact ⟨y, by simp [hy], hxy⟩

lemma forall₂_mem_right (h : List.Forall₂ R xs ys) {y : β} (hy : y ∈ ys) : ∃ x ∈ xs, R x y :=
  forall₂_mem_left h.flip hy

lemma forall₂_getElem? (h : List.Forall₂ R xs ys) {i : ℕ} {x : α} (hx : xs[i]? = some x) :
    ∃ y, ys[i]? = some y ∧ R x y := by
  induction h generalizing i with
  | nil => simp at hx
  | cons hr _ ih =>
    cases i with
    | zero =>
      obtain rfl := Option.some.inj hx
      exact ⟨_, rfl, hr⟩
    | succ i => exact ih hx

lemma forall₂_of_forall_exists (h : ∀ x ∈ xs, ∃ y, R x y) : ∃ ys, List.Forall₂ R xs ys := by
  induction xs with
  | nil => exact ⟨[], .nil⟩
  | cons x xs ih =>
    obtain ⟨y, hy⟩ := h x (by simp)
    obtain ⟨ys, hys⟩ := ih fun x' hx' => h x' (List.mem_cons_of_mem _ hx')
    exact ⟨y :: ys, .cons hy hys⟩

lemma forall₂_comp {S : β → γ → Prop} {T : α → γ → Prop} {zs : List γ} (h : List.Forall₂ R xs ys)
    (h' : List.Forall₂ S ys zs) (hT : ∀ x y z, R x y → S y z → T x z) : List.Forall₂ T xs zs := by
  induction h generalizing zs with
  | nil =>
    obtain rfl := List.forall₂_nil_left_iff.mp h'
    exact .nil
  | cons hr _ ih =>
    obtain ⟨z, zs', hs, hrest, rfl⟩ := List.forall₂_cons_left_iff.mp h'
    exact .cons (hT _ _ _ hr hs) (ih hrest)

lemma forall₂_replicate {a : α} {l : List β} :
    List.Forall₂ R (List.replicate l.length a) l ↔ ∀ b ∈ l, R a b := by
  induction l with
  | nil => simp
  | cons b l ih => simp [List.replicate_succ, ih]

lemma forall₂_append {l₁ l₂ : List α} {r₁ r₂ : List β} (hlen : l₁.length = r₁.length) :
    List.Forall₂ R (l₁ ++ l₂) (r₁ ++ r₂) ↔ List.Forall₂ R l₁ r₁ ∧ List.Forall₂ R l₂ r₂ := by
  induction l₁ generalizing r₁ with
  | nil =>
    obtain rfl : r₁ = [] := List.length_eq_zero_iff.mp hlen.symm
    simp
  | cons a l₁ ih =>
    cases r₁ with
    | nil => simp at hlen
    | cons b r₁ => simp [ih (by simpa using hlen), and_assoc]

lemma forall₂_split_right {xs : List α} {ys₁ ys₂ : List β} {y : β} (h : List.Forall₂ R xs (ys₁ ++ y :: ys₂)) :
    ∃ xs₁ x xs₂, xs = xs₁ ++ x :: xs₂ ∧ List.Forall₂ R xs₁ ys₁ ∧ R x y ∧ List.Forall₂ R xs₂ ys₂ := by
  induction ys₁ generalizing xs with
  | nil =>
    obtain ⟨x, xs₂, hx, hxs, rfl⟩ := List.forall₂_cons_right_iff.mp h
    exact ⟨[], x, xs₂, rfl, .nil, hx, hxs⟩
  | cons z ys₁ ih =>
    obtain ⟨w, ws, hw, hws, rfl⟩ := List.forall₂_cons_right_iff.mp h
    obtain ⟨xs₁, x, xs₂, rfl, h₁, hx, h₂⟩ := ih hws
    exact ⟨w :: xs₁, x, xs₂, rfl, .cons hw h₁, hx, h₂⟩

lemma forall₂_split_left {xs₁ xs₂ : List α} {x : α} {ys : List β} (h : List.Forall₂ R (xs₁ ++ x :: xs₂) ys) :
    ∃ ys₁ y ys₂, ys = ys₁ ++ y :: ys₂ ∧ List.Forall₂ R xs₁ ys₁ ∧ R x y ∧ List.Forall₂ R xs₂ ys₂ := by
  obtain ⟨ys₁, y, ys₂, rfl, h₁, hy, h₂⟩ := forall₂_split_right h.flip
  exact ⟨ys₁, y, ys₂, rfl, h₁.flip, hy, h₂.flip⟩

lemma forall₂_concat_left {l : List α} {a : α} {x : List β} (h : List.Forall₂ R (l ++ [a]) x) :
    ∃ l' b, x = l' ++ [b] ∧ List.Forall₂ R l l' ∧ R a b := by
  induction l generalizing x with
  | nil =>
    obtain ⟨b, t, hab, ht, rfl⟩ := List.forall₂_cons_left_iff.mp h
    obtain rfl := List.forall₂_nil_left_iff.mp ht
    exact ⟨[], b, rfl, .nil, hab⟩
  | cons c l ih =>
    obtain ⟨b, t, hcb, ht, rfl⟩ := List.forall₂_cons_left_iff.mp h
    obtain ⟨l', b', rfl, hl, hab⟩ := ih ht
    exact ⟨b :: l', b', rfl, .cons hcb hl, hab⟩

lemma zipIdx_forall₂ (h : List.Forall₂ R xs ys) (n : ℕ) :
    List.Forall₂ (fun x y => R x y.1) xs (ys.zipIdx n) := by
  induction h generalizing n with
  | nil => exact .nil
  | cons hr _ ih => exact .cons hr (ih (n + 1))

lemma forall₂_map_eq {f : α → γ} {g : β → γ} (h : List.Forall₂ R xs ys) (hfg : ∀ a b, R a b → g b = f a) :
    ys.map g = xs.map f := by
  induction h with
  | nil => rfl
  | cons hab _ ih => rw [List.map_cons, List.map_cons, hfg _ _ hab, ih]

lemma filterMap_eq_of_forall₂ {f : α → Option γ} {g : β → Option γ} (h : List.Forall₂ R xs ys)
    (hfg : ∀ x y, R x y → f x = g y) : xs.filterMap f = ys.filterMap g := by
  induction h with
  | nil => rfl
  | cons hxy _ ih => simp only [List.filterMap_cons, hfg _ _ hxy, ih]

end AgentTrajectory.RelatedLists
