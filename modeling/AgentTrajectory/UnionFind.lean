import Mathlib

/-! Disjoint sets as a parent map with path halving and no ranks. A forest carries the
proof that its parent links end in roots, so that `find` needs no more steps than there
are elements. -/
namespace AgentTrajectory

structure Forest (α : Type*) where
  parent : α → α
  ranked : ∃ rank : α → ℕ, ∀ x, parent x ≠ x → rank (parent x) < rank x

namespace Forest
variable {α : Type*}

def IsRoot (F : Forest α) (x : α) : Prop := F.parent x = x

/-- Every element alone. -/
def singletons (α : Type*) : Forest α := ⟨id, fun _ => 0, fun _ h => absurd rfl h⟩

lemma rank_parent_le {p : α → α} {rank : α → ℕ} (h : ∀ x, p x ≠ x → rank (p x) < rank x) (x : α) :
    rank (p x) ≤ rank x := by
  by_cases hx : p x = x
  · rw [hx]
  · exact (h x hx).le

lemma rank_iterate_le {p : α → α} {rank : α → ℕ} (h : ∀ x, p x ≠ x → rank (p x) < rank x) (x : α)
    (k : ℕ) : rank (p^[k] x) ≤ rank x := by
  induction k with
  | zero => exact le_rfl
  | succ k ih =>
    rw [Function.iterate_succ_apply']
    exact (rank_parent_le h _).trans ih

section Root
variable [Fintype α]

lemma exists_root_iterate (F : Forest α) (x : α) :
    ∃ k ≤ Fintype.card α, F.IsRoot (F.parent^[k] x) := by
  by_contra! hno
  obtain ⟨rank, h⟩ := F.ranked
  have hanti : ∀ i j, i < j → j ≤ Fintype.card α → rank (F.parent^[j] x) < rank (F.parent^[i] x) := by
    intro i j hij hj
    induction j, hij using Nat.le_induction with
    | base =>
      rw [Function.iterate_succ_apply']
      exact h _ (hno i (by omega))
    | succ j hij ih =>
      rw [Function.iterate_succ_apply']
      exact (h _ (hno j (by omega))).trans (ih (by omega))
  have hinj : Function.Injective fun i : Fin (Fintype.card α + 1) => F.parent^[i] x := by
    intro i j hij
    rcases lt_trichotomy i j with hlt | he | hlt
    · have := hanti i j hlt (by omega)
      simp only [show F.parent^[i] x = F.parent^[j] x from hij] at this
      omega
    · exact he
    · have := hanti j i hlt (by omega)
      simp only [show F.parent^[i] x = F.parent^[j] x from hij] at this
      omega
  have := Fintype.card_le_of_injective _ hinj
  simp at this

/-- Where the links from an element end. -/
def root (F : Forest α) (x : α) : α := F.parent^[Fintype.card α] x

lemma root_eq_iterate {F : Forest α} {x : α} {k : ℕ} (hk : F.IsRoot (F.parent^[k] x))
    (hcard : k ≤ Fintype.card α) : F.root x = F.parent^[k] x := by
  obtain ⟨d, hd⟩ := Nat.exists_eq_add_of_le' hcard
  rw [root, hd, Function.iterate_add_apply]
  exact Function.iterate_fixed hk d

lemma isRoot_root (F : Forest α) (x : α) : F.IsRoot (F.root x) := by
  obtain ⟨k, hk, hroot⟩ := F.exists_root_iterate x
  rw [root_eq_iterate hroot hk]
  exact hroot

lemma root_of_isRoot {F : Forest α} {x : α} (hx : F.IsRoot x) : F.root x = x :=
  root_eq_iterate (k := 0) hx (Nat.zero_le _)

@[simp] lemma root_root (F : Forest α) (x : α) : F.root (F.root x) = F.root x :=
  root_of_isRoot (F.isRoot_root x)

lemma eq_root {F : Forest α} {r : α → α} (hstep : ∀ y, r (F.parent y) = r y)
    (hfix : ∀ y, F.IsRoot y → r y = y) (x : α) : F.root x = r x := by
  have hiter : ∀ k, r (F.parent^[k] x) = r x := by
    intro k
    induction k with
    | zero => rfl
    | succ k ih => rw [Function.iterate_succ_apply', hstep, ih]
  rw [← hiter (Fintype.card α)]
  exact (hfix _ (F.isRoot_root x)).symm

lemma root_parent (F : Forest α) (x : α) : F.root (F.parent x) = F.root x := by
  rw [root, ← Function.iterate_succ_apply, Function.iterate_succ_apply']
  exact F.isRoot_root x

@[simp] lemma root_singletons (x : α) : (singletons α).root x = x := root_of_isRoot rfl

end Root

variable [DecidableEq α]

/-- `uf[x] = uf[uf[x]]`. -/
def halve (F : Forest α) (x : α) : Forest α where
  parent := Function.update F.parent x (F.parent (F.parent x))
  ranked := by
    obtain ⟨rank, h⟩ := F.ranked
    refine ⟨rank, fun y hy => ?_⟩
    by_cases hyx : y = x
    · subst hyx
      rw [Function.update_self] at hy ⊢
      have hp : F.parent y ≠ y := fun he => hy (by rw [he, he])
      exact (rank_parent_le h _).trans_lt (h y hp)
    · rw [Function.update_of_ne hyx] at hy ⊢
      exact h y hy

lemma halve_parent_self (F : Forest α) (x : α) :
    (F.halve x).parent x = F.parent (F.parent x) := Function.update_self ..

lemma halve_parent_ne (F : Forest α) {x y : α} (h : y ≠ x) :
    (F.halve x).parent y = F.parent y := Function.update_of_ne h ..

/-- `uf[a] = b` for two roots. -/
def link (F : Forest α) (a b : α) (ha : F.IsRoot a) (hb : F.IsRoot b) : Forest α where
  parent := Function.update F.parent a b
  ranked := by
    classical
    obtain ⟨rank, h⟩ := F.ranked
    by_cases hab : a = b
    · subst hab
      rw [Function.update_eq_self_iff.mpr (Eq.symm ha)]
      exact ⟨rank, h⟩
    let below (y : α) : Prop := ∃ k, F.parent^[k] y = a
    refine ⟨fun y => rank y + if below y then rank b + 1 else 0, fun y hy => ?_⟩
    by_cases hya : y = a
    · subst hya
      have hnb : ¬ below b := fun ⟨k, hk⟩ => hab (by rw [← hk, Function.iterate_fixed hb])
      have hy' : below y := ⟨0, rfl⟩
      rw [Function.update_self]
      simp only [hnb, hy', if_true, if_false]
      omega
    · rw [Function.update_of_ne hya] at hy ⊢
      have hiff : below (F.parent y) ↔ below y := by
        constructor
        · rintro ⟨k, hk⟩
          exact ⟨k + 1, hk⟩
        · rintro ⟨k, hk⟩
          cases k with
          | zero => exact absurd hk hya
          | succ k => exact ⟨k, hk⟩
      have hlt := h y hy
      simp only [hiff]
      omega

/-- The loop of `find` with path halving. -/
def findLoop : ℕ → Forest α → α → α × Forest α
  | 0, F, x => (x, F)
  | n + 1, F, x =>
      if F.parent x = x then (x, F) else findLoop n (F.halve x) ((F.halve x).parent x)

lemma halve_iterate {F : Forest α} {rank : α → ℕ}
    (h : ∀ x, F.parent x ≠ x → rank (F.parent x) < rank x) {x y : α} (hy : rank y < rank x) (k : ℕ) :
    (F.halve x).parent^[k] y = F.parent^[k] y := by
  induction k with
  | zero => rfl
  | succ k ih =>
    have hne : F.parent^[k] y ≠ x := fun he => by
      have := rank_iterate_le h y k
      rw [he] at this
      omega
    rw [Function.iterate_succ_apply', ih, Function.iterate_succ_apply', halve_parent_ne F hne]

lemma isRoot_halve_iterate {F : Forest α} {x : α} (hx : F.parent x ≠ x) {k : ℕ}
    (hk : F.IsRoot (F.parent^[k + 1] x)) :
    (F.halve x).IsRoot ((F.halve x).parent^[k] ((F.halve x).parent x)) := by
  obtain ⟨rank, h⟩ := F.ranked
  have hlt : rank (F.parent (F.parent x)) < rank x := (rank_parent_le h _).trans_lt (h x hx)
  have hroot : F.parent^[k] (F.parent (F.parent x)) = F.parent^[k + 1] x := by
    rw [← Function.iterate_succ_apply, ← Function.iterate_succ_apply,
      Function.iterate_succ_apply' _ (k + 1)]
    exact hk
  have hne : F.parent^[k + 1] x ≠ x := fun he => by
    have := rank_iterate_le h (F.parent (F.parent x)) k
    rw [hroot, he] at this
    omega
  rw [IsRoot, halve_parent_self, halve_iterate h hlt, hroot, halve_parent_ne F hne]
  exact hk

lemma findLoop_isRoot (n k : ℕ) (F : Forest α) (x : α) (hkn : k ≤ n)
    (hk : F.IsRoot (F.parent^[k] x)) :
    (findLoop n F x).2.IsRoot (findLoop n F x).1 := by
  induction n generalizing k F x with
  | zero =>
    obtain rfl : k = 0 := by omega
    exact hk
  | succ n ih =>
    rw [findLoop]
    split_ifs with hx
    · exact hx
    · cases k with
      | zero => exact absurd hk hx
      | succ k => exact ih k _ _ (by omega) (isRoot_halve_iterate hx hk)

lemma isRoot_findLoop {n : ℕ} {F : Forest α} {r : α} (hr : F.IsRoot r) (x : α) :
    (findLoop n F x).2.IsRoot r := by
  induction n generalizing F x with
  | zero => exact hr
  | succ n ih =>
    rw [findLoop]
    split_ifs with hx
    · exact hr
    · refine ih ?_ _
      have hne : r ≠ x := fun he => hx (he ▸ hr)
      rw [IsRoot, halve_parent_ne F hne]
      exact hr

section Find
variable [Fintype α]

def find (F : Forest α) (x : α) : α × Forest α := findLoop (Fintype.card α) F x

theorem find_isRoot (F : Forest α) (x : α) : (F.find x).2.IsRoot (F.find x).1 := by
  obtain ⟨k, hk, hroot⟩ := F.exists_root_iterate x
  exact findLoop_isRoot _ k F x hk hroot

theorem isRoot_find {F : Forest α} {r : α} (hr : F.IsRoot r) (x : α) : (F.find x).2.IsRoot r :=
  isRoot_findLoop hr x

@[simp] lemma root_halve (F : Forest α) (x y : α) : (F.halve x).root y = F.root y := by
  refine eq_root (fun z => ?_) (fun z hz => ?_) y
  · by_cases hzx : z = x
    · rw [hzx, halve_parent_self, root_parent, root_parent]
    · rw [halve_parent_ne F hzx, root_parent]
  · by_cases hzx : z = x
    · subst hzx
      rw [IsRoot, halve_parent_self] at hz
      by_contra hne
      obtain ⟨rank, h⟩ := F.ranked
      have hp : F.parent z ≠ z := fun he => hne (root_of_isRoot he)
      have h1 := h z hp
      have h2 := rank_parent_le h (F.parent z)
      rw [hz] at h2
      omega
    · rw [IsRoot, halve_parent_ne F hzx] at hz
      exact root_of_isRoot hz

lemma root_findLoop (n : ℕ) (F : Forest α) (x y : α) : (findLoop n F x).2.root y = F.root y := by
  induction n generalizing F x with
  | zero => rfl
  | succ n ih =>
    rw [findLoop]
    split_ifs with hx
    · rfl
    · rw [ih, root_halve]

@[simp] lemma root_find (F : Forest α) (x y : α) : (F.find x).2.root y = F.root y :=
  root_findLoop _ F x y

lemma root_findLoop_fst (n : ℕ) (F : Forest α) (x : α) : F.root (findLoop n F x).1 = F.root x := by
  induction n generalizing F x with
  | zero => rfl
  | succ n ih =>
    rw [findLoop]
    split_ifs with hx
    · rfl
    · rw [← root_halve F x, ih, root_halve, halve_parent_self, root_parent, root_parent]

@[simp] theorem find_fst (F : Forest α) (x : α) : (F.find x).1 = F.root x := by
  have hroot := root_of_isRoot (F.find_isRoot x)
  rw [root_find] at hroot
  rw [← hroot]
  exact root_findLoop_fst _ F x

lemma root_link {F : Forest α} {a b : α} (ha : F.IsRoot a) (hb : F.IsRoot b) (y : α) :
    (F.link a b ha hb).root y = if F.root y = a then b else F.root y := by
  refine eq_root (r := fun z => if F.root z = a then b else F.root z) (fun z => ?_) (fun z hz => ?_) y
  · by_cases hza : z = a
    · subst hza
      simp only [link, Function.update_self, root_of_isRoot ha, root_of_isRoot hb, if_true]
      split_ifs <;> rfl
    · simp only [link, Function.update_of_ne hza, root_parent]
  · by_cases hza : z = a
    · subst hza
      simp only [IsRoot, link, Function.update_self] at hz
      simp only [root_of_isRoot ha, if_true]
      exact hz
    · simp only [IsRoot, link, Function.update_of_ne hza] at hz
      simp only [root_of_isRoot hz, if_neg hza]

end Find

/-- The root map after the class of `e.1` went into that of `e.2`. -/
def join (r : α → α) (e : α × α) (y : α) : α := if r y = r e.1 then r e.2 else r y

omit [DecidableEq α] in
lemma eqvGen_of_rel {R S : α → α → Prop} (h : ∀ a b, R a b → Relation.EqvGen S a b) {x y : α}
    (hxy : Relation.EqvGen R x y) : Relation.EqvGen S x y := by
  induction hxy with
  | rel a b hab => exact h a b hab
  | refl a => exact .refl a
  | symm a b _ ih => exact ih.symm
  | trans a b c _ _ ih ih' => exact ih.trans _ _ _ ih'

lemma eqvGen_join_iff (r : α → α) (c p : α) (edges : List (α × α)) (x y : α) :
    Relation.EqvGen (fun a b => join r (c, p) a = join r (c, p) b ∨ (a, b) ∈ edges) x y ↔
      Relation.EqvGen (fun a b => r a = r b ∨ (a, b) ∈ (c, p) :: edges) x y := by
  have hcp : Relation.EqvGen (fun a b => r a = r b ∨ (a, b) ∈ (c, p) :: edges) c p :=
    .rel _ _ (.inr List.mem_cons_self)
  have hr : ∀ a b, r a = r b →
      Relation.EqvGen (fun a b => r a = r b ∨ (a, b) ∈ (c, p) :: edges) a b :=
    fun a b h => .rel _ _ (.inl h)
  constructor
  · refine eqvGen_of_rel fun a b hab => ?_
    rcases hab with hab | hab
    · simp only [join] at hab
      split_ifs at hab with ha hb hb
      · exact (hr a c ha).trans _ _ _ (hr c b hb.symm)
      · exact ((hr a c ha).trans _ _ _ hcp).trans _ _ _ (hr p b hab)
      · exact (hr a p hab).trans _ _ _ ((hcp.symm _ _).trans _ _ _ (hr c b hb.symm))
      · exact hr a b hab
    · exact .rel _ _ (.inr (List.mem_cons_of_mem _ hab))
  · refine eqvGen_of_rel fun a b hab => ?_
    rcases hab with hab | hab
    · exact .rel _ _ (.inl (by simp only [join, hab]))
    · rcases List.mem_cons.mp hab with he | hmem
      · obtain ⟨rfl, rfl⟩ := Prod.mk.inj he
        refine .rel _ _ (.inl ?_)
        simp only [join, if_true]
        split_ifs <;> rfl
      · exact .rel _ _ (.inr hmem)

theorem foldl_join_eq_iff (r : α → α) (edges : List (α × α)) (x y : α) :
    edges.foldl join r x = edges.foldl join r y ↔
      Relation.EqvGen (fun a b => r a = r b ∨ (a, b) ∈ edges) x y := by
  induction edges generalizing r with
  | nil =>
    refine ⟨fun h => .rel _ _ (.inl h), fun h => ?_⟩
    induction h with
    | rel a b hab => simpa using hab
    | refl a => rfl
    | symm a b _ ih => exact ih.symm
    | trans a b c _ _ ih ih' => exact ih.trans ih'
  | cons e edges ih => rw [List.foldl_cons, ih, eqvGen_join_iff]

end Forest
end AgentTrajectory
