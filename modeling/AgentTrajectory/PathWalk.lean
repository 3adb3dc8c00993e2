import AgentTrajectory.Acyclic

/-! Following a partial function step by step until it ends or comes back to an element
that was seen, as loops do that climb parent links with a set of visited ids. -/
namespace AgentTrajectory.PathWalk
variable {α : Type*} [DecidableEq α] {next next' : α → Option α}

/-- The elements behind `x`, and whether the path has an end. -/
def walk (next : α → Option α) : ℕ → List α → α → List α × Bool
  | 0, _, _ => ([], false)
  | n + 1, seen, x =>
      if x ∈ seen then ([], false)
      else match next x with
        | none => ([], true)
        | some y => (y :: (walk next n (x :: seen) y).1, (walk next n (x :: seen) y).2)

def walkEnd (next : α → Option α) (n : ℕ) (x : α) : α := ((walk next n [] x).1.getLast?).getD x

def Leads (next : α → Option α) : α → α → Prop := Relation.ReflTransGen fun x y => next x = some y

omit [DecidableEq α] in
lemma length_le_of_subset {seen ks : List α} (hseen : seen.Nodup) (hsub : ∀ x ∈ seen, x ∈ ks) :
    seen.length ≤ ks.length :=
  (hseen.subperm hsub).length_le

lemma walk_rec {ks : List α} (hks : ∀ x, (next x).isSome → x ∈ ks) {motive : ℕ → List α → α → Prop}
    (back : ∀ n seen x, x ∈ seen → motive (n + 1) seen x)
    (stop : ∀ n seen x, x ∉ seen → next x = none → motive (n + 1) seen x)
    (go : ∀ n seen x y, x ∉ seen → next x = some y → motive n (x :: seen) y → motive (n + 1) seen x)
    (n : ℕ) {seen : List α} (hseen : seen.Nodup) (hsub : ∀ x ∈ seen, x ∈ ks) (hn : ks.length < n + seen.length)
    (x : α) : motive n seen x := by
  have hle := length_le_of_subset hseen hsub
  induction n generalizing seen x with
  | zero => omega
  | succ n ih =>
    by_cases hx : x ∈ seen
    · exact back n seen x hx
    cases hy : next x with
    | none => exact stop n seen x hx hy
    | some y =>
      have hxs : (x :: seen).Nodup := List.nodup_cons.mpr ⟨hx, hseen⟩
      have hxsub : ∀ z ∈ x :: seen, z ∈ ks := by
        intro z hz
        rcases List.mem_cons.mp hz with rfl | hz
        · exact hks z (by simp [hy])
        · exact hsub z hz
      exact go n seen x y hx hy (ih hxs hxsub (by simp; omega) y (length_le_of_subset hxs hxsub))

lemma walk_fuel_from {ks : List α} (hks : ∀ x, (next x).isSome → x ∈ ks) (n k : ℕ) {seen : List α}
    (hseen : seen.Nodup) (hsub : ∀ x ∈ seen, x ∈ ks) (hn : ks.length < n + seen.length) (x : α) :
    walk next (n + k) seen x = walk next n seen x := by
  refine walk_rec hks (motive := fun n seen x => walk next (n + k) seen x = walk next n seen x)
    ?_ ?_ ?_ n hseen hsub hn x
  · intro n seen x hx
    rw [Nat.add_right_comm, walk, walk, if_pos hx, if_pos hx]
  · intro n seen x hx hnone
    rw [Nat.add_right_comm, walk, walk, if_neg hx, if_neg hx, hnone]
  · intro n seen x y hx hy ih
    rw [Nat.add_right_comm, walk, walk, if_neg hx, if_neg hx, hy]
    simp only [ih]

theorem walk_fuel {ks : List α} (hks : ∀ x, (next x).isSome → x ∈ ks) {n m : ℕ} (hn : ks.length < n)
    (hm : ks.length < m) (x : α) : walk next n [] x = walk next m [] x :=
  calc walk next n [] x
      = walk next (n + m) [] x := (walk_fuel_from hks n m List.nodup_nil (by simp) (by simpa using hn) x).symm
    _ = walk next (m + n) [] x := by rw [Nat.add_comm]
    _ = walk next m [] x := walk_fuel_from hks m n List.nodup_nil (by simp) (by simpa using hm) x

theorem walk_congr {p : α → Prop} (heq : ∀ x, p x → next x = next' x)
    (hclosed : ∀ x y, p x → next x = some y → p y) (n : ℕ) (seen : List α) {x : α} (hx : p x) :
    walk next n seen x = walk next' n seen x := by
  induction n generalizing seen x with
  | zero => rfl
  | succ n ih =>
    rw [walk, walk, ← heq x hx]
    split_ifs
    · rfl
    cases hy : next x with
    | none => rfl
    | some y => simp only [ih (x :: seen) (hclosed x y hx hy)]

theorem walk_agree {ks ks' : List α} (hks : ∀ x, (next x).isSome → x ∈ ks)
    (hks' : ∀ x, (next' x).isSome → x ∈ ks') {p : α → Prop} (heq : ∀ x, p x → next x = next' x)
    (hclosed : ∀ x y, p x → next x = some y → p y) {x : α} (hx : p x) :
    walk next (ks.length + 1) [] x = walk next' (ks'.length + 1) [] x :=
  calc walk next (ks.length + 1) [] x
      = walk next (ks.length + ks'.length + 1) [] x := walk_fuel hks (by omega) (by omega) x
    _ = walk next' (ks.length + ks'.length + 1) [] x := walk_congr heq hclosed _ [] hx
    _ = walk next' (ks'.length + 1) [] x := walk_fuel hks' (by omega) (by omega) x

lemma leads_of_mem_walk {n : ℕ} {seen : List α} {x y : α} (h : y ∈ (walk next n seen x).1) :
    Leads next x y := by
  induction n generalizing seen x with
  | zero => simp [walk] at h
  | succ n ih =>
    rw [walk] at h
    split_ifs at h with hx
    · simp at h
    cases hz : next x with
    | none => simp [hz] at h
    | some z =>
      rw [hz] at h
      rcases List.mem_cons.mp h with rfl | h
      · exact .single hz
      · exact .head hz (ih h)

lemma leads_walkEnd (n : ℕ) (x : α) : Leads next x (walkEnd next n x) := by
  unfold walkEnd
  cases h : (walk next n [] x).1.getLast? with
  | none => exact .refl
  | some y => exact leads_of_mem_walk (List.mem_of_getLast? h)

omit [DecidableEq α] in
lemma Leads.preserves {p : α → Prop} {x y : α} (h : Leads next x y)
    (hclosed : ∀ x y, p x → next x = some y → p y) (hx : p x) : p y := by
  induction h with
  | refl => exact hx
  | tail _ hstep ih => exact hclosed _ _ ih hstep

omit [DecidableEq α] in
lemma eq_of_leads_of_none {x y : α} (hx : next x = none) (h : Leads next x y) : y = x := by
  rcases Relation.ReflTransGen.cases_head h with heq | ⟨z, hz, -⟩
  · exact heq.symm
  · simp [hx] at hz

omit [DecidableEq α] in
lemma Leads.eqvGen {x y : α} (h : Leads next x y) : Relation.EqvGen (fun x y => next x = some y) x y := by
  induction h with
  | refl => exact .refl x
  | tail _ hstep ih => exact ih.trans _ _ _ (.rel _ _ hstep)

section Ends
variable {ks : List α} (hks : ∀ x, (next x).isSome → x ∈ ks)
  (hac : Acyclic fun x y => next x = some y)
include hks hac

lemma path_rec {motive : ℕ → List α → α → Prop}
    (stop : ∀ n seen x, x ∉ seen → next x = none → motive (n + 1) seen x)
    (go : ∀ n seen x y, x ∉ seen → next x = some y → motive n (x :: seen) y → motive (n + 1) seen x)
    {n : ℕ} (hn : ks.length < n) (x : α) : motive n [] x := by
  have hwalk : (∀ s ∈ [], Relation.TransGen (fun x y => next x = some y) s x) → motive n [] x := by
    refine walk_rec hks (motive := fun n seen x =>
      (∀ s ∈ seen, Relation.TransGen (fun x y => next x = some y) s x) → motive n seen x) ?_ ?_ ?_ n
      List.nodup_nil (by simp) (by simpa using hn) x
    · intro n seen x hx hbehind
      exact absurd (hbehind x hx) (hac x)
    · intro n seen x hx hnone _
      exact stop n seen x hx hnone
    · intro n seen x y hx hy ih hbehind
      refine go n seen x y hx hy (ih fun s hs => ?_)
      rcases List.mem_cons.mp hs with rfl | hs
      · exact .single hy
      · exact .tail (hbehind s hs) hy
  exact hwalk (by simp)

theorem walkEnd_ends {n : ℕ} (hn : ks.length < n) (x : α) : next (walkEnd next n x) = none := by
  refine path_rec hks hac (motive := fun n seen x => next (((walk next n seen x).1.getLast?).getD x) = none)
    ?_ ?_ hn x
  · intro n seen x hx hnone
    rw [walk, if_neg hx, hnone]
    exact hnone
  · intro n seen x y hx hy ih
    rw [walk, if_neg hx, hy]
    dsimp only
    rw [List.getLast?_cons, Option.getD_some]
    exact ih

omit hks hac [DecidableEq α] in
lemma end_unique {x a b : α} (ha : Leads next x a) (hna : next a = none)
    (hb : Leads next x b) (hnb : next b = none) :
    a = b := by
  have hright : Relator.RightUnique fun x y => next x = some y := fun x y z hy hz =>
    Option.some.inj (hy.symm.trans hz)
  rcases Relation.ReflTransGen.total_of_right_unique hright ha hb with hab | hba
  · exact (eq_of_leads_of_none hna hab).symm
  · exact eq_of_leads_of_none hnb hba

lemma walkEnd_step {n : ℕ} (hn : ks.length < n) {x y : α} (hy : next x = some y) :
    walkEnd next n x = walkEnd next n y :=
  end_unique (leads_walkEnd n x) (walkEnd_ends hks hac hn x) (.head hy (leads_walkEnd n y))
    (walkEnd_ends hks hac hn y)

theorem walkEnd_eq_iff {n : ℕ} (hn : ks.length < n) {x y : α} :
    walkEnd next n x = walkEnd next n y ↔ Relation.EqvGen (fun x y => next x = some y) x y := by
  have hto : ∀ z, Relation.EqvGen (fun x y => next x = some y) z (walkEnd next n z) := fun z =>
    (leads_walkEnd n z).eqvGen
  constructor
  · intro h
    exact (hto x).trans _ _ _ (h ▸ (hto y).symm)
  · intro h
    induction h with
    | rel x y hxy => exact walkEnd_step hks hac hn hxy
    | refl x => rfl
    | symm x y _ ih => exact ih.symm
    | trans x y z _ _ ihxy ihyz => exact ihxy.trans ihyz

end Ends

end AgentTrajectory.PathWalk
