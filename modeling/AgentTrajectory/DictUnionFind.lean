import AgentTrajectory.PathWalk
import AgentTrajectory.UnionFind
import AgentTrajectory.PyDict

/-! Disjoint sets as a dictionary of parents, with the whole path compressed by every `find` and
no ranks. An element enters the dictionary when it is first looked for. -/
namespace AgentTrajectory.DictUnionFind
open PyDict PathWalk
variable {α : Type*} [DecidableEq α]

def climb (p : Dict α α) : ℕ → α → Option α
  | 0, _ => none
  | n + 1, x => (get? p x).bind fun up => if up = x then some x else climb p n up

def compress (root : α) : ℕ → Dict α α → α → Option (Dict α α)
  | 0, _, _ => none
  | n + 1, p, x => (get? p x).bind fun up => if up = root then some p else compress root n (set p x root) up

def find (p : Dict α α) (x : α) : Option (α × Dict α α) :=
  let q := setdefault p x x
  (climb q (q.length + 1) x).bind fun root => (compress root (q.length + 1) q x).map fun q' => (root, q')

def union (p : Dict α α) (e : α × α) : Option (Dict α α) :=
  (find p e.1).bind fun a => (find a.2 e.2).map fun b => if a.1 = b.1 then b.2 else set b.2 a.1 b.1

def findAll (p : Dict α α) : List α → Option (List α × Dict α α)
  | [] => some ([], p)
  | x :: xs => (find p x).bind fun a => (findAll a.2 xs).map fun b => (a.1 :: b.1, b.2)

structure Represents (p : Dict α α) (r : α → α) : Prop where
  closed : ∀ {x y}, get? p x = some y → y ∈ keys p
  ranked : ∃ rank : α → ℕ, ∀ {x y}, get? p x = some y → y ≠ x → rank y < rank x
  step : ∀ {x y}, get? p x = some y → r y = r x
  fixed : ∀ {x}, (∀ y, get? p x = some y → y = x) → r x = x

lemma represents_nil : Represents ([] : Dict α α) id where
  closed h := by simp [get?] at h
  ranked := ⟨fun _ => 0, fun h => by simp [get?] at h⟩
  step h := by simp [get?] at h
  fixed _ := rfl

lemma exists_get? {p : Dict α α} {x : α} (h : x ∈ keys p) : ∃ y, get? p x = some y := by
  cases hx : get? p x with
  | none => exact absurd h (get?_eq_none.mp hx)
  | some y => exact ⟨y, rfl⟩

namespace Represents
variable {p : Dict α α} {r : α → α}

lemma root_spec (h : Represents p r) {rank : α → ℕ} (hrank : ∀ {x y}, get? p x = some y → y ≠ x → rank y < rank x)
    {x : α} (hx : x ∈ keys p) : get? p (r x) = some (r x) ∧ (r x ≠ x → rank (r x) < rank x) := by
  induction hn : rank x using Nat.strong_induction_on generalizing x with
  | _ n ih =>
    obtain ⟨y, hy⟩ := exists_get? hx
    by_cases hyx : y = x
    · subst hyx
      have hfix : r y = y := h.fixed fun z hz => Option.some.inj (hz.symm.trans hy)
      rw [hfix]
      exact ⟨hy, fun hne => absurd rfl hne⟩
    · have hlt := hrank hy hyx
      obtain ⟨hroot, hle⟩ := ih (rank y) (hn ▸ hlt) (h.closed hy) rfl
      rw [h.step hy] at hroot hle
      refine ⟨hroot, fun _ => ?_⟩
      by_cases hry : r x = y
      · rw [hry, ← hn]
        exact hlt
      · exact (hle hry).trans (hn ▸ hlt)

lemma get?_root (h : Represents p r) {x : α} (hx : x ∈ keys p) : get? p (r x) = some (r x) := by
  obtain ⟨rank, hrank⟩ := h.ranked
  exact (h.root_spec hrank hx).1

lemma root_root (h : Represents p r) {x : α} (hx : x ∈ keys p) : r (r x) = r x :=
  h.fixed fun _ hy => Option.some.inj (hy.symm.trans (h.get?_root hx))

lemma set_root (h : Represents p r) {x : α} (hx : x ∈ keys p) : Represents (set p x (r x)) r where
  closed {a b} hab := by
    rw [mem_keys_set]
    rw [get?_set] at hab
    split_ifs at hab with hxa
    · rw [← Option.some.inj hab]
      exact .inl (mem_keys_of_get? (h.get?_root hx))
    · exact .inl (h.closed hab)
  ranked := by
    obtain ⟨rank, hrank⟩ := h.ranked
    refine ⟨rank, fun {a b} hab hne => ?_⟩
    rw [get?_set] at hab
    split_ifs at hab with hxa
    · subst hxa
      obtain rfl := Option.some.inj hab
      exact (h.root_spec hrank hx).2 hne
    · exact hrank hab hne
  step {a b} hab := by
    rw [get?_set] at hab
    split_ifs at hab with hxa
    · subst hxa
      obtain rfl := Option.some.inj hab
      exact h.root_root hx
    · exact h.step hab
  fixed {a} ha := by
    by_cases hxa : x = a
    · subst hxa
      exact ha _ (by rw [get?_set, if_pos rfl])
    · exact h.fixed fun y hy => ha y (by rw [get?_set, if_neg hxa]; exact hy)

lemma setdefault (h : Represents p r) (x : α) : Represents (PyDict.setdefault p x x) r := by
  rw [PyDict.setdefault]
  cases hx : get? p x with
  | some y => exact h
  | none =>
    have hroot : r x = x := h.fixed fun y hy => by rw [hx] at hy; simp at hy
    obtain ⟨rank, hrank⟩ := h.ranked
    refine ⟨fun {a b} hab => ?_, ⟨rank, fun {a b} hab hne => ?_⟩, fun {a b} hab => ?_, fun {a} ha => ?_⟩
    · rw [mem_keys_set]
      rw [get?_set] at hab
      split_ifs at hab with hxa
      · exact .inr (Option.some.inj hab).symm
      · exact .inl (h.closed hab)
    · rw [get?_set] at hab
      split_ifs at hab with hxa
      · exact absurd ((Option.some.inj hab).symm.trans hxa) hne
      · exact hrank hab hne
    · rw [get?_set] at hab
      split_ifs at hab with hxa
      · rw [← Option.some.inj hab, hxa]
      · exact h.step hab
    · by_cases hxa : x = a
      · exact hxa ▸ hroot
      · exact h.fixed fun y hy => ha y (by rw [get?_set, if_neg hxa]; exact hy)

lemma link (h : Represents p r) {a b : α} (ha : get? p a = some a) (hb : get? p b = some b) (hab : a ≠ b) :
    Represents (set p a b) fun y => if r y = a then b else r y := by
  have hra : r a = a := h.fixed fun y hy => Option.some.inj (hy.symm.trans ha)
  have hrb : r b = b := h.fixed fun y hy => Option.some.inj (hy.symm.trans hb)
  obtain ⟨rank, hrank⟩ := h.ranked
  refine ⟨fun {x y} hxy => ?_, ⟨fun y => rank y + if r y = a then rank b + 1 else 0, fun {x y} hxy hne => ?_⟩,
    fun {x y} hxy => ?_, fun {x} hx => ?_⟩
  · rw [mem_keys_set]
    rw [get?_set] at hxy
    split_ifs at hxy with hax
    · exact .inl (Option.some.inj hxy ▸ mem_keys_of_get? hb)
    · exact .inl (h.closed hxy)
  · rw [get?_set] at hxy
    split_ifs at hxy with hax
    · obtain rfl := Option.some.inj hxy
      subst hax
      simp only [hra, hrb, if_true, if_neg (Ne.symm hab)]
      omega
    · have hlt := hrank hxy hne
      simp only [h.step hxy]
      omega
  · rw [get?_set] at hxy
    split_ifs at hxy with hax
    · obtain rfl := Option.some.inj hxy
      subst hax
      simp only [hra, hrb, if_true, if_neg (Ne.symm hab)]
    · simp only [h.step hxy]
  · have hxa : a ≠ x := by
      rintro rfl
      exact hab (hx b (by rw [get?_set, if_pos rfl])).symm
    have hrx : r x = x := h.fixed fun y hy => hx y (by rw [get?_set, if_neg hxa]; exact hy)
    simp only [hrx, if_neg (Ne.symm hxa)]

def next (p : Dict α α) (x : α) : Option α := (get? p x).filter fun y => y ≠ x

lemma next_eq_some {x y : α} : next p x = some y ↔ get? p x = some y ∧ y ≠ x := by
  simp [next, Option.filter_eq_some_iff]

lemma get?_of_next_eq_none {x : α} (hx : x ∈ keys p) (h : next p x = none) : get? p x = some x := by
  obtain ⟨y, hy⟩ := exists_get? hx
  by_cases hyx : y = x
  · rw [hy, hyx]
  · rw [next_eq_some.mpr ⟨hy, hyx⟩] at h
    simp at h

lemma mem_keys_of_next {x : α} (h : (next p x).isSome) : x ∈ keys p := by
  obtain ⟨y, hy⟩ := Option.isSome_iff_exists.mp h
  exact mem_keys_of_get? (next_eq_some.mp hy).1

lemma acyclic (h : Represents p r) : Acyclic fun x y => next p x = some y := by
  obtain ⟨rank, hrank⟩ := h.ranked
  exact acyclic_of_lt rank fun x y hxy => hrank (next_eq_some.mp hxy).1 (next_eq_some.mp hxy).2

lemma climb_eq (h : Represents p r) {x : α} (hx : x ∈ keys p) : climb p (p.length + 1) x = some (r x) := by
  have hks : ∀ x, (next p x).isSome → x ∈ keys p := fun _ => mem_keys_of_next
  refine path_rec hks h.acyclic (motive := fun n _ x => x ∈ keys p → climb p n x = some (r x)) ?_ ?_
    (by rw [length_keys]; exact Nat.lt_succ_self _) x hx
  · intro n seen x _ hnone hx
    have hget := get?_of_next_eq_none hx hnone
    have hroot : r x = x := h.fixed fun y hy => Option.some.inj (hy.symm.trans hget)
    rw [climb, hget, Option.bind_some, if_pos rfl, hroot]
  · intro n seen x y _ hy ih hx
    obtain ⟨hget, hne⟩ := next_eq_some.mp hy
    rw [climb, hget, Option.bind_some, if_neg hne, ← h.step hget]
    exact ih (h.closed hget)

/-- What the compression leaves: the same elements and the same roots. The links it has not come to
are those of the dictionary it began with. -/
lemma compress_spec (h : Represents p r) {x : α} (hx : x ∈ keys p) :
    ∃ q, compress (r x) (p.length + 1) p x = some q ∧ Represents q r ∧ keys q = keys p := by
  have hks : ∀ x, (next p x).isSome → x ∈ keys p := fun _ => mem_keys_of_next
  refine path_rec hks h.acyclic (motive := fun n seen y => ∀ p', Represents p' r → keys p' = keys p →
    (∀ z, z ∉ seen → get? p' z = get? p z) → y ∈ keys p → r y = r x →
      ∃ q, compress (r x) n p' y = some q ∧ Represents q r ∧ keys q = keys p) ?_ ?_
    (by rw [length_keys]; exact Nat.lt_succ_self _) x p h rfl (fun _ _ => rfl) hx rfl
  · intro n seen y hseen hnone p' hp' hkeys hsame hy hroot
    have hget := get?_of_next_eq_none hy hnone
    have hry : r y = y := h.fixed fun z hz => Option.some.inj (hz.symm.trans hget)
    refine ⟨p', ?_, hp', hkeys⟩
    rw [compress, hsame y hseen, hget, Option.bind_some, if_pos (hry.symm.trans hroot)]
  · intro n seen y z hseen hz ih p' hp' hkeys hsame hy hroot
    obtain ⟨hget, -⟩ := next_eq_some.mp hz
    rw [compress, hsame y hseen, hget, Option.bind_some]
    split_ifs with hzroot
    · exact ⟨p', rfl, hp', hkeys⟩
    · have hy' : y ∈ keys p' := hkeys ▸ hy
      refine ih (set p' y (r x)) (hroot ▸ hp'.set_root hy') ?_ (fun w hw => ?_) (h.closed hget)
        ((h.step hget).trans hroot)
      · rw [keys_set, if_pos hy', hkeys]
      · obtain ⟨hwy, hws⟩ := not_or.mp (mt List.mem_cons.mpr hw)
        rw [get?_set_ne _ _ (Ne.symm hwy), hsame w hws]

lemma mem_keys_setdefault (p : Dict α α) (x y : α) : y ∈ keys (PyDict.setdefault p x x) ↔ y ∈ keys p ∨ y = x := by
  rw [PyDict.setdefault]
  cases hx : get? p x with
  | some z =>
    have hmem : x ∈ keys p := mem_keys_of_get? hx
    exact ⟨.inl, fun h => h.elim id fun he => he ▸ hmem⟩
  | none => exact mem_keys_set p x y x

theorem find_spec (h : Represents p r) (x : α) : ∃ q, find p x = some (r x, q) ∧ Represents q r ∧
    ∀ y, y ∈ keys q ↔ y ∈ keys p ∨ y = x := by
  have hq := h.setdefault x
  have hx : x ∈ keys (PyDict.setdefault p x x) := (mem_keys_setdefault p x x).mpr (.inr rfl)
  obtain ⟨q, hcompress, hrep, hkeys⟩ := hq.compress_spec hx
  refine ⟨q, ?_, hrep, fun y => hkeys ▸ mem_keys_setdefault p x y⟩
  rw [find]
  simp only [hq.climb_eq hx, hcompress, Option.bind_some, Option.map_some]

theorem union_spec (h : Represents p r) (e : α × α) :
    ∃ q, union p e = some q ∧ Represents q (Forest.join r e) := by
  obtain ⟨q, hfind, hq, hkeys⟩ := h.find_spec e.1
  obtain ⟨q', hfind', hq', hkeys'⟩ := hq.find_spec e.2
  have he1 : e.1 ∈ keys q' := (hkeys' _).mpr (.inl ((hkeys _).mpr (.inr rfl)))
  have he2 : e.2 ∈ keys q' := (hkeys' _).mpr (.inr rfl)
  refine ⟨_, by rw [union, hfind, Option.bind_some, hfind', Option.map_some], ?_⟩
  split_ifs with heq
  · have hjoin : Forest.join r e = r := by
      funext y
      rw [Forest.join]
      split_ifs with hy
      · exact heq.symm.trans hy.symm
      · rfl
    rw [hjoin]
    exact hq'
  · exact hq'.link (hq'.get?_root he1) (hq'.get?_root he2) heq

theorem foldlM_union (h : Represents p r) (edges : List (α × α)) :
    ∃ q, edges.foldlM union p = some q ∧ Represents q (edges.foldl Forest.join r) := by
  induction edges generalizing p r with
  | nil => exact ⟨p, rfl, h⟩
  | cons e edges ih =>
    obtain ⟨q, hunion, hq⟩ := h.union_spec e
    obtain ⟨q', hfold, hq'⟩ := ih hq
    exact ⟨q', by rw [List.foldlM_cons, hunion]; exact hfold, hq'⟩

theorem findAll_spec (h : Represents p r) (xs : List α) :
    ∃ q, findAll p xs = some (xs.map r, q) ∧ Represents q r := by
  induction xs generalizing p with
  | nil => exact ⟨p, rfl, h⟩
  | cons x xs ih =>
    obtain ⟨q, hfind, hq, -⟩ := h.find_spec x
    obtain ⟨q', hall, hq'⟩ := ih hq
    exact ⟨q', by rw [findAll, hfind, Option.bind_some, hall]; rfl, hq'⟩

end Represents

end AgentTrajectory.DictUnionFind
