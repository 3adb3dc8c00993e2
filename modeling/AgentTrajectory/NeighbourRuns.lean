import AgentTrajectory.Grouping
import AgentTrajectory.UnionFind

/-! Neighbours in a list that are linked are united in a forest, and the elements are then filed
under their roots. The groups are the runs between missing links. -/
namespace AgentTrajectory.NeighbourRuns
open PyDict Grouping

variable {α β κ : Type}

section Runs
variable (link : α → α → Bool)

lemma splitBy_concat_unlinked {l : List α} {x : α} (h : ∀ a ∈ l.getLast?, link a x = false) :
    (l ++ [x]).splitBy link = l.splitBy link ++ [[x]] := by
  rw [List.splitBy_append_cons [] h]
  rfl

lemma splitBy_concat_linked {l : List α} {a x : α} (hlast : l.getLast? = some a)
    (h : link a x = true) {init : List (List α)}
    {g : List α} (hsplit : l.splitBy link = init ++ [g]) : (l ++ [x]).splitBy link = init ++ [g ++ [x]] := by
  obtain ⟨hflat, hne, hchain, hseams⟩ := List.splitBy_eq_iff.mp hsplit
  have hg : g ≠ [] := fun hg => hne (by simp [hg])
  have hgl : g.getLast? = some a := by
    rw [hflat, List.flatten_append, List.flatten_singleton, List.getLast?_append_of_ne_nil _ hg] at hlast
    exact hlast
  refine List.splitBy_eq_iff.mpr ⟨by simp [hflat], ?_, fun m hm => ?_, ?_⟩
  · simpa using fun hin => hne (by simp [hin])
  · rcases List.mem_append.mp hm with hm | hm
    · exact hchain m (by simp [hm])
    · rw [List.mem_singleton.mp hm]
      refine List.isChain_append.mpr ⟨hchain g (by simp), List.isChain_singleton x, fun b hb y hy => ?_⟩
      rw [hgl] at hb
      obtain rfl := Option.some.inj hb
      obtain rfl : x = y := by simpa using hy
      exact h
  · rw [List.isChain_append] at hseams ⊢
    refine ⟨hseams.1, List.isChain_singleton _, fun b hb c hc => ?_⟩
    obtain rfl : g ++ [x] = c := by simpa using hc
    obtain ⟨hb', hg', hr⟩ := hseams.2.2 b hb g (by simp)
    exact ⟨hb', by simp, by rwa [List.head_append_of_ne_nil hg']⟩

variable [DecidableEq κ]

def Keyed (ps : List (κ × α)) : Prop :=
  ∀ front p q back, ps = front ++ p :: q :: back →
    if link p.2 q.2 then q.1 = p.1 else q.1 ∉ (front ++ [p]).map Prod.fst

lemma extendAt_last {d : Dict κ (List α)} {k : κ} (hk : k ∉ keys d) (g xs : List α) :
    extendAt (d ++ [(k, g)]) k xs = d ++ [(k, g ++ xs)] := by
  induction d with
  | nil => simp [extendAt, PyDict.set, get?_cons]
  | cons p d ih =>
    have hp : p.1 ≠ k := fun he => hk (by simp [keys, he])
    have ih' := ih fun hin => hk (List.mem_cons_of_mem _ hin)
    rw [extendAt] at ih' ⊢
    rw [List.cons_append, PyDict.set, if_neg hp, get?_cons, if_neg hp, ih', List.cons_append]

lemma extendAt_new {d : Dict κ (List α)} {k : κ} (hk : k ∉ keys d) (xs : List α) :
    extendAt d k xs = d ++ [(k, xs)] := by
  rw [extendAt, get?_eq_none.mpr hk, set_of_not_mem hk]
  rfl

lemma groupBy_concat (f : α → κ) (xs : List α) (x : α) :
    groupBy f (xs ++ [x]) = extendAt (groupBy f xs) (f x) [x] := by
  simp [groupBy]

lemma groupBy_runs (ps : List (κ × α)) (p : κ × α) (h : Keyed link (ps ++ [p])) :
    ∃ init g, groupBy Prod.fst (ps ++ [p]) = init ++ [(p.1, g)] ∧ p.1 ∉ keys init ∧
      ((ps ++ [p]).map Prod.snd).splitBy link = init.map (fun e => e.2.map Prod.snd) ++ [g.map Prod.snd] := by
  induction ps using List.reverseRecOn generalizing p with
  | nil => exact ⟨[], [p], rfl, by simp [keys], rfl⟩
  | append_singleton ps q ih =>
    have hq : Keyed link (ps ++ [q]) := fun front a b back he => h front a b (back ++ [p]) (by rw [he]; simp)
    obtain ⟨init, g, hgroups, hnew, hsplit⟩ := ih q hq
    have hp := h ps q p [] (by simp)
    have hlast : ((ps ++ [q]).map Prod.snd).getLast? = some q.2 := by simp
    rw [groupBy_concat, hgroups, List.map_append, List.map_singleton]
    split_ifs at hp with hlink
    · refine ⟨init, g ++ [p], ?_, hp ▸ hnew, ?_⟩
      · rw [hp, extendAt_last hnew]
      · rw [splitBy_concat_linked link hlast hlink hsplit]
        simp
    · have hkeys : p.1 ∉ keys (init ++ [(q.1, g)]) := by
        intro hin
        rw [← hgroups, groupBy_eq, keys, List.map_map] at hin
        obtain ⟨k, hk, hkp⟩ := List.mem_map.mp hin
        obtain rfl : k = p.1 := hkp
        exact hp (mem_firstOccurrences.mp hk)
      refine ⟨init ++ [(q.1, g)], [p], extendAt_new hkeys _, hkeys, ?_⟩
      rw [splitBy_concat_unlinked link fun a ha => ?_, hsplit]
      · simp
      · obtain rfl : q.2 = a := Option.some.inj (hlast.symm.trans ha)
        simpa using hlink

theorem groupBy_eq_splitBy {ps : List (κ × α)} (h : Keyed link ps) :
    (groupBy Prod.fst ps).map (fun g => g.2.map Prod.snd) = (ps.map Prod.snd).splitBy link := by
  rcases ps.eq_nil_or_concat' with rfl | ⟨ps, p, rfl⟩
  · rfl
  · obtain ⟨init, g, hgroups, -, hsplit⟩ := groupBy_runs link ps p h
    rw [hgroups, hsplit]
    simp

end Runs

section Forest
variable (link : α → α → Bool) (xs : List α)

/-- The body of the loop: linked neighbours are united, the later under the root of the earlier. -/
def unite (uf : Forest (Fin xs.length)) (i j : Fin xs.length) : Forest (Fin xs.length) :=
  let a := uf.find i
  let b := a.2.find j
  if a.1 = b.1 then b.2
  else if link (xs.get i) (xs.get j) then
    let a' := b.2.find i
    let b' := a'.2.find j
    b'.2.link b'.1 a'.1 (a'.2.find_isRoot j) (Forest.isRoot_find (b.2.find_isRoot i) j)
  else b.2

/-- The forest when the neighbours up to place `k` have been looked at. -/
def unitedTo : (k : ℕ) → k < xs.length → Forest (Fin xs.length)
  | 0, _ => Forest.singletons _
  | k + 1, h => unite link xs (unitedTo k (by omega)) ⟨k, by omega⟩ ⟨k + 1, h⟩

def united : Forest (Fin xs.length) :=
  if h : xs.length - 1 < xs.length then unitedTo link xs (xs.length - 1) h else Forest.singletons _

/-- `merged[find(i)].extend(rows(x))` over all elements. -/
def gather (rows : α → List β) (uf : Forest (Fin xs.length)) : List (List β) :=
  let merged := (List.finRange xs.length).foldl
    (fun (acc : Forest (Fin xs.length) × Dict (Fin xs.length) (List β)) i =>
      let f := acc.1.find i
      (f.2, extendAt acc.2 f.1 (rows (xs.get i)))) (uf, [])
  merged.2.map Prod.snd

variable {xs}

lemma root_unite (uf : Forest (Fin xs.length)) (i j y : Fin xs.length) :
    (unite link xs uf i j).root y =
      if link (xs.get i) (xs.get j) = true ∧ uf.root y = uf.root j then uf.root i else uf.root y := by
  rw [unite]
  simp only [Forest.find_fst, Forest.root_find]
  by_cases hsame : uf.root i = uf.root j
  · rw [if_pos hsame, Forest.root_find, Forest.root_find]
    split_ifs with h
    · rw [h.2, hsame]
    · rfl
  · rw [if_neg hsame]
    by_cases hlink : link (xs.get i) (xs.get j) = true
    · rw [if_pos hlink, Forest.root_link]
      simp only [hlink, true_and, Forest.root_find]
    · rw [if_neg hlink, if_neg fun h => hlink h.1, Forest.root_find, Forest.root_find]

/-- Up to place `k` an element has the root of the one in front if they are linked and is a root
itself if not; behind it every element is alone. -/
lemma root_unitedTo (k : ℕ) (hk : k < xs.length) :
    (∀ i : Fin xs.length, k < i → (unitedTo link xs k hk).root i = i) ∧
      (∀ i : Fin xs.length, (unitedTo link xs k hk).root i ≤ i) ∧
      ∀ i (hi : i + 1 < xs.length), i < k →
        (unitedTo link xs k hk).root ⟨i + 1, hi⟩ =
          if link (xs.get ⟨i, by omega⟩) (xs.get ⟨i + 1, hi⟩) then
            (unitedTo link xs k hk).root ⟨i, by omega⟩ else ⟨i + 1, hi⟩ := by
  induction k with
  | zero => simp [unitedTo]
  | succ k ih =>
    obtain ⟨halone, hle, hchain⟩ := ih (by omega)
    set uf := unitedTo link xs k (by omega) with huf
    have hroot (y : Fin xs.length) : (unitedTo link xs (k + 1) hk).root y =
        if link (xs.get ⟨k, by omega⟩) (xs.get ⟨k + 1, hk⟩) = true ∧
          y = ⟨k + 1, hk⟩ then uf.root ⟨k, by omega⟩ else uf.root y := by
      rw [unitedTo, root_unite, halone ⟨k + 1, hk⟩ (Nat.lt_succ_self k)]
      refine if_congr (and_congr_right fun _ => ⟨fun hy => ?_, fun hy => ?_⟩) rfl rfl
      · rcases Nat.lt_or_ge k y with hky | hky
        · rwa [halone y hky] at hy
        · have hyk := hle y
          rw [hy, Fin.le_def] at hyk
          simp only at hyk
          omega
      · rw [hy]
        exact halone _ (Nat.lt_succ_self k)
    refine ⟨fun i hi => ?_, fun i => ?_, fun i hi hik => ?_⟩
    · rw [hroot, if_neg, halone i (by omega)]
      rintro ⟨-, rfl⟩
      exact absurd hi (lt_irrefl _)
    · rw [hroot]
      split_ifs with h
      · rw [h.2]
        exact (hle ⟨k, by omega⟩).trans (Fin.mk_le_mk.mpr (by omega))
      · exact hle i
    · have hi0 : (unitedTo link xs (k + 1) hk).root ⟨i, by omega⟩ = uf.root ⟨i, by omega⟩ := by
        rw [hroot, if_neg]
        rintro ⟨-, he⟩
        have := congrArg Fin.val he
        simp only at this
        omega
      rw [hi0, hroot]
      rcases Nat.lt_succ_iff_lt_or_eq.mp hik with hlt | rfl
      · rw [if_neg, hchain i hi hlt]
        rintro ⟨-, he⟩
        have := congrArg Fin.val he
        simp only at this
        omega
      · rw [halone ⟨i + 1, hk⟩ (Nat.lt_succ_self i)]
        simp

lemma root_united_le (i : Fin xs.length) : (united link xs).root i ≤ i := by
  rw [united]
  split_ifs with h
  · exact (root_unitedTo link _ h).2.1 i
  · simp

lemma root_united_succ (i : ℕ) (hi : i + 1 < xs.length) : (united link xs).root ⟨i + 1, hi⟩ =
      if link (xs.get ⟨i, by omega⟩) (xs.get ⟨i + 1, hi⟩) then
        (united link xs).root ⟨i, by omega⟩ else ⟨i + 1, hi⟩ := by
  rw [united, dif_pos (by omega)]
  exact (root_unitedTo link _ _).2.2 i hi (by omega)

lemma keyed_united : Keyed link ((List.finRange xs.length).map fun i => ((united link xs).root i, xs.get i)) := by
  intro front p q back he
  have hlen := congrArg List.length he
  simp only [List.length_map, List.length_finRange, List.length_append, List.length_cons] at hlen
  have hfront (i : ℕ) (hi : i < xs.length) :
      (front ++ p :: q :: back)[i]? = some ((united link xs).root ⟨i, hi⟩, xs.get ⟨i, hi⟩) := by
    rw [← he, List.getElem?_map, List.getElem?_eq_getElem (by simpa using hi), List.getElem_finRange]
    rfl
  have hp := hfront front.length (by omega)
  have hq := hfront (front.length + 1) (by omega)
  rw [List.getElem?_append_right le_rfl, Nat.sub_self] at hp
  rw [List.getElem?_append_right (by omega), Nat.add_sub_cancel_left] at hq
  obtain rfl : p = _ := Option.some.inj hp
  obtain rfl : q = _ := Option.some.inj hq
  simp only
  rw [root_united_succ link front.length (by omega)]
  split_ifs with hlink
  · rfl
  · intro hin
    obtain ⟨e, hmem, hkey⟩ := List.mem_map.mp hin
    obtain ⟨i, hi, hget⟩ := List.getElem_of_mem hmem
    rw [List.length_append, List.length_singleton] at hi
    have hsome : (front ++ [_])[i]? = some e := List.getElem?_eq_some_iff.mpr ⟨_, hget⟩
    have hroot := hfront i (by omega)
    rw [List.append_cons, List.getElem?_append_left (by simpa using hi), hsome] at hroot
    have hle := root_united_le link (⟨i, by omega⟩ : Fin xs.length)
    rw [Option.some.inj hroot] at hkey
    simp only at hkey
    rw [hkey, Fin.mk_le_mk] at hle
    omega

lemma gather_eq (rows : α → List β) (uf : Forest (Fin xs.length)) : gather xs rows uf =
      (groupBy Prod.fst ((List.finRange xs.length).map fun i => (uf.root i, xs.get i))).map
        fun g => (g.2.map Prod.snd).flatMap rows := by
  have hfold : ∀ (l : List (Fin xs.length)) (F : Forest (Fin xs.length)) (d : Dict (Fin xs.length) (List β)),
      F.root = uf.root →
      (l.foldl (fun (acc : Forest (Fin xs.length) × Dict (Fin xs.length) (List β)) i =>
        ((acc.1.find i).2, extendAt acc.2 (acc.1.find i).1 (rows (xs.get i)))) (F, d)).2 =
        l.foldl (fun d i => extendAt d (uf.root i) (rows (xs.get i))) d := by
    intro l
    induction l with
    | nil => exact fun _ _ _ => rfl
    | cons i l ih =>
      intro F d hF
      rw [List.foldl_cons, List.foldl_cons, ih _ _ (funext fun y => by rw [Forest.root_find, hF]),
        Forest.find_fst, hF]
  rw [gather]
  simp only
  rw [hfold _ _ _ rfl, foldl_extendAt, groupBy_eq, List.map_map, List.map_map, List.map_map]
  refine List.map_congr_left fun k _ => ?_
  simp only [Function.comp_apply, List.filter_map, List.flatMap_map]
  rfl

theorem gather_united (rows : α → List β) :
    gather xs rows (united link xs) = (xs.splitBy link).map (·.flatMap rows) := by
  have hkeyed : Keyed link ((List.finRange xs.length).map fun i =>
    ((united link xs).root i, xs.get i)) := keyed_united link
  have hruns := groupBy_eq_splitBy link hkeyed
  have hxs : ((List.finRange xs.length).map fun i => ((united link xs).root i, xs.get i)).map Prod.snd = xs := by
    rw [List.map_map]
    exact List.map_get_finRange xs
  rw [hxs] at hruns
  rw [gather_eq, ← hruns, List.map_map]
  rfl

end Forest

end AgentTrajectory.NeighbourRuns
