import AgentTrajectory.OverlapResolution
import AgentTrajectory.PyValue

/-! Which message numbers `resolve_overlaps` loses. The second pass and the pruning keep every
number; the first pass takes a shared number from the earlier of two sub-requirements, and loses
it where the later one has lost it to a third. -/
namespace AgentTrajectory.LlmDecompose
open PyText PyDict PyJson TaskStitch LlmSegment

/-- Some sub-requirement lists the number. -/
def Held (env : Env) (subs : List Subreq) (v : ℕ) : Prop := ∃ s ∈ subs, v ∈ s.numbers env

variable {env : Env} {setOrder : ℕ → ℕ → Bool} {subs : List Subreq} {v : ℕ}

lemma held_iff : Held env subs v ↔ ∃ i, holdsNumber env subs v i = true := by
  constructor
  · rintro ⟨s, hs, hv⟩
    obtain ⟨i, hi⟩ := List.mem_iff_getElem?.mp hs
    exact ⟨i, holdsNumber_iff.mpr ⟨s, hi, hv⟩⟩
  · rintro ⟨i, hi⟩
    obtain ⟨s, hs, hv⟩ := holdsNumber_iff.mp hi
    exact ⟨s, List.mem_of_getElem? hs, hv⟩

lemma Held.own (h : Held env subs v) (hex : Exclusive env subs) : ∃ i, Own env subs i v := by
  obtain ⟨i, hi⟩ := held_iff.mp h
  refine ⟨i, own_iff.mpr ⟨hi, fun j hj => ?_⟩⟩
  by_contra hne
  rcases lt_or_gt_of_ne hne with hlt | hlt
  · exact exclusive_iff.mp hex j i v hlt hj hi
  · exact exclusive_iff.mp hex i j v hlt hi hj

lemma Own.held {i : ℕ} (h : Own env subs i v) :
    Held env subs v := held_iff.mpr ⟨i, (own_iff.mp h).1⟩

lemma held_dedup : Held env (subs.map (dedupSubreq env)) v ↔ Held env subs v := by
  simp only [Held, List.mem_map]
  constructor
  · rintro ⟨t, ⟨s, hs, rfl⟩, hv⟩
    exact ⟨s, hs, mem_numbers_dedup.mp hv⟩
  · rintro ⟨s, hs, hv⟩
    exact ⟨_, ⟨s, hs, rfl⟩, mem_numbers_dedup.mpr hv⟩

lemma held_prune {r r' : Result} (h : pruneEmptySubreqs env r = .ok r') :
    Held env r'.subreqs v ↔ Held env r.subreqs v := by
  have hfilter : Held env (r.subreqs.filter fun s => !(s.numbers env).isEmpty) v ↔
      Held env r.subreqs v := by
    simp only [Held, List.mem_filter]
    constructor
    · rintro ⟨s, ⟨hs, -⟩, hv⟩
      exact ⟨s, hs, hv⟩
    · rintro ⟨s, hs, hv⟩
      exact ⟨s, ⟨hs, by simp [List.ne_nil_of_mem hv]⟩, hv⟩
  simp only [pruneEmptySubreqs] at h
  split_ifs at h
  · obtain rfl := Except.ok.inj h
    rfl
  · obtain ⟨es, -, rfl⟩ := PyValue.map_eq_ok.mp h
    exact hfilter

lemma narrowest_mem (env : Env) (subs : List Subreq) (best : ℕ) (is : List ℕ) :
    narrowest env subs best is ∈ best :: is := by
  induction is generalizing best with
  | nil => simp [narrowest]
  | cons i is ih =>
    rw [narrowest]
    split_ifs
    · exact List.mem_cons_of_mem _ (ih i)
    · rcases List.mem_cons.mp (ih best) with h | h
      · exact List.mem_cons.mpr (.inl h)
      · exact List.mem_cons_of_mem _ (List.mem_cons_of_mem _ h)

lemma forceStep_spec {m : ℕ × List ℕ} (hm : ∀ k ∈ m.2, holdsNumber env subs m.1 k = true) :
    (∀ w, Held env subs w → Held env (forceStep env subs m) w) ∧
      ∀ w i, w ≠ m.1 → holdsNumber env subs w i = true →
        holdsNumber env (forceStep env subs m) w i = true := by
  obtain ⟨v, ks⟩ := m
  match ks with
  | [] => exact ⟨fun w h => h, fun w i _ h => h⟩
  | [k] => exact ⟨fun w h => h, fun w i _ h => h⟩
  | i :: j :: is =>
    have hstep : forceStep env subs (v, i :: j :: is) =
        stripOthers env (narrowest env subs i (j :: is)) v (i :: j :: is) subs := rfl
    rw [hstep]
    have hother : ∀ w k, w ≠ v → holdsNumber env subs w k = true →
        holdsNumber env (stripOthers env (narrowest env subs i (j :: is)) v (i :: j :: is) subs) w
          k = true :=
      fun w k hw hk => (stripOthers_holds ..).mpr ⟨hk, fun h => hw h.1⟩
    refine ⟨fun w hw => ?_, hother⟩
    by_cases hwv : w = v
    · subst hwv
      have hwin := hm _ (narrowest_mem env subs i (j :: is))
      exact held_iff.mpr ⟨_, (stripOthers_holds ..).mpr ⟨hwin, fun h => h.2.2 rfl⟩⟩
    · obtain ⟨k, hk⟩ := held_iff.mp hw
      exact held_iff.mpr ⟨k, hother w k hwv hk⟩

lemma forceFold_held (ms : List (ℕ × List ℕ)) (hnodup : (ms.map Prod.fst).Nodup)
    (hms : ∀ m ∈ ms, ∀ k ∈ m.2, holdsNumber env subs m.1 k = true) (h : Held env subs v) :
    Held env (ms.foldl (forceStep env) subs) v := by
  induction ms generalizing subs with
  | nil => exact h
  | cons m ms ih =>
    rw [List.map_cons, List.nodup_cons] at hnodup
    obtain ⟨hheld, hother⟩ := forceStep_spec (hms m List.mem_cons_self)
    refine ih hnodup.2 (fun q hq k hk => ?_) (hheld v h)
    refine hother q.1 k (fun heq => hnodup.1 ?_) (hms q (List.mem_cons_of_mem _ hq) k hk)
    exact heq ▸ List.mem_map_of_mem hq

/-- At every pair that shares few numbers, each that the earlier of the two still lists is
listed by another as well. -/
def PivotKeeps (env : Env) (setOrder : ℕ → ℕ → Bool) : List ((ℕ × ℕ) × List ℕ) → Result → Prop
  | [], _ => True
  | p :: ps, r =>
      (p.2.length ≤ pivotMax → ∀ v ∈ p.2,
        holdsNumber env r.subreqs v (orderPair env setOrder r.subreqs p.1).1 = true →
        ∃ i, i ≠ (orderPair env setOrder r.subreqs p.1).1 ∧ holdsNumber env r.subreqs v i = true) ∧
      PivotKeeps env setOrder ps (pivotStep env setOrder r p)

lemma pivotStep_holds_iff {r : Result} {p : (ℕ × ℕ) × List ℕ}
    (hsmall : p.2.length ≤ pivotMax) {i w : ℕ} :
    holdsNumber env (pivotStep env setOrder r p).subreqs w i = true ↔
      holdsNumber env r.subreqs w i = true ∧
        ¬(i = (orderPair env setOrder r.subreqs p.1).1 ∧ w ∈ p.2) := by
  rw [pivotStep, if_neg (not_lt.mpr hsmall)]
  exact holdsNumber_modify

lemma pivotStep_held_iff (r : Result) (p : (ℕ × ℕ) × List ℕ) :
    (∀ w, Held env r.subreqs w → Held env (pivotStep env setOrder r p).subreqs w) ↔
      (p.2.length ≤ pivotMax → ∀ v ∈ p.2,
        holdsNumber env r.subreqs v (orderPair env setOrder r.subreqs p.1).1 = true →
        ∃ i, i ≠ (orderPair env setOrder r.subreqs p.1).1 ∧
          holdsNumber env r.subreqs v i = true) := by
  constructor
  · intro h hsmall w hw hhold
    obtain ⟨i, hi⟩ := held_iff.mp (h w (held_iff.mpr ⟨_, hhold⟩))
    obtain ⟨hi, hkept⟩ := (pivotStep_holds_iff hsmall).mp hi
    exact ⟨i, fun heq => hkept ⟨heq, hw⟩, hi⟩
  · intro h w hheld
    by_cases hsmall : p.2.length ≤ pivotMax
    · obtain ⟨i, hi⟩ := held_iff.mp hheld
      by_cases hstrip : i = (orderPair env setOrder r.subreqs p.1).1 ∧ w ∈ p.2
      · obtain ⟨j, hne, hj⟩ := h hsmall w hstrip.2 (hstrip.1 ▸ hi)
        exact held_iff.mpr ⟨j, (pivotStep_holds_iff hsmall).mpr ⟨hj, fun hs => hne hs.1⟩⟩
      · exact held_iff.mpr ⟨i, (pivotStep_holds_iff hsmall).mpr ⟨hi, hstrip⟩⟩
    · rwa [pivotStep, if_pos (not_le.mp hsmall)]

lemma pivotFold_held_iff (ps : List ((ℕ × ℕ) × List ℕ)) (r : Result) :
    (∀ w, Held env r.subreqs w → Held env (ps.foldl (pivotStep env setOrder) r).subreqs w) ↔
      PivotKeeps env setOrder ps r := by
  induction ps generalizing r with
  | nil => simp [PivotKeeps]
  | cons p ps ih =>
    rw [List.foldl_cons, PivotKeeps, ← pivotStep_held_iff, ← ih]
    have hless (w : ℕ) (h : Held env (pivotStep env setOrder r p).subreqs w) :
        Held env r.subreqs w := by
      obtain ⟨i, hi⟩ := held_iff.mp h
      exact held_iff.mpr ⟨i, pivotStep_holds hi⟩
    have hrest (w : ℕ)
        (h : Held env (ps.foldl (pivotStep env setOrder) (pivotStep env setOrder r p)).subreqs w) :
          Held env (pivotStep env setOrder r p).subreqs w := by
      obtain ⟨i, hi⟩ := held_iff.mp h
      exact held_iff.mpr ⟨i, (pivotFold_holds env setOrder ps _).1 hi⟩
    constructor
    · exact fun h => ⟨fun w hw => hrest w (h w hw), fun w hw => h w (hless w hw)⟩
    · exact fun h w hw => h.2 w (h.1 w hw)

lemma messageNumbers_nodup (env : Env) (subs : List Subreq) : (messageNumbers env subs).Nodup :=
  keys_nodup_update (by simp [keys]) _

lemma force_held :
    Held env ((msgToSubs env subs).foldl (forceStep env) subs) v ↔ Held env subs v := by
  constructor
  · intro h
    obtain ⟨i, hi⟩ := held_iff.mp h
    exact held_iff.mpr ⟨i, (forceFold_holds env (msgToSubs env subs) subs).1 hi⟩
  · refine forceFold_held _ ?_ fun m hm k hk => ?_
    · simpa [msgToSubs, Function.comp_def] using messageNumbers_nodup env subs
    · obtain ⟨w, -, rfl⟩ := List.mem_map.mp hm
      exact mem_holders.mp hk

lemma held_resolveOverlaps {r r' : Result} {force : Bool}
    (h : resolveOverlaps env setOrder r force = .ok (r', false)) :
    Held env r'.subreqs v ↔
      Held env ((pairShared env (r.subreqs.map (dedupSubreq env))).foldl (pivotStep env setOrder)
        ⟨r.subreqs.map (dedupSubreq env), r.edges⟩).subreqs v := by
  simp only [resolveOverlaps] at h
  generalize r.subreqs.map (dedupSubreq env) = subs at h ⊢
  generalize hr₁ : (pairShared env subs).foldl (pivotStep env setOrder) ⟨subs, r.edges⟩ = r₁ at h ⊢
  split_ifs at h with hnone hwait hlarge
  · obtain ⟨rfl, -⟩ := Prod.mk.inj (Except.ok.inj h)
    rw [← hr₁, hnone, List.foldl_nil]
  · simp at h
  · obtain ⟨r₂, hprune, heq⟩ := PyValue.map_eq_ok.mp h
    obtain ⟨rfl, -⟩ := Prod.mk.inj heq
    rw [held_prune hprune]
    exact force_held
  · obtain ⟨r₂, hprune, heq⟩ := PyValue.map_eq_ok.mp h
    obtain ⟨rfl, -⟩ := Prod.mk.inj heq
    rw [held_prune hprune]

/-- Every number of the answer is in exactly one sub-requirement of the result, exactly where
no step of the first pass takes a number from the last that lists it. -/
theorem every_number_in_one_subreq_iff (env : Env) (setOrder : ℕ → ℕ → Bool)
    (r r' : Result) (force : Bool) (h : resolveOverlaps env setOrder r force = .ok (r', false)) :
    (∀ v, Held env r.subreqs v → ∃ i, Own env r'.subreqs i v) ↔
      PivotKeeps env setOrder (pairShared env (r.subreqs.map (dedupSubreq env)))
        ⟨r.subreqs.map (dedupSubreq env), r.edges⟩ := by
  have hex : Exclusive env r'.subreqs := ((resolveOverlaps_spec h).2.2 rfl).exclusive
  rw [← pivotFold_held_iff]
  constructor
  · intro hall v hv
    obtain ⟨i, hi⟩ := hall v (held_dedup.mp hv)
    exact (held_resolveOverlaps h).mp hi.held
  · intro hall v hv
    exact ((held_resolveOverlaps h).mpr (hall v (held_dedup.mpr hv))).own hex

def numbered (id : String) (members : List ℕ) : Subreq :=
  ⟨some (.str (py id)), none, .null, .null, members.map .num⟩

/-- Small indexes leave a `frozenset` in ascending order. -/
def ascending (i j : ℕ) : Bool := decide (i < j)

/-- Each of three sub-requirements that share a number loses it to the next. -/
theorem number_of_three_subreqs_lost : resolveOverlaps asciiEnv ascending
        ⟨[numbered "S1" [5, 20], numbered "S2" [5, 6], numbered "S3" [5, 10]], []⟩ false =
      .ok (⟨[numbered "S1" [20], numbered "S2" [6], numbered "S3" [10]],
        [⟨.str (py "S1"), .str (py "S2"), py "⤼枢纽(搁置转接)"⟩,
          ⟨.str (py "S3"), .str (py "S1"), py "⤼枢纽(搁置转接)"⟩,
          ⟨.str (py "S2"), .str (py "S3"), py "⤼枢纽(搁置转接)"⟩]⟩, false) ∧
      Held asciiEnv [numbered "S1" [5, 20], numbered "S2" [5, 6], numbered "S3" [5, 10]] 5 ∧
      ¬Held asciiEnv [numbered "S1" [20], numbered "S2" [6], numbered "S3" [10]] 5 := by
  unfold Held
  exact ⟨by decide +kernel, by decide +kernel, by decide +kernel⟩

theorem every_number_in_one_subreq_iff_two :
    resolveOverlaps asciiEnv ascending ⟨[numbered "S1" [1, 2], numbered "S2" [2, 3]], []⟩ false =
        .ok (⟨[numbered "S1" [1], numbered "S2" [2, 3]],
          [⟨.str (py "S1"), .str (py "S2"), py "⤼枢纽(搁置转接)"⟩]⟩, false) ∧
      ∀ v, Held asciiEnv [numbered "S1" [1, 2], numbered "S2" [2, 3]] v →
        ∃ i, Own asciiEnv [numbered "S1" [1], numbered "S2" [2, 3]] i v := by
  have hcall : resolveOverlaps asciiEnv ascending ⟨[numbered "S1" [1, 2], numbered "S2" [2, 3]],
    []⟩ false =
      .ok (⟨[numbered "S1" [1], numbered "S2" [2, 3]],
        [⟨.str (py "S1"), .str (py "S2"), py "⤼枢纽(搁置转接)"⟩]⟩, false) := by decide +kernel
  have hpairs :
    pairShared asciiEnv ([numbered "S1" [1, 2], numbered "S2" [2, 3]].map (dedupSubreq asciiEnv)) =
      [((0, 1), [2])] := by decide +kernel
  refine ⟨hcall, (every_number_in_one_subreq_iff _ _ _ _ _ hcall).mpr ?_⟩
  rw [hpairs]
  refine ⟨fun _ v hv _ => ⟨1, ?_, ?_⟩, trivial⟩
  · decide +kernel
  · rw [List.mem_singleton.mp hv]
    decide +kernel

lemma pivotKeeps_of_disjoint (ps : List ((ℕ × ℕ) × List ℕ)) (r : Result)
    (hdisjoint : ps.Pairwise fun p q => p.2.Disjoint q.2)
    (hps : ∀ p ∈ ps, p.1.1 < p.1.2 ∧
      ∀ v ∈ p.2, holdsNumber env r.subreqs v p.1.1 = true ∧
        holdsNumber env r.subreqs v p.1.2 = true) :
    PivotKeeps env setOrder ps r := by
  induction ps generalizing r with
  | nil => trivial
  | cons p ps ih =>
    obtain ⟨hp, hrest⟩ := List.pairwise_cons.mp hdisjoint
    refine ⟨fun _ v hv _ => ?_, ih _ hrest fun q hq => ?_⟩
    · obtain ⟨hlt, hboth⟩ := hps p List.mem_cons_self
      have horder : (orderPair env setOrder r.subreqs p.1).1 = p.1.1 ∨
        (orderPair env setOrder r.subreqs p.1).1 = p.1.2 :=
        orderPair_mem setOrder r.subreqs p.1
      rcases horder with ho | ho
      · exact ⟨p.1.2, by rw [ho]; exact hlt.ne', (hboth v hv).2⟩
      · exact ⟨p.1.1, by rw [ho]; exact hlt.ne, (hboth v hv).1⟩
    · obtain ⟨hlt, hboth⟩ := hps q (List.mem_cons_of_mem _ hq)
      refine ⟨hlt, fun v hv => ?_⟩
      have hkeep (i : ℕ) (hi : holdsNumber env r.subreqs v i = true) :
          holdsNumber env (pivotStep env setOrder r p).subreqs v i = true := by
        by_cases hsmall : p.2.length ≤ pivotMax
        · exact (pivotStep_holds_iff hsmall).mpr ⟨hi, fun hs => hp q hq hs.2 hv⟩
        · rwa [pivotStep, if_pos (not_le.mp hsmall)]
      exact ⟨hkeep _ (hboth v hv).1, hkeep _ (hboth v hv).2⟩

lemma eq_of_two_holders {i j k l : ℕ} (htwo : (holders env subs v).length ≤ 2)
    (hij : i < j) (hkl : k < l)
    (hi : holdsNumber env subs v i = true) (hj : holdsNumber env subs v j = true)
    (hk : holdsNumber env subs v k = true)
    (hl : holdsNumber env subs v l = true) : (i, j) = (k, l) := by
  rw [← mem_holders] at hi hj hk hl
  have hsorted : (holders env subs v).Pairwise (· < ·) := holders_pairwise_lt
  match holders env subs v, htwo, hsorted, hi, hj, hk, hl with
  | [], _, _, hi, _, _, _ => simp at hi
  | [a], _, _, hi, hj, _, _ =>
    rw [List.mem_singleton] at hi hj
    omega
  | [a, b], _, hsorted, hi, hj, hk, hl =>
    simp only [List.mem_cons, List.not_mem_nil, or_false] at hi hj hk hl
    have hab : a < b := (List.pairwise_cons.mp hsorted).1 b (by simp)
    grind

theorem pivotKeeps_of_two_holders (edges : List Edge) (h : ∀ v, (holders env subs v).length ≤ 2) :
    PivotKeeps env setOrder (pairShared env subs) ⟨subs, edges⟩ := by
  have hlt : ∀ p ∈ pairShared env subs, p.1.1 < p.1.2 := by
    intro p hp
    obtain ⟨q, hq, rfl⟩ := List.mem_map.mp hp
    obtain ⟨m, hm, hqm⟩ := List.mem_flatMap.mp (mem_firstOccurrences.mp hq)
    obtain ⟨v, -, rfl⟩ := List.mem_map.mp hm
    exact ((mem_pairsOf holders_pairwise_lt).mp hqm).2.2
  have hdistinct : ((pairShared env subs).map Prod.fst).Nodup := by
    have hkeys : (firstOccurrences ((msgToSubs env subs).flatMap fun m => pairsOf m.2)).Nodup :=
      keys_nodup_update (by simp [keys]) _
    simpa [pairShared, Function.comp_def] using hkeys
  refine pivotKeeps_of_disjoint _ _ ?_ fun p hp => ⟨hlt p hp, (pairShared_sound hp).2⟩
  have hpairs : (pairShared env subs).Pairwise fun p q => p.1 ≠ q.1 :=
    List.pairwise_map.mp hdistinct
  refine hpairs.imp_of_mem fun {p q} hp hq hne v hvp hvq => hne ?_
  obtain ⟨hp1, hp2⟩ := (pairShared_sound hp).2 v hvp
  obtain ⟨hq1, hq2⟩ := (pairShared_sound hq).2 v hvq
  exact eq_of_two_holders (h v) (hlt p hp) (hlt q hq) hp1 hp2 hq1 hq2

/-- Where no number is listed by three sub-requirements, every number is in exactly one of the
result. -/
theorem two_holders_lose_nothing {r r' : Result} {force : Bool}
    (h : resolveOverlaps env setOrder r force = .ok (r', false))
    (htwo : ∀ v, (holders env r.subreqs v).length ≤ 2) (hv : Held env r.subreqs v) : ∃ i,
    Own env r'.subreqs i v := by
  have hless (w : ℕ) : (holders env (r.subreqs.map (dedupSubreq env)) w).length ≤
      (holders env r.subreqs w).length := by
    refine (List.subperm_of_subset (holders_pairwise_lt.imp Nat.ne_of_lt) fun i hi => ?_).length_le
    obtain ⟨t, ht, hw⟩ := holdsNumber_iff.mp (mem_holders.mp hi)
    obtain ⟨s, hs, rfl⟩ := Option.map_eq_some_iff.mp (List.getElem?_map ▸ ht)
    exact mem_holders.mpr (holdsNumber_iff.mpr ⟨s, hs, mem_numbers_dedup.mp hw⟩)
  have hkeeps : PivotKeeps env setOrder _ ⟨_, r.edges⟩ := pivotKeeps_of_two_holders r.edges fun w =>
    (hless w).trans (htwo w)
  have hheld := (pivotFold_held_iff _ _).mpr hkeeps v (held_dedup.mpr hv)
  exact ((held_resolveOverlaps h).mpr hheld).own (((resolveOverlaps_spec h).2.2 rfl).exclusive)

theorem two_holders_lose_nothing_pair :
    ∃ i, Own asciiEnv [numbered "S1" [1], numbered "S2" [2, 3]] i 2 := by
  have hcall : resolveOverlaps asciiEnv ascending ⟨[numbered "S1" [1, 2], numbered "S2" [2, 3]],
    []⟩ false =
      .ok (⟨[numbered "S1" [1], numbered "S2" [2, 3]],
        [⟨.str (py "S1"), .str (py "S2"), py "⤼枢纽(搁置转接)"⟩]⟩, false) := by decide +kernel
  exact two_holders_lose_nothing hcall (fun v => (List.length_filter_le _ _).trans (by simp))
    (by unfold Held; decide +kernel)

end AgentTrajectory.LlmDecompose
