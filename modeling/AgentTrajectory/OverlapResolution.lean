import AgentTrajectory.DecomposeRepair

/-! What `resolve_overlaps` does to a repaired answer: which number it takes from which
sub-requirement, what is left, and that a returned result shares no number. -/
namespace AgentTrajectory.LlmDecompose
open PyText PyDict PyJson PyValue TaskStitch LlmSegment

/-- No message number belongs to two sub-requirements. -/
def Exclusive (env : Env) (subs : List Subreq) : Prop :=
  subs.Pairwise fun s t => (s.numbers env).Disjoint (t.numbers env)

instance (env : Env) (subs : List Subreq) : Decidable (Exclusive env subs) :=
  inferInstanceAs (Decidable (List.Pairwise (fun s t => ∀ v ∈ Subreq.numbers env s,
    v ∉ t.numbers env) subs))

/-- The sub-requirement at `i` is the only one that lists `v`. -/
def Own (env : Env) (subs : List Subreq) (i v : ℕ) : Prop := holders env subs v = [i]

section Holders
variable {env : Env} {subs : List Subreq} {v i j : ℕ}

lemma holdsNumber_iff :
    holdsNumber env subs v i = true ↔ ∃ s, subs[i]? = some s ∧ v ∈ s.numbers env := by
  simp [holdsNumber, Option.any_eq_true]

lemma mem_holders : i ∈ holders env subs v ↔ holdsNumber env subs v i = true := by
  rw [holders, List.mem_filter, List.mem_range, and_iff_right_iff_imp, holdsNumber_iff]
  rintro ⟨s, hs, -⟩
  exact (List.getElem?_eq_some_iff.mp hs).1

lemma holders_pairwise_lt : (holders env subs v).Pairwise (· < ·) :=
  List.pairwise_lt_range.filter _

lemma own_iff : Own env subs i v ↔
      holdsNumber env subs v i = true ∧ ∀ j, holdsNumber env subs v j = true → j = i := by
  simp only [← mem_holders]
  constructor
  · intro h
    rw [Own] at h
    simp [h]
  · rintro ⟨hi, hall⟩
    have hnd : (holders env subs v).Nodup := holders_pairwise_lt.imp (fun h => h.ne)
    exact List.perm_singleton.mp
      ((List.perm_ext_iff_of_nodup hnd (List.nodup_singleton i)).mpr fun k =>
        ⟨fun hk => List.mem_singleton.mpr (hall k hk), fun hk => List.mem_singleton.mp hk ▸ hi⟩)

lemma exclusive_iff : Exclusive env subs ↔
      ∀ i j v, i < j → holdsNumber env subs v i = true →
        holdsNumber env subs v j = true → False := by
  rw [Exclusive, List.pairwise_iff_getElem]
  constructor
  · intro h i j v hij hi hj
    obtain ⟨s, hs, hvs⟩ := holdsNumber_iff.mp hi
    obtain ⟨t, ht, hvt⟩ := holdsNumber_iff.mp hj
    obtain ⟨hi', rfl⟩ := List.getElem?_eq_some_iff.mp hs
    obtain ⟨hj', rfl⟩ := List.getElem?_eq_some_iff.mp ht
    exact h i j hi' hj' hij hvs hvt
  · intro h i j hi hj hij v hvs hvt
    exact h i j v hij (holdsNumber_iff.mpr ⟨_, List.getElem?_eq_getElem hi, hvs⟩)
      (holdsNumber_iff.mpr ⟨_, List.getElem?_eq_getElem hj, hvt⟩)

lemma mem_messageNumbers (h : holdsNumber env subs v i = true) : v ∈ messageNumbers env subs := by
  obtain ⟨s, hs, hv⟩ := holdsNumber_iff.mp h
  rw [messageNumbers, mem_firstOccurrences, List.mem_flatMap]
  refine ⟨s, List.mem_of_getElem? hs, ?_⟩
  rwa [segMembers, List.mem_insertionSort, List.mem_dedup]

end Holders

lemma mem_pairsOf {l : List ℕ} (hl : l.Pairwise (· < ·)) {i j : ℕ} :
    (i, j) ∈ pairsOf l ↔ i ∈ l ∧ j ∈ l ∧ i < j := by
  induction l with
  | nil => simp [pairsOf]
  | cons k ks ih =>
    obtain ⟨hk, hks⟩ := List.pairwise_cons.mp hl
    simp only [pairsOf, List.mem_append, List.mem_map, Prod.mk.injEq, ih hks, List.mem_cons]
    constructor
    · rintro (⟨b, hb, rfl, rfl⟩ | ⟨hi, hj, hij⟩)
      · exact ⟨.inl rfl, .inr hb, hk b hb⟩
      · exact ⟨.inr hi, .inr hj, hij⟩
    · rintro ⟨rfl | hi, rfl | hj, hij⟩
      · exact absurd hij (lt_irrefl _)
      · exact .inl ⟨j, hj, rfl, rfl⟩
      · exact absurd hij (hk i hi).asymm
      · exact .inr ⟨hi, hj, hij⟩

lemma pairShared_sound {env : Env} {subs : List Subreq} {p : (ℕ × ℕ) × List ℕ}
    (h : p ∈ pairShared env subs) :
    p.1.1 ≠ p.1.2 ∧
      ∀ v ∈ p.2, holdsNumber env subs v p.1.1 = true ∧ holdsNumber env subs v p.1.2 = true := by
  rw [pairShared, List.mem_map] at h
  obtain ⟨q, hq, rfl⟩ := h
  rw [mem_firstOccurrences, List.mem_flatMap] at hq
  obtain ⟨m, hm, hqm⟩ := hq
  rw [msgToSubs, List.mem_map] at hm
  obtain ⟨v, -, rfl⟩ := hm
  have hlt := ((mem_pairsOf holders_pairwise_lt).mp hqm).2.2
  refine ⟨hlt.ne, fun w hw => ?_⟩
  simpa using (List.mem_filter.mp hw).2

lemma pairShared_complete {env : Env} {subs : List Subreq} {i j v : ℕ} (hij : i < j)
    (hi : holdsNumber env subs v i = true) (hj : holdsNumber env subs v j = true) :
    ∃ p ∈ pairShared env subs, p.1 = (i, j) ∧ v ∈ p.2 := by
  have hv := mem_messageNumbers hi
  refine ⟨_, List.mem_map_of_mem (mem_firstOccurrences.mpr (List.mem_flatMap.mpr ?_)), rfl,
    List.mem_filter.mpr ⟨hv, by simp [hi, hj]⟩⟩
  exact ⟨(v, holders env subs v), List.mem_map_of_mem hv,
    (mem_pairsOf holders_pairwise_lt).mpr ⟨mem_holders.mpr hi, mem_holders.mpr hj, hij⟩⟩

section Strip
variable {env : Env} {cur : List Subreq}

lemma stripMembers_numbers (drop : List ℕ) (s : Subreq) :
    (stripMembers env drop s).numbers env = (s.numbers env).filter fun v => decide (v ∉ drop) := by
  simp only [Subreq.numbers, stripMembers]
  induction s.memberIdx with
  | nil => rfl
  | cons x xs ih =>
    cases hx : asSegInt env x with
    | none => simp [hx, ih]
    | some v =>
      by_cases hv : v ∈ drop
      · simp [hx, hv, ih]
      · simp [hx, hv, ih]

lemma holdsNumber_modify {drop : List ℕ} {k i v : ℕ} :
    holdsNumber env (cur.modify k (stripMembers env drop)) v i = true ↔
      holdsNumber env cur v i = true ∧ ¬ (i = k ∧ v ∈ drop) := by
  simp only [holdsNumber_iff, List.getElem?_modify]
  by_cases hk : k = i
  · subst hk
    cases cur[k]? with
    | none => simp
    | some s => simp [stripMembers_numbers]
  · simp [hk, Ne.symm hk]

lemma stripMembers_nil : stripMembers env [] = id := by
  funext s
  simp [stripMembers]

lemma stripMembers_stripMembers (drop drop' : List ℕ) (s : Subreq) :
    stripMembers env drop' (stripMembers env drop s) = stripMembers env (drop ++ drop') s := by
  simp only [stripMembers, List.filter_filter, Subreq.mk.injEq, true_and]
  refine List.filter_congr fun x _ => ?_
  cases asSegInt env x with
  | none => rfl
  | some v => simp [Bool.and_comm]

end Strip

lemma dedupMembers_filterMap (env : Env) (seen : List ℕ) (xs : List Member) :
    ((dedupMembers env seen xs).filterMap (asSegInt env)).Sublist (xs.filterMap (asSegInt env)) ∧
      ((dedupMembers env seen xs).filterMap (asSegInt env)).Nodup ∧
      ∀ v, v ∈ (dedupMembers env seen xs).filterMap (asSegInt env) ↔
        v ∈ xs.filterMap (asSegInt env) ∧ v ∉ seen := by
  induction xs generalizing seen with
  | nil => simp [dedupMembers]
  | cons x xs ih =>
    cases hx : asSegInt env x with
    | none => simpa [dedupMembers, hx] using ih seen
    | some w =>
      by_cases hw : w ∈ seen
      · obtain ⟨h1, h2, h3⟩ := ih seen
        simp only [dedupMembers, hx, hw, if_true, List.filterMap_cons_some hx]
        refine ⟨h1.cons _, h2, fun v => ?_⟩
        rw [h3, List.mem_cons]
        grind
      · obtain ⟨h1, h2, h3⟩ := ih (w :: seen)
        simp only [dedupMembers, hx, hw, if_false, List.filterMap_cons_some hx]
        refine ⟨h1.cons_cons _, List.nodup_cons.mpr ⟨fun h => ?_, h2⟩, fun v => ?_⟩
        · exact ((h3 w).mp h).2 (List.mem_cons_self ..)
        · rw [List.mem_cons, h3, List.mem_cons, List.mem_cons]
          grind

lemma mem_numbers_dedup {env : Env} {s : Subreq} {v : ℕ} :
    v ∈ (dedupSubreq env s).numbers env ↔ v ∈ s.numbers env := by
  simpa [Subreq.numbers, dedupSubreq] using (dedupMembers_filterMap env [] s.memberIdx).2.2 v

lemma dedupMembers_subset (env : Env) (seen : List ℕ) (xs : List Member) :
    dedupMembers env seen xs ⊆ xs := by
  induction xs generalizing seen with
  | nil => simp [dedupMembers]
  | cons x xs ih =>
    rw [dedupMembers]
    split
    · exact List.cons_subset_cons x (ih seen)
    · split_ifs
      · exact List.subset_cons_of_subset x (ih seen)
      · exact List.cons_subset_cons x (ih _)

lemma orderPair_mem {env : Env} (setOrder : ℕ → ℕ → Bool) (subs : List Subreq) (p : ℕ × ℕ) :
    (orderPair env setOrder subs p).1 = p.1 ∨ (orderPair env setOrder subs p).1 = p.2 := by
  simp only [orderPair]
  split_ifs <;> simp

section Passes
variable {env : Env} {setOrder : ℕ → ℕ → Bool}

lemma mem_edges_pivotStep {r : Result} {p : (ℕ × ℕ) × List ℕ} {e : Edge} (he : e.isRework = true) :
    e ∈ (pivotStep env setOrder r p).edges ↔ e ∈ r.edges := by
  simp only [pivotStep, ensurePivotEdge]
  split_ifs
  · rfl
  · rfl
  · rfl
  · rw [List.mem_append, List.mem_singleton, or_iff_left_iff_imp]
    rintro rfl
    have hpivot : contains (py "返工") (py "⤼枢纽(搁置转接)") = false := by decide
    exact absurd he (by simp [Edge.isRework, hpivot])

lemma mem_edges_pivotFold {e : Edge} (he : e.isRework = true)
    (ps : List ((ℕ × ℕ) × List ℕ)) (r : Result) :
    e ∈ (ps.foldl (pivotStep env setOrder) r).edges ↔ e ∈ r.edges := by
  induction ps generalizing r with
  | nil => rfl
  | cons p ps ih => exact (ih _).trans (mem_edges_pivotStep he)

lemma pivotStep_holds {r : Result} {p : (ℕ × ℕ) × List ℕ} {i v : ℕ}
    (h : holdsNumber env (pivotStep env setOrder r p).subreqs v i = true) :
    holdsNumber env r.subreqs v i = true := by
  rw [pivotStep] at h
  split_ifs at h
  · exact h
  · exact (holdsNumber_modify.mp h).1

lemma pivotFold_holds (env : Env) (setOrder : ℕ → ℕ → Bool) (ps : List ((ℕ × ℕ) × List ℕ))
    (r : Result) :
    (∀ {i v}, holdsNumber env (ps.foldl (pivotStep env setOrder) r).subreqs v i = true →
        holdsNumber env r.subreqs v i = true) ∧
      ∀ p ∈ ps, p.2.length ≤ pivotMax → ∀ v ∈ p.2,
        ¬ (holdsNumber env (ps.foldl (pivotStep env setOrder) r).subreqs v p.1.1 = true ∧
          holdsNumber env (ps.foldl (pivotStep env setOrder) r).subreqs v p.1.2 = true) := by
  induction ps generalizing r with
  | nil => simp
  | cons q ps ih =>
    obtain ⟨hmono, hgone⟩ := ih (pivotStep env setOrder r q)
    refine ⟨fun h => pivotStep_holds (hmono h), fun p hp hlen v hv => ?_⟩
    rcases List.mem_cons.mp hp with rfl | hp
    · rintro ⟨h1, h2⟩
      have h1 := hmono h1
      have h2 := hmono h2
      rw [pivotStep, if_neg (by omega)] at h1 h2
      have h1 := (holdsNumber_modify.mp h1).2
      have h2 := (holdsNumber_modify.mp h2).2
      rcases orderPair_mem setOrder r.subreqs p.1 with ho | ho
      · exact h1 ⟨ho.symm, hv⟩
      · exact h2 ⟨ho.symm, hv⟩
    · exact hgone p hp hlen v hv

def stripOthers (env : Env) (winner v : ℕ) (ks : List ℕ) (subs : List Subreq) : List Subreq :=
  ks.foldl (fun ss k => if k = winner then ss else ss.modify k (stripMembers env [v])) subs

lemma stripOthers_holds (winner v : ℕ) (ks : List ℕ) (subs : List Subreq) {i w : ℕ} :
    holdsNumber env (stripOthers env winner v ks subs) w i = true ↔
      holdsNumber env subs w i = true ∧ ¬ (w = v ∧ i ∈ ks ∧ i ≠ winner) := by
  induction ks generalizing subs with
  | nil => simp [stripOthers]
  | cons k ks ih =>
    rw [stripOthers, List.foldl_cons, ← stripOthers, ih]
    by_cases hk : k = winner
    · subst hk
      rw [if_pos rfl, List.mem_cons]
      grind
    · rw [if_neg hk, holdsNumber_modify, List.mem_singleton, List.mem_cons]
      grind

lemma forceStep_eq (subs : List Subreq) (m : ℕ × List ℕ) :
    forceStep env subs m = subs ∧ m.2.length < 2 ∨
      ∃ winner, forceStep env subs m = stripOthers env winner m.1 m.2 subs ∧ 2 ≤ m.2.length := by
  obtain ⟨v, ks⟩ := m
  match ks with
  | [] => exact .inl ⟨rfl, by simp⟩
  | [i] => exact .inl ⟨rfl, by simp⟩
  | i :: j :: is => exact .inr ⟨narrowest env subs i (j :: is), rfl, by simp⟩

lemma forceFold_holds (env : Env) (ms : List (ℕ × List ℕ)) (subs : List Subreq) :
    (∀ {i w}, holdsNumber env (ms.foldl (forceStep env) subs) w i = true →
        holdsNumber env subs w i = true) ∧
      ∀ m ∈ ms, ∀ i ∈ m.2, ∀ j ∈ m.2, i ≠ j →
        holdsNumber env (ms.foldl (forceStep env) subs) m.1 i = true →
          holdsNumber env (ms.foldl (forceStep env) subs) m.1 j = true → False := by
  induction ms generalizing subs with
  | nil => simp
  | cons q ms ih =>
    obtain ⟨hmono, hgone⟩ := ih (forceStep env subs q)
    refine ⟨fun {i w} h => ?_, fun m hm i hi j hj hij h1 h2 => ?_⟩
    · have h := hmono h
      rcases forceStep_eq subs q with ⟨he, -⟩ | ⟨winner, he, -⟩
      · rwa [he] at h
      · rw [he, stripOthers_holds] at h
        exact h.1
    · rcases List.mem_cons.mp hm with rfl | hm
      · have h1 := hmono h1
        have h2 := hmono h2
        rcases forceStep_eq subs m with ⟨-, hlen⟩ | ⟨winner, he, -⟩
        · match hm2 : m.2, hlen with
          | [], _ => simp [hm2] at hi
          | [k], _ =>
            rw [hm2, List.mem_singleton] at hi hj
            exact hij (hi.trans hj.symm)
          | _ :: _ :: _, hlen => simp at hlen
        · rw [he, stripOthers_holds] at h1 h2
          have hi' : i = winner := by
            by_contra hne
            exact h1.2 ⟨rfl, hi, hne⟩
          have hj' : j = winner := by
            by_contra hne
            exact h2.2 ⟨rfl, hj, hne⟩
          exact hij (hi'.trans hj'.symm)
      · exact hgone m hm i hi j hj hij h1 h2

section Takings
variable (env) (setOrder)

/-- The sub-requirements without what is taken: `(i, v)` takes number `v` from the one at `i`. -/
def without (taken : List (ℕ × ℕ)) (subs : List Subreq) : List Subreq :=
  subs.mapIdx fun i => stripMembers env ((taken.filter fun p => p.1 = i).map Prod.snd)

def pivotTakings : List ((ℕ × ℕ) × List ℕ) → Result → List (ℕ × ℕ)
  | [], _ => []
  | p :: ps, r =>
      (if pivotMax < p.2.length then [] else
        p.2.map ((orderPair env setOrder r.subreqs p.1).1, ·)) ++
        pivotTakings ps (pivotStep env setOrder r p)

def forceTakings : List (ℕ × List ℕ) → List Subreq → List (ℕ × ℕ)
  | [], _ => []
  | (v, i :: j :: is) :: ms, subs =>
      ((i :: j :: is).filter (· ≠ narrowest env subs i (j :: is))).map (·, v) ++
        forceTakings ms (forceStep env subs (v, i :: j :: is))
  | _ :: ms, subs => forceTakings ms subs

def firstPass (r : Result) : Result :=
  let subs := r.subreqs.map (dedupSubreq env)
  (pairShared env subs).foldl (pivotStep env setOrder) ⟨subs, r.edges⟩

/-- All that `resolve_overlaps` takes, step by step. -/
def takings (r : Result) (force : Bool) : List (ℕ × ℕ) :=
  let subs := r.subreqs.map (dedupSubreq env)
  let mid := (firstPass env setOrder r).subreqs
  pivotTakings env setOrder (pairShared env subs) ⟨subs, r.edges⟩ ++
    if hasLargeOverlap env subs && force then forceTakings env (msgToSubs env mid) mid else []

def leftOf (r : Result) (force : Bool) : List Subreq :=
  without env (takings env setOrder r force) (r.subreqs.map (dedupSubreq env))

end Takings

lemma without_nil (subs : List Subreq) : without env [] subs = subs := by
  refine List.ext_getElem? fun i => ?_
  rw [without, List.getElem?_mapIdx]
  simp [stripMembers_nil]

lemma modify_without (taken : List (ℕ × ℕ)) (subs : List Subreq) (k : ℕ) (drop : List ℕ) :
    (without env taken subs).modify k (stripMembers env drop) =
      without env (taken ++ drop.map (k, ·)) subs := by
  have hdrop (i : ℕ) : ((drop.map (k, ·)).filter fun p => p.1 = i).map Prod.snd = if k =
      i then drop else [] := by
    by_cases hk : k = i
    · simp [hk, List.filter_map, Function.comp_def]
    · simp [hk, List.filter_map, Function.comp_def]
  refine List.ext_getElem? fun i => ?_
  rw [List.getElem?_modify, without, without, List.getElem?_mapIdx,
    List.getElem?_mapIdx, Option.map_eq_map,
    Option.map_map]
  congr 1
  funext s
  rw [List.filter_append, List.map_append, hdrop, Function.comp_apply]
  by_cases hk : k = i
  · rw [if_pos hk, if_pos hk, stripMembers_stripMembers]
  · rw [if_neg hk, if_neg hk, List.append_nil]

lemma pivotFold_without {subs : List Subreq} {taken : List (ℕ × ℕ)}
    (ps : List ((ℕ × ℕ) × List ℕ)) (r : Result)
    (h : r.subreqs = without env taken subs) :
    (ps.foldl (pivotStep env setOrder) r).subreqs =
      without env (taken ++ pivotTakings env setOrder ps r) subs := by
  induction ps generalizing r taken with
  | nil => simpa [pivotTakings] using h
  | cons p ps ih =>
    rw [List.foldl_cons, pivotTakings, ← List.append_assoc]
    refine ih _ ?_
    rw [pivotStep]
    split_ifs
    · rw [h, List.append_nil]
    · rw [← modify_without, ← h]

lemma stripOthers_without (winner v : ℕ) (ks : List ℕ) (taken : List (ℕ × ℕ)) (subs : List Subreq) :
    stripOthers env winner v ks (without env taken subs) =
      without env (taken ++ (ks.filter (· ≠ winner)).map (·, v)) subs := by
  induction ks generalizing taken with
  | nil => simp [stripOthers]
  | cons k ks ih =>
    rw [stripOthers, List.foldl_cons, ← stripOthers]
    by_cases hk : k = winner
    · rw [if_pos hk, ih, List.filter_cons_of_neg (by simpa using hk)]
    · rw [if_neg hk, modify_without, ih, List.filter_cons_of_pos (by simpa using hk)]
      simp

lemma forceFold_without {base : List Subreq} (ms : List (ℕ × List ℕ))
    {subs : List Subreq} {taken : List (ℕ × ℕ)}
    (h : subs = without env taken base) :
    ms.foldl (forceStep env) subs = without env (taken ++ forceTakings env ms subs) base := by
  induction ms generalizing subs taken with
  | nil => simpa [forceTakings] using h
  | cons m ms ih =>
    obtain ⟨v, ks⟩ := m
    match ks with
    | [] => exact ih h
    | [_] => exact ih h
    | i :: j :: is =>
      have hstep : forceStep env subs (v, i :: j :: is) =
          stripOthers env (narrowest env subs i (j :: is)) v (i :: j :: is) subs := rfl
      rw [List.foldl_cons, forceTakings, ← List.append_assoc]
      refine ih ?_
      rw [hstep, ← stripOthers_without, ← h]

lemma firstPass_subreqs (r : Result) :
    (firstPass env setOrder r).subreqs = leftOf env setOrder r false := by
  rw [firstPass, pivotFold_without _ _ (without_nil _).symm, leftOf, takings]
  simp

lemma getElem?_leftOf {r : Result} {force : Bool} {i : ℕ} :
    (leftOf env setOrder r force)[i]? = r.subreqs[i]?.map fun s => stripMembers env
      (((takings env setOrder r force).filter fun p => p.1 = i).map Prod.snd)
        (dedupSubreq env s) := by
  rw [leftOf, without, List.getElem?_mapIdx, List.getElem?_map, Option.map_map]
  rfl

/-- `s'` is `s` without some of its members. -/
structure Subreq.Less (s s' : Subreq) : Prop where
  id : s'.id = s.id
  title : s'.title = s.title
  type : s'.type = s.type
  status : s'.status = s.status
  members : s'.memberIdx ⊆ s.memberIdx

lemma Subreq.Less.idOf {s s' : Subreq} (h : Subreq.Less s s') : s'.idOf = s.idOf := by
  rw [Subreq.idOf, h.id, Subreq.idOf]

lemma Subreq.Less.trans {s t u : Subreq} (h : Subreq.Less s t) (h' : Subreq.Less t u) :
    Subreq.Less s u :=
  ⟨h'.id.trans h.id, h'.title.trans h.title, h'.type.trans h.type, h'.status.trans h.status,
    List.Subset.trans h'.members h.members⟩

lemma leftOf_less {r : Result} {force : Bool} {i : ℕ} {s' : Subreq}
    (h : (leftOf env setOrder r force)[i]? = some s') :
    ∃ s, r.subreqs[i]? = some s ∧ Subreq.Less s s' ∧
      ∀ v, v ∈ s'.numbers env ↔ v ∈ s.numbers env ∧ (i, v) ∉ takings env setOrder r force := by
  rw [getElem?_leftOf] at h
  obtain ⟨s, hs, rfl⟩ := Option.map_eq_some_iff.mp h
  refine ⟨s, hs, ⟨rfl, rfl, rfl, rfl, fun x hx => ?_⟩, fun v => ?_⟩
  · exact dedupMembers_subset env [] _ (List.mem_of_mem_filter hx)
  · simp [stripMembers_numbers, mem_numbers_dedup]

lemma edgeKept_ok {dropped : List Json} {e : Edge} {b : Bool} (h : edgeKept dropped e = .ok b) :
    b = true ↔ e.src ∉ dropped ∧ e.dst ∉ dropped := by
  rw [edgeKept] at h
  cases hs : inSet e.src dropped with
  | error err => simp [hs] at h
  | ok src =>
    have hsrc := inSet_ok hs
    cases src with
    | true =>
      obtain rfl : false = b := by simpa [hs] using h
      simp [hsrc.mp rfl]
    | false =>
      simp only [hs] at h
      obtain ⟨dst, hd, rfl⟩ := map_eq_ok.mp h
      have hdst := inSet_ok hd
      rw [Bool.not_eq_true', ← Bool.not_eq_true, hdst, ← hsrc]
      simp

lemma keptEdges_ok {dropped : List Json} {es out : List Edge}
    (h : keptEdges dropped es = .ok out) (e : Edge) :
    e ∈ out ↔ e ∈ es ∧ e.src ∉ dropped ∧ e.dst ∉ dropped := by
  induction es generalizing out with
  | nil =>
    obtain rfl := Except.ok.inj h
    simp
  | cons a es ih =>
    rw [keptEdges] at h
    cases hk : edgeKept dropped a with
    | error err => simp [hk] at h
    | ok b =>
      simp only [hk] at h
      obtain ⟨rest, hr, rfl⟩ := map_eq_ok.mp h
      have ha := edgeKept_ok hk
      cases b with
      | true =>
        rw [if_pos rfl, List.mem_cons, List.mem_cons, ih hr, or_and_right]
        refine or_congr_left ⟨fun he => ⟨he, he ▸ ha.mp rfl⟩, fun he => he.1⟩
      | false =>
        rw [if_neg (by simp), List.mem_cons, ih hr, or_and_right, iff_or_self]
        rintro ⟨rfl, hkept⟩
        exact absurd (ha.mpr hkept) (by simp)

lemma pruneEmptySubreqs_ok {r r' : Result} (h : pruneEmptySubreqs env r = .ok r') :
    r'.subreqs = r.subreqs.filter (fun s => !(s.numbers env).isEmpty) ∧
      ∀ e, e ∈ r'.edges ↔ e ∈ r.edges ∧ ∀ s ∈ r.subreqs, s.idOf = e.src ∨ s.idOf = e.dst →
        s.numbers env ≠ [] := by
  have hends (e : Edge) : (∀ s ∈ r.subreqs, s.idOf = e.src ∨ s.idOf = e.dst → s.numbers env ≠ []) ↔
      e.src ∉ (r.subreqs.filter fun s => (s.numbers env).isEmpty).map Subreq.idOf ∧
        e.dst ∉ (r.subreqs.filter fun s => (s.numbers env).isEmpty).map Subreq.idOf := by
    simp only [List.mem_map, List.mem_filter, List.isEmpty_iff, not_exists, not_and, and_imp]
    exact ⟨fun hall => ⟨fun s hs hnil hid => hall s hs (.inl hid) hnil, fun s hs hnil hid =>
      hall s hs (.inr hid) hnil⟩,
      fun hall s hs hid hnil => hid.elim (hall.1 s hs hnil) (hall.2 s hs hnil)⟩
  simp only [hends]
  simp only [pruneEmptySubreqs] at h
  split_ifs at h with hnone
  · obtain rfl := Except.ok.inj h
    refine ⟨(List.filter_eq_self.mpr fun s hs => ?_).symm, by simp [hnone]⟩
    have := List.filter_eq_nil_iff.mp (List.map_eq_nil_iff.mp hnone) s hs
    simpa using this
  · obtain ⟨es, hes, rfl⟩ := map_eq_ok.mp h
    exact ⟨rfl, keptEdges_ok hes⟩

lemma passes_exclusive {subs subs₂ : List Subreq} {edges : List Edge} {r₁ : Result}
    (hr₁ : (pairShared env subs).foldl (pivotStep env setOrder) ⟨subs, edges⟩ = r₁)
    (hs₂ : (if hasLargeOverlap env subs = true then
      (msgToSubs env r₁.subreqs).foldl (forceStep env) r₁.subreqs else r₁.subreqs) = subs₂) :
    Exclusive env subs₂ := by
  by_cases hlarge : hasLargeOverlap env subs = true
  · rw [if_pos hlarge] at hs₂
    subst hs₂
    refine exclusive_iff.mpr fun i j v hij hi hj => ?_
    obtain ⟨hmono, hgone⟩ := forceFold_holds env (msgToSubs env r₁.subreqs) r₁.subreqs
    exact hgone (v, holders env r₁.subreqs v) (List.mem_map_of_mem (mem_messageNumbers (hmono hi)))
      i (mem_holders.mpr (hmono hi)) j (mem_holders.mpr (hmono hj)) hij.ne hi hj
  · rw [if_neg hlarge] at hs₂
    subst hs₂
    refine exclusive_iff.mpr fun i j v hij hi hj => ?_
    rw [← hr₁] at hi hj
    obtain ⟨hmono, hgone⟩ := pivotFold_holds env setOrder (pairShared env subs) ⟨subs, edges⟩
    obtain ⟨p, hp, hpair, hv⟩ := pairShared_complete hij (hmono hi) (hmono hj)
    have hlen : p.2.length ≤ pivotMax := by
      by_contra hlt
      exact hlarge (List.any_eq_true.mpr ⟨p, hp, by simpa using hlt⟩)
    refine hgone p hp hlen v hv ⟨?_, ?_⟩
    · rw [hpair]
      exact hi
    · rw [hpair]
      exact hj

def Overlapping (env : Env) (r : Result) :
    Prop := pairShared env (r.subreqs.map (dedupSubreq env)) ≠ []

structure Resolved (env : Env) (setOrder : ℕ → ℕ → Bool) (r : Result) (force : Bool) (r' : Result) :
    Prop where
  exclusive : Exclusive env r'.subreqs
  subreqs : r'.subreqs = leftOf env setOrder r force ∧ ¬ Overlapping env r ∨
    r'.subreqs = (leftOf env setOrder r force).filter (fun s => !(s.numbers env).isEmpty) ∧
      Overlapping env r
  edges : ∀ e, e.isRework = true → (e ∈ r'.edges ↔ e ∈ r.edges ∧ (Overlapping env r →
    ∀ s ∈ leftOf env setOrder r force, s.idOf = e.src ∨ s.idOf = e.dst → s.numbers env ≠ []))

theorem resolveOverlaps_spec {r r' : Result} {force large : Bool}
    (h : resolveOverlaps env setOrder r force = .ok (r', large)) :
    large = (hasLargeOverlap env (r.subreqs.map (dedupSubreq env)) && !force) ∧
      (large = true → r' = firstPass env setOrder r) ∧
      (large = false → Resolved env setOrder r force r') := by
  simp only [resolveOverlaps] at h
  have hleft : leftOf env setOrder r force = without env (takings env setOrder r force)
    (r.subreqs.map (dedupSubreq env)) := rfl
  have hover : Overlapping env r ↔ ¬ pairShared env (r.subreqs.map (dedupSubreq env)) = [] :=
    Iff.rfl
  have hfirst : firstPass env setOrder r = (pairShared env (r.subreqs.map (dedupSubreq env))).foldl
    (pivotStep env setOrder) ⟨r.subreqs.map (dedupSubreq env), r.edges⟩ := rfl
  simp only [takings] at hleft
  generalize r.subreqs.map (dedupSubreq env) = subs at h hleft hover hfirst ⊢
  by_cases hnone : pairShared env subs = []
  · simp only [hnone, if_true, Except.ok.injEq, Prod.mk.injEq] at h
    obtain ⟨rfl, rfl⟩ := h
    have hlarge : hasLargeOverlap env subs = false := by simp [hasLargeOverlap, hnone]
    rw [hnone, hlarge] at hleft
    have hleft : leftOf env setOrder r force = subs := hleft.trans (without_nil subs)
    have hover : ¬ Overlapping env r := fun ho => hover.mp ho hnone
    refine ⟨by simp [hlarge], by simp, fun _ => ⟨exclusive_iff.mpr fun i j v hij hi hj => ?_,
      .inl ⟨hleft.symm, hover⟩,
      fun e _ => by simp [hover]⟩⟩
    obtain ⟨p, hp, -⟩ := pairShared_complete hij hi hj
    rw [hnone] at hp
    exact absurd hp List.not_mem_nil
  · simp only [hnone, if_false] at h
    have hpivot :
      (List.foldl (pivotStep env setOrder) ⟨subs, r.edges⟩ (pairShared env subs)).subreqs = _ :=
      pivotFold_without (pairShared env subs) ⟨subs, r.edges⟩ (without_nil subs).symm
    have hedges : ∀ e : Edge, e.isRework = true →
        (e ∈ ((pairShared env subs).foldl (pivotStep env setOrder) ⟨subs, r.edges⟩).edges ↔
          e ∈ r.edges) :=
      fun e he => mem_edges_pivotFold he (pairShared env subs) ⟨subs, r.edges⟩
    generalize hr₁ : (pairShared env subs).foldl (pivotStep env setOrder) ⟨subs, r.edges⟩ =
      r₁ at h hpivot hedges hfirst
    rw [hfirst] at hleft
    by_cases hwait : (hasLargeOverlap env subs && !force) = true
    · simp only [hwait, if_true, Except.ok.injEq, Prod.mk.injEq] at h
      obtain ⟨rfl, rfl⟩ := h
      exact ⟨hwait.symm, fun _ => hfirst.symm, by simp⟩
    · simp only [hwait, Bool.false_eq_true, if_false] at h
      generalize hs₂ : (if hasLargeOverlap env subs = true then
        (msgToSubs env r₁.subreqs).foldl (forceStep env) r₁.subreqs else r₁.subreqs) = subs₂ at h
      have hleft : leftOf env setOrder r force = subs₂ := by
        rw [hleft, ← hs₂]
        by_cases hlarge : hasLargeOverlap env subs = true
        · obtain rfl : force = true := by simpa [hlarge] using hwait
          rw [if_pos hlarge, if_pos (by simp [hlarge]), forceFold_without _ hpivot, List.nil_append]
        · rw [if_neg hlarge, if_neg (by simp [hlarge]), List.append_nil, hpivot, List.nil_append]
      obtain ⟨r₂, hp, h⟩ := map_eq_ok.mp h
      obtain ⟨rfl, rfl⟩ := Prod.mk.inj h
      obtain ⟨hsubs, hkept⟩ := pruneEmptySubreqs_ok hp
      have hover : Overlapping env r := hover.mpr hnone
      refine ⟨by simpa using hwait, by simp, fun _ =>
        ⟨?_, .inr ⟨by rw [hleft, hsubs], hover⟩, fun e he => ?_⟩⟩
      · rw [hsubs]
        exact (passes_exclusive hr₁ hs₂).sublist List.filter_sublist
      · rw [hkept e, hleft]
        simp [hover, hedges e he]

lemma less_of_mem_leftOf {r : Result} {force : Bool} {s' : Subreq}
    (h : s' ∈ leftOf env setOrder r force) :
    ∃ s ∈ r.subreqs, Subreq.Less s s' := by
  obtain ⟨i, hi⟩ := List.mem_iff_getElem?.mp h
  obtain ⟨s, hs, hless, -⟩ := leftOf_less hi
  exact ⟨s, List.mem_of_getElem? hs, hless⟩

lemma Resolved.mem_leftOf {r r' : Result} {force : Bool}
    (h : Resolved env setOrder r force r') {s' : Subreq}
    (hs' : s' ∈ r'.subreqs) : s' ∈ leftOf env setOrder r force := by
  rcases h.subreqs with ⟨heq, -⟩ | ⟨heq, -⟩
  · exact heq ▸ hs'
  · exact List.mem_of_mem_filter (heq ▸ hs')

end Passes

end AgentTrajectory.LlmDecompose
