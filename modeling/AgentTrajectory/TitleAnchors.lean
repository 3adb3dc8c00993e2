import AgentTrajectory.IncrementalRuns

/-! `_carry_forward_titles`. The matching is greedy, but an anchor that was taken by another
cluster has at most two fifths of its messages left for this one: leaving it out of the search
changes no match that reaches the threshold, and every cluster of a disjoint family gets the
title that it would get alone. -/
namespace AgentTrajectory.IncrementalSegment
open PyText PyDict PyJson TaskStitch LlmSegment

variable {b : AnchorMatch}

def matchOf (cset : List PyStr) (a : TitleAnchor × ℕ) : AnchorMatch :=
  ⟨a.2, a.1.title, (a.1.msgIds.dedup.filter (· ∈ cset)).length, a.1.msgIds.dedup.length⟩

def AnchorMatch.strong (b : AnchorMatch) : Bool := decide (3 * b.size ≤ 5 * b.shared)

/-- An anchor that the search looks at. -/
def Considered (used : List ℕ) (a : TitleAnchor × ℕ) : Prop :=
  a.2 ∉ used ∧ a.1.title.truthy = true ∧ a.1.msgIds.dedup ≠ []

def chosenAnchor (anchors : List TitleAnchor) (used : List ℕ) (cset : List PyStr) :
    Option AnchorMatch :=
  (if cset = [] then none else anchors.zipIdx.foldl (betterAnchor cset used) none).filter
    AnchorMatch.strong

lemma strong_iff :
    b.strong = true ↔ 3 * b.size ≤ 5 * b.shared := decide_eq_true_iff

lemma not_strong_iff : b.strong = false ↔ 5 * b.shared < 3 * b.size := by
  rw [AnchorMatch.strong, decide_eq_false_iff_not, not_le]

section Search
variable {cset : List PyStr} {used : List ℕ} {best : Option AnchorMatch} {a : TitleAnchor × ℕ}

lemma betterAnchor_skip (h : ¬ Considered used a) : betterAnchor cset used best a = best := by
  rw [betterAnchor.eq_def]
  refine if_pos ?_
  by_contra hnone
  simp only [not_or, Bool.not_eq_false] at hnone
  exact h hnone

lemma betterAnchor_none (h : Considered used a) :
    betterAnchor cset used none a = if 0 < (matchOf cset a).shared then
      some (matchOf cset a) else none := by
  rw [betterAnchor, if_neg (by simpa [Considered] using h)]
  rfl

lemma betterAnchor_some (h : Considered used a) (b : AnchorMatch) :
    betterAnchor cset used (some b) a =
      if b.shared * (matchOf cset a).size < (matchOf cset a).shared * b.size then
        some (matchOf cset a) else some b := by
  rw [betterAnchor, if_neg (by simpa [Considered] using h)]
  rfl

lemma betterAnchor_cases : betterAnchor cset used best a = best ∨
      Considered used a ∧ betterAnchor cset used best a = some (matchOf cset a) := by
  by_cases h : Considered used a
  · cases best with
    | none =>
      rw [betterAnchor_none h]
      split_ifs
      · exact .inr ⟨h, rfl⟩
      · exact .inl rfl
    | some b =>
      rw [betterAnchor_some h]
      split_ifs
      · exact .inr ⟨h, rfl⟩
      · exact .inl rfl
  · exact .inl (betterAnchor_skip h)

def Weak (best : Option AnchorMatch) : Prop := ∀ b ∈ best, b.strong = false

lemma betterAnchor_weak (hbest : Weak best) (ha : (matchOf cset a).strong = false) :
    Weak (betterAnchor cset used best a) := by
  rcases @betterAnchor_cases cset used best a with h | ⟨-, h⟩
  · rwa [h]
  · rw [h]
    intro b hb
    obtain rfl := Option.some.inj hb
    exact ha

lemma betterAnchor_replaces (hbest : Weak best) (hc : Considered used a)
    (ha : (matchOf cset a).strong = true) :
    betterAnchor cset used best a = some (matchOf cset a) := by
  have hsize : 0 < (matchOf cset a).size := List.length_pos_iff.mpr hc.2.2
  rw [strong_iff] at ha
  cases best with
  | none => rw [betterAnchor_none hc, if_pos (by omega)]
  | some b =>
    have hb := not_strong_iff.mp (hbest b rfl)
    rw [betterAnchor_some hc, if_pos]
    nlinarith

lemma betterAnchor_keeps (hb : b.strong = true) (ha : (matchOf cset a).strong = false) :
    betterAnchor cset used (some b) a = some b := by
  by_cases hc : Considered used a
  · rw [betterAnchor_some hc, if_neg]
    rw [strong_iff] at hb
    rw [not_strong_iff] at ha
    nlinarith
  · exact betterAnchor_skip hc

def SameChoice (b b' : Option AnchorMatch) : Prop := b = b' ∨ Weak b ∧ Weak b'

lemma sameChoice_step {b b' : Option AnchorMatch} (h : SameChoice b b')
    (hused : a.2 ∈ used → (matchOf cset a).strong = false) :
    SameChoice (betterAnchor cset used b a) (betterAnchor cset [] b' a) := by
  cases hstrong : (matchOf cset a).strong with
  | false =>
    rcases h with rfl | ⟨hb, hb'⟩
    · by_cases hb : Weak b
      · exact .inr ⟨betterAnchor_weak hb hstrong, betterAnchor_weak hb hstrong⟩
      · obtain ⟨m, rfl, hm⟩ : ∃ m, b = some m ∧ m.strong = true := by simpa [Weak] using hb
        rw [betterAnchor_keeps hm hstrong, betterAnchor_keeps hm hstrong]
        exact .inl rfl
    · exact .inr ⟨betterAnchor_weak hb hstrong, betterAnchor_weak hb' hstrong⟩
  | true =>
    have hfree : a.2 ∉ used := fun ha => by simp [hused ha] at hstrong
    by_cases hc : Considered used a
    · have hc' : Considered [] a := ⟨by simp, hc.2⟩
      rcases h with rfl | ⟨hb, hb'⟩
      · left
        cases b with
        | none => rw [betterAnchor_none hc, betterAnchor_none hc']
        | some b => rw [betterAnchor_some hc, betterAnchor_some hc']
      · rw [betterAnchor_replaces hb hc hstrong, betterAnchor_replaces hb' hc' hstrong]
        exact .inl rfl
    · have hc' : ¬ Considered [] a := fun hc' => hc ⟨hfree, hc'.2⟩
      rwa [betterAnchor_skip hc, betterAnchor_skip hc']

lemma sameChoice_foldl {l : List (TitleAnchor × ℕ)}
    {b b' : Option AnchorMatch} (h : SameChoice b b')
    (hused : ∀ a ∈ l, a.2 ∈ used → (matchOf cset a).strong = false) :
    SameChoice (l.foldl (betterAnchor cset used) b) (l.foldl (betterAnchor cset []) b') := by
  induction l generalizing b b' with
  | nil => exact h
  | cons a l ih =>
    exact ih (sameChoice_step h (hused a (by simp))) fun a' ha' => hused a' (by simp [ha'])

lemma SameChoice.filter_eq {b b' : Option AnchorMatch} (h : SameChoice b b') :
    b.filter AnchorMatch.strong = b'.filter AnchorMatch.strong := by
  have hweak : ∀ {b : Option AnchorMatch}, Weak b → b.filter AnchorMatch.strong = none := by
    intro b hb
    rw [Option.filter_eq_none_iff]
    exact fun m hm => by simp [hb m hm]
  rcases h with rfl | ⟨hb, hb'⟩
  · rfl
  · rw [hweak hb, hweak hb']

lemma chosenAnchor_used {anchors : List TitleAnchor}
    (hused : ∀ a ∈ anchors.zipIdx, a.2 ∈ used → (matchOf cset a).strong = false) :
    chosenAnchor anchors used cset = chosenAnchor anchors [] cset := by
  rw [chosenAnchor, chosenAnchor]
  split_ifs
  · rfl
  · exact (sameChoice_foldl (.inl rfl) hused).filter_eq

lemma foldl_betterAnchor_mem {l : List (TitleAnchor × ℕ)} {m : AnchorMatch}
    (h : l.foldl (betterAnchor cset used) best = some m) :
    best = some m ∨ ∃ a ∈ l, Considered used a ∧ m = matchOf cset a := by
  induction l generalizing best with
  | nil => exact .inl h
  | cons a l ih =>
    rcases ih h with hstep | ⟨a', ha', hrest⟩
    · rcases @betterAnchor_cases cset used best a with hb | ⟨hc, hb⟩
      · exact .inl (hb.symm.trans hstep)
      · exact .inr ⟨a, by simp, hc, Option.some.inj (hstep.symm.trans hb)⟩
    · exact .inr ⟨a', by simp [ha'], hrest⟩

lemma chosenAnchor_some {anchors : List TitleAnchor} (h : chosenAnchor anchors used cset = some b) :
    ∃ a, anchors[b.index]? = some a ∧ b = matchOf cset (a, b.index) ∧ Considered used (a, b.index) ∧
      b.strong = true := by
  obtain ⟨hb, hstrong⟩ := Option.filter_eq_some_iff.mp h
  split_ifs at hb
  rcases foldl_betterAnchor_mem hb with hnone | ⟨⟨a, j⟩, ha, hc, rfl⟩
  · simp at hnone
  · exact ⟨a, List.mem_zipIdx_iff_getElem?.mp ha, rfl, hc, hstrong⟩

end Search

lemma length_filter_add_le {l xs ys : List PyStr} (h : xs.Disjoint ys) :
    (l.filter (· ∈ xs)).length + (l.filter (· ∈ ys)).length ≤ l.length := by
  induction l with
  | nil => simp
  | cons a l ih =>
    by_cases hx : a ∈ xs
    · have hy : a ∉ ys := fun hy => h hx hy
      simp only [List.filter_cons, hx, hy, decide_true, decide_false, if_true,
        Bool.false_eq_true, if_false, List.length_cons]
      omega
    · by_cases hy : a ∈ ys
      · simp only [List.filter_cons, hx, hy, decide_true, decide_false, if_true,
          Bool.false_eq_true, if_false, List.length_cons]
        omega
      · simp only [List.filter_cons, hx, hy, decide_false, Bool.false_eq_true,
          if_false, List.length_cons]
        omega

lemma weak_of_disjoint {cset cset' : List PyStr} {a : TitleAnchor × ℕ} (hne : a.1.msgIds.dedup ≠ [])
    (hdisjoint : cset.Disjoint cset') (hstrong : (matchOf cset a).strong = true) :
    (matchOf cset' a).strong = false := by
  have hsum := length_filter_add_le (l := a.1.msgIds.dedup) hdisjoint
  have hpos : 0 < a.1.msgIds.dedup.length := List.length_pos_iff.mpr hne
  rw [strong_iff] at hstrong
  rw [not_strong_iff]
  simp only [matchOf] at hstrong ⊢
  omega

section Clusters
variable {anchors : List TitleAnchor} {used : List ℕ} {p : List Event × Meta}
    {rest : List (List Event × Meta)}

lemma carryForwardTitles_some
    (h : chosenAnchor anchors used (eventMsgIds p.1) = some b) :
    carryForwardTitles anchors used (p :: rest) =
      (p.1, { p.2 with title := b.title }) ::
        carryForwardTitles anchors (b.index :: used) rest := by
  obtain ⟨hb, hstrong⟩ := Option.filter_eq_some_iff.mp h
  rw [carryForwardTitles]
  simp only [hb, strong_iff.mp hstrong, if_true]

lemma carryForwardTitles_none (h : chosenAnchor anchors used (eventMsgIds p.1) = none) :
    carryForwardTitles anchors used (p :: rest) = p :: carryForwardTitles anchors used rest := by
  rw [chosenAnchor, Option.filter_eq_none_iff] at h
  rw [carryForwardTitles]
  cases hb : (if eventMsgIds p.1 = [] then none
      else anchors.zipIdx.foldl (betterAnchor (eventMsgIds p.1) used) none) with
  | none => rfl
  | some b =>
    have hweak := h b hb
    rw [strong_iff] at hweak
    simp only [hweak, if_false]

lemma carryForwardTitles_alone {l : List (List Event × Meta)}
    (hdisjoint : l.Pairwise fun p q => (eventMsgIds p.1).Disjoint (eventMsgIds q.1))
    (hused : ∀ p ∈ l, ∀ a ∈ anchors.zipIdx, a.2 ∈ used →
      (matchOf (eventMsgIds p.1) a).strong = false) :
    carryForwardTitles anchors used l = l.flatMap fun p => carryForwardTitles anchors [] [p] := by
  induction l generalizing used with
  | nil => rfl
  | cons p l ih =>
    obtain ⟨hhead, htail⟩ := List.pairwise_cons.mp hdisjoint
    have hsame := chosenAnchor_used (hused p (by simp))
    have hrest : ∀ q ∈ l, ∀ a ∈ anchors.zipIdx, a.2 ∈ used →
      (matchOf (eventMsgIds q.1) a).strong = false :=
      fun q hq => hused q (by simp [hq])
    rw [List.flatMap_cons]
    cases hchosen : chosenAnchor anchors [] (eventMsgIds p.1) with
    | none =>
      rw [carryForwardTitles_none (hsame.trans hchosen),
        carryForwardTitles_none hchosen, ih htail hrest]
      rfl
    | some b =>
      rw [carryForwardTitles_some (hsame.trans hchosen), carryForwardTitles_some hchosen, ih htail]
      · rfl
      · intro q hq a ha hindex
        rcases List.mem_cons.mp hindex with hindex | hindex
        · obtain ⟨a', ha', hb, hc, hstrong⟩ := chosenAnchor_some hchosen
          obtain rfl : a = (a', b.index) := by
            have hget := List.mem_zipIdx_iff_getElem?.mp (show (a.1, a.2) ∈ anchors.zipIdx from ha)
            rw [hindex, ha'] at hget
            exact Prod.ext (Option.some.inj hget).symm hindex
          rw [hb] at hstrong
          exact weak_of_disjoint hc.2.2 (hhead q hq) hstrong
        · exact hrest q hq a ha hindex

def picks (anchors : List TitleAnchor) (used : List ℕ) : List (List Event × Meta) → List (Option ℕ)
  | [] => []
  | p :: rest =>
      let j := (chosenAnchor anchors used (eventMsgIds p.1)).map AnchorMatch.index
      j :: picks anchors (j.toList ++ used) rest

/-- The cluster with the title of the anchor it uses. -/
def retitle (anchors : List TitleAnchor) (p : List Event × Meta) (pick : Option ℕ) :
    List Event × Meta :=
  (pick.bind (anchors[·]?)).elim p fun a => (p.1, { p.2 with title := a.title })

/-- The anchor has at least 60 % of its messages in the cluster. -/
def Justified (anchors : List TitleAnchor) (p : List Event × Meta) (pick : Option ℕ) : Prop :=
  ∀ j ∈ pick, ∃ a, anchors[j]? = some a ∧ a.msgIds ≠ [] ∧
    3 * a.msgIds.dedup.length ≤ 5 * (a.msgIds.dedup.filter (· ∈ eventMsgIds p.1)).length

lemma carryForwardTitles_picks (anchors : List TitleAnchor) (used : List ℕ)
    (l : List (List Event × Meta)) :
    carryForwardTitles anchors used l =
      List.zipWith (retitle anchors) l (picks anchors used l) := by
  induction l generalizing used with
  | nil => rfl
  | cons p l ih =>
    rw [picks]
    cases hchosen : chosenAnchor anchors used (eventMsgIds p.1) with
    | none =>
      rw [carryForwardTitles_none hchosen, ih]
      rfl
    | some b =>
      obtain ⟨a, ha, hb, -⟩ := chosenAnchor_some hchosen
      have htitle : b.title = a.title := by rw [hb]; rfl
      rw [carryForwardTitles_some hchosen, ih, htitle]
      simp [retitle, ha]

lemma picks_justified (anchors : List TitleAnchor) (used : List ℕ) (l : List (List Event × Meta)) :
    List.Forall₂ (Justified anchors) l (picks anchors used l) := by
  induction l generalizing used with
  | nil => exact .nil
  | cons p l ih =>
    refine .cons (fun j hj => ?_) (ih _)
    obtain ⟨b, hchosen, rfl⟩ := Option.map_eq_some_iff.mp hj
    obtain ⟨a, ha, hb, hc, hstrong⟩ := chosenAnchor_some hchosen
    rw [hb] at hstrong
    exact ⟨a, ha, fun hnil => hc.2.2 (by rw [hnil]; rfl), strong_iff.mp hstrong⟩

lemma picks_fresh (anchors : List TitleAnchor) (used : List ℕ) (l : List (List Event × Meta)) :
    (picks anchors used l).reduceOption.Nodup ∧
    ∀ j ∈ (picks anchors used l).reduceOption, j ∉ used := by
  induction l generalizing used with
  | nil => simp [picks]
  | cons p l ih =>
    rw [picks]
    cases hchosen : chosenAnchor anchors used (eventMsgIds p.1) with
    | none => exact ih used
    | some b =>
      obtain ⟨a, -, -, hc, -⟩ := chosenAnchor_some hchosen
      obtain ⟨hnodup, hfresh⟩ := ih (b.index :: used)
      simp only [Option.map_some, Option.toList_some, List.singleton_append,
        List.reduceOption_cons_of_some, List.nodup_cons, List.mem_cons, forall_eq_or_imp]
      exact ⟨⟨fun hmem => hfresh _ hmem (by simp), hnodup⟩, hc.1,
        fun j hj hused => hfresh j hj (by simp [hused])⟩

end Clusters

/-- On disjoint clusters: every anchor is used for at most one, nothing but titles changes, a
title is taken over only from an anchor that has 60 % of its messages in the cluster, and in
every order of the clusters each gets the title that it gets alone. -/
theorem carryForwardTitles_spec (anchors : List TitleAnchor) (l : List (List Event × Meta))
    (hdisjoint : l.Pairwise fun p q => (eventMsgIds p.1).Disjoint (eventMsgIds q.1)) :
    (∃ used : List (Option ℕ), used.reduceOption.Nodup ∧ List.Forall₂ (Justified anchors) l used ∧
      carryForwardTitles anchors [] l = List.zipWith (retitle anchors) l used) ∧
      ∀ l', l'.Perm l →
        carryForwardTitles anchors [] l' = l'.flatMap fun p =>
          carryForwardTitles anchors [] [p] := by
  refine ⟨⟨picks anchors [] l, (picks_fresh anchors [] l).1, picks_justified anchors [] l,
    carryForwardTitles_picks anchors [] l⟩, fun l' hperm => carryForwardTitles_alone ?_ (by simp)⟩
  exact (hperm.pairwise_iff fun h => h.symm).mpr hdisjoint

theorem carryForwardTitles_spec_two :
    carryForwardTitles [⟨[py "m3"], .str (py "report")⟩,
      ⟨[py "m1", py "m2", py "m0"], .str (py "deploy")⟩] []
        [([nextAsk], ⟨.str [], .str [], .str [], []⟩),
          ([ask, reply], ⟨.str [], .str [], .str [], []⟩)] =
      [([nextAsk], ⟨.str [], .str [], .str [], []⟩),
        ([ask, reply], ⟨.str [], .str [], .str [], []⟩)].flatMap fun p =>
        carryForwardTitles [⟨[py "m3"], .str (py "report")⟩,
          ⟨[py "m1", py "m2", py "m0"], .str (py "deploy")⟩] [] [p] :=
  (carryForwardTitles_spec _ [([ask, reply], ⟨.str [], .str [], .str [], []⟩),
    ([nextAsk], ⟨.str [], .str [], .str [], []⟩)] (by
    refine List.pairwise_pair.mpr ?_
    rw [List.disjoint_left]
    decide +kernel)).2 _ (.swap _ _ _)

end AgentTrajectory.IncrementalSegment
