import AgentTrajectory.MessageNumbering

/-! The chunks of `_split_by_gaps`. The cuts stay within a third of a chunk around the even
ones, so the windows in which they are looked for do not meet: no look-up leaves the list,
every cut opens a chunk, and a chunk is at most two thirds longer than an even one. -/
namespace AgentTrajectory.DecomposeTask
open PyText PyDict PyJson PyValue TaskStitch LlmDecompose RouteDay

variable {eff : List DayEvent}

/-- `eff[i]["ts"]`. -/
def tsAt (eff : List DayEvent) (i : ℤ) : Except PyError ℤ := do
  let j ← position eff.length i
  match eff[j]? with
  | some e => return e.ts
  | none => .error .indexError

def searchGap (eff : List DayEvent) : ℕ → ℤ → List ℕ → Except PyError ℕ
  | best, _, [] => .ok best
  | best, bestGap, i :: is => do
      let gap := (← tsAt eff i) - (← tsAt eff ((i : ℤ) - 1))
      if bestGap < gap then searchGap eff i gap is else searchGap eff best bestGap is

def searchCut (eff : List DayEvent) (size ideal : ℕ) : Except PyError ℕ :=
  let lo := max 1 (ideal - size / 3)
  let hi := min (eff.length - 1) (ideal + size / 3)
  searchGap eff ideal (-1000) (List.range' lo (hi + 1 - lo))

/-- `_split_by_gaps` with the look-ups that could raise. -/
def searchChunks (eff : List DayEvent) (target : ℕ) : Except PyError (List (List DayEvent)) :=
  if eff.length ≤ target then .ok [eff]
  else do
    let nchunks := ceilDiv eff.length target
    let size := ceilDiv eff.length nchunks
    let cuts ← (List.range' 1 (nchunks - 1)).mapM fun k => searchCut eff size (k * size)
    return (cutInto eff 0 (cuts.dedup.insertionSort (· ≤ ·))).filter fun c => !c.isEmpty

lemma tsAt_of_lt {i : ℕ} (h : i < eff.length) :
    tsAt eff i = .ok ((eff[i]?.map (·.ts)).getD 0) := by
  simp [tsAt, position_of_lt h, bind, Except.bind, List.getElem?_eq_getElem h, pure, Except.pure]

lemma searchGap_eq {is : List ℕ} (h : ∀ i ∈ is, 1 ≤ i ∧ i < eff.length) (best : ℕ)
    (bestGap : ℤ) : searchGap eff best bestGap is = .ok (widestGap eff best bestGap is) := by
  induction is generalizing best bestGap with
  | nil => rfl
  | cons i is ih =>
    obtain ⟨hpos, hlt⟩ := h i (by simp)
    have hrest := ih fun j hj => h j (by simp [hj])
    have hbefore : ((i : ℤ) - 1) = ((i - 1 : ℕ) : ℤ) := by omega
    rw [searchGap, widestGap, tsAt_of_lt hlt, hbefore, tsAt_of_lt (by omega)]
    simp only [bind, Except.bind, hrest, gapAt]
    exact (apply_ite Except.ok _ _ _).symm

lemma searchCut_eq (eff : List DayEvent) (size ideal : ℕ) :
    searchCut eff size ideal = .ok (cutNear eff size ideal) := by
  refine searchGap_eq (fun i hi => ?_) _ _
  rw [List.mem_range'_1] at hi
  omega

theorem searchChunks_eq (eff : List DayEvent) (target : ℕ) :
    searchChunks eff target = .ok (splitByGaps eff target) := by
  rw [searchChunks, splitByGaps]
  split_ifs
  · rfl
  · simp only [searchCut_eq]
    refine bind_eq_ok.mpr ⟨_, mapM_eq_ok.mpr ?_, rfl⟩
    rw [List.forall₂_map_right_iff, List.forall₂_same]
    exact fun _ _ => rfl

lemma widestGap_mem (eff : List DayEvent) (best : ℕ) (bestGap : ℤ) (is : List ℕ) :
    widestGap eff best bestGap is = best ∨ widestGap eff best bestGap is ∈ is := by
  induction is generalizing best bestGap with
  | nil => exact .inl rfl
  | cons i is ih =>
    rw [widestGap]
    split_ifs
    · rcases ih i (gapAt eff i) with h | h
      · exact .inr (by simp [h])
      · exact .inr (by simp [h])
    · rcases ih best bestGap with h | h
      · exact .inl h
      · exact .inr (by simp [h])

lemma cutNear_mem_window {ideal : ℕ} (size : ℕ) (hpos : 1 ≤ ideal) (hlt : ideal < eff.length) :
    ideal ≤ cutNear eff size ideal + size / 3 ∧ cutNear eff size ideal ≤ ideal + size / 3 ∧
      cutNear eff size ideal < eff.length := by
  rcases widestGap_mem eff ideal (-1000) (List.range' (max 1 (ideal - size / 3))
    (min (eff.length - 1) (ideal + size / 3) + 1 - max 1 (ideal - size / 3))) with h | h
  · rw [cutNear, h]
    omega
  · rw [List.mem_range'_1] at h
    change max 1 (ideal - size / 3) ≤ cutNear eff size ideal ∧ cutNear eff size ideal < _ at h
    omega

structure EvenSizes (n nchunks size : ℕ) : Prop where
  chunks_pos : 1 ≤ nchunks
  size_pos : 1 ≤ size
  covers : n ≤ nchunks * size
  inside : (nchunks - 1) * size < n

lemma ceilDiv_le_iff {n k m : ℕ} (hk : 1 ≤ k) : ceilDiv n k ≤ m ↔ n ≤ k * m := ceilDiv_le_iff_le_mul hk

lemma le_mul_ceilDiv {n k : ℕ} (hk : 1 ≤ k) : n ≤ k * ceilDiv n k := (ceilDiv_le_iff hk).mp le_rfl

lemma one_le_ceilDiv {n k : ℕ} (hn : 1 ≤ n) (hk : 1 ≤ k) : 1 ≤ ceilDiv n k := by
  by_contra hzero
  have hle := (ceilDiv_le_iff hk).mp (Nat.lt_one_iff.mp (not_le.mp hzero)).le
  omega

lemma mul_pred_ceilDiv_lt {n k : ℕ} (hn : 1 ≤ n) (hk : 1 ≤ k) : k * (ceilDiv n k - 1) < n := by
  by_contra hle
  have hpred := (ceilDiv_le_iff hk).mpr (not_lt.mp hle)
  have hpos := one_le_ceilDiv hn hk
  omega

lemma evenSizes {n target : ℕ} (hn : 1 ≤ n) (htarget : 1 ≤ target) :
    EvenSizes n (ceilDiv n target) (ceilDiv n (ceilDiv n target)) := by
  have hchunks : 1 ≤ ceilDiv n target := one_le_ceilDiv hn htarget
  have hsize : ceilDiv n (ceilDiv n target) ≤ target := by
    rw [ceilDiv_le_iff hchunks, Nat.mul_comm]
    exact le_mul_ceilDiv htarget
  refine ⟨hchunks, one_le_ceilDiv hn hchunks, le_mul_ceilDiv hchunks, ?_⟩
  calc (ceilDiv n target - 1) * ceilDiv n (ceilDiv n target)
      ≤ (ceilDiv n target - 1) * target := Nat.mul_le_mul_left _ hsize
    _ = target * (ceilDiv n target - 1) := Nat.mul_comm _ _
    _ < n := mul_pred_ceilDiv_lt hn htarget

lemma cutNear_even {nchunks size k : ℕ} (h : EvenSizes eff.length nchunks size)
    (hpos : 1 ≤ k) (hlt : k < nchunks) :
    k * size ≤ cutNear eff size (k * size) + size / 3 ∧
      cutNear eff size (k * size) ≤ k * size + size / 3 ∧
      cutNear eff size (k * size) < eff.length := by
  refine cutNear_mem_window size (Nat.mul_pos hpos h.size_pos) ?_
  calc k * size ≤ (nchunks - 1) * size := Nat.mul_le_mul_right _ (by omega)
    _ < eff.length := h.inside

lemma cutNear_strictMono {nchunks size i j : ℕ}
    (h : EvenSizes eff.length nchunks size) (hpos : 1 ≤ i) (hij : i < j) (hlt : j < nchunks) :
    cutNear eff size (i * size) < cutNear eff size (j * size) := by
  have hi := (cutNear_even h hpos (hij.trans hlt)).2.1
  have hj := (cutNear_even h (hpos.trans hij.le) hlt).1
  have hstep : (i + 1) * size ≤ j * size := Nat.mul_le_mul_right _ hij
  have hsize := h.size_pos
  rw [Nat.succ_mul] at hstep
  omega

lemma cuts_increasing {nchunks size : ℕ} (h : EvenSizes eff.length nchunks size) :
    ((List.range' 1 (nchunks - 1)).map fun k => cutNear eff size (k * size)).Pairwise (· < ·) := by
  rw [List.pairwise_map]
  refine List.Pairwise.imp_of_mem (fun {i j} hi hj hij => ?_) List.pairwise_lt_range'
  rw [List.mem_range'_1] at hi hj
  exact cutNear_strictMono h hi.1 hij (by omega)

lemma length_cutInto_le (eff : List DayEvent) (prev : ℕ) (cuts : List ℕ) :
    (cutInto eff prev cuts).length ≤ cuts.length + 1 := by
  induction cuts generalizing prev with
  | nil => rfl
  | cons c cuts ih =>
    rw [cutInto]
    split_ifs
    · simp only [List.length_cons, Nat.add_le_add_iff_right]
      exact ih c
    · exact (ih prev).trans (by simp)

lemma cutInto_sizes {nchunks size : ℕ} (h : EvenSizes eff.length nchunks size)
    (m k prev : ℕ) (hkm : k + 1 + m = nchunks) (hlow : k * size ≤ prev + size / 3)
    (hhigh : prev ≤ k * size + size / 3) (hprev : prev < eff.length) :
    ∀ c ∈ cutInto eff prev ((List.range' (k + 1) m).map fun k => cutNear eff size (k * size)),
      c ≠ [] ∧ c.length ≤ size + 2 * (size / 3) := by
  have hnext : (k + 1) * size = k * size + size := Nat.succ_mul k size
  induction m generalizing k prev with
  | zero =>
    intro c hc
    obtain rfl : c = eff.drop prev := by simpa [cutInto] using hc
    have hcovers := h.covers
    rw [← hkm, Nat.add_zero, hnext] at hcovers
    rw [← List.length_pos_iff, List.length_drop]
    omega
  | succ m ih =>
    obtain ⟨hcutlow, hcuthigh, hcut⟩ := cutNear_even h (k := k + 1) (by omega) (by omega)
    have hsize := h.size_pos
    intro c hc
    rw [List.range'_succ, List.map_cons, cutInto, if_pos (by omega), List.mem_cons] at hc
    rcases hc with rfl | hc
    · rw [← List.length_pos_iff, List.length_drop, List.length_take]
      omega
    · exact ih (k + 1) _ (by omega) hcutlow hcuthigh hcut (Nat.succ_mul _ _) c hc

lemma splitByGaps_eq {target : ℕ} (htarget : 1 ≤ target) (hlong : target < eff.length) :
    splitByGaps eff target =
      (cutInto eff 0 ((List.range' 1 (ceilDiv eff.length target - 1)).map fun k =>
        cutNear eff (ceilDiv eff.length (ceilDiv eff.length target))
          (k * ceilDiv eff.length (ceilDiv eff.length target)))).filter fun c => !c.isEmpty := by
  have hincr := cuts_increasing (evenSizes (n := eff.length) (by omega) htarget)
  rw [splitByGaps, if_neg (by omega)]
  dsimp only
  rw [List.Nodup.dedup (hincr.imp fun h => h.ne),
    List.Pairwise.insertionSort_eq (hincr.imp fun h => h.le)]

/-- On a list that is not empty the function raises nothing and returns non-empty chunks that
join to the list: at most `⌈n/target⌉` of them, none more than two thirds longer than an even
chunk. -/
theorem splitByGaps_chunks (eff : List DayEvent) (target : ℕ) (htarget : 1 ≤ target)
    (hne : eff ≠ []) :
    ∃ chunks, searchChunks eff target = .ok chunks ∧ (∀ c ∈ chunks, c ≠ []) ∧ chunks.flatten = eff ∧
      chunks.length ≤ ceilDiv eff.length target ∧
      ∀ c ∈ chunks, c.length ≤ ceilDiv eff.length (ceilDiv eff.length target) +
        2 * (ceilDiv eff.length (ceilDiv eff.length target) / 3) := by
  have hn : 1 ≤ eff.length := List.length_pos_iff.mpr hne
  have hsizes := evenSizes hn htarget
  refine ⟨_, searchChunks_eq eff target, ?_⟩
  by_cases hshort : eff.length ≤ target
  · rw [splitByGaps, if_pos hshort]
    have hone : ceilDiv eff.length target = 1 :=
      le_antisymm ((ceilDiv_le_iff htarget).mpr (by omega)) hsizes.chunks_pos
    have hcovers := hsizes.covers
    rw [hone, Nat.one_mul] at hcovers
    simp only [List.mem_singleton, forall_eq, List.flatten_cons, List.flatten_nil, List.append_nil,
      List.length_singleton, hone]
    exact ⟨hne, trivial, le_rfl, by omega⟩
  · have hbounds := cutInto_sizes hsizes (ceilDiv eff.length target - 1) 0 0
      (by have := hsizes.chunks_pos; omega) (by omega) (by omega) hn
    have hchunks := splitByGaps_eq htarget (not_le.mp hshort)
    refine ⟨?_, flatten_splitByGaps eff target, ?_, ?_⟩
    · intro c hc
      rw [hchunks] at hc
      exact (hbounds c (List.mem_of_mem_filter hc)).1
    · rw [hchunks]
      refine (List.length_filter_le _ _).trans ?_
      refine (length_cutInto_le _ _ _).trans ?_
      rw [List.length_map, List.length_range']
      exact (Nat.sub_add_cancel hsizes.chunks_pos).le
    · intro c hc
      rw [hchunks] at hc
      exact (hbounds c (List.mem_of_mem_filter hc)).2

def pausedEvents : List DayEvent :=
  [0, 1, 3600000, 3600001].map fun ts =>
    ⟨⟨ts, .user, py "m", [], py "go on"⟩, py "Ann"⟩

theorem splitByGaps_chunks_pausedEvents :
    ∃ chunks, searchChunks pausedEvents 3 = .ok chunks ∧ (∀ c ∈ chunks, c ≠ []) ∧
      chunks.flatten = pausedEvents ∧ chunks.length ≤ ceilDiv pausedEvents.length 3 ∧
      ∀ c ∈ chunks, c.length ≤ ceilDiv pausedEvents.length (ceilDiv pausedEvents.length 3) +
        2 * (ceilDiv pausedEvents.length (ceilDiv pausedEvents.length 3) / 3) :=
  splitByGaps_chunks pausedEvents 3 (by decide) (by decide)

/-- The empty list is returned as one empty chunk. -/
theorem splitByGaps_of_nothing :
    searchChunks [] 1 = .ok [[]] ∧ ¬([[]] : List (List DayEvent)).length ≤ ceilDiv 0 1 :=
  ⟨rfl, by decide⟩

end AgentTrajectory.DecomposeTask
